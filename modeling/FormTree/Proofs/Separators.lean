import FormTree.Proofs.Strays

/-!
# Separators around an inserted item

An insertion with spacing sets an item into a row: the neighbours of the
focus or its children are parted, the item goes between the two parts, and
white space may go before it and after it (`Setting`). Two things are
asked of the white space. There has to be enough of it, so that the item
touches nothing significant (`Setting.TouchesNothing`). And there should
not be too much: white space stands between two significant neighbours,
and never next to formatting that would have served
(`Setting.DoublesNothing`).

The first is always so, wherever a session has got to. The second depends
on the focus. Only the neighbour on the far side of the item is looked at;
between the focus and an item beside it there is always new white space.
So a separator is doubled exactly if the item is put beside a focus that
is formatting itself (`Session.exists_setting_of_place`). The moves of the
surface do not stop there, but taking out the focus may leave the cursor
at the white space before it, and then an insertion doubles that
(`Session.separator_doubled_after_remove`).
-/

namespace FormTree

/-- What comes of two attempts comes of the second, made from what came of
the first. -/
theorem Attempt.exists_of_andThen {ε α β : Type} {a : Attempt ε α}
    {f : α → Attempt ε β} {y : β} (h : a.andThen f = .ok (some y)) :
    ∃ x, a = .ok (some x) ∧ f x = .ok (some y) := by
  match a, h with
  | .ok (some x), h => exact ⟨x, rfl, h⟩

namespace Config

/-- **Whether a neighbour would touch an item** put beside it: there is
one, and it is significant. -/
def isTouchedBy (cfg : Config) (neighbour : Option Value) : Bool :=
  neighbour.any fun v => !cfg.isInsignificant v

/-- White space, where it is called for. -/
def gap (cfg : Config) (called : Bool) : List Value :=
  if called then [cfg.space] else []

variable (cfg : Config)

@[simp] theorem isTouchedBy_none : cfg.isTouchedBy none = false := rfl

@[simp] theorem isTouchedBy_some (v : Value) :
    cfg.isTouchedBy (some v) = !cfg.isInsignificant v := rfl

@[simp] theorem gap_true : cfg.gap true = [cfg.space] := rfl

@[simp] theorem gap_false : cfg.gap false = [] := rfl

end Config

/-- **How an item is set into a row**: the two parts of the row, the item
between them, and on which sides of it white space is put. -/
structure Setting where
  /-- What stands before the item. -/
  before : List Value
  /-- The item. -/
  item : Value
  /-- What stands after the item. -/
  after : List Value
  /-- Whether white space is put before the item. -/
  spaceBefore : Bool
  /-- Whether white space is put after the item. -/
  spaceAfter : Bool

namespace Setting

/-- The row with the item in it. -/
def row (cfg : Config) (g : Setting) : List Value :=
  g.before ++ cfg.gap g.spaceBefore
    ++ g.item :: (cfg.gap g.spaceAfter ++ g.after)

/-- **The item touches nothing**: where no white space is put, there is
formatting or the end of the row. -/
def TouchesNothing (cfg : Config) (g : Setting) : Prop :=
  (g.spaceBefore = false → cfg.isTouchedBy g.before.getLast? = false)
    ∧ (g.spaceAfter = false → cfg.isTouchedBy g.after.head? = false)

/-- **No separator is doubled**: on both sides of the white space that is
put there is something, and it is significant. On one side that is the
item. -/
def DoublesNothing (cfg : Config) (g : Setting) : Prop :=
  (g.spaceBefore = true → cfg.isTouchedBy g.before.getLast? = true
      ∧ cfg.isTouchedBy (some g.item) = true)
    ∧ (g.spaceAfter = true → cfg.isTouchedBy (some g.item) = true
      ∧ cfg.isTouchedBy g.after.head? = true)

/-- An item set between two parts of a row, with white space where a
significant neighbour calls for it and wherever else it is wanted. -/
def between (cfg : Config) (before : List Value) (item : Value)
    (after : List Value) (wantedBefore wantedAfter : Bool) : Setting where
  before := before
  item := item
  after := after
  spaceBefore := cfg.isTouchedBy before.getLast? || wantedBefore
  spaceAfter := cfg.isTouchedBy after.head? || wantedAfter

section Between

variable {cfg : Config} {xs ys : List Value} {v : Value}

/-- White space where it is called for is enough. -/
theorem touchesNothing_between (p q : Bool) :
    (between cfg xs v ys p q).TouchesNothing cfg :=
  ⟨fun h => (Bool.or_eq_false_iff.mp h).1,
    fun h => (Bool.or_eq_false_iff.mp h).1⟩

/-- It is too much only where it is wanted without being called for. -/
theorem doublesNothing_between_iff (hv : cfg.isInsignificant v = false)
    (p q : Bool) :
    (between cfg xs v ys p q).DoublesNothing cfg
      ↔ (p = true → cfg.isTouchedBy xs.getLast? = true)
        ∧ (q = true → cfg.isTouchedBy ys.head? = true) := by
  have hself : cfg.isTouchedBy (some v) = true := by
    rw [Config.isTouchedBy_some, hv, Bool.not_false]
  simp only [DoublesNothing, between, hself, true_and, and_true,
    Bool.or_eq_true]
  constructor
  · exact fun h => ⟨fun hp => h.1 (.inr hp), fun hq => h.2 (.inr hq)⟩
  · exact fun h => ⟨fun hp => hp.elim id h.1, fun hq => hq.elim id h.2⟩

end Between

end Setting

namespace Cursor

/-- **The row on a side of the focus**: its siblings with itself among
them, or its children. -/
def rowOn {ε : Type} (S : Shape Value ε) (side : Side) (c : Cursor Value) :
    Option (List Value) :=
  match side with
  | .left | .right => c.path.head?.map Frame.siblings
  | .first | .last => c.children? S

/-- **The parts of that row** between which an item goes. -/
def partsOn {ε : Type} (S : Shape Value ε) (side : Side)
    (c : Cursor Value) : List Value × List Value :=
  match side with
  | .left => (c.lefts, c.focus :: c.rights)
  | .right => (c.lefts ++ [c.focus], c.rights)
  | .first => ([], S.children c.focus)
  | .last => (S.children c.focus, [])

/-! ## Beside the focus -/

/-- **The focus stands in a row** between two parts of it. -/
def InRow (c : Cursor Value) (ls rs : List Value) : Prop :=
  ∃ f outer, c.path = f :: outer ∧ f.siblings = ls ++ c.focus :: rs
    ∧ f.index = ls.length

namespace InRow

variable {ε : Type} {S : Shape Value ε} {c d : Cursor Value}
  {ls rs : List Value}

/-- Where the frames enclose the focus, it stands between the siblings
before it and those after it. -/
theorem of_isEnclosed (h : c.IsEnclosed S) {f : Frame Value}
    {outer : List (Frame Value)} (hpath : c.path = f :: outer) :
    c.InRow c.lefts c.rights := by
  obtain ⟨focus, path⟩ := c
  obtain rfl : path = f :: outer := hpath
  cases h with
  | inside hf _ =>
    obtain ⟨ls, rs, hrow, hindex⟩ := hf.split
    refine ⟨f, outer, rfl, ?_, ?_⟩
    · show f.siblings = f.lefts ++ focus :: f.rights
      rw [Frame.Encloses.lefts_eq hrow hindex,
        Frame.Encloses.rights_eq hrow hindex]
      exact Frame.Encloses.siblings_eq hrow
    · show f.index = f.lefts.length
      rw [Frame.Encloses.lefts_eq hrow hindex, hindex]

theorem rowOn_eq (h : c.InRow ls rs) :
    c.rowOn S .left = some (ls ++ c.focus :: rs)
      ∧ c.rowOn S .right = some (ls ++ c.focus :: rs) := by
  obtain ⟨f, outer, hpath, hrow, -⟩ := h
  constructor
  · rw [rowOn, hpath, List.head?_cons, Option.map_some, hrow]
  · rw [rowOn, hpath, List.head?_cons, Option.map_some, hrow]

/-- **The next sibling** is the first of those after the focus. -/
theorem exists_right (h : c.InRow ls rs) :
    ∃ o, c.right S = .ok o ∧ o.map Cursor.focus = rs.head? := by
  obtain ⟨f, outer, hpath, hrow, hindex⟩ := h
  have hnext : f.index + 1 = ((ls.length + 1 : Nat) : Int) := by
    rw [hindex]
    rfl
  have hlen : f.siblings.length = ls.length + (rs.length + 1) := by
    rw [hrow, List.length_append, List.length_cons]
  rw [Cursor.right, hpath]
  simp only [hnext]
  cases rs with
  | nil =>
    rw [if_pos (by rw [hlen]; simp)]
    exact ⟨none, rfl, rfl⟩
  | cons r rs =>
    have hsibling : f.sibling? ((ls.length + 1 : Nat) : Int) = some r := by
      rw [Frame.sibling?_natCast, hrow,
        List.getElem?_append_right (Nat.le_succ _)]
      simp
    rw [if_neg (by rw [hlen, List.length_cons]; omega), toSibling, hpath]
    simp only [hsibling]
    exact ⟨_, rfl, rfl⟩

/-- **The previous sibling** is the last of those before the focus. -/
theorem exists_left (h : c.InRow ls rs) :
    ∃ o, c.left S = .ok o ∧ o.map Cursor.focus = ls.getLast? := by
  obtain ⟨f, outer, hpath, hrow, hindex⟩ := h
  rw [Cursor.left, hpath]
  rcases List.eq_nil_or_concat ls with rfl | ⟨ls, l, rfl⟩
  · simp only [hindex, List.length_nil, Int.ofNat_zero, if_true]
    exact ⟨none, rfl, rfl⟩
  · have hprev : f.index - 1 = (ls.length : Nat) := by
      rw [hindex, List.length_concat]
      omega
    have hsibling : f.sibling? (ls.length : Nat) = some l := by
      rw [Frame.sibling?_natCast, hrow]
      simp
    simp only [hprev, if_neg (show f.index ≠ 0 by omega)]
    rw [toSibling, hpath]
    simp only [hsibling]
    exact ⟨_, rfl, by simp⟩

theorem insertRight (h : c.InRow ls rs) (v : Value) :
    ∃ d, c.insertRight v = some d ∧ d.focus = c.focus
      ∧ d.InRow ls (v :: rs) := by
  obtain ⟨f, outer, hpath, hrow, hindex⟩ := h
  rw [Cursor.insertRight, hpath]
  refine ⟨_, rfl, rfl, _, outer, rfl, ?_, hindex⟩
  have hbefore : f.before (f.index + 1) = (ls ++ [c.focus]).length := by
    rw [hindex, ← Int.natCast_succ, Frame.before_natCast, List.length_append]
    rfl
  have hrow' : f.siblings = (ls ++ [c.focus]) ++ rs := by
    rw [hrow, List.append_assoc]
    rfl
  show f.siblings.take _ ++ v :: f.siblings.drop _ = _
  rw [hbefore, hrow', List.take_left, List.drop_left, List.append_assoc]
  rfl

theorem insertLeft (h : c.InRow ls rs) (v : Value) :
    ∃ d, c.insertLeft v = some d ∧ d.focus = c.focus
      ∧ d.InRow (ls ++ [v]) rs := by
  obtain ⟨f, outer, hpath, hrow, hindex⟩ := h
  rw [Cursor.insertLeft, hpath]
  refine ⟨_, rfl, rfl, _, outer, rfl, ?_, ?_⟩
  · show f.siblings.take _ ++ v :: f.siblings.drop _ = _
    rw [hindex, Frame.before_natCast, hrow, List.take_left, List.drop_left,
      List.append_assoc]
    rfl
  · show f.index + 1 = _
    rw [hindex, List.length_append]
    rfl

end InRow

/-- A neighbour touches an item where its focus does. -/
theorem touches_eq (cfg : Config) (o : Option (Cursor Value)) :
    touches cfg o = cfg.isTouchedBy (o.map Cursor.focus) := by
  cases o with
  | none => rfl
  | some d => rfl

/-- **What is put after the focus**: white space, the item, and white
space again if a significant neighbour follows. -/
theorem InRow.placeRight {ε : Type} {S : Shape Value ε} {c d : Cursor Value}
    {ls rs : List Value} (h : c.InRow ls rs) {cfg : Config} {v : Value}
    (hfocus : c.focus.isNil = false)
    (hd : c.placeRight S cfg v = .ok (some d)) :
    d.rowOn S .right = some (ls ++ c.focus :: cfg.space
      :: v :: (cfg.gap (cfg.isTouchedBy rs.head?) ++ rs)) := by
  obtain ⟨o, ho, hneighbour⟩ := h.exists_right (S := S)
  rw [Cursor.placeRight, hfocus, if_neg Bool.false_ne_true, ho] at hd
  replace hd : c.spacedRight cfg v o = some d := by injection hd
  rw [spacedRight, touches_eq, hneighbour] at hd
  -- the neighbour decides on the first of the three insertions
  obtain ⟨e, he, hefocus, herow⟩ : ∃ e,
      (if cfg.isTouchedBy rs.head? then c.insertRight cfg.space else some c)
        = some e ∧ e.focus = c.focus
      ∧ e.InRow ls (cfg.gap (cfg.isTouchedBy rs.head?) ++ rs) := by
    cases cfg.isTouchedBy rs.head? with
    | true => exact h.insertRight cfg.space
    | false => exact ⟨c, rfl, rfl, h⟩
  obtain ⟨e', he', hefocus', herow'⟩ := herow.insertRight v
  obtain ⟨d', hd', hdfocus, hdrow⟩ := herow'.insertRight cfg.space
  simp only [he, Option.bind_some, he', hd', Option.some_inj] at hd
  subst hd
  rw [hdrow.rowOn_eq.2, hdfocus, hefocus', hefocus]

/-- **What is put before the focus**: the item and white space, and white
space before it if a significant neighbour precedes. -/
theorem InRow.placeLeft {ε : Type} {S : Shape Value ε} {c d : Cursor Value}
    {ls rs : List Value} (h : c.InRow ls rs) {cfg : Config} {v : Value}
    (hfocus : c.focus.isNil = false)
    (hd : c.placeLeft S cfg v = .ok (some d)) :
    d.rowOn S .left = some (ls ++ cfg.gap (cfg.isTouchedBy ls.getLast?)
      ++ v :: cfg.space :: c.focus :: rs) := by
  obtain ⟨o, ho, hneighbour⟩ := h.exists_left (S := S)
  rw [Cursor.placeLeft, hfocus, if_neg Bool.false_ne_true, ho] at hd
  replace hd : c.spacedLeft cfg v o = some d := by injection hd
  rw [spacedLeft, touches_eq, hneighbour] at hd
  obtain ⟨e, he, hefocus, herow⟩ : ∃ e,
      (if cfg.isTouchedBy ls.getLast? then c.insertLeft cfg.space
        else some c) = some e ∧ e.focus = c.focus
      ∧ e.InRow (ls ++ cfg.gap (cfg.isTouchedBy ls.getLast?)) rs := by
    cases cfg.isTouchedBy ls.getLast? with
    | true => exact h.insertLeft cfg.space
    | false => exact ⟨c, rfl, rfl, (List.append_nil ls).symm ▸ h⟩
  obtain ⟨e', he', hefocus', herow'⟩ := herow.insertLeft v
  obtain ⟨d', hd', hdfocus, hdrow⟩ := herow'.insertLeft cfg.space
  simp only [he, Option.bind_some, he', hd', Option.some_inj] at hd
  subst hd
  rw [hdrow.rowOn_eq.1, hdfocus, hefocus', hefocus]
  simp

/-- Nothing can be put beside the root, so where something has been the
focus stands in a row. -/
theorem inRow_of_place {ε : Type} {S : Shape Value ε} {c d : Cursor Value}
    (h : c.IsEnclosed S) (hfocus : c.focus.isNil = false) {cfg : Config}
    {v : Value} (hd : c.placeLeft S cfg v = .ok (some d)
      ∨ c.placeRight S cfg v = .ok (some d)) :
    c.InRow c.lefts c.rights := by
  cases hpath : c.path with
  | nil =>
    have hroot : ∀ o, c.spacedLeft cfg v o = none
        ∧ c.spacedRight cfg v o = none := by
      intro o
      have hleft : ∀ w, c.insertLeft w = none := fun w => by
        rw [Cursor.insertLeft, hpath]
      have hright : ∀ w, c.insertRight w = none := fun w => by
        rw [Cursor.insertRight, hpath]
      constructor
      · rw [spacedLeft, hleft]
        cases touches cfg o <;> simp [hleft]
      · rw [spacedRight, hright]
        cases touches cfg o <;> simp [hright]
    rcases hd with hd | hd
    · rw [placeLeft, hfocus, if_neg Bool.false_ne_true] at hd
      obtain ⟨o, -, hd⟩ := Attempt.exists_of_map_eq_ok hd
      cases (hroot o).1.symm.trans hd
    · rw [placeRight, hfocus, if_neg Bool.false_ne_true] at hd
      obtain ⟨o, -, hd⟩ := Attempt.exists_of_map_eq_ok hd
      cases (hroot o).2.symm.trans hd
  | cons f outer => exact .of_isEnclosed h hpath

/-! ## Inside the focus -/

/-- A branch of forms has the children it was made from. -/
theorem children?_of_withChildren {c d : Cursor Value}
    {edit : List Value → List Value}
    (h : c.withChildren .forms edit = .ok (some d)) :
    ∃ vs, c.children? .forms = some vs
      ∧ d.children? .forms = some (edit vs) := by
  unfold withChildren at h
  cases hvs : c.children? .forms with
  | none => rw [hvs] at h; cases h
  | some vs =>
    rw [hvs] at h
    obtain ⟨w, hw, hd⟩ := Attempt.exists_of_map_eq_ok h
    refine ⟨vs, rfl, ?_⟩
    have hbranch : Shape.forms.isBranch c.focus = true := by
      by_contra hleaf
      rw [children?, if_neg hleaf] at hvs
      cases hvs
    -- a row with a stray makes no branch
    have hnodes : ∀ v ∈ edit vs, v.isNode = true := by
      intro v hv
      by_contra hstray
      obtain ⟨e, he⟩ := Shape.exists_make_eq_error hbranch
        ⟨v, hv, Bool.eq_false_iff.mpr hstray⟩
      rw [he] at hw
      cases hw
    obtain ⟨ns, hns⟩ := exists_map_node hnodes
    obtain ⟨k, cs, hfocus⟩ := Shape.exists_of_isBranch hbranch
    rw [hfocus, hns, Shape.forms_make] at hw
    cases hw
    cases hd
    rw [hns]
    rfl

/-- The children of the focus, if it has any, are those of a branch, all of
them nodes. -/
theorem children_of_children? {c : Cursor Value} {vs : List Value}
    (hvs : c.children? .forms = some vs) :
    Shape.forms.children c.focus = vs ∧ ∀ v ∈ vs, v.isNode = true := by
  unfold children? at hvs
  split at hvs
  · cases hvs
    exact ⟨rfl, fun v hv => Shape.isNode_of_mem_formChildren hv⟩
  · cases hvs

/-- The first child touches an item where it is significant. -/
theorem childTouches_down {c : Cursor Value} {vs : List Value}
    (hvs : c.children? .forms = some vs) (cfg : Config) :
    childTouches cfg (c.down .forms) = cfg.isTouchedBy vs.head? := by
  have hnodes := (children_of_children? hvs).2
  rw [down, hvs]
  cases vs with
  | nil => rfl
  | cons v vs =>
    cases v with
    | node n => rfl
    | _ => cases hnodes _ List.mem_cons_self

/-- So does the last child. -/
theorem childTouches_downLast {c : Cursor Value} {vs : List Value}
    (hvs : c.children? .forms = some vs) (cfg : Config) :
    childTouches cfg (c.downLast .forms) = cfg.isTouchedBy vs.getLast? := by
  have hnodes := (children_of_children? hvs).2
  rw [downLast, hvs]
  show childTouches cfg (vs.getLast?.map _) = _
  cases hlast : vs.getLast? with
  | none => rfl
  | some v =>
    cases v with
    | node n => rfl
    | _ => cases hnodes _ (List.mem_of_getLast? hlast)

/-- **What is put before all children**: the item, and white space if a
significant child was first. -/
theorem children?_of_placeFirst {c d : Cursor Value} {cfg : Config}
    {v : Value} (h : c.placeFirst .forms cfg v = .ok (some d)) :
    ∃ vs, c.children? .forms = some vs ∧ d.children? .forms
      = some (v :: (cfg.gap (cfg.isTouchedBy vs.head?) ++ vs)) := by
  unfold placeFirst at h
  split at h
  · next htouch =>
    obtain ⟨e, he, hd⟩ := Attempt.exists_of_andThen h
    obtain ⟨vs, hvs, hrow⟩ := children?_of_withChildren he
    obtain ⟨ws, hws, hrow'⟩ := children?_of_withChildren hd
    cases hrow.symm.trans hws
    rw [childTouches_down hvs] at htouch
    exact ⟨vs, hvs, by rw [hrow', htouch]; rfl⟩
  · next htouch =>
    obtain ⟨vs, hvs, hrow⟩ := children?_of_withChildren h
    rw [childTouches_down hvs, Bool.not_eq_true] at htouch
    exact ⟨vs, hvs, by rw [hrow, htouch]; rfl⟩

/-- **What is put after all children**: the item, and white space before
it if a significant child was last. -/
theorem children?_of_placeLast {c d : Cursor Value} {cfg : Config}
    {v : Value} (h : c.placeLast .forms cfg v = .ok (some d)) :
    ∃ vs, c.children? .forms = some vs ∧ d.children? .forms
      = some (vs ++ cfg.gap (cfg.isTouchedBy vs.getLast?) ++ [v]) := by
  unfold placeLast at h
  split at h
  · next htouch =>
    obtain ⟨e, he, hd⟩ := Attempt.exists_of_andThen h
    obtain ⟨vs, hvs, hrow⟩ := children?_of_withChildren he
    obtain ⟨ws, hws, hrow'⟩ := children?_of_withChildren hd
    cases hrow.symm.trans hws
    rw [childTouches_downLast hvs] at htouch
    exact ⟨vs, hvs, by rw [hrow', htouch]; rfl⟩
  · next htouch =>
    obtain ⟨vs, hvs, hrow⟩ := children?_of_withChildren h
    rw [childTouches_downLast hvs, Bool.not_eq_true] at htouch
    refine ⟨vs, hvs, ?_⟩
    rw [hrow, htouch, Config.gap_false, List.append_nil]

/-- **The row after an insertion**: the parts of the row before, with the
item between them, and white space where a significant neighbour calls for
it and towards the focus. -/
theorem rowOn_of_place {c d : Cursor Value} (h : c.IsEnclosed .forms)
    (hfocus : c.focus.isNil = false) {cfg : Config} {side : Side}
    {v : Value} (hd : c.place .forms cfg side v = .ok (some d))
    {xs ys : List Value} (hparts : c.partsOn .forms side = (xs, ys)) :
    c.rowOn .forms side = some (xs ++ ys)
      ∧ d.rowOn .forms side = some (Setting.row cfg (.between cfg xs v ys
        (decide (side = .right)) (decide (side = .left)))) := by
  cases side with
  | left =>
    cases hparts
    have hrow := inRow_of_place h hfocus (.inl hd)
    refine ⟨hrow.rowOn_eq.1, ?_⟩
    rw [hrow.placeLeft hfocus hd]
    simp [Setting.row, Setting.between]
  | right =>
    cases hparts
    have hrow := inRow_of_place h hfocus (.inr hd)
    refine ⟨hrow.rowOn_eq.2.trans (by simp), ?_⟩
    rw [hrow.placeRight hfocus hd]
    simp [Setting.row, Setting.between]
  | first =>
    cases hparts
    obtain ⟨vs, hvs, hrow⟩ := children?_of_placeFirst hd
    rw [(children_of_children? hvs).1]
    refine ⟨hvs, hrow.trans ?_⟩
    simp [Setting.row, Setting.between]
  | last =>
    cases hparts
    obtain ⟨vs, hvs, hrow⟩ := children?_of_placeLast hd
    rw [(children_of_children? hvs).1]
    refine ⟨hvs.trans (by simp), hrow.trans ?_⟩
    simp [Setting.row, Setting.between]

end Cursor

namespace Session

variable {Allowed : Session → Action → Prop} {policy : Policy}
  {root : Value} {s t : Session}

/-- **An insertion touches nothing, and doubles a separator exactly beside
formatting.** Wherever a session has got to, by whatever actions: if a
significant item is put somewhere and the focus is not empty, the item is
set into the row on that side of the focus. It touches nothing. And every
white space put with it stands between two significant neighbours,
exactly if the item goes inside the focus or the focus is significant. -/
theorem exists_setting_of_place
    (h : (Session.start .forms policy root).Reaches Allowed s)
    (hfocus : s.cursor.focus.isNil = false) {side : Side} {item : Value}
    (hitem : ∀ v, policy.itemFor item = .ok v →
      policy.config.isInsignificant v = false)
    (ht : (s.perform (.place side item)).result = .ok (some t)) :
    ∃ g : Setting, policy.itemFor item = .ok g.item
      ∧ s.cursor.partsOn .forms side = (g.before, g.after)
      ∧ s.cursor.rowOn .forms side = some (g.before ++ g.after)
      ∧ t.cursor.rowOn .forms side = some (g.row policy.config)
      ∧ g.TouchesNothing policy.config
      ∧ (g.DoublesNothing policy.config
        ↔ (side = .left ∨ side = .right →
          policy.config.isInsignificant s.cursor.focus = false)) := by
  have hshape : s.shape = .forms := h.shape_eq
  have hpolicy : s.policy = policy := h.policy_eq
  have henclosed := h.isEnclosed
  obtain ⟨d, hd, rfl⟩ := perform_result_eq_some.mp ht
  obtain ⟨shape, policy', c⟩ := s
  obtain rfl : shape = .forms := hshape
  obtain rfl : policy' = policy := hpolicy
  obtain ⟨v, hv, hplace⟩ : ∃ v, policy'.itemFor item = .ok v
      ∧ c.place .forms policy'.config side v = .ok (some d) := by
    unfold outcome at hd
    simp only at hd
    split at hd
    · cases hd
    · next v hv => exact ⟨v, hv, hd⟩
  obtain ⟨xs, ys, hparts⟩ : ∃ xs ys, c.partsOn .forms side = (xs, ys) :=
    ⟨_, _, rfl⟩
  obtain ⟨hbefore, hafter⟩ :=
    Cursor.rowOn_of_place henclosed hfocus hplace hparts
  refine ⟨_, hv, hparts, hbefore, hafter,
    Setting.touchesNothing_between _ _,
    (Setting.doublesNothing_between_iff (hitem v hv) _ _).trans ?_⟩
  -- beside the focus, the focus is the neighbour that is not looked at
  cases side with
  | left => cases hparts; simp
  | right => cases hparts; simp
  | first => simp
  | last => simp

/-- A number put after the `1` of `(1;note⏎2)` gets white space before it;
after it the comment serves. -/
theorem exists_setting_of_place_comment :
    ∃ s t : Session,
      (Session.start .forms .standard (.node (.branch .list [.token (.int 1),
        .comment ";note\n", .token (.int 2)]))).Reaches (fun _ _ => True) s
      ∧ (s.perform (.place .right (.int 3))).result = .ok (some t)
      ∧ t.cursor.rowOn .forms .right = some [.node (.token (.int 1)),
        .node (.whitespace " "), .node (.token (.int 3)),
        .node (.comment ";note\n"), .node (.token (.int 2))]
      ∧ ∃ g : Setting,
        t.cursor.rowOn .forms .right = some (g.row Policy.standard.config)
        ∧ g.TouchesNothing Policy.standard.config
        ∧ g.DoublesNothing Policy.standard.config := by
  have hrun : (Session.start .forms .standard (.node (.branch .list
      [.token (.int 1), .comment ";note\n", .token (.int 2)]))).Reaches
        (fun _ _ => True) _ :=
    .step .here (a := .move (.significant .down)) trivial rfl
  have hitem : ∀ v, Policy.standard.itemFor (.int 3) = .ok v →
      Policy.standard.config.isInsignificant v = false := by
    intro v hv
    cases hv
    rfl
  refine ⟨_, _, hrun, rfl, rfl, ?_⟩
  obtain ⟨g, -, -, -, hrow, htouches, hdoubles⟩ :=
    exists_setting_of_place hrun rfl hitem
      (show (Session.perform _ (.place .right _)).result = _ from rfl)
  exact ⟨g, hrow, htouches, hdoubles.mpr fun _ => rfl⟩

/-- **A separator is doubled after a removal.** In `(a b)` the `b` is taken
out, which leaves the cursor at the white space before it. A `c` put after
that has two white spaces before it. -/
theorem separator_doubled_after_remove :
    ∃ s t : Session,
      (Session.start .forms .standard (.node (.branch .list
        [.token (.scalar (.symbol "a")), .whitespace " ",
          .token (.scalar (.symbol "b"))]))).Reaches
            (fun _ a => a = .move .remove ∨ ∃ op : Surface, a = op.action) s
      ∧ s.cursor.focus.isNil = false
      ∧ (s.perform (.place .right (.scalar (.symbol "c")))).result
        = .ok (some t)
      ∧ t.cursor.rowOn .forms .right = some
        [.node (.token (.scalar (.symbol "a"))), .node (.whitespace " "),
          .node (.whitespace " "), .node (.token (.scalar (.symbol "c")))] := by
  refine ⟨_, _, .step (.step (.step .here (.inr ⟨.move .down, rfl⟩) rfl)
    (.inr ⟨.move .right, rfl⟩) rfl) (.inl rfl) rfl, rfl, rfl, rfl⟩

end Session

end FormTree
