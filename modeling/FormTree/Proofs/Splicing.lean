import FormTree.Proofs.Formatting
import FormTree.Proofs.Layout
import FormTree.Proofs.Rewriting

/-!
# Splicing and values

The value of a list or a vector is the row of the values of its forms;
what else stands between the brackets has no part in it. So an item can be
put among the children of such a branch in two ways: as a form, with
spacing, before or after a node that has a place among all the children,
or as a value, at a place of the row of values. The two agree, and so do
taking out a form and taking out its value. How the children are spaced,
and what the settings count as insignificant, does not matter: the place
among the values is the number of forms, comments and white space left
out, that stand before the focus.

Which branch changes depends on the side. Beside the focus it is the
parent, as it is made anew from the innermost frame (`Cursor.parent`);
inside the focus it is the focus itself. Taking out the first child of
all leads to the parent, which is then in focus.
-/

namespace FormTree

/-! ## Rows of forms and rows of values -/

section Rows

variable {α β : Type} {R : α → β → Prop} {as : List α} {bs : List β}

/-- Rows that correspond still do with corresponding items put in. -/
theorem forall₂_insertIdx (h : List.Forall₂ R as bs) {a : α} {b : β}
    (hab : R a b) (i : Nat) :
    List.Forall₂ R (as.insertIdx i a) (bs.insertIdx i b) := by
  induction h generalizing i with
  | nil =>
    cases i with
    | zero => exact .cons hab .nil
    | succ i => exact .nil
  | cons hhead htail ih =>
    cases i with
    | zero => exact .cons hab (.cons hhead htail)
    | succ i => exact .cons hhead (ih i)

/-- So they do with corresponding items taken out. -/
theorem forall₂_eraseIdx (h : List.Forall₂ R as bs) (i : Nat) :
    List.Forall₂ R (as.eraseIdx i) (bs.eraseIdx i) := by
  induction h generalizing i with
  | nil => exact .nil
  | cons hhead htail ih =>
    cases i with
    | zero => exact htail
    | succ i => exact .cons hhead (ih i)

end Rows

namespace Literal

/-- **The value of a list or a vector** is the row of the values of its
forms, and has no guise. -/
theorem formValue_ordered_iff {c : Collection} (hc : c.isOrdered = true)
    {cs : List Form} {xs : List Value} :
    formValue (.branch (kindOf c) cs) = .ok (.group c xs)
      ↔ c.guise = none ∧ List.Forall₂ (fun n v => formValue n = .ok v)
        (formsOf cs) xs := by
  obtain ⟨base, guise⟩ := c
  rw [formValue_branch_eq_ok_iff]
  simp only [branchValue_of_isOrdered hc, Except.ok.injEq,
    Value.group.injEq, Collection.stripped, Collection.mk.injEq, true_and]
  constructor
  · rintro ⟨items, hitems, hguise, rfl⟩
    exact ⟨hguise.symm, hitems⟩
  · rintro ⟨hguise, hitems⟩
    exact ⟨xs, hitems, hguise.symm, rfl⟩

/-- White space put around an item is not among the forms of the row. -/
theorem formsOf_spacedOff (cfg : Config) {m : Form}
    (hm : m.isFormatting = false) (row : List Form) :
    formsOf (cfg.spacedOff m row) = m :: formsOf row := by
  have hhead : ∀ ns, formsOf (m :: ns) = m :: formsOf ns := fun ns =>
    List.filter_cons_of_pos (by rw [hm]; rfl)
  cases row with
  | nil => exact hhead []
  | cons n ns =>
    rw [Config.spacedOff]
    split
    · exact hhead _
    · exact hhead _

theorem formsOf_reverse (cs : List Form) :
    formsOf cs.reverse = (formsOf cs).reverse := List.filter_reverse

end Literal

namespace Place

variable (cfg : Config) {n m : Form} {l : Level} (outer : List Level)
  {i : Nat}

/-- **Putting a form after the focus** puts it among the forms of the
parent, right after the focus. -/
theorem exists_place_right (hn : n.isFormatting = false)
    (hm : m.isFormatting = false)
    (hi : (Literal.formsOf l.lefts).length = i) :
    ∃ l' : Level, place cfg .right m ⟨n, l :: outer⟩
        = some ⟨n, l' :: outer⟩ ∧ l'.kind = l.kind
      ∧ Literal.formsOf (l'.row n)
        = (Literal.formsOf (l.row n)).insertIdx (i + 1) m := by
  obtain ⟨k, ls, rs⟩ := l
  have hrights : Literal.formsOf (.whitespace cfg.separator
      :: cfg.spacedOff m rs) = m :: Literal.formsOf rs :=
    Literal.formsOf_spacedOff cfg hm rs
  refine ⟨_, rfl, rfl, ?_⟩
  rw [Literal.formsOf_row _ hn, Literal.formsOf_row _ hn, hrights,
    List.append_cons _ n (Literal.formsOf rs), Level.insertIdx_append m,
    List.append_assoc]
  · rfl
  · rw [Literal.formsOf_reverse, List.length_append, List.length_reverse,
      hi]
    rfl

/-- **Putting a form before the focus** puts it in the place of the focus
among the forms of the parent. -/
theorem exists_place_left (hn : n.isFormatting = false)
    (hm : m.isFormatting = false)
    (hi : (Literal.formsOf l.lefts).length = i) :
    ∃ l' : Level, place cfg .left m ⟨n, l :: outer⟩
        = some ⟨n, l' :: outer⟩ ∧ l'.kind = l.kind
      ∧ Literal.formsOf (l'.row n)
        = (Literal.formsOf (l.row n)).insertIdx i m := by
  obtain ⟨k, ls, rs⟩ := l
  have hlefts : Literal.formsOf (.whitespace cfg.separator
      :: cfg.spacedOff m ls) = m :: Literal.formsOf ls :=
    Literal.formsOf_spacedOff cfg hm ls
  refine ⟨_, rfl, rfl, ?_⟩
  rw [Literal.formsOf_row _ hn, Literal.formsOf_row _ hn,
    Literal.formsOf_reverse, hlefts, List.reverse_cons,
    Literal.formsOf_reverse, Level.insertIdx_append m, List.append_assoc]
  · rfl
  · rw [List.length_reverse, hi]

/-- **Taking out the focus** takes it out of the forms of the parent. The
parent comes into focus if the focus was its first child. -/
theorem exists_remove (hn : n.isFormatting = false)
    (hi : (Literal.formsOf l.lefts).length = i) :
    ∃ x cs, remove ⟨n, l :: outer⟩ = some x
      ∧ (l.lefts = [] → x.focus = .branch l.kind cs)
      ∧ (l.lefts ≠ [] → ∃ l', x.levels = l' :: outer
        ∧ l'.fill x.focus = .branch l.kind cs)
      ∧ Literal.formsOf cs = (Literal.formsOf (l.row n)).eraseIdx i := by
  have hforms : Literal.formsOf (l.lefts.reverse ++ l.rights)
      = (Literal.formsOf (l.row n)).eraseIdx i := by
    have hlength : (Literal.formsOf l.lefts.reverse).length = i := by
      rw [Literal.formsOf_reverse, List.length_reverse, hi]
    rw [Literal.formsOf_row l hn,
      List.eraseIdx_append_of_length_le (Nat.le_of_eq hlength), hlength,
      Nat.sub_self]
    exact List.filter_append _ _
  obtain ⟨k, ls, rs⟩ := l
  cases ls with
  | nil => exact ⟨_, rs, rfl, fun _ => rfl, fun h => absurd rfl h, hforms⟩
  | cons b ls =>
    refine ⟨_, _, rfl, fun h => (nomatch h), fun _ => ⟨_, rfl, ?_⟩, hforms⟩
    show Level.fill ⟨k, ls, rs⟩ b = _
    simp [Level.fill, Level.row]

/-- **Putting a form inside the focus** puts it before all forms or after
them. -/
theorem place_inside (k : Composite) (cs : List Form)
    (levels : List Level) (hm : m.isFormatting = false) :
    (∃ ds, place cfg .first m ⟨.branch k cs, levels⟩
        = some ⟨.branch k ds, levels⟩
      ∧ Literal.formsOf ds = m :: Literal.formsOf cs)
    ∧ ∃ ds, place cfg .last m ⟨.branch k cs, levels⟩
        = some ⟨.branch k ds, levels⟩
      ∧ Literal.formsOf ds = Literal.formsOf cs ++ [m] := by
  refine ⟨⟨_, rfl, Literal.formsOf_spacedOff cfg hm cs⟩, _, rfl, ?_⟩
  rw [Literal.formsOf_reverse, Literal.formsOf_spacedOff cfg hm,
    Literal.formsOf_reverse, List.reverse_cons, List.reverse_reverse]

end Place

/-! ## The branch around the focus -/

/-- **The parent of the focus**, made anew from the innermost frame. -/
def Cursor.parent {τ ε : Type} (S : Shape τ ε) (c : Cursor τ) :
    Attempt ε τ :=
  match c.path with
  | [] => .ok none
  | f :: _ => (S.make f.parent f.row).map some

/-- **The number of forms before the focus** in its row, white space and
comments left out. -/
def Cursor.formsBefore (c : Cursor Value) : Nat :=
  (c.lefts.filter Value.isContent).length

namespace Cursor.IsAt

variable {c : Cursor Value} {z : Place} {n : Form}

/-- The parent is the innermost ancestor of the place. -/
theorem parent_eq (h : c.IsAt z) :
    c.parent .forms = .ok (z.up.map fun y => .node y.focus) := by
  obtain ⟨focus, path⟩ := c
  obtain ⟨n, levels⟩ := z
  cases h.follows with
  | root => rfl
  | @inside f path _ _ _ _ hf _ =>
    show (Shape.forms.make f.parent f.row).map some = _
    rw [hf.parent_eq, hf.row_eq, Shape.forms_make]
    rfl

theorem lefts_eq {l : Level} {outer : List Level}
    (h : c.IsAt ⟨n, l :: outer⟩) :
    c.lefts = l.lefts.reverse.map Value.node := by
  obtain ⟨focus, path⟩ := c
  cases h.follows with
  | inside hf _ => exact hf.lefts_eq

/-- The forms before the focus are those to the left of the place. -/
theorem formsBefore_eq {l : Level} {outer : List Level}
    (h : c.IsAt ⟨n, l :: outer⟩) :
    c.formsBefore = (Literal.formsOf l.lefts).length := by
  rw [formsBefore, h.lefts_eq, List.filter_map, List.length_map,
    List.filter_reverse, List.length_reverse]
  rfl

end Cursor.IsAt

/-- **A node denotes a collection**: it is a branch of the kind of the
collection, which is its value. -/
def Policy.Denotes (policy : Policy) (p : Value) (c : Collection)
    (xs : List Value) : Prop :=
  ∃ cs, p = .node (.branch (Literal.kindOf c) cs)
    ∧ policy.converter.toValue p = .ok (.group c xs)

namespace Session

/-- **The focus denotes** a collection. -/
def FocusDenotes (s : Session) (c : Collection) (xs : List Value) : Prop :=
  s.policy.Denotes s.cursor.focus c xs

/-- **The parent of the focus denotes** a collection. -/
def ParentDenotes (s : Session) (c : Collection) (xs : List Value) :
    Prop :=
  ∃ p, s.cursor.parent s.shape = .ok (some p) ∧ s.policy.Denotes p c xs

end Session

/-- **A list or a vector denotes** the row of the values of its forms, and
nothing that has a guise. -/
theorem Policy.denotes_branch_iff {policy : Policy} {separator : Text}
    (hconv : policy.converter = .literal separator) {c : Collection}
    (hc : c.isOrdered = true) {k : Composite} {cs : List Form}
    {xs : List Value} :
    policy.Denotes (.node (.branch k cs)) c xs
      ↔ (k = Literal.kindOf c ∧ c.guise = none)
        ∧ List.Forall₂ (fun n v => Literal.formValue n = .ok v)
          (Literal.formsOf cs) xs := by
  rw [Denotes, hconv]
  constructor
  · rintro ⟨ds, hbranch, hvalue⟩
    cases hbranch
    obtain ⟨hguise, hvalues⟩ :=
      (Literal.formValue_ordered_iff hc).mp hvalue
    exact ⟨⟨rfl, hguise⟩, hvalues⟩
  · rintro ⟨⟨rfl, hguise⟩, hvalues⟩
    exact ⟨cs, rfl,
      (Literal.formValue_ordered_iff hc).mpr ⟨hguise, hvalues⟩⟩

namespace Session

variable {s : Session} {policy : Policy} {separator : Text} {z x : Place}
  {c : Collection} {xs : List Value}

/-- What stands at a place denotes what the node there does, and its
parent what the ancestor does. -/
theorem StandsAt.focusDenotes_iff (hs : s.StandsAt policy z) :
    s.FocusDenotes c xs ↔ policy.Denotes (.node z.focus) c xs := by
  rw [FocusDenotes, hs.policy_eq, hs.isAt.focus_eq]

theorem StandsAt.parentDenotes_iff (hs : s.StandsAt policy z) :
    s.ParentDenotes c xs
      ↔ ∃ y, z.up = some y ∧ policy.Denotes (.node y.focus) c xs := by
  rw [ParentDenotes, hs.policy_eq, hs.shape_eq, hs.isAt.parent_eq]
  cases z.up with
  | none => simp
  | some y => simp

/-- An action that leads somewhere on places leads there. -/
theorem StandsAt.exists_perform (hs : s.StandsAt policy z) {a : Action}
    (ha : Cursor.GoesLike (s.outcome a) (.ok (some x))) :
    ∃ t, (s.perform a).result = .ok (some t) ∧ t.StandsAt policy x := by
  have hanswer := hs.answers ha
  generalize (s.perform a).result = r at hanswer
  cases hanswer with
  | somewhere ht => exact ⟨_, rfl, ht⟩

/-- Putting something with a form somewhere leads where putting the form
there does. -/
theorem StandsAt.exists_perform_place (hs : s.StandsAt policy z)
    (hconv : policy.converter = .literal separator) {v : Value} {m : Form}
    (hform : Literal.toForm separator v = .ok m) {side : Side}
    (hx : z.place policy.config side m = some x) :
    ∃ t, (s.perform (.place side v)).result = .ok (some t)
      ∧ t.StandsAt policy x := by
  refine hs.exists_perform ?_
  obtain ⟨shape, policy', d⟩ := s
  obtain ⟨rfl, rfl, hd⟩ := hs
  have hsurface := hd.surface hconv (.place side v)
  rw [Place.surface, Literal.formFor, hform] at hsurface
  rw [← hx]
  exact hsurface

/-- Taking out the focus leads where taking out the node does. -/
theorem StandsAt.exists_perform_remove (hs : s.StandsAt policy z)
    (hx : z.remove = some x) :
    ∃ t, (s.perform (.move .remove)).result = .ok (some t)
      ∧ t.StandsAt policy x := by
  refine hs.exists_perform ?_
  obtain ⟨shape, policy', d⟩ := s
  obtain ⟨rfl, rfl, hd⟩ := hs
  rw [← hx]
  exact hd.remove

section Splicing

variable (hconv : policy.converter = .literal separator)
  (hc : c.isOrdered = true) {v w : Value} {m : Form}
  (hform : Literal.toForm separator v = .ok m)
  (hm : m.isFormatting = false) (hw : Literal.formValue m = .ok w)

include hconv hc

/-- A session inside a branch whose parent denotes a collection: the
values of the forms of the row are its members. -/
theorem StandsAt.exists_row (hs : s.StandsAt policy z)
    (h : s.ParentDenotes c xs) :
    ∃ n l outer, z = ⟨n, l :: outer⟩
      ∧ (l.kind = Literal.kindOf c ∧ c.guise = none)
      ∧ List.Forall₂ (fun n v => Literal.formValue n = .ok v)
        (Literal.formsOf (l.row n)) xs := by
  obtain ⟨y, hy, hdenotes⟩ := hs.parentDenotes_iff.mp h
  obtain ⟨n, _ | ⟨l, outer⟩⟩ := z
  · cases hy
  · cases hy
    exact ⟨n, l, outer, rfl, (Policy.denotes_branch_iff hconv hc).mp hdenotes⟩

/-- The parent denotes the row of the values of its forms. -/
theorem StandsAt.parentDenotes {n : Form} {l : Level} {outer : List Level}
    (hs : s.StandsAt policy ⟨n, l :: outer⟩)
    (hkind : l.kind = Literal.kindOf c ∧ c.guise = none)
    (hrow : List.Forall₂ (fun n v => Literal.formValue n = .ok v)
      (Literal.formsOf (l.row n)) xs) : s.ParentDenotes c xs :=
  hs.parentDenotes_iff.mpr ⟨_, rfl,
    (Policy.denotes_branch_iff hconv hc).mpr ⟨hkind, hrow⟩⟩

include hform hm hw

/-- **An item put beside the focus** goes to the place after the focus, or
to its place, among the members of the collection. -/
theorem StandsAt.denotes_beside (hs : s.StandsAt policy z)
    (hfocus : z.focus.isFormatting = false) (h : s.ParentDenotes c xs) :
    (∃ t, (s.perform (.place .right v)).result = .ok (some t)
      ∧ t.ParentDenotes c (xs.insertIdx (s.cursor.formsBefore + 1) w))
    ∧ ∃ t, (s.perform (.place .left v)).result = .ok (some t)
      ∧ t.ParentDenotes c (xs.insertIdx s.cursor.formsBefore w) := by
  obtain ⟨n, l, outer, rfl, hkind, hrow⟩ := hs.exists_row hconv hc h
  have hi := hs.isAt.formsBefore_eq.symm
  constructor
  · obtain ⟨l', hplace, hkind', hforms⟩ :=
      Place.exists_place_right policy.config outer hfocus hm hi
    obtain ⟨t, ht, hstands⟩ := hs.exists_perform_place hconv hform hplace
    refine ⟨t, ht, hstands.parentDenotes hconv hc
      ⟨hkind'.trans hkind.1, hkind.2⟩ ?_⟩
    rw [hforms]
    exact forall₂_insertIdx hrow hw _
  · obtain ⟨l', hplace, hkind', hforms⟩ :=
      Place.exists_place_left policy.config outer hfocus hm hi
    obtain ⟨t, ht, hstands⟩ := hs.exists_perform_place hconv hform hplace
    refine ⟨t, ht, hstands.parentDenotes hconv hc
      ⟨hkind'.trans hkind.1, hkind.2⟩ ?_⟩
    rw [hforms]
    exact forall₂_insertIdx hrow hw _

/-- **An item put inside the focus** goes before or after the members of
the collection. -/
theorem StandsAt.denotes_inside (hs : s.StandsAt policy z)
    (h : s.FocusDenotes c xs) :
    (∃ t, (s.perform (.place .first v)).result = .ok (some t)
      ∧ t.FocusDenotes c (w :: xs))
    ∧ ∃ t, (s.perform (.place .last v)).result = .ok (some t)
      ∧ t.FocusDenotes c (xs ++ [w]) := by
  obtain ⟨cs, hbranch, hvalue⟩ := hs.focusDenotes_iff.mp h
  obtain ⟨n, levels⟩ := z
  obtain rfl : n = .branch (Literal.kindOf c) cs := Value.node.inj hbranch
  obtain ⟨hkind, hrow⟩ :=
    (Policy.denotes_branch_iff hconv hc).mp ⟨cs, rfl, hvalue⟩
  obtain ⟨⟨ds, hfirst, hds⟩, es, hlast, hes⟩ :=
    Place.place_inside policy.config (Literal.kindOf c) cs levels hm
  obtain ⟨t, ht, htstands⟩ := hs.exists_perform_place hconv hform hfirst
  obtain ⟨u, hu, hustands⟩ := hs.exists_perform_place hconv hform hlast
  refine ⟨⟨t, ht, htstands.focusDenotes_iff.mpr ?_⟩,
    u, hu, hustands.focusDenotes_iff.mpr ?_⟩
  · refine (Policy.denotes_branch_iff hconv hc).mpr ⟨hkind, ?_⟩
    rw [hds]
    exact .cons hw hrow
  · refine (Policy.denotes_branch_iff hconv hc).mpr ⟨hkind, ?_⟩
    rw [hes]
    exact List.rel_append hrow (.cons hw .nil)

omit hform hm hw

/-- **Taking out the focus** takes its value out of the collection. -/
theorem StandsAt.denotes_remove (hs : s.StandsAt policy z)
    (hfocus : z.focus.isFormatting = false) (h : s.ParentDenotes c xs) :
    ∃ t, (s.perform (.move .remove)).result = .ok (some t)
      ∧ (s.cursor.lefts = [] →
        t.FocusDenotes c (xs.eraseIdx s.cursor.formsBefore))
      ∧ (s.cursor.lefts ≠ [] →
        t.ParentDenotes c (xs.eraseIdx s.cursor.formsBefore)) := by
  obtain ⟨n, l, outer, rfl, hkind, hrow⟩ := hs.exists_row hconv hc h
  have hlefts : s.cursor.lefts = [] ↔ l.lefts = [] := by
    rw [hs.isAt.lefts_eq, List.map_eq_nil_iff, List.reverse_eq_nil_iff]
  obtain ⟨x, cs, hx, hfirst, hlater, hforms⟩ :=
    Place.exists_remove outer hfocus hs.isAt.formsBefore_eq.symm
  obtain ⟨t, ht, hstands⟩ := hs.exists_perform_remove hx
  have hdenotes : policy.Denotes (.node (.branch l.kind cs)) c
      (xs.eraseIdx s.cursor.formsBefore) := by
    refine (Policy.denotes_branch_iff hconv hc).mpr ⟨hkind, ?_⟩
    rw [hforms]
    exact forall₂_eraseIdx hrow _
  refine ⟨t, ht, fun hnil => ?_, fun hcons => ?_⟩
  · rw [hstands.focusDenotes_iff, hfirst (hlefts.mp hnil)]
    exact hdenotes
  · obtain ⟨l', hlevels, hfill⟩ := hlater fun hnil => hcons (hlefts.mpr hnil)
    refine hstands.parentDenotes_iff.mpr ⟨⟨l'.fill x.focus, outer⟩, ?_, ?_⟩
    · rw [Place.up, hlevels]
    · show policy.Denotes (.node (l'.fill x.focus)) c _
      rw [hfill]
      exact hdenotes

end Splicing

/-- **Splicing commutes with reading.** Take any place that a session with
a literal converter can reach, and a value without nodes that has a form.
If the parent of a form in focus denotes a collection, then after the
value is put beside the focus the parent denotes the collection with the
value at the place after the focus, or at its place; and after the focus
is taken out, the collection without its value. If the focus denotes a
collection, then after the value is put into it, it denotes the collection
with the value in front or at the end. The value comes as an equal one,
with its sets frozen and its containers without a guise, and a place in
the collection is a number of forms. -/
theorem denotes_of_splice (hconv : policy.converter = .literal separator)
    {root : Value}
    (h : (Session.start .forms policy root).Reaches SuppliesNodes s)
    {v : Value} (hfree : v.isNodeFree = true) (hv : v.isBuildable = true)
    {m : Form} (hform : Literal.toForm separator v = .ok m)
    (hc : c.isOrdered = true) :
    ∃ w, v.eqv true w = true ∧ v.stripped.Like w ∧ w.isCanonical = true
      ∧ (∀ xs, s.ParentDenotes c xs → s.cursor.focus.isContent = true →
        s.cursor.formsBefore < xs.length
        ∧ (∃ t, (s.perform (.place .right v)).result = .ok (some t)
          ∧ t.ParentDenotes c (xs.insertIdx (s.cursor.formsBefore + 1) w))
        ∧ (∃ t, (s.perform (.place .left v)).result = .ok (some t)
          ∧ t.ParentDenotes c (xs.insertIdx s.cursor.formsBefore w))
        ∧ ∃ t, (s.perform (.move .remove)).result = .ok (some t)
          ∧ (s.cursor.lefts = [] →
            t.FocusDenotes c (xs.eraseIdx s.cursor.formsBefore))
          ∧ (s.cursor.lefts ≠ [] →
            t.ParentDenotes c (xs.eraseIdx s.cursor.formsBefore)))
      ∧ ∀ ys, s.FocusDenotes c ys →
        (∃ t, (s.perform (.place .first v)).result = .ok (some t)
          ∧ t.FocusDenotes c (w :: ys))
        ∧ ∃ t, (s.perform (.place .last v)).result = .ok (some t)
          ∧ t.FocusDenotes c (ys ++ [w]) := by
  have hm := Literal.isFormatting_of_toForm hfree hform
  obtain ⟨w, hw, hlike, hcanonical⟩ := Literal.exists_value hfree hv hform
  refine ⟨w, Value.eqv_trans (Value.eqv_stripped v).1 hlike.eqv, hlike,
    hcanonical, ?_⟩
  rcases h.stands hconv fun _ _ ha => ha with ⟨z, hz⟩ | hbare
  · have hs : s.StandsAt policy z := ⟨h.shape_eq, h.policy_eq, hz⟩
    refine ⟨fun xs hparent hfocus => ?_, fun ys hys =>
      hs.denotes_inside hconv hc hform hm hw hys⟩
    have hformat : z.focus.isFormatting = false := by
      rw [hz.focus_eq] at hfocus
      exact (Bool.not_eq_true' _).mp hfocus
    obtain ⟨hright, hleft⟩ :=
      hs.denotes_beside hconv hc hform hm hw hformat hparent
    refine ⟨?_, hright, hleft, hs.denotes_remove hconv hc hformat hparent⟩
    obtain ⟨n, l, outer, rfl, -, hrow⟩ := hs.exists_row hconv hc hparent
    rw [hz.formsBefore_eq, ← hrow.length_eq, Literal.formsOf_row l hformat,
      Literal.formsOf_reverse]
    simp
  · -- nothing that is no node denotes anything, nor is there a parent
    refine ⟨fun xs hparent => ?_, fun ys hys => ?_⟩
    · obtain ⟨p, hp, -⟩ := hparent
      rw [Cursor.parent, hbare.path_eq] at hp
      cases hp
    · obtain ⟨cs, hfocus, -⟩ := hys
      have hnode := hbare.not_node
      rw [hfocus] at hnode
      cases hnode

/-- In `(;c⏎ 1[2];d⏎)`, where comments count as significant, the set
`#{3}` is put before the vector or into it, or the vector is taken out. -/
theorem denotes_of_splice_commented :
    ∃ (t : Form) (s : Session), t = .branch .list [.comment ";c\n",
        .whitespace " ", .token (.int 1), .branch .vector [.token (.int 2)],
        .comment ";d\n"]
      ∧ (Session.start .forms (.choose (some ⟨" ", false, by decide⟩) none)
        (.node t)).Reaches SuppliesNodes s
      ∧ s.ParentDenotes .tuple [.int 1, .list [.int 2]]
      ∧ s.FocusDenotes .list [.int 2]
      ∧ (∃ w, (Value.group .set [.int 3]).Like w ∧ w.isCanonical = true
        ∧ (∃ s', (s.perform (.place .left (.group .set [.int 3]))).result
            = .ok (some s')
          ∧ s'.ParentDenotes .tuple [.int 1, w, .list [.int 2]])
        ∧ ∃ s', (s.perform (.move .remove)).result = .ok (some s')
          ∧ s'.ParentDenotes .tuple [.int 1])
      ∧ ∃ w, (Value.group .set [.int 3]).Like w ∧ w.isCanonical = true
        ∧ ∃ s', (s.perform (.place .first (.group .set [.int 3]))).result
            = .ok (some s')
          ∧ s'.FocusDenotes .list [w, .int 2] := by
  have hrun : (Session.start .forms
      (.choose (some ⟨" ", false, by decide⟩) none)
      (.node (.branch .list [.comment ";c\n", .whitespace " ",
        .token (.int 1), .branch .vector [.token (.int 2)],
        .comment ";d\n"]))).Reaches SuppliesNodes _ :=
    .step (.step (.step (.step .here
      (a := .move (.plain .down)) trivial rfl)
      (a := .move (.plain .right)) trivial rfl)
      (a := .move (.plain .right)) trivial rfl)
      (a := .move (.plain .right)) trivial rfl
  obtain ⟨m, hm⟩ : ∃ m, Literal.toForm " " (.group .set [.int 3]) = .ok m :=
    (Literal.exists_form_iff rfl).mpr (by
      simp [Value.forall_holds_group, Value.forall_holds_scalar,
        Value.isLiteral])
  refine ⟨_, _, rfl, hrun, ⟨_, rfl, _, rfl, rfl⟩, ⟨_, rfl, rfl⟩, ?_, ?_⟩
  · obtain ⟨w, -, hlike, hcanonical, hbeside, -⟩ :=
      denotes_of_splice rfl hrun (v := .group .set [.int 3]) rfl rfl hm
        (c := .tuple) rfl
    obtain ⟨-, -, hleft, s', hs', -, hremoved⟩ :=
      hbeside _ ⟨_, rfl, _, rfl, rfl⟩ rfl
    exact ⟨w, hlike, hcanonical, hleft, s', hs', hremoved (by rintro ⟨⟩)⟩
  · obtain ⟨w, -, hlike, hcanonical, -, hinside⟩ :=
      denotes_of_splice rfl hrun (v := .group .set [.int 3]) rfl rfl hm
        (c := .list) rfl
    exact ⟨w, hlike, hcanonical, (hinside _ ⟨_, rfl, rfl⟩).1⟩

end Session

end FormTree
