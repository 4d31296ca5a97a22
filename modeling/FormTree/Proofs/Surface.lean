import FormTree.Proofs.Forms
import FormTree.Proofs.Trails

/-!
# The surface of a session

For everyday use there are operations that take care of the formatting:
moves that stop at significant nodes, searches along such moves,
insertions that keep forms apart, and edits through the values of forms.
They make up the **surface** of a session, and `Surface` lists them, with
the literal conversion wherever one is needed.

Each of them is an operation on places (`Place.surface`), and a cursor
does what that says (`Cursor.IsAt.surface`). Where such an operation can
lead is said once, for all of them (`Place.surface_cases`).

An insertion beside or inside the focus changes one list: the neighbours
on the side where the item goes, the nearest first. What is put in front
of them is the item, kept apart from a significant neighbour by white
space (`Config.spacedOff`).
-/

namespace FormTree

/-- **What a search can be for.** -/
inductive Wanted where
  /-- A node of a kind. -/
  | kind (k : Kind)
  /-- A token whose value passes a test. -/
  | token (test : Value → Bool)
  /-- A token that holds a literal. -/
  | literal (v : Value)

namespace Wanted

/-- The search along a move, as an action. -/
def action (w : Wanted) (m : Move) : Action :=
  match w with
  | .kind k => .findKind k m
  | .token test => .findToken test m
  | .literal v => .findLiteral v m

/-- The test that a search makes of a cursor. -/
def test : Wanted → Cursor Value → Bool
  | .kind k => fun d => decide (d.tag = some k)
  | .token test => Cursor.isTokenWith test
  | .literal v => Cursor.isTokenWith fun w => w.sameLiteral v

/-- **Whether a node is what is wanted.** -/
def passes : Wanted → Form → Bool
  | .kind k, n => decide (n.kind = k)
  | .token test, .token v => test v
  | .literal w, .token v => v.sameLiteral w
  | _, _ => false

/-- A cursor passes the test where its node is what is wanted. -/
theorem test_eq (w : Wanted) {c : Cursor Value} {z : Place}
    (h : c.IsAt z) : w.test c = w.passes z.focus := by
  obtain ⟨v, path⟩ := c
  obtain ⟨n, levels⟩ := z
  obtain rfl : v = .node n := h.focus_eq
  cases w with
  | kind k =>
    exact decide_eq_decide.mpr Option.some_inj
  | token test => cases n <;> rfl
  | literal v => cases n <;> rfl

end Wanted

/-- **The operations of the surface.** -/
inductive Surface where
  /-- A move to a significant node. -/
  | move (d : Direction)
  /-- A search in a direction that can be kept to. -/
  | search (w : Wanted) (d : Direction) (onward_eq : d.onward = d)
  /-- To the next sibling of a kind. -/
  | findNext (k : Kind)
  /-- To the previous sibling of a kind. -/
  | findPrevious (k : Kind)
  /-- Putting a node or a value into the tree, with spacing. -/
  | place (side : Side) (item : Value)
  /-- Replacing the focus by the form of a value, with a separator of its
  own if one is given. -/
  | assign (v : Value) (separator : Option Text)
  /-- Replacing the focus by the form of what a function makes of its
  value. -/
  | amend (f : Value → Except Failure Value) (separator : Option Text)
      (occasion : Nat)

namespace Surface

/-- An operation of the surface as an action. -/
def action : Surface → Action
  | .move d => .move (.significant d)
  | .search w d _ => w.action (.significant d)
  | .findNext k => .findNext k
  | .findPrevious k => .findPrevious k
  | .place side item => .place side item
  | .assign v separator => .assign v (separator.map Converter.literal)
  | .amend f separator occasion =>
    .amend f (separator.map Converter.literal) occasion

/-- **What an operation supplies** to the tree passes a test: the item,
the replacement, or what the function makes of the value in focus. -/
def Supplies (P : Value → Bool) (op : Surface) (c : Cursor Value) : Prop :=
  match op with
  | .place _ item => P item = true
  | .assign v _ => P v = true
  | .amend f _ _ => ∀ v w, Literal.toValue c.focus = .ok v →
      f v = .ok w → P w = true
  | _ => True

/-- The converter used is a literal one, with the separator given or that
of the policy. -/
theorem converterOr_eq {s : Session} {separator : Text}
    (h : s.policy.converter = .literal separator) (given : Option Text) :
    s.converterOr (given.map Converter.literal)
      = .literal (given.getD separator) := by
  cases given with
  | none => exact h
  | some _ => rfl

end Surface

/-! ## The operations on places -/

namespace Literal

/-- The form of a value, or the failure that it has none. -/
def formFor (separator : Text) (v : Value) : Except Failure Form :=
  match toForm separator v with
  | .ok n => .ok n
  | .error e => .error (.conversion e)

theorem toForm_of_formFor {separator : Text} {v : Value} {n : Form}
    (h : formFor separator v = .ok n) : toForm separator v = .ok n := by
  unfold formFor at h
  split at h
  · next hform =>
    cases h
    exact hform
  · cases h

/-- The literal converter makes forms. -/
theorem toNode_eq (separator : Text) (v : Value) :
    (Converter.literal separator).toNode v
      = (formFor separator v).map Value.node := by
  unfold Converter.literal formFor
  simp only
  cases toForm separator v with
  | ok n => rfl
  | error e => rfl

/-- And it reads nodes as forms. -/
theorem toValue_node_eq (separator : Text) (n : Form) :
    (Converter.literal separator).toValue (.node n) = formValue n := rfl

/-- What is put into the tree for an item is its form. -/
theorem itemFor_eq {policy : Policy} {separator : Text}
    (h : policy.converter = .literal separator) (item : Value) :
    policy.itemFor item = (formFor separator item).map Value.node := by
  rw [← toNode_eq, Policy.itemFor, h]
  cases item with
  | node n => rfl
  | _ => rfl

end Literal

/-- **A row of neighbours with an item in front**, kept apart from the
nearest if that is significant. -/
def Config.spacedOff (cfg : Config) (item : Form) (row : List Form) :
    List Form :=
  match row with
  | [] => [item]
  | n :: ns =>
    if cfg.ignores n.kind then item :: n :: ns
    else item :: .whitespace cfg.separator :: n :: ns

namespace Place

/-- **The first place of a search.** -/
def search (cfg : Config) (w : Wanted) (d : Direction) (z : Place) :
    Option Place :=
  (z :: (z.ahead d).filter (isSignificant cfg)).find? fun y =>
    w.passes y.focus

/-- The nearest significant sibling of a kind, the place left out. -/
def findSibling (cfg : Config) (k : Kind) (d : Direction) (z : Place) :
    Option Place :=
  (z.significant cfg d).bind (search cfg (.kind k) d)

/-- Gives a place other neighbours to the left, the nearest first. -/
def withLefts (edit : List Form → List Form) (z : Place) : Option Place :=
  match z.levels with
  | [] => none
  | ⟨k, ls, rs⟩ :: outer => some ⟨z.focus, ⟨k, edit ls, rs⟩ :: outer⟩

/-- Gives a place other neighbours to the right, the nearest first. -/
def withRights (edit : List Form → List Form) (z : Place) : Option Place :=
  match z.levels with
  | [] => none
  | ⟨k, ls, rs⟩ :: outer => some ⟨z.focus, ⟨k, ls, edit rs⟩ :: outer⟩

/-- **Puts a node into the tree, with spacing.** -/
def place (cfg : Config) (side : Side) (n : Form) (z : Place) :
    Option Place :=
  match side with
  | .left =>
    z.withLefts fun ls => .whitespace cfg.separator :: cfg.spacedOff n ls
  | .right =>
    z.withRights fun rs => .whitespace cfg.separator :: cfg.spacedOff n rs
  | .first => z.withChildren (cfg.spacedOff n)
  | .last =>
    z.withChildren fun cs => (cfg.spacedOff n cs.reverse).reverse

/-- The insertion beside the focus, one node after the other. -/
theorem place_right_eq (cfg : Config) (n : Form) (z : Place) :
    z.place cfg .right n
      = ((if z.right.any (isSignificant cfg)
            then z.insertRight (.whitespace cfg.separator) else some z).bind
          (insertRight n)).bind (insertRight (.whitespace cfg.separator)) := by
  obtain ⟨m, _ | ⟨⟨k, ls, _ | ⟨r, rs⟩⟩, outer⟩⟩ := z
  · rfl
  · rfl
  · have hany : (right ⟨m, ⟨k, ls, r :: rs⟩ :: outer⟩).any
        (isSignificant cfg) = !cfg.ignores r.kind := rfl
    show some (Place.mk m (⟨k, ls, .whitespace cfg.separator
          :: cfg.spacedOff n (r :: rs)⟩ :: outer)) = _
    rw [hany, Config.spacedOff]
    cases cfg.ignores r.kind with
    | true => rfl
    | false => rfl

theorem place_left_eq (cfg : Config) (n : Form) (z : Place) :
    z.place cfg .left n
      = ((if z.left.any (isSignificant cfg)
            then z.insertLeft (.whitespace cfg.separator) else some z).bind
          (insertLeft n)).bind (insertLeft (.whitespace cfg.separator)) := by
  obtain ⟨m, _ | ⟨⟨k, _ | ⟨l, ls⟩, rs⟩, outer⟩⟩ := z
  · rfl
  · rfl
  · have hany : (left ⟨m, ⟨k, l :: ls, rs⟩ :: outer⟩).any
        (isSignificant cfg) = !cfg.ignores l.kind := rfl
    show some (Place.mk m (⟨k, .whitespace cfg.separator
          :: cfg.spacedOff n (l :: ls), rs⟩ :: outer)) = _
    rw [hany, Config.spacedOff]
    cases cfg.ignores l.kind with
    | true => rfl
    | false => rfl

theorem place_first_eq (cfg : Config) (n : Form) (z : Place) :
    z.place cfg .first n
      = if z.down.any (isSignificant cfg)
        then (z.insert .first (.whitespace cfg.separator)).bind
          (insert .first n)
        else z.insert .first n := by
  obtain ⟨m, levels⟩ := z
  cases m with
  | branch k cs =>
    cases cs with
    | nil => rfl
    | cons c cs =>
      have hany : (down ⟨.branch k (c :: cs), levels⟩).any
          (isSignificant cfg) = !cfg.ignores c.kind := rfl
      have hplace : place cfg .first n ⟨.branch k (c :: cs), levels⟩
          = some ⟨.branch k (cfg.spacedOff n (c :: cs)), levels⟩ := rfl
      rw [hany, hplace, Config.spacedOff]
      cases cfg.ignores c.kind with
      | true => rfl
      | false => rfl
  | _ => rfl

theorem place_last_eq (cfg : Config) (n : Form) (z : Place) :
    z.place cfg .last n
      = if z.downLast.any (isSignificant cfg)
        then (z.insert .last (.whitespace cfg.separator)).bind
          (insert .last n)
        else z.insert .last n := by
  obtain ⟨m, levels⟩ := z
  cases m with
  | branch k cs =>
    have hplace : place cfg .last n ⟨.branch k cs, levels⟩
        = some ⟨.branch k (cfg.spacedOff n cs.reverse).reverse, levels⟩ :=
      rfl
    have hinsert : ∀ m ds, insert .last m ⟨.branch k ds, levels⟩
        = some ⟨.branch k (ds ++ [m]), levels⟩ := fun _ _ => rfl
    rw [hplace, hinsert, Option.bind_some, hinsert, downLast]
    -- the last child is the first from the end
    obtain ⟨ds, rfl⟩ : ∃ ds, cs = List.reverse ds :=
      ⟨cs.reverse, cs.reverse_reverse.symm⟩
    simp only [List.reverse_reverse]
    cases ds with
    | nil => rfl
    | cons c ds =>
      show some (Place.mk (.branch k (cfg.spacedOff n (c :: ds)).reverse)
        levels) = if (!cfg.ignores c.kind) = true then _ else _
      rw [Config.spacedOff]
      cases cfg.ignores c.kind with
      | true => simp [hinsert]
      | false => simp
  | _ => rfl

/-- Replaces the node by the form of a value. -/
def assign (separator : Text) (v : Value) (z : Place) :
    Attempt Failure Place :=
  (Literal.formFor separator v).map fun n => some (z.replace n)

/-- Replaces the node by the form of what a function makes of its
value. -/
def amend (separator : Text) (f : Value → Except Failure Value)
    (z : Place) : Attempt Failure Place :=
  match Literal.formValue z.focus with
  | .error e => .error e
  | .ok v =>
    match f v with
    | .error e => .error e
    | .ok w => z.assign separator w

/-- **An operation of the surface on a place.** -/
def surface (cfg : Config) (separator : Text) (op : Surface) (z : Place) :
    Attempt Failure Place :=
  match op with
  | .move d => .ok (z.significant cfg d)
  | .search w d _ => .ok (z.search cfg w d)
  | .findNext k => .ok (z.findSibling cfg k .right)
  | .findPrevious k => .ok (z.findSibling cfg k .left)
  | .place side item =>
    (Literal.formFor separator item).map fun n => z.place cfg side n
  | .assign v given => z.assign (given.getD separator) v
  | .amend f given occasion =>
    z.amend (given.getD separator) (Session.written occasion f)

/-- A search ends where it started or at a significant place of the same
tree. -/
theorem search_cases {cfg : Config} {w : Wanted} {d : Direction}
    (hd : d.onward = d) {z x : Place} (hx : z.search cfg w d = some x) :
    x.whole = z.whole ∧ (x = z ∨ x.isSignificant cfg = true) := by
  rcases List.mem_cons.mp (List.mem_of_find?_eq_some hx) with rfl | hmem
  · exact ⟨rfl, .inl rfl⟩
  · obtain ⟨hahead, hsig⟩ := List.mem_filter.mp hmem
    exact ⟨whole_of_mem_ahead hd (List.mem_cons_of_mem z hahead),
      .inr hsig⟩

/-- A move ends at a significant place of the same tree. -/
theorem significant_cases {cfg : Config} {d : Direction} {z x : Place}
    (hx : z.significant cfg d = some x) :
    x.whole = z.whole ∧ x.isSignificant cfg = true := by
  obtain ⟨y, hy, hfind⟩ := Option.bind_eq_some_iff.mp hx
  refine ⟨?_, List.find?_some hfind⟩
  exact (whole_of_mem_ahead d.onward_onward
    (List.mem_of_find?_eq_some hfind)).trans (whole_of_step hy)

theorem findSibling_cases {cfg : Config} {k : Kind} {d : Direction}
    (hd : d.onward = d) {z x : Place}
    (hx : z.findSibling cfg k d = some x) :
    x.whole = z.whole ∧ x.isSignificant cfg = true := by
  obtain ⟨y, hy, hsearch⟩ := Option.bind_eq_some_iff.mp hx
  obtain ⟨hwhole, hsig⟩ := significant_cases hy
  obtain ⟨hsame, rfl | hx⟩ := search_cases hd hsearch
  · exact ⟨hwhole, hsig⟩
  · exact ⟨hsame.trans hwhole, hx⟩

theorem exists_of_assign {separator : Text} {v : Value} {z x : Place}
    (hx : z.assign separator v = .ok (some x)) :
    ∃ n, Literal.formFor separator v = .ok n ∧ x = z.replace n := by
  obtain ⟨n, hn, hx⟩ := Attempt.exists_of_map_eq_ok hx
  exact ⟨n, hn, (Option.some_inj.mp hx).symm⟩

theorem exists_of_amend {separator : Text} {occasion : Nat}
    {f : Value → Except Failure Value} {z x : Place}
    (hx : z.amend separator (Session.written occasion f) = .ok (some x)) :
    ∃ v w, Literal.formValue z.focus = .ok v ∧ f v = .ok w
      ∧ z.assign separator (w.placed [occasion]) = .ok (some x) := by
  unfold amend at hx
  split at hx
  · cases hx
  · next v hv =>
    split at hx
    · cases hx
    · next u hu =>
      obtain ⟨w, hw, rfl⟩ := Attempt.exists_of_map_eq_ok hu
      exact ⟨v, w, hv, hw, hx⟩

/-- **What the surface can do.** An operation that leads somewhere leads
to a significant place of the same tree, if not to the place itself; or it
puts the form of an item into the tree; or it replaces the node by the
form of a value. Whatever the operation supplies passes the test. -/
theorem surface_cases {P : Value → Bool}
    (hP : ∀ place v, P (Value.placed place v) = P v) {cfg : Config}
    {separator : Text} {op : Surface} {z x : Place} {c : Cursor Value}
    (hc : c.IsAt z) (hop : op.Supplies P c)
    (hx : z.surface cfg separator op = .ok (some x)) :
    (x.whole = z.whole ∧ (x = z ∨ x.isSignificant cfg = true))
    ∨ (∃ side item n, P item = true
      ∧ Literal.formFor separator item = .ok n
      ∧ z.place cfg side n = some x)
    ∨ ∃ used v n, P v = true ∧ Literal.formFor used v = .ok n
      ∧ x = z.replace n := by
  cases op with
  | move d =>
    injection hx with hx
    exact .inl ((significant_cases hx).imp_right .inr)
  | search w d hd =>
    injection hx with hx
    exact .inl (search_cases hd hx)
  | findNext k =>
    injection hx with hx
    exact .inl ((findSibling_cases rfl hx).imp_right .inr)
  | findPrevious k =>
    injection hx with hx
    exact .inl ((findSibling_cases rfl hx).imp_right .inr)
  | place side item =>
    obtain ⟨n, hn, hx⟩ := Attempt.exists_of_map_eq_ok hx
    exact .inr (.inl ⟨side, item, n, hop, hn, hx⟩)
  | assign v given =>
    obtain ⟨n, hn, rfl⟩ := exists_of_assign hx
    exact .inr (.inr ⟨_, v, n, hop, hn, rfl⟩)
  | amend f given occasion =>
    obtain ⟨v, w, hv, hw, hassign⟩ := exists_of_amend hx
    obtain ⟨n, hn, rfl⟩ := exists_of_assign hassign
    have hvalue : Literal.toValue c.focus = .ok v := by
      rw [hc.focus_eq]
      exact hv
    refine .inr (.inr ⟨_, _, n, ?_, hn, rfl⟩)
    rw [hP]
    exact hop v w hvalue hw

/-- The tree that is the form of a value. -/
def plant (separator : Text) (v : Value) : Attempt Failure Place :=
  (Literal.formFor separator v).map fun n => some ⟨n, []⟩

/-- **An operation of the surface on an empty tree.** What is put beside
nothing, or in its place, becomes the tree. -/
def surfaceBare (separator : Text) (op : Surface) :
    Attempt Failure Place :=
  match op with
  | .place side item =>
    (Literal.formFor separator item).map fun n =>
      match side with
      | .left => some ⟨n, []⟩
      | .right => some ⟨n, []⟩
      | _ => none
  | .assign v given => plant (given.getD separator) v
  | .amend f given occasion =>
    match Session.written occasion f .nil with
    | .error e => .error e
    | .ok w => plant (given.getD separator) w
  | _ => .ok none

end Place

/-! ## The operations of a cursor -/

namespace Cursor

namespace Arrives

variable {a : Attempt Failure (Cursor Value)} {o : Option Place}

/-- Attempts one after the other arrive where the moves of places lead one
after the other. -/
theorem andThen (h : Arrives a o)
    {f : Cursor Value → Attempt Failure (Cursor Value)}
    {g : Place → Option Place}
    (hf : ∀ {d y}, IsAt d y → Arrives (f d) (g y)) :
    Arrives (a.andThen f) (o.bind g) := by
  cases o with
  | none =>
    rw [show a = .ok none from h]
    rfl
  | some z =>
    obtain ⟨d, hd, hat⟩ := h
    rw [hd]
    exact hf hat

/-- The same for attempts that never fail. -/
theorem bind {o : Option (Cursor Value)} {p : Option Place}
    (h : Arrives (.ok o) p) {f : Cursor Value → Option (Cursor Value)}
    {g : Place → Option Place}
    (hf : ∀ {d y}, IsAt d y → Arrives (.ok (f d)) (g y)) :
    Arrives (.ok (o.bind f)) (p.bind g) := by
  have hthen := h.andThen hf
  cases o with
  | none => exact hthen
  | some d => exact hthen

/-- What arrives does not fail. -/
theorem exists_ok (h : Arrives a o) : ∃ p, a = .ok p := by
  cases o with
  | none => exact ⟨none, h⟩
  | some z =>
    obtain ⟨d, hd, -⟩ := h
    exact ⟨some d, hd⟩

/-- A neighbour would touch an item where it is significant. -/
theorem touches_eq {p : Option (Cursor Value)} (h : Arrives (.ok p) o)
    (cfg : Config) : touches cfg p = o.any (Place.isSignificant cfg) := by
  cases o with
  | none =>
    injection h with h
    rw [h]
    rfl
  | some z =>
    obtain ⟨d, hd, hat⟩ := h
    injection hd with hd
    rw [hd]
    exact hat.isInsignificant_eq cfg

/-- A child is a node, so it touches like any neighbour. -/
theorem childTouches_eq {p : Option (Cursor Value)}
    (h : Arrives (.ok p) o) (cfg : Config) :
    childTouches cfg p = o.any (Place.isSignificant cfg) := by
  rw [← h.touches_eq cfg]
  cases p with
  | none => rfl
  | some d =>
    have hnode : d.focus.isNil = false := by
      cases o with
      | none => cases h
      | some z =>
        obtain ⟨e, he, hat⟩ := h
        cases he
        rw [hat.focus_eq]
        rfl
    rw [childTouches, hnode]
    rfl

end Arrives

namespace IsAt

variable {c : Cursor Value} {z : Place}

/-- **A search along significant nodes arrives at the first place that is
what is wanted.** -/
theorem search (h : c.IsAt z) (cfg : Config) (w : Wanted) {d : Direction}
    (hd : d.onward = d) :
    Arrives (c.find .forms cfg w.test (.significant d))
      (z.search cfg w d) := by
  refine h.skip (fun h => h.significant cfg d)
    (Place.exhausts_significant hd cfg z)
    (z.length_significant_le cfg d) ?_
  intro e y hat
  rw [Bool.not_not, w.test_eq hat]

/-- **Whatever a search is for, it ends at the place itself or at a
significant one ahead.** -/
theorem find_mem (h : c.IsAt z) {cfg : Config}
    {test : Cursor Value → Bool} {d : Direction} (hd : d.onward = d)
    {e : Cursor Value}
    (he : c.find .forms cfg test (.significant d) = .ok (some e)) :
    ∃ y ∈ z :: (z.ahead d).filter (Place.isSignificant cfg), e.IsAt y := by
  obtain ⟨cs, -, hall, -, hskip⟩ := h.exists_trail
    (fun h => h.significant cfg d) (Place.exhausts_significant hd cfg z)
    (z.length_significant_le cfg d)
  have hfind : c.find .forms cfg test (.significant d) = .ok _ := hskip _
  rw [hfind] at he
  injection he with he
  exact exists_isAt_of_mem hall (List.mem_of_find?_eq_some he)

theorem findSibling (h : c.IsAt z) (cfg : Config) (k : Kind)
    {d : Direction} (hd : d.onward = d) :
    Arrives (c.findSibling .forms cfg k d) (z.findSibling cfg k d) :=
  (h.significant cfg d).andThen fun h => h.search cfg (.kind k) hd

/-! ## Insertion -/

/-- At a place the focus is a node, and so not empty. -/
theorem isNil_eq (h : c.IsAt z) : c.focus.isNil = false := by
  rw [h.focus_eq]
  rfl

theorem placeRight (h : c.IsAt z) (cfg : Config) (n : Form) :
    Arrives (c.placeRight .forms cfg (.node n)) (z.place cfg .right n) := by
  have hright := h.right
  obtain ⟨o, ho⟩ := hright.exists_ok
  rw [ho] at hright
  rw [Cursor.placeRight, h.isNil_eq, if_neg Bool.false_ne_true, ho,
    Place.place_right_eq]
  show Arrives (.ok (c.spacedRight cfg (.node n) o)) _
  rw [spacedRight, hright.touches_eq cfg]
  refine Arrives.bind (Arrives.bind ?_ fun h => h.insertRight n)
    fun h => h.insertRight _
  cases z.right.any (Place.isSignificant cfg) with
  | true => exact h.insertRight _
  | false => exact h.arrives

theorem placeLeft (h : c.IsAt z) (cfg : Config) (n : Form) :
    Arrives (c.placeLeft .forms cfg (.node n)) (z.place cfg .left n) := by
  have hleft := h.left
  obtain ⟨o, ho⟩ := hleft.exists_ok
  rw [ho] at hleft
  rw [Cursor.placeLeft, h.isNil_eq, if_neg Bool.false_ne_true, ho,
    Place.place_left_eq]
  show Arrives (.ok (c.spacedLeft cfg (.node n) o)) _
  rw [spacedLeft, hleft.touches_eq cfg]
  refine Arrives.bind (Arrives.bind ?_ fun h => h.insertLeft n)
    fun h => h.insertLeft _
  cases z.left.any (Place.isSignificant cfg) with
  | true => exact h.insertLeft _
  | false => exact h.arrives

theorem placeFirst (h : c.IsAt z) (cfg : Config) (n : Form) :
    Arrives (c.placeFirst .forms cfg (.node n)) (z.place cfg .first n) := by
  rw [Cursor.placeFirst, h.down.childTouches_eq cfg, Place.place_first_eq]
  cases z.down.any (Place.isSignificant cfg) with
  | true => exact (h.insert .first _).andThen fun h => h.insert .first n
  | false => exact h.insert .first n

theorem placeLast (h : c.IsAt z) (cfg : Config) (n : Form) :
    Arrives (c.placeLast .forms cfg (.node n)) (z.place cfg .last n) := by
  rw [Cursor.placeLast, h.downLast.childTouches_eq cfg,
    Place.place_last_eq]
  cases z.downLast.any (Place.isSignificant cfg) with
  | true => exact (h.insert .last _).andThen fun h => h.insert .last n
  | false => exact h.insert .last n

/-- **Insertion with spacing** is the insertion on places. -/
theorem place (h : c.IsAt z) (cfg : Config) (side : Side) (n : Form) :
    Arrives (c.place .forms cfg side (.node n)) (z.place cfg side n) := by
  cases side with
  | left => exact h.placeLeft cfg n
  | right => exact h.placeRight cfg n
  | first => exact h.placeFirst cfg n
  | last => exact h.placeLast cfg n

/-! ## Edits through values -/

theorem assign (h : c.IsAt z) (separator : Text) (v : Value) :
    GoesLike ((c.assign (.literal separator) v).map some)
      (z.assign separator v) := by
  rw [Cursor.assign, Literal.toNode_eq, Place.assign]
  cases Literal.formFor separator v with
  | error e => rfl
  | ok n => exact (h.replace n).arrives

theorem amend (h : c.IsAt z) (separator : Text)
    (f : Value → Except Failure Value) :
    GoesLike ((c.amend (.literal separator) f).map some)
      (z.amend separator f) := by
  rw [Cursor.amend, h.focus_eq, Literal.toValue_node_eq, Place.amend]
  cases Literal.formValue z.focus with
  | error e => rfl
  | ok v =>
    simp only
    cases f v with
    | error e => rfl
    | ok w => exact h.assign separator w

/-- **The operations of the surface go like those on places**, whenever
the policy has a literal converter. -/
theorem surface (h : c.IsAt z) {policy : Policy} {separator : Text}
    (hpolicy : policy.converter = .literal separator) (op : Surface) :
    GoesLike ((Session.mk .forms policy c).outcome op.action)
      (z.surface policy.config separator op) := by
  have hgiven := Surface.converterOr_eq
    (s := Session.mk .forms policy c) hpolicy
  cases op with
  | move d => exact h.significant policy.config d
  | search w d hd =>
    have hw := h.search policy.config w hd
    cases w with
    | kind k => exact hw
    | token test => exact hw
    | literal v => exact hw
  | findNext k => exact h.findSibling policy.config k rfl
  | findPrevious k => exact h.findSibling policy.config k rfl
  | place side item =>
    show GoesLike (match policy.itemFor item with
      | .error e => .error e
      | .ok node => c.place .forms policy.config side node) _
    rw [Literal.itemFor_eq hpolicy, Place.surface]
    cases Literal.formFor separator item with
    | error e => rfl
    | ok n => exact h.place policy.config side n
  | assign v given =>
    show GoesLike ((c.assign _ v).map some) _
    rw [hgiven]
    exact h.assign _ v
  | amend f given occasion =>
    show GoesLike ((c.amend _ _).map some) _
    rw [hgiven]
    exact h.amend _ _

end IsAt

/-! ## The empty tree -/

/-- The cursor of a tree that is still empty is bare. -/
theorem isBare_nil : (atRoot Value.nil).IsBare := ⟨rfl, rfl⟩

/-- A search from a bare cursor goes nowhere: it finds the cursor itself
or nothing. -/
theorem IsBare.find_eq {c : Cursor Value} (h : c.IsBare) (cfg : Config)
    (test : Cursor Value → Bool) (d : Direction) :
    c.find .forms cfg test (.significant d)
      = .ok (if test c then some c else none) := by
  have hstop : Exhausts ((Move.significant d).run .forms cfg) c [c] :=
    .stop (h.significant_eq cfg d)
  have hskip := hstop.skipOf_eq (Nat.le_add_left 1 (c.reach .forms))
    fun d => !test d
  show skipOf _ _ (c.reach .forms) c = _
  rw [hskip]
  cases htest : test c <;> simp [htest]

theorem IsBare.findSibling_eq {c : Cursor Value} (h : c.IsBare)
    (cfg : Config) (k : Kind) (d : Direction) :
    c.findSibling .forms cfg k d = .ok none := by
  rw [Cursor.findSibling, h.significant_eq, Attempt.andThen_ok_none]

/-- Assigning a value to nothing makes its form the tree. -/
theorem goesLike_plant (separator : Text) (v : Value) :
    GoesLike (((atRoot Value.nil).assign (.literal separator) v).map some)
      (Place.plant separator v) := by
  rw [Cursor.assign, Literal.toNode_eq, Place.plant]
  cases Literal.formFor separator v with
  | error e => rfl
  | ok n => exact (isBare_nil.replace n).arrives

/-- **On an empty tree the operations of the surface go like those on
places.** -/
theorem goesLike_surfaceBare {policy : Policy} {separator : Text}
    (hpolicy : policy.converter = .literal separator) (op : Surface) :
    GoesLike ((Session.mk .forms policy (.atRoot .nil)).outcome op.action)
      (Place.surfaceBare separator op) := by
  have hgiven := Surface.converterOr_eq
    (s := Session.mk .forms policy (.atRoot .nil)) hpolicy
  cases op with
  | move d => exact isBare_nil.significant_eq policy.config d
  | search w d hd =>
    -- nothing is of no kind, so it is never what is wanted
    have hfind := isBare_nil.find_eq policy.config w.test d
    cases w with
    | kind k => exact hfind
    | token test => exact hfind
    | literal v => exact hfind
  | findNext k => exact isBare_nil.findSibling_eq policy.config k .right
  | findPrevious k => exact isBare_nil.findSibling_eq policy.config k .left
  | place side item =>
    show GoesLike (match policy.itemFor item with
      | .error e => .error e
      | .ok node => (atRoot .nil).place .forms policy.config side node) _
    rw [Literal.itemFor_eq hpolicy, Place.surfaceBare]
    cases Literal.formFor separator item with
    | error e => rfl
    | ok n =>
      cases side with
      | left => exact (isBare_nil.replace n).arrives
      | right => exact (isBare_nil.replace n).arrives
      | first => rfl
      | last => rfl
  | assign v given =>
    show GoesLike ((Cursor.assign _ v _).map some) _
    rw [hgiven]
    exact goesLike_plant _ v
  | amend f given occasion =>
    show GoesLike ((Cursor.amend _ _ (atRoot .nil)).map some) _
    rw [hgiven, Cursor.amend, Place.surfaceBare]
    show GoesLike (Except.map some (match Session.written occasion f .nil with
      | .error e => .error e
      | .ok w => (atRoot .nil).assign _ w)) _
    cases Session.written occasion f .nil with
    | error e => rfl
    | ok w => exact goesLike_plant _ w

end Cursor

end FormTree
