import FormTree.Session
import FormTree.Proofs.Positions

/-!
# Places of a tree

A cursor records its edits and carries them out late, so the same place of
the same tree has many cursors. A **place** is what they have in common: a
node and, for every ancestor, its kind and the children to the left and to
the right of the way down. Nothing in it is ever out of date. The tree is
read off by filling the gap of one level after the other (`Place.whole`),
and the position by counting what stands to the left (`Place.index`).

Every move and every edit of a cursor has its counterpart here, and on
places each of them is a change of one or two lists. No move changes the
tree. That `next` and `prev` undo each other (`Place.prev_of_next`) holds
for places exactly, while the cursors before and after may differ in what
they have recorded.
-/

namespace FormTree

/-- **One ancestor of a place**: its kind, and its children on both sides
of the way down. -/
structure Level where
  /-- The kind of the ancestor. -/
  kind : Composite
  /-- The children to the left, the nearest first. -/
  lefts : List Form
  /-- The children to the right, the nearest first. -/
  rights : List Form

namespace Level

/-- The children of the ancestor, with a node in the gap. -/
def row (l : Level) (n : Form) : List Form :=
  l.lefts.reverse ++ n :: l.rights

/-- The ancestor, with a node in the gap. -/
def fill (l : Level) (n : Form) : Form := .branch l.kind (l.row n)

@[simp] theorem length_row (l : Level) (n : Form) :
    (l.row n).length = l.lefts.length + l.rights.length + 1 := by
  simp [row, Nat.add_assoc]

/-- The gap is where the children to the left end. -/
theorem getElem?_row (l : Level) (n : Form) :
    (l.row n)[l.lefts.length]? = some n := by
  rw [row, List.getElem?_append_right (by simp), List.length_reverse,
    Nat.sub_self, List.getElem?_cons_zero]

theorem take_row (l : Level) (n : Form) :
    (l.row n).take l.lefts.length = l.lefts.reverse := by
  rw [row, List.take_left' (by rw [List.length_reverse])]

theorem drop_row (l : Level) (n : Form) :
    (l.row n).drop l.lefts.length = n :: l.rights := by
  rw [row, List.drop_left' (by rw [List.length_reverse])]

theorem take_succ_row (l : Level) (n : Form) :
    (l.row n).take (l.lefts.length + 1) = l.lefts.reverse ++ [n] := by
  rw [row, List.take_append, List.length_reverse, Nat.add_sub_cancel_left,
    List.take_of_length_le (by simp)]
  rfl

theorem drop_succ_row (l : Level) (n : Form) :
    (l.row n).drop (l.lefts.length + 1) = l.rights := by
  rw [← List.drop_drop, drop_row]
  rfl

/-- An ancestor parted at another of its children is the same
ancestor. -/
theorem fill_split {l : Level} {m n : Form} {ns : List Form} {i : Nat}
    (h : (l.row m).drop i = n :: ns) :
    fill ⟨l.kind, ((l.row m).take i).reverse, ns⟩ n = l.fill m := by
  show Node.branch l.kind (((l.row m).take i).reverse.reverse ++ n :: ns)
    = Node.branch l.kind (l.row m)
  rw [List.reverse_reverse, ← h, List.take_append_drop]

end Level

/-- **A place of a tree**: the node there and the ancestors around it,
from the innermost to the outermost. -/
structure Place where
  /-- The node at the place. -/
  focus : Form
  /-- The ancestors; the root has none. -/
  levels : List Level

namespace Place

/-- The tree around a node. -/
def fillAll : List Level → Form → Form
  | [], n => n
  | l :: outer, n => fillAll outer (l.fill n)

/-- **The tree a place is in.** -/
def whole (z : Place) : Form := fillAll z.levels z.focus

/-- The position of the gap that ancestors leave, from the root down. -/
def gap (levels : List Level) : List Nat :=
  (levels.map fun l => l.lefts.length).reverse

/-- **The position of a place.** -/
def index (z : Place) : List Nat := gap z.levels

theorem gap_cons (l : Level) (outer : List Level) :
    gap (l :: outer) = gap outer ++ [l.lefts.length] := by
  rw [gap, List.map_cons, List.reverse_cons, gap]

/-- What is in the gap is found on going on from there. -/
theorem at?_fillAll (levels : List Level) (n : Form) (p : List Nat) :
    (fillAll levels n).at? (gap levels ++ p) = n.at? p := by
  induction levels generalizing n p with
  | nil => rfl
  | cons l outer ih =>
    have hchild : (l.fill n).at? (l.lefts.length :: p) = n.at? p := by
      rw [Node.at?_cons, Level.fill, Node.children_branch, l.getElem?_row,
        Option.bind_some]
    rw [fillAll, gap_cons, List.append_assoc, List.singleton_append, ih,
      hchild]

/-- **A place has its node at its position.** -/
theorem at?_whole (z : Place) : z.whole.at? z.index = some z.focus := by
  have h := at?_fillAll z.levels z.focus []
  rwa [List.append_nil, Node.at?_nil] at h

/-! ## Moves -/

/-- To the first child. -/
def down (z : Place) : Option Place :=
  match z.focus with
  | .branch k (c :: cs) => some ⟨c, ⟨k, [], cs⟩ :: z.levels⟩
  | _ => none

/-- To the last child. -/
def downLast (z : Place) : Option Place :=
  match z.focus with
  | .branch k cs =>
    match cs.reverse with
    | [] => none
    | c :: rest => some ⟨c, ⟨k, rest, []⟩ :: z.levels⟩
  | _ => none

/-- To the parent. -/
def up (z : Place) : Option Place :=
  match z.levels with
  | [] => none
  | l :: outer => some ⟨l.fill z.focus, outer⟩

/-- To the sibling with a number. -/
def sibling? (i : Nat) (z : Place) : Option Place :=
  match z.levels with
  | [] => none
  | l :: outer =>
    match (l.row z.focus).drop i with
    | [] => none
    | n :: ns =>
      some ⟨n, ⟨l.kind, ((l.row z.focus).take i).reverse, ns⟩ :: outer⟩

/-- To the next sibling. -/
def right (z : Place) : Option Place :=
  match z.levels with
  | ⟨k, ls, r :: rs⟩ :: outer => some ⟨r, ⟨k, z.focus :: ls, rs⟩ :: outer⟩
  | _ => none

/-- To the previous sibling. -/
def left (z : Place) : Option Place :=
  match z.levels with
  | ⟨k, l :: ls, rs⟩ :: outer => some ⟨l, ⟨k, ls, z.focus :: rs⟩ :: outer⟩
  | _ => none

/-- To the first sibling. -/
def leftmost (z : Place) : Option Place := z.sibling? 0

/-- To the last sibling. -/
def rightmost (z : Place) : Option Place :=
  match z.levels with
  | [] => none
  | l :: _ => z.sibling? (l.lefts.length + l.rights.length)

/-- The first place after everything in a node, given the ancestors around
that. -/
def after : List Level → Form → Option Place
  | [], _ => none
  | l :: outer, n =>
    match l.rights with
    | [] => after outer (l.fill n)
    | r :: rs => some ⟨r, ⟨l.kind, n :: l.lefts, rs⟩ :: outer⟩

/-- **The next place** in document order. -/
def next (z : Place) : Option Place :=
  match z.down with
  | some d => some d
  | none => after z.levels z.focus

/-- The last child is smaller than the node itself. -/
theorem size_of_downLast {z d : Place} (h : z.downLast = some d) :
    d.focus.size < z.focus.size := by
  unfold downLast at h
  split at h
  · next k cs hz =>
    split at h
    · cases h
    · next c rest hcs =>
      cases h
      have hmem : c ∈ cs := by
        rw [← List.mem_reverse, hcs]
        exact List.mem_cons_self
      rw [hz, Node.size, ← Value.weights_map_node, ← total_weight]
      have := le_total Value.weight (List.mem_map_of_mem (f := Value.node) hmem)
      show Value.weight (.node c) < _
      omega
  · cases h

/-- **The last place in the focus.** -/
def lastPlace (z : Place) : Place :=
  match h : z.downLast with
  | none => z
  | some d =>
    have := size_of_downLast h
    d.lastPlace
termination_by z.focus.size

/-- **The previous place** in document order. -/
def prev (z : Place) : Option Place :=
  match z.left with
  | none => z.up
  | some l => some l.lastPlace

/-- **One step** in a direction. -/
def step (d : Direction) (z : Place) : Option Place :=
  match d with
  | .down => z.down
  | .up => z.up
  | .left => z.left
  | .right => z.right
  | .leftmost => z.leftmost
  | .rightmost => z.rightmost
  | .next => z.next
  | .prev => z.prev

/-! ## No move changes the tree -/

theorem whole_of_down {z d : Place} (h : z.down = some d) :
    d.whole = z.whole := by
  unfold down at h
  split at h
  · next k c cs hz =>
    cases h
    rw [whole, whole, hz]
    rfl
  · cases h

theorem whole_of_up {z p : Place} (h : z.up = some p) :
    p.whole = z.whole := by
  unfold up at h
  split at h
  · cases h
  · next l outer hz =>
    cases h
    rw [whole, whole, hz, fillAll]

theorem whole_of_sibling? {i : Nat} {z y : Place}
    (h : z.sibling? i = some y) : y.whole = z.whole := by
  unfold sibling? at h
  split at h
  · cases h
  · next l outer hz =>
    split at h
    · cases h
    · next n ns hrow =>
      cases h
      rw [whole, whole, hz, fillAll, fillAll, Level.fill_split hrow]

/-- A row has a sibling with every number below its length. -/
theorem exists_sibling? (n : Form) (l : Level) (outer : List Level)
    {i : Nat} (hi : i < (l.row n).length) :
    ∃ y, sibling? i ⟨n, l :: outer⟩ = some y := by
  unfold sibling?
  simp only [List.drop_eq_getElem_cons hi]
  exact ⟨_, rfl⟩

/-- The sibling with the number of the focus is the focus. -/
theorem sibling?_self (n : Form) (l : Level) (outer : List Level) :
    sibling? l.lefts.length ⟨n, l :: outer⟩ = some ⟨n, l :: outer⟩ := by
  unfold sibling?
  simp only [Level.drop_row, Level.take_row, List.reverse_reverse]

/-- The next sibling is the one with the next number. -/
theorem right_eq_sibling? (n : Form) (l : Level) (outer : List Level) :
    right ⟨n, l :: outer⟩ = sibling? (l.lefts.length + 1) ⟨n, l :: outer⟩ := by
  obtain ⟨k, ls, rs⟩ := l
  unfold sibling?
  show _ = match (Level.row ⟨k, ls, rs⟩ n).drop (ls.length + 1) with
    | [] => none
    | m :: ms => _
  rw [Level.drop_succ_row ⟨k, ls, rs⟩ n, Level.take_succ_row ⟨k, ls, rs⟩ n]
  cases rs with
  | nil => rfl
  | cons r rs => simp [right]

/-- The previous sibling is the one with the number before. -/
theorem left_eq_sibling? (n m : Form) (k : Composite) (ls rs : List Form)
    (outer : List Level) :
    left ⟨n, ⟨k, m :: ls, rs⟩ :: outer⟩
      = sibling? ls.length ⟨n, ⟨k, m :: ls, rs⟩ :: outer⟩ := by
  have hrow : Level.row ⟨k, m :: ls, rs⟩ n = Level.row ⟨k, ls, n :: rs⟩ m := by
    simp [Level.row]
  unfold sibling?
  show _ = match (Level.row ⟨k, m :: ls, rs⟩ n).drop ls.length with
    | [] => none
    | m :: ms => _
  rw [hrow, Level.drop_row ⟨k, ls, n :: rs⟩ m,
    Level.take_row ⟨k, ls, n :: rs⟩ m, List.reverse_reverse]
  rfl

theorem whole_of_right {z y : Place} (h : z.right = some y) :
    y.whole = z.whole := by
  obtain ⟨n, _ | ⟨l, outer⟩⟩ := z
  · cases h
  · rw [right_eq_sibling?] at h
    exact whole_of_sibling? h

theorem whole_of_left {z y : Place} (h : z.left = some y) :
    y.whole = z.whole := by
  obtain ⟨n, _ | ⟨⟨k, _ | ⟨m, ls⟩, rs⟩, outer⟩⟩ := z
  · cases h
  · cases h
  · rw [left_eq_sibling?] at h
    exact whole_of_sibling? h

theorem whole_of_after {levels : List Level} {n : Form} {y : Place}
    (h : after levels n = some y) : y.whole = fillAll levels n := by
  induction levels generalizing n with
  | nil => cases h
  | cons l outer ih =>
    rw [after] at h
    split at h
    · exact ih h
    · next r rs hr =>
      cases h
      simp [whole, fillAll, Level.fill, Level.row, hr]

theorem whole_of_next {z y : Place} (h : z.next = some y) :
    y.whole = z.whole := by
  unfold next at h
  split at h
  · next d hd =>
    cases h
    exact whole_of_down hd
  · exact whole_of_after h

theorem whole_of_downLast {z d : Place} (h : z.downLast = some d) :
    d.whole = z.whole := by
  unfold downLast at h
  split at h
  · next k cs hz =>
    split at h
    · cases h
    · next c rest hcs =>
      cases h
      have hrow : Level.row ⟨k, rest, []⟩ c = cs := by
        rw [← List.reverse_reverse cs, hcs, List.reverse_cons]
        rfl
      rw [whole, whole, hz, fillAll, Level.fill, hrow]
  · cases h

theorem lastPlace_of_downLast {z d : Place} (h : z.downLast = some d) :
    z.lastPlace = d.lastPlace := by
  rw [lastPlace]
  split
  · next h' => rw [h] at h'; cases h'
  · next h' => rw [h] at h'; cases h'; rfl

theorem lastPlace_of_downLast_eq_none {z : Place}
    (h : z.downLast = none) : z.lastPlace = z := by
  rw [lastPlace]
  split
  · rfl
  · next h' => rw [h] at h'; cases h'

theorem whole_lastPlace (z : Place) : z.lastPlace.whole = z.whole := by
  fun_induction lastPlace z with
  | case1 z h => rfl
  | case2 z d h _ ih => exact ih.trans (whole_of_downLast h)

theorem whole_of_prev {z y : Place} (h : z.prev = some y) :
    y.whole = z.whole := by
  unfold prev at h
  split at h
  · exact whole_of_up h
  · next l hl =>
    cases h
    exact (whole_lastPlace l).trans (whole_of_left hl)

/-- **No move changes the tree.** -/
theorem whole_of_step {d : Direction} {z y : Place}
    (h : z.step d = some y) : y.whole = z.whole := by
  cases d with
  | down => exact whole_of_down h
  | up => exact whole_of_up h
  | left => exact whole_of_left h
  | right => exact whole_of_right h
  | leftmost => exact whole_of_sibling? h
  | rightmost =>
    replace h : z.rightmost = some y := h
    unfold rightmost at h
    split at h
    · cases h
    · exact whole_of_sibling? h
  | next => exact whole_of_next h
  | prev => exact whole_of_prev h

/-! ## The next place and the previous one -/

/-- There is a last child exactly where there is a first one. -/
theorem downLast_eq_none_iff (z : Place) :
    z.downLast = none ↔ z.down = none := by
  obtain ⟨n, levels⟩ := z
  cases n with
  | branch k cs =>
    cases cs with
    | nil => exact ⟨fun _ => rfl, fun _ => rfl⟩
    | cons c cs =>
      constructor
      · intro h
        unfold downLast at h
        simp only at h
        split at h
        · next hcs => simp at hcs
        · cases h
      · intro h
        cases h
  | _ => exact ⟨fun _ => rfl, fun _ => rfl⟩

/-- The last place of an ancestor without anything to the right is the
last place of the node in its gap. -/
theorem lastPlace_fill (n : Form) (l : Level) (outer : List Level)
    (h : l.rights = []) :
    lastPlace ⟨l.fill n, outer⟩ = lastPlace ⟨n, l :: outer⟩ := by
  refine lastPlace_of_downLast ?_
  obtain ⟨k, ls, rs⟩ := l
  obtain rfl : rs = [] := h
  unfold downLast Level.fill Level.row
  simp

/-- What comes after a node is preceded by the last place in it. -/
theorem prev_of_after {levels : List Level} {n : Form} {y : Place}
    (h : after levels n = some y) :
    y.prev = some (lastPlace ⟨n, levels⟩) := by
  induction levels generalizing n with
  | nil => cases h
  | cons l outer ih =>
    obtain ⟨k, ls, rs⟩ := l
    cases rs with
    | nil =>
      rw [← lastPlace_fill n ⟨k, ls, []⟩ outer rfl]
      exact ih h
    | cons r rs =>
      cases h
      rfl

/-- **The previous place of the next one is the place itself.** -/
theorem prev_of_next {z y : Place} (h : z.next = some y) :
    y.prev = some z := by
  unfold next at h
  split at h
  · next d hd =>
    cases h
    unfold down at hd
    split at hd
    · next k c cs hz =>
      cases hd
      obtain ⟨n, levels⟩ := z
      obtain rfl : n = .branch k (c :: cs) := hz
      rfl
    · cases hd
  · next hd =>
    rw [prev_of_after h,
      lastPlace_of_downLast_eq_none ((downLast_eq_none_iff z).mpr hd)]

/-! ## Edits -/

/-- Replaces the node. -/
def replace (n : Form) (z : Place) : Place := ⟨n, z.levels⟩

/-- Puts a node before the focus. -/
def insertLeft (n : Form) (z : Place) : Option Place :=
  match z.levels with
  | [] => none
  | ⟨k, ls, rs⟩ :: outer => some ⟨z.focus, ⟨k, n :: ls, rs⟩ :: outer⟩

/-- Puts a node after the focus. -/
def insertRight (n : Form) (z : Place) : Option Place :=
  match z.levels with
  | [] => none
  | ⟨k, ls, rs⟩ :: outer => some ⟨z.focus, ⟨k, ls, n :: rs⟩ :: outer⟩

/-- Gives the focus other children, if it is a branch. -/
def withChildren (edit : List Form → List Form) (z : Place) :
    Option Place :=
  match z.focus with
  | .branch k cs => some ⟨.branch k (edit cs), z.levels⟩
  | _ => none

/-- Takes out the focus. -/
def remove (z : Place) : Option Place :=
  match z.levels with
  | [] => none
  | ⟨k, [], rs⟩ :: outer => some ⟨.branch k rs, outer⟩
  | ⟨k, l :: ls, rs⟩ :: outer => some ⟨l, ⟨k, ls, rs⟩ :: outer⟩

/-- Puts a node beside the focus or into it. -/
def insert (side : Side) (n : Form) (z : Place) : Option Place :=
  match side with
  | .left => z.insertLeft n
  | .right => z.insertRight n
  | .first => z.withChildren fun cs => n :: cs
  | .last => z.withChildren fun cs => cs ++ [n]

end Place

end FormTree
