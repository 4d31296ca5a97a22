import FormTree.Row

/-!
# Cursors

A cursor stands at one place of a tree: it has a node in focus and a path
of frames, one for every ancestor, from the innermost to the outermost. A
frame knows the row the focus stands in and its place there, and the
parent as it was when the cursor went in.

Moves and edits keep the place of the focus inside its row. A frame can be
put together by hand as well, and then the place may be any number: a
negative one counts from the end of the row, and a step to a sibling that
the row does not have fails.

Edits are recorded, not carried out: an edit changes the innermost row and
marks the frame as changed, and the parent is made anew from the row only
when the cursor leaves it upwards. So the entries of outer rows and the
recorded parents may be out of date, and what a cursor stands for is the
tree that `root` puts together.

The cursor does not know what sort of tree it is in. A `Shape` tells it
which nodes are branches, what their children are and how a branch is made
from a row; making one may fail. A shape also weighs its nodes, which says
that every tree is finite.

A move that leads nowhere has no result, which is different from failing:
the results of moves are an `Attempt`.
-/

namespace FormTree

/-- **An attempt** either fails or has at most one result. -/
abbrev Attempt (ε α : Type) := Except ε (Option α)

namespace Attempt

variable {ε α β : Type}

/-- Goes on from a result, if there is one. -/
def andThen (a : Attempt ε α) (f : α → Attempt ε β) : Attempt ε β :=
  match a with
  | .ok (some x) => f x
  | .ok none => .ok none
  | .error e => .error e

@[simp] theorem andThen_ok_some (x : α) (f : α → Attempt ε β) :
    andThen (.ok (some x)) f = f x := rfl

@[simp] theorem andThen_ok_none (f : α → Attempt ε β) :
    andThen (.ok none) f = .ok none := rfl

@[simp] theorem andThen_error (e : ε) (f : α → Attempt ε β) :
    andThen (.error e) f = .error e := rfl

end Attempt

/-- The sum of a measure over a list. -/
def total {τ : Type} (measure : τ → Nat) : List τ → Nat
  | [] => 0
  | t :: ts => measure t + total measure ts

/-- A member contributes to the sum. -/
theorem le_total {τ : Type} (measure : τ → Nat) {t : τ} {ts : List τ}
    (h : t ∈ ts) : measure t ≤ total measure ts := by
  induction ts with
  | nil => cases h
  | cons u us ih =>
    rw [total]
    cases h with
    | head => omega
    | tail _ h => have := ih h; omega

/-- **How trees of one sort are walked and made.** -/
structure Shape (τ ε : Type) where
  /-- Whether a node can have children. -/
  isBranch : τ → Bool
  /-- The children of a branch. -/
  children : τ → List τ
  /-- A branch like the given one with the given row of children. -/
  make : τ → Row τ → Except ε τ
  /-- The failure of a step to a sibling that the row does not have. -/
  outside : ε
  /-- The weight of a node. -/
  weight : τ → Nat
  /-- Every node weighs something. -/
  weight_pos : ∀ t, 0 < weight t
  /-- A branch weighs more than all its children. -/
  total_children_lt : ∀ t, isBranch t = true →
    total weight (children t) < weight t

/-- **A frame**: the surroundings of the focus inside one ancestor. -/
structure Frame (τ : Type) where
  /-- The row the focus stands in. -/
  row : Row τ
  /-- The place of the focus in the row, counted from the end when it is
  negative. -/
  index : Int
  /-- The ancestor, as it was when the cursor went in. -/
  parent : τ
  /-- Whether the row has been edited since. -/
  changed : Bool
deriving Inhabited

namespace Frame

variable {τ : Type}

/-- The siblings of the focus, with the entry for the focus itself. -/
abbrev siblings (f : Frame τ) : List τ := f.row.items

/-- How many siblings stand before a place. -/
def before (f : Frame τ) (i : Int) : Nat :=
  if 0 ≤ i then i.toNat else f.siblings.length - (-i).toNat

/-- The sibling at a place. -/
def sibling? (f : Frame τ) (i : Int) : Option τ :=
  if -(f.siblings.length : Int) ≤ i then f.siblings[f.before i]? else none

/-- The siblings before the focus. -/
def lefts (f : Frame τ) : List τ := f.siblings.take (f.before f.index)

/-- The siblings after the focus. -/
def rights (f : Frame τ) : List τ :=
  f.siblings.drop (f.before (f.index + 1))

/-- The frame at another place of the same row. -/
def atIndex (f : Frame τ) (i : Int) : Frame τ := { f with index := i }

/-- The frame with other siblings; this is an edit. -/
def withSiblings (f : Frame τ) (ts : List τ) : Frame τ :=
  { f with row := .ofList ts, changed := true }

/-- **The frame with another entry for the focus.** -/
def withFocus (f : Frame τ) (t : τ) : Frame τ :=
  f.withSiblings (f.lefts ++ t :: f.rights)

/-- A place that is not negative has as many siblings before it as it
says. -/
@[simp] theorem before_natCast (f : Frame τ) (k : Nat) :
    f.before k = k := by
  simp [before]

/-- At a place that is not negative stands what the row has there. -/
@[simp] theorem sibling?_natCast (f : Frame τ) (k : Nat) :
    f.sibling? k = f.siblings[k]? := by
  rw [sibling?, before_natCast, if_pos (by omega)]

theorem lefts_of_index {f : Frame τ} {k : Nat} (h : f.index = k) :
    f.lefts = f.siblings.take k := by
  rw [lefts, h, before_natCast]

theorem rights_of_index {f : Frame τ} {k : Nat} (h : f.index = k) :
    f.rights = f.siblings.drop (k + 1) := by
  rw [rights, h, ← Int.natCast_succ, before_natCast]

end Frame

/-- **A cursor**: the node in focus, and the frames around it from the
innermost to the outermost. -/
structure Cursor (τ : Type) where
  /-- The node in focus. -/
  focus : τ
  /-- The frames; at the root there is none. -/
  path : List (Frame τ)
deriving Inhabited

namespace Cursor

variable {τ ε : Type}

/-- The cursor at the root of a tree. -/
def atRoot (root : τ) : Cursor τ := ⟨root, []⟩

/-- The siblings before the focus. -/
def lefts (c : Cursor τ) : List τ :=
  match c.path with
  | [] => []
  | f :: _ => f.lefts

/-- The siblings after the focus. -/
def rights (c : Cursor τ) : List τ :=
  match c.path with
  | [] => []
  | f :: _ => f.rights

/-- The children of the focus; a leaf has no row of children. -/
def children? (S : Shape τ ε) (c : Cursor τ) : Option (List τ) :=
  if S.isBranch c.focus then some (S.children c.focus) else none

/-! ## Moves between levels -/

/-- **To the first child.** There is no way down into a leaf, nor into a
branch without children. -/
def down (S : Shape τ ε) (c : Cursor τ) : Option (Cursor τ) :=
  match c.children? S with
  | some (t :: ts) =>
    some ⟨t, ⟨.ofList (t :: ts), 0, c.focus, false⟩ :: c.path⟩
  | _ => none

/-- The path after the focus has been replaced: the innermost frame has
the new entry. -/
def refocus (t : τ) : List (Frame τ) → List (Frame τ)
  | [] => []
  | f :: outer => f.withFocus t :: outer

@[simp] theorem length_refocus (t : τ) (path : List (Frame τ)) :
    (refocus t path).length = path.length := by
  cases path <;> rfl

/-- **To the parent.** An edited row makes a new parent, and that is in
turn an edit of the row the parent stands in. -/
def up (S : Shape τ ε) (c : Cursor τ) : Attempt ε (Cursor τ) :=
  match c.path with
  | [] => .ok none
  | f :: outer =>
    if f.changed then
      (S.make f.parent f.row).map fun t => some ⟨t, refocus t outer⟩
    else .ok (some ⟨f.parent, outer⟩)

/-- Going up leaves one frame. -/
theorem length_path_of_up {S : Shape τ ε} {c p : Cursor τ}
    (h : c.up S = .ok (some p)) : p.path.length < c.path.length := by
  unfold up at h
  split at h
  · cases h
  · next f outer hpath =>
    rw [hpath]
    split at h
    · cases hm : S.make f.parent f.row with
      | error e => rw [hm] at h; cases h
      | ok t =>
        rw [hm] at h
        cases h
        simp
    · cases h
      simp

/-- **The whole tree** as the cursor stands for it: all edits carried out
on the way up. -/
def root (S : Shape τ ε) (c : Cursor τ) : Except ε τ :=
  match h : c.up S with
  | .error e => .error e
  | .ok none => .ok c.focus
  | .ok (some p) =>
    have := length_path_of_up h
    p.root S
termination_by c.path.length

/-- Going up does not change the tree the cursor stands for. -/
theorem root_of_up {S : Shape τ ε} {c p : Cursor τ}
    (h : c.up S = .ok (some p)) : c.root S = p.root S := by
  rw [root]
  split
  · next h' => rw [h] at h'; cases h'
  · next h' => rw [h] at h'; cases h'
  · next h' => rw [h] at h'; cases h'; rfl

/-- At the root the cursor stands for what is in focus. -/
@[simp] theorem root_atRoot (S : Shape τ ε) (t : τ) :
    (atRoot t).root S = .ok t := by
  rw [root]
  rfl

/-! ## Moves among siblings -/

/-- To the sibling at a place, which the row should have. -/
def toSibling (S : Shape τ ε) (i : Int) (c : Cursor τ) :
    Attempt ε (Cursor τ) :=
  match c.path with
  | [] => .ok none
  | f :: outer =>
    match f.sibling? i with
    | none => .error S.outside
    | some t => .ok (some ⟨t, f.atIndex i :: outer⟩)

/-- **To the next sibling.** -/
def right (S : Shape τ ε) (c : Cursor τ) : Attempt ε (Cursor τ) :=
  match c.path with
  | [] => .ok none
  | f :: _ =>
    if f.siblings.length ≤ f.index + 1 then .ok none
    else c.toSibling S (f.index + 1)

/-- **To the previous sibling.** -/
def left (S : Shape τ ε) (c : Cursor τ) : Attempt ε (Cursor τ) :=
  match c.path with
  | [] => .ok none
  | f :: _ =>
    if f.index = 0 then .ok none else c.toSibling S (f.index - 1)

/-- **To the first sibling**, staying if the focus is the first. -/
def leftmost (S : Shape τ ε) (c : Cursor τ) : Attempt ε (Cursor τ) :=
  match c.path with
  | [] => .ok none
  | f :: _ => if f.index = 0 then .ok (some c) else c.toSibling S 0

/-- **To the last sibling**, staying if the focus is the last. -/
def rightmost (S : Shape τ ε) (c : Cursor τ) : Attempt ε (Cursor τ) :=
  match c.path with
  | [] => .ok none
  | f :: _ =>
    let last := (f.siblings.length : Int) - 1
    if f.index = last then .ok (some c) else c.toSibling S last

end Cursor

end FormTree
