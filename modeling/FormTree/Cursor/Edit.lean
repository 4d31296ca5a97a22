import FormTree.Cursor

/-!
# Edits at the cursor

The edits of the tree at the place of the cursor: the focus replaced, an
item put beside it or into it, the focus taken out. None of them moves the
cursor, except that taking out the focus has to leave it somewhere: at the
sibling before, or else at the parent.

There is nothing beside the root, so those edits have no result there; nor
is there anything inside a leaf.
-/

namespace FormTree.Cursor

variable {τ ε : Type}

/-- **Replaces the focus.** -/
def replace (t : τ) (c : Cursor τ) : Cursor τ := ⟨t, refocus t c.path⟩

/-- **Puts an item before the focus.** -/
def insertLeft (t : τ) (c : Cursor τ) : Option (Cursor τ) :=
  match c.path with
  | [] => none
  | f :: outer =>
    let i := f.before f.index
    let ts := f.siblings.take i ++ t :: f.siblings.drop i
    some ⟨c.focus, (f.withSiblings ts).atIndex (f.index + 1) :: outer⟩

/-- **Puts an item after the focus.** -/
def insertRight (t : τ) (c : Cursor τ) : Option (Cursor τ) :=
  match c.path with
  | [] => none
  | f :: outer =>
    let i := f.before (f.index + 1)
    let ts := f.siblings.take i ++ t :: f.siblings.drop i
    some ⟨c.focus, f.withSiblings ts :: outer⟩

/-- Gives the focus other children, if it is a branch. -/
def withChildren (S : Shape τ ε) (edit : List τ → List τ) (c : Cursor τ) :
    Attempt ε (Cursor τ) :=
  match c.children? S with
  | none => .ok none
  | some ts =>
    (S.make c.focus (.ofList (edit ts))).map fun t => some (c.replace t)

/-- **Puts an item before all children** of the focus. -/
def insertChild (S : Shape τ ε) (t : τ) (c : Cursor τ) :
    Attempt ε (Cursor τ) :=
  c.withChildren S fun ts => t :: ts

/-- **Puts an item after all children** of the focus. -/
def appendChild (S : Shape τ ε) (t : τ) (c : Cursor τ) :
    Attempt ε (Cursor τ) :=
  c.withChildren S fun ts => ts ++ [t]

/-- **Takes out the focus.** The cursor goes to the sibling before it or,
from the first place of a row, to the parent made without it. -/
def remove (S : Shape τ ε) (c : Cursor τ) : Attempt ε (Cursor τ) :=
  match c.path with
  | [] => .ok none
  | f :: outer =>
    let g := f.withSiblings (f.lefts ++ f.rights)
    if 0 < f.index then toSibling S (f.index - 1) ⟨c.focus, g :: outer⟩
    else
      (S.make f.parent g.row).map fun t => some ⟨t, refocus t outer⟩

end FormTree.Cursor
