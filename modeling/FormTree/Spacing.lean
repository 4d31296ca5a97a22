import FormTree.Moves

/-!
# Insertion with spacing

An item put next to other forms must not touch them. The insertions of
this module look at the neighbour on the side where the item goes: if it
is a significant node, white space is put between the two, and if it is
formatting already, that serves. Between the focus and an item beside it
there is always new white space.

Nothing is in focus at an empty tree, and the item becomes the tree.
-/

namespace FormTree.Cursor

variable {ε : Type}

/-- Whether a neighbour would touch an item put beside it. -/
def touches (cfg : Config) (neighbour : Option (Cursor Value)) : Bool :=
  match neighbour with
  | some c => !c.isInsignificant cfg
  | none => false

/-- Puts an item after the focus, with white space before it and, if the
neighbour would touch it, after it. -/
def spacedRight (cfg : Config) (item : Value)
    (neighbour : Option (Cursor Value)) (c : Cursor Value) :
    Option (Cursor Value) :=
  let spaced :=
    if touches cfg neighbour then c.insertRight cfg.space else some c
  (spaced.bind (insertRight item)).bind (insertRight cfg.space)

/-- Puts an item before the focus, with white space after it and, if the
neighbour would touch it, before it. -/
def spacedLeft (cfg : Config) (item : Value)
    (neighbour : Option (Cursor Value)) (c : Cursor Value) :
    Option (Cursor Value) :=
  let spaced :=
    if touches cfg neighbour then c.insertLeft cfg.space else some c
  (spaced.bind (insertLeft item)).bind (insertLeft cfg.space)

/-- **Puts an item after the focus**, with white space between the focus
and the item and, where a form follows, between the item and that. -/
def placeRight (S : Shape Value ε) (cfg : Config) (item : Value)
    (c : Cursor Value) : Attempt ε (Cursor Value) :=
  if c.focus.isNil then .ok (some (c.replace item))
  else (c.right S).map fun r => c.spacedRight cfg item r

/-- **Puts an item before the focus**, with white space between the item
and the focus and, where a form precedes, between that and the item. -/
def placeLeft (S : Shape Value ε) (cfg : Config) (item : Value)
    (c : Cursor Value) : Attempt ε (Cursor Value) :=
  if c.focus.isNil then .ok (some (c.replace item))
  else (c.left S).map fun l => c.spacedLeft cfg item l

/-- Whether a child would touch an item put beside it. An empty child
touches nothing. -/
def childTouches (cfg : Config) (child : Option (Cursor Value)) : Bool :=
  match child with
  | some c => !c.focus.isNil && !c.isInsignificant cfg
  | none => false

/-- **Puts an item before all children** of the focus, with white space
between the item and a form that was first. -/
def placeFirst (S : Shape Value ε) (cfg : Config) (item : Value)
    (c : Cursor Value) : Attempt ε (Cursor Value) :=
  if childTouches cfg (c.down S) then
    (c.insertChild S cfg.space).andThen (insertChild S item)
  else c.insertChild S item

/-- **Puts an item after all children** of the focus, with white space
between a form that was last and the item. -/
def placeLast (S : Shape Value ε) (cfg : Config) (item : Value)
    (c : Cursor Value) : Attempt ε (Cursor Value) :=
  if childTouches cfg (c.downLast S) then
    (c.appendChild S cfg.space).andThen (appendChild S item)
  else c.appendChild S item

end FormTree.Cursor
