import FormTree.Config
import FormTree.Cursor.DocumentOrder
import FormTree.Cursor.Edit
import FormTree.Cursor.Trail
import FormTree.Shapes

/-!
# Moves over significant nodes

Every direction a cursor can take comes in two versions. The plain one
takes one step in the tree as it is, formatting included. The significant
one takes the same step and then, should it have landed on something
insignificant, goes on until it reaches a significant node: among siblings
towards the side it is heading for, and in document order along that
order.

`Move` names every move that can be made, so that a search can be told
which one to repeat.
-/

namespace FormTree

/-- **The directions** a cursor can take. -/
inductive Direction where
  | down
  | up
  | left
  | right
  | leftmost
  | rightmost
  | next
  | prev
deriving DecidableEq, Repr

namespace Direction

variable {τ ε : Type}

/-- **One plain step** in a direction. -/
def step (S : Shape τ ε) (d : Direction) (c : Cursor τ) :
    Attempt ε (Cursor τ) :=
  match d with
  | .down => .ok (c.down S)
  | .up => c.up S
  | .left => c.left S
  | .right => c.right S
  | .leftmost => c.leftmost S
  | .rightmost => c.rightmost S
  | .next => c.next S
  | .prev => c.prev S

/-- The direction in which a step that has landed on something
insignificant is continued. -/
def onward : Direction → Direction
  | .down => .right
  | .up => .left
  | .left => .left
  | .right => .right
  | .leftmost => .right
  | .rightmost => .left
  | .next => .next
  | .prev => .prev

end Direction

namespace Cursor

/-- Whether the focus is insignificant. -/
def isInsignificant (cfg : Config) (c : Cursor Value) : Bool :=
  cfg.isInsignificant c.focus

/-- Goes on in a direction until the focus is significant. -/
def toSignificant {ε : Type} (S : Shape Value ε) (cfg : Config)
    (d : Direction) (c : Cursor Value) : Attempt ε (Cursor Value) :=
  c.skip S (d.step S) (isInsignificant cfg)

end Cursor

namespace Direction

/-- **A step to a significant node.** -/
def significant {ε : Type} (S : Shape Value ε) (cfg : Config)
    (d : Direction) (c : Cursor Value) : Attempt ε (Cursor Value) :=
  (d.step S c).andThen fun e => e.toSignificant S cfg d.onward

end Direction

/-- **The moves that can be repeated.** -/
inductive Move where
  /-- A plain step. -/
  | plain (d : Direction)
  /-- A step to a significant node. -/
  | significant (d : Direction)
  /-- Plain steps until the focus is significant, none if it is. -/
  | settle (d : Direction)
  /-- Taking out the focus. -/
  | remove
deriving DecidableEq, Repr

namespace Move

/-- **Makes a move.** -/
def run {ε : Type} (S : Shape Value ε) (cfg : Config) (m : Move)
    (c : Cursor Value) : Attempt ε (Cursor Value) :=
  match m with
  | .plain d => d.step S c
  | .significant d => d.significant S cfg c
  | .settle d => c.toSignificant S cfg d
  | .remove => c.remove S

end Move

end FormTree
