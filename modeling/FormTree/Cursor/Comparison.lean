import FormTree.Cursor
import FormTree.Value.Equality
import FormTree.Value.Printed

/-!
# Comparing and printing cursors

Two cursors over values are equal when they have equal nodes in focus and
the same frames around them, entry by entry and mark by mark. What shape
of tree they walk and which policy they follow plays no part.
-/

namespace FormTree

namespace Frame

/-- Equality of frames. -/
def eqv (f g : Frame Value) : Bool :=
  decide (f.row.unordered = g.row.unordered)
    && Value.eqvRow f.siblings g.siblings
    && decide (f.index = g.index)
    && f.parent.eqv true g.parent
    && decide (f.changed = g.changed)

/-- The printed form of a frame, given that of the frames around it. -/
def printed (f : Frame Value) (outer : String) : String :=
  "Frame(siblings=" ++ Value.tupleText (f.siblings.map Value.printed)
    ++ ", index=" ++ f.index.repr
    ++ ", parent=" ++ f.parent.printed
    ++ ", parent_path=" ++ outer
    ++ ", changed=" ++ (Scalar.bool f.changed).printed ++ ")"

end Frame

namespace Cursor

/-- Paths that agree frame by frame. -/
def eqvPath : List (Frame Value) → List (Frame Value) → Bool
  | [], [] => true
  | f :: fs, g :: gs => f.eqv g && eqvPath fs gs
  | _, _ => false

/-- **Equality of cursors.** -/
def eqv (c d : Cursor Value) : Bool :=
  c.focus.eqv true d.focus && eqvPath c.path d.path

/-- The printed form of a path; at the root there is none. -/
def printedPath : List (Frame Value) → String
  | [] => Value.nil.printed
  | f :: outer => f.printed (printedPath outer)

/-- **The printed form of a cursor.** -/
def printed (c : Cursor Value) : String :=
  "Location(node=" ++ c.focus.printed ++ ", path=" ++ printedPath c.path
    ++ ")"

end Cursor

end FormTree
