import FormTree.Text

/-!
# Blank text

Formatting between forms is blank text: a separator must consist of blank
characters, and of at least one. Which characters count as blank is a
matter of the character tables and not of this library, so the class is
given here once, as closed ranges of code points, and everything else asks
`isBlankPoint` and `isBlank`.
-/

namespace FormTree.Text

/-- Whether a code point lies in one of the given closed ranges. -/
def inRanges (ranges : List (Nat × Nat)) (n : Nat) : Bool :=
  ranges.any fun r => Nat.ble r.1 n && Nat.ble n r.2

/-- **The blank characters**: the separators of the space, line and
paragraph classes together with the control characters that act as
such. -/
def blankRanges : List (Nat × Nat) :=
  [(0x09, 0x0D), (0x1C, 0x20), (0x85, 0x85), (0xA0, 0xA0),
   (0x1680, 0x1680), (0x2000, 0x200A), (0x2028, 0x2029),
   (0x202F, 0x202F), (0x205F, 0x205F), (0x3000, 0x3000)]

/-- Whether a code point is a blank character. -/
def isBlankPoint (n : Nat) : Bool := inRanges blankRanges n

/-- **Blank text**: not empty, and every character of it blank. -/
def isBlank (t : Text) : Bool :=
  match t.points with
  | [] => false
  | n :: ns => isBlankPoint n && ns.all isBlankPoint

end FormTree.Text
