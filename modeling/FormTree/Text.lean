/-!
# Texts

A text is a row of code points. Nearly all of them are characters; the
exception are the halves, the code points of one range that are reserved
for giving a character beyond the basic plane in two parts. A half alone
is no character, and still a text that comes from outside may hold one: it
has to be kept, compared and shown like any other code point.

So the texts of the library are a little wider than the strings of
characters. Every string is a text (`Text.ofString`), and a text is a
string exactly when it holds no half (`Text.string?`).
-/

namespace FormTree

/-- **A text**, by its code points. -/
@[ext] structure Text where
  /-- The code points. -/
  points : List Nat
deriving DecidableEq, Inhabited, Repr

namespace Text

/-- Whether a code point is the first half of a pair. -/
def isHighHalf (n : Nat) : Bool := Nat.ble 0xD800 n && Nat.ble n 0xDBFF

/-- Whether a code point is the second half of a pair. -/
def isLowHalf (n : Nat) : Bool := Nat.ble 0xDC00 n && Nat.ble n 0xDFFF

/-- Whether a code point is no character. -/
def isHalf (n : Nat) : Bool := isHighHalf n || isLowHalf n

/-- A character is no half. -/
theorem isHalf_toNat (c : Char) : isHalf c.toNat = false := by
  have h : c.toNat < 0xD800 ∨ 0xDFFF < c.toNat ∧ c.toNat < 0x110000 :=
    c.valid
  rw [← Bool.not_eq_true]
  simp only [isHalf, isHighHalf, isLowHalf, Bool.or_eq_true,
    Bool.and_eq_true, Nat.ble_eq]
  omega

/-! ## Texts and strings -/

/-- **The text of a string.** -/
def ofString (s : String) : Text := ⟨s.toList.map Char.toNat⟩

instance : Coe String Text := ⟨ofString⟩

/-- **The string that a text is**, if it holds no half. -/
def string? (t : Text) : Option String :=
  if t.points.any isHalf then none
  else some (String.ofList (t.points.map Char.ofNat))

/-- Every string is the string of its text. -/
@[simp] theorem string?_ofString (s : String) :
    (ofString s).string? = some s := by
  simp [string?, ofString, isHalf_toNat, Function.comp_def]

/-! ## Putting texts together -/

/-- One text after another. -/
def append (s t : Text) : Text := ⟨s.points ++ t.points⟩

instance : Append Text := ⟨append⟩

@[simp] theorem points_append (s t : Text) :
    (s ++ t).points = s.points ++ t.points := rfl

/-- The code point of the character that two halves stand for. -/
def joined (high low : Nat) : Nat :=
  0x10000 + (high - 0xD800) * 0x400 + (low - 0xDC00)

/-- The code points of a row in which characters may be given in two
halves. A half without its partner stays. -/
def joinPairs : List Nat → List Nat
  | [] => []
  | [n] => [n]
  | m :: n :: rest =>
    if isHighHalf m && isLowHalf n then joined m n :: joinPairs rest
    else m :: joinPairs (n :: rest)

/-- **The text of a row** in which characters may be given in two
halves. -/
def ofPairs (ns : List Nat) : Text := ⟨joinPairs ns⟩

end Text

end FormTree
