import FormTree.Number.Binary64

/-!
# Shortest decimal digits

A double is printed with the fewest decimal digits that read back as the
same double and, among those, with the digits closest to its value.

The reals that read back as `m · 2 ^ e` form an interval around it. All of
its ends lie on the grid of step `2 ^ (e - 2)`: the value is `4 m` steps
up, the upper end two steps further, the lower end two steps before, or
one where the next smaller double is at half the usual distance. The ends
belong to the interval when the mantissa is even.

For a number of digits there is a decimal grid, and if any point of that
grid lies in the interval, one of the two neighbours of the value does. So
the search tries one digit, two digits and so on; seventeen always
suffice.
-/

namespace FormTree.Binary64

/-- Digits and power of ten: `digits · 10 ^ exponent`. -/
structure Decimal where
  /-- The digits, read as a whole number. -/
  digits : Nat
  /-- The power of ten of the last digit. -/
  exponent : Int
deriving DecidableEq, Repr

/-- The positive part of an integer, and the positive part of its
opposite. -/
def split (e : Int) : Nat × Nat := (e.toNat, (-e).toNat)

/-- How many decimal digits a whole number has. -/
def decimalLength (n : Nat) : Nat := (Nat.toDigits 10 n).length

/-- The power of ten of the first digit of a positive quotient. The
lengths of the two numbers leave two possibilities. -/
def leadingExponent (num den : Nat) : Int :=
  let guess : Int := (decimalLength num : Int) - decimalLength den
  let (up, down) := split guess
  if den * Nat.pow 10 up ≤ num * Nat.pow 10 down then guess else guess - 1

/-- Whether the mantissa is the least of its exponent, so that the next
smaller double is at half the usual distance. -/
def isLeast (m : Nat) (e : Int) : Bool :=
  m = mantissaBound / 2 && minExponent < e

/-- **The best point of one decimal grid**: the neighbour of `m · 2 ^ e`
on the grid of step `10 ^ k` that reads back, the nearer one if both do,
and on a tie the even one.

Here a step of the binary grid of the interval is `unit` and a step of the
decimal grid is `step`, both measured in a common whole unit. -/
def onGrid (m : Nat) (e k : Int) : Option Nat :=
  let (up2, down2) := split (e - 2)
  let (up10, down10) := split k
  let unit := Nat.pow 2 up2 * Nat.pow 10 down10
  let step := Nat.pow 10 up10 * Nat.pow 2 down2
  let value := 4 * m * unit
  let upper := (4 * m + 2) * unit
  let lower := (if isLeast m e then 4 * m - 1 else 4 * m - 2) * unit
  let inside (c : Nat) : Bool :=
    if m % 2 = 0 then Nat.ble lower (c * step) && Nat.ble (c * step) upper
    else Nat.blt lower (c * step) && Nat.blt (c * step) upper
  let below := value / step
  let rest := value % step
  match inside below, inside (below + 1) with
  | true, true =>
    if 2 * rest < step then some below
    else if step < 2 * rest then some (below + 1)
    else if below % 2 = 0 then some below
    else some (below + 1)
  | true, false => some below
  | false, true => some (below + 1)
  | false, false => none

/-- The digits without zeros at the end; `fuel` bounds their number. -/
def dropZeros : (fuel : Nat) → Decimal → Decimal
  | 0, d => d
  | fuel + 1, d =>
    if d.digits ≠ 0 ∧ d.digits % 10 = 0 then
      dropZeros fuel ⟨d.digits / 10, d.exponent + 1⟩
    else d

/-- The first grid with a point that reads back, of those with
`18 - fuel`, `19 - fuel`, … digits. -/
def searchGrids (m : Nat) (e leading : Int) : (fuel : Nat) → Decimal
  | 0 => ⟨m, 0⟩
  | fuel + 1 =>
    let k := leading - (17 - (fuel + 1 : Nat) : Int)
    match onGrid m e k with
    | some c => dropZeros 18 ⟨c, k⟩
    | none => searchGrids m e leading fuel

/-- **The shortest digits** of the positive number `m · 2 ^ e`. -/
def shortest (m : Nat) (e : Int) : Decimal :=
  let (up, down) := split e
  let leading := leadingExponent (m * Nat.pow 2 up) (Nat.pow 2 down)
  searchGrids m e leading 17

example : shortest 1 (-1074) = ⟨5, -324⟩ := by decide +kernel

example : shortest 7205759403792794 (-56) = ⟨1, -1⟩ := by decide +kernel

example : shortest 9007199254740991 971
    = ⟨17976931348623157, 292⟩ := by decide +kernel

end FormTree.Binary64
