/-!
# Floating-point numbers

A literal may be a floating-point number of double width. The library
computes nothing with such numbers; it compares them with the other
numeric literals, reads them and prints them, and all three have to be
exact. So a number is kept here as what it denotes – a sign, a whole
mantissa and a power of two – and its value is a rational.

`Binary64.nearest` is the only way a number enters: the double closest to
a quotient of whole numbers, a tie going to the even mantissa, and an
infinity past the largest double.
-/

namespace FormTree

/-- **An indefinite result.** As numbers all of them are alike, so what
tells one from another is kept beside: which result it is, and where that
result stands when it has been written down more than once. -/
structure Indefinite where
  /-- Which result this is. -/
  origin : Nat
  /-- Where it stands. -/
  place : List Nat
deriving DecidableEq, Inhabited

/-- **A double**: an indefinite result, an infinity, or
`± mantissa · 2 ^ exponent`. Zero keeps its sign, which printing shows and
comparison ignores. -/
inductive Binary64 where
  | nan (result : Indefinite)
  | infinite (negative : Bool)
  | finite (negative : Bool) (mantissa : Nat) (exponent : Int)
deriving DecidableEq, Inhabited

namespace Binary64

/-- The number of bits of a mantissa. -/
def precision : Nat := 53

/-- The mantissas are the whole numbers below this bound. -/
def mantissaBound : Nat := Nat.pow 2 precision

/-- The exponent of the smallest doubles. -/
def minExponent : Int := -1074

/-- The exponent of the largest doubles. -/
def maxExponent : Int := 971

/-- **The exact value** of a double, where it has one. -/
def value? : Binary64 → Option Rat
  | .nan _ => none
  | .infinite _ => none
  | .finite negative m e =>
    let magnitude : Rat :=
      if 0 ≤ e then mkRat (m * Nat.pow 2 e.toNat) 1
      else mkRat m (Nat.pow 2 (-e).toNat)
    some (if negative then -magnitude else magnitude)

/-- The whole number nearest to a quotient, a tie going to the even
one. -/
def roundQuotient (num den : Nat) : Nat :=
  let q := num / den
  let r := num % den
  if 2 * r < den then q
  else if den < 2 * r then q + 1
  else if q % 2 = 0 then q
  else q + 1

/-- Numerator and denominator of `num / den / 2 ^ e`. -/
def scaled (num den : Nat) (e : Int) : Nat × Nat :=
  if 0 ≤ e then (num, den * Nat.pow 2 e.toNat)
  else (num * Nat.pow 2 (-e).toNat, den)

/-- The exponent at which `num / den` has a mantissa of full precision,
or the least exponent for the numbers too small to have one. The first
guess, from the lengths of the two numbers, is right or one too small. -/
def exponentFor (num den : Nat) : Int :=
  let guess : Int := max ((num.log2 : Int) - den.log2 - precision) minExponent
  let (n, d) := scaled num den guess
  if n / d < mantissaBound then guess else guess + 1

/-- **The double nearest to `± num / den`**, a tie going to the even
mantissa. -/
def nearest (negative : Bool) (num den : Nat) : Binary64 :=
  if num = 0 then .finite negative 0 minExponent
  else
    let e := exponentFor num den
    let (n, d) := scaled num den e
    let m := roundQuotient n d
    let (m, e) := if m < mantissaBound then (m, e) else (m / 2, e + 1)
    if maxExponent < e then .infinite negative
    else .finite negative m e

/-- Powers of ten that no double reaches, upwards or, with as many digits
as a number has, downwards. -/
def decimalReach : Int := 400

/-- **The double nearest to `± digits · 10 ^ exponent`.** A number out of
reach is settled without computing its power of ten. -/
def ofDecimal (negative : Bool) (digits : Nat) (exponent : Int) : Binary64 :=
  if digits = 0 then .finite negative 0 minExponent
  else if decimalReach < exponent then .infinite negative
  else if exponent + digits.log2 < -decimalReach then
    .finite negative 0 minExponent
  else if 0 ≤ exponent then
    nearest negative (digits * Nat.pow 10 exponent.toNat) 1
  else nearest negative digits (Nat.pow 10 (-exponent).toNat)

end Binary64

end FormTree
