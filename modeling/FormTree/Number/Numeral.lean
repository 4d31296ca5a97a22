import FormTree.Number.Binary64
import FormTree.Number.Shortest

/-!
# Written numbers

How a number is written and read: an optional minus sign, a whole part
without needless zeros, optionally a fraction and optionally a power of
ten. A numeral with neither fraction nor power denotes a whole number; any
other denotes the nearest double.

In the other direction `Binary64.text` writes a double. What is particular
to this way of writing – from where to where numbers are written without a
power, and how the power looks – is the record `Binary64.Style`.
-/

namespace FormTree

/-- **A numeral**, split into its parts. -/
structure Numeral where
  /-- Whether a minus sign is written. -/
  negative : Bool
  /-- The digits before the point. -/
  whole : List Char
  /-- The digits after the point, if there is one. -/
  fraction : Option (List Char)
  /-- The power of ten, if one is written. -/
  power : Option Int

namespace Numeral

/-- The decimal digits. -/
def isDigit (c : Char) : Bool := Nat.ble 48 c.toNat && Nat.ble c.toNat 57

/-- The whole number that decimal digits denote. -/
def natOfDigits (ds : List Char) : Nat :=
  ds.foldl (fun n d => 10 * n + (d.toNat - 48)) 0

/-- The longest run of digits at the front, and what follows it. -/
def spanDigits (cs : List Char) : List Char × List Char :=
  (cs.takeWhile isDigit, cs.dropWhile isDigit)

/-- The whole part: a single zero, or digits that start with another. -/
def scanWhole : List Char → Option (List Char × List Char)
  | [] => none
  | c :: cs =>
    if c = '0' then some ([c], cs)
    else if isDigit c then
      let (ds, rest) := spanDigits cs
      some (c :: ds, rest)
    else none

/-- The fraction: a point with at least one digit. A point without digits
is left unread. -/
def scanFraction (cs : List Char) : Option (List Char) × List Char :=
  match cs with
  | '.' :: rest =>
    match spanDigits rest with
    | ([], _) => (none, cs)
    | (ds, after) => (some ds, after)
  | _ => (none, cs)

/-- An optional sign in front of a power. -/
def scanSign : List Char → Bool × List Char
  | '-' :: cs => (true, cs)
  | '+' :: cs => (false, cs)
  | cs => (false, cs)

/-- The power of ten: the mark, an optional sign and at least one digit. A
mark without digits is left unread. -/
def scanPower (cs : List Char) : Option Int × List Char :=
  match cs with
  | c :: rest =>
    if c = 'e' || c = 'E' then
      let (negative, rest) := scanSign rest
      match spanDigits rest with
      | ([], _) => (none, cs)
      | (ds, after) =>
        let n : Int := natOfDigits ds
        (some (if negative then -n else n), after)
    else (none, cs)
  | [] => (none, cs)

/-- **The longest numeral at the front** of a text, and what follows
it. -/
def scan (cs : List Char) : Option (Numeral × List Char) :=
  let (negative, cs) := match cs with
    | '-' :: rest => (true, rest)
    | _ => (false, cs)
  match scanWhole cs with
  | none => none
  | some (whole, rest) =>
    let (fraction, rest) := scanFraction rest
    let (power, rest) := scanPower rest
    some (⟨negative, whole, fraction, power⟩, rest)

/-- A run of digits leaves no more than there was. -/
theorem length_spanDigits (cs : List Char) :
    (spanDigits cs).2.length ≤ cs.length :=
  (List.dropWhile_sublist isDigit).length_le

/-- A whole part takes at least one character. -/
theorem length_of_scanWhole {cs ds rest : List Char}
    (h : scanWhole cs = some (ds, rest)) : rest.length < cs.length := by
  cases cs with
  | nil => cases h
  | cons c cs =>
    have := length_spanDigits cs
    rw [scanWhole] at h
    split at h
    · cases h
      simp
    · split at h
      · simp only [Option.some.injEq, Prod.mk.injEq] at h
        rw [← h.2, List.length_cons]
        omega
      · cases h

/-- A fraction leaves no more than there was. -/
theorem length_scanFraction (cs : List Char) :
    (scanFraction cs).2.length ≤ cs.length := by
  unfold scanFraction
  split
  · next rest =>
    have := length_spanDigits rest
    split
    · simp
    · next h =>
      rw [h] at this
      simp only [List.length_cons] at *
      omega
  · simp

/-- A sign leaves no more than there was. -/
theorem length_scanSign (cs : List Char) :
    (scanSign cs).2.length ≤ cs.length := by
  unfold scanSign
  split <;> simp

/-- A power leaves no more than there was. -/
theorem length_scanPower (cs : List Char) :
    (scanPower cs).2.length ≤ cs.length := by
  unfold scanPower
  split
  · next c rest =>
    split
    · have h1 := length_scanSign rest
      have h2 := length_spanDigits (scanSign rest).2
      dsimp only
      split
      · simp
      · next h =>
        rw [h] at h2
        simp only [List.length_cons] at *
        omega
    · simp
  · simp

/-- A numeral takes at least one character. -/
theorem length_of_scan {cs rest : List Char} {n : Numeral}
    (h : scan cs = some (n, rest)) : rest.length < cs.length := by
  unfold scan at h
  split at h
  next neg ds hds =>
  have hle : ds.length ≤ cs.length := by
    split at hds <;> cases hds <;> simp
  split at h
  · cases h
  · next whole r hr =>
    have h1 := length_of_scanWhole hr
    have h2 := length_scanFraction r
    have h3 := length_scanPower (scanFraction r).2
    simp only [Option.some.injEq, Prod.mk.injEq] at h
    rw [← h.2]
    omega

/-- Whether the numeral denotes a whole number. -/
def isWhole (n : Numeral) : Bool := n.fraction.isNone && n.power.isNone

/-- The whole number a numeral without fraction and power denotes. -/
def toInt (n : Numeral) : Int :=
  let m : Int := natOfDigits n.whole
  if n.negative then -m else m

/-- How many digits a whole number may be written with. -/
def maxDigits : Nat := 4300

/-- A whole number that is written with more digits than are read. -/
structure TooLong where
  /-- The number of its digits. -/
  digits : Nat
deriving DecidableEq, Repr

/-- The wording of such a refusal. -/
def TooLong.message (t : TooLong) : String :=
  "Exceeds the limit (" ++ maxDigits.repr
    ++ " digits) for integer string conversion: value has " ++ t.digits.repr
    ++ " digits; use sys.set_int_max_str_digits() to increase the limit"

/-- **The whole number that a numeral is read as**, unless it is too long
to be read. -/
def readInt (n : Numeral) : Except TooLong Int :=
  if n.whole.length ≤ maxDigits then .ok n.toInt
  else .error ⟨n.whole.length⟩

/-- **The double a numeral denotes.** -/
def toBinary64 (n : Numeral) : Binary64 :=
  let fraction := n.fraction.getD []
  Binary64.ofDecimal n.negative (natOfDigits (n.whole ++ fraction))
    (n.power.getD 0 - fraction.length)

end Numeral

namespace Binary64

/-- **How doubles are written**, where there is a choice. -/
structure Style where
  /-- Numbers whose first digit stands for a smaller power of ten than
  this are written with a power. -/
  firstPositional : Int
  /-- Numbers whose first digit stands for this power of ten or a larger
  one are written with a power. -/
  firstLarge : Int
  /-- The mark in front of the power. -/
  mark : Char
  /-- The least number of digits of a power. -/
  powerWidth : Nat
  /-- The text of an indefinite result. -/
  nanText : String
  /-- The text of an infinity, without its sign. -/
  infinityText : String

/-- The style of printed literals: positional from a ten-thousandth up to
below ten to the sixteenth, and a signed power of two digits beyond. -/
def literalStyle : Style where
  firstPositional := -4
  firstLarge := 16
  mark := 'e'
  powerWidth := 2
  nanText := "nan"
  infinityText := "inf"

/-- A point with the digits after it; a whole number shows one zero
there. -/
def withPoint (whole fraction : List Char) : List Char :=
  whole ++ '.' :: (if fraction.isEmpty then ['0'] else fraction)

/-- The signed power of ten. -/
def powerText (style : Style) (p : Int) : List Char :=
  let ds := Nat.toDigits 10 p.natAbs
  style.mark :: (if p < 0 then '-' else '+')
    :: (List.replicate (style.powerWidth - ds.length) '0' ++ ds)

/-- **The digits of a positive number in a style.** -/
def layout (style : Style) (d : Decimal) : List Char :=
  let ds := Nat.toDigits 10 d.digits
  let leading : Int := d.exponent + ds.length - 1
  if leading < style.firstPositional || style.firstLarge ≤ leading then
    match ds with
    | [only] => only :: powerText style leading
    | first :: others => withPoint [first] others ++ powerText style leading
    | [] => []
  else if leading < 0 then
    withPoint ['0'] (List.replicate (-leading - 1).toNat '0' ++ ds)
  else
    let wholeLength := leading.toNat + 1
    withPoint
      (ds.take wholeLength
        ++ List.replicate (wholeLength - ds.length) '0')
      (ds.drop wholeLength)

/-- The text of a double in a style. -/
def textIn (style : Style) : Binary64 → String
  | .nan _ => style.nanText
  | .infinite negative =>
    if negative then "-" ++ style.infinityText else style.infinityText
  | .finite negative m e =>
    let body :=
      if m = 0 then withPoint ['0'] [] else layout style (shortest m e)
    String.ofList (if negative then '-' :: body else body)

/-- **The printed form of a double.** -/
def text (x : Binary64) : String := textIn literalStyle x

/-- **A double from its printed form.** The origin is that of an
indefinite result. -/
def ofText? (origin : Nat) (s : String) : Option Binary64 :=
  if s = literalStyle.nanText then some (.nan ⟨origin, []⟩)
  else if s = literalStyle.infinityText then some (.infinite false)
  else if s = "-" ++ literalStyle.infinityText then some (.infinite true)
  else
    match Numeral.scan s.toList with
    | some (n, []) => some n.toBinary64
    | _ => none

end Binary64

end FormTree
