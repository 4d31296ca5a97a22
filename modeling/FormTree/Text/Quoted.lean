import FormTree.Text.Printable

/-!
# Quoted text

Texts and byte strings are printed between quotes. The rule is the same
for both, up to which characters are shown as themselves: the single quote
is used unless the text holds one and holds no double quote, the quote in
use and the backslash are escaped, the three usual line characters have
short escapes, and whatever has no visible shape is written by its number
in hexadecimal.
-/

namespace FormTree.Text

/-- The quote that is used by default. -/
def singleQuote : Char := '\x27'

/-- The quote that is used around a text with single quotes only. -/
def doubleQuote : Char := '\x22'

/-- The escape character. -/
def backslash : Char := '\x5c'

/-- The `width` lowest hexadecimal digits of a number, most significant
first. -/
def hexDigits : (width n : Nat) → List Char
  | 0, _ => []
  | w + 1, n => hexDigits w (n / 16) ++ [Nat.digitChar (n % 16)]

/-- The escape of a code point that is not shown: its number in two, four
or eight hexadecimal digits, whichever is the first to hold it. -/
def escapeByNumber (n : Nat) : List Char :=
  if n < 0x100 then backslash :: 'x' :: hexDigits 2 n
  else if n < 0x10000 then backslash :: 'u' :: hexDigits 4 n
  else backslash :: 'U' :: hexDigits 8 n

/-- **One code point of a quoted text**, given the quote in use and which
code points are shown. -/
def escapePoint (shown : Nat → Bool) (quote : Char) (n : Nat) :
    List Char :=
  if n = quote.toNat || n = backslash.toNat then [backslash, Char.ofNat n]
  else if n = '\n'.toNat then [backslash, 'n']
  else if n = '\r'.toNat then [backslash, 'r']
  else if n = '\t'.toNat then [backslash, 't']
  else if shown n then [Char.ofNat n]
  else escapeByNumber n

/-- The quote a text is printed between. -/
def quoteFor (t : Text) : Char :=
  if t.points.contains singleQuote.toNat
      && !t.points.contains doubleQuote.toNat then
    doubleQuote
  else singleQuote

/-- A text between quotes, given which code points are shown. -/
def quotedWith (shown : Nat → Bool) (t : Text) : String :=
  let quote := quoteFor t
  String.ofList
    (quote :: t.points.flatMap (escapePoint shown quote) ++ [quote])

/-- **A quoted text.** A half of a character is never shown, so what comes
out is a string. -/
def quoted (t : Text) : String := quotedWith isPrintable t

/-- **A quoted byte string**: the bytes of the visible basic characters
are shown, the others are numbers. -/
def quotedBytes (bytes : List UInt8) : String :=
  "b" ++ quotedWith (fun n => Nat.ble 0x20 n && Nat.blt n 0x7F)
    ⟨bytes.map UInt8.toNat⟩

end FormTree.Text
