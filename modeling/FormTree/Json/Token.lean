import FormTree.Json
import FormTree.Number.Numeral

/-!
# The tokens of JSON

A JSON text is a row of tokens with space between them: brackets and
marks, strings, the words and the numbers. `Token.first?` takes the first
token off a text, as long a token as possible, and every token takes at
least one character.

Strings are texts: an escape may give half a character, two halves in a
row are joined, and a half alone is kept.
-/

namespace FormTree.Json

/-- **The tokens of a JSON text.** -/
inductive Token where
  | openArray
  | closeArray
  | openObject
  | closeObject
  | comma
  | colon
  /-- A string, which may be a value or a key. -/
  | text (t : Text)
  /-- A value that is written as a word. -/
  | word (j : Json)
  /-- A number, as it is written. -/
  | numeral (n : Numeral)

/-- The characters that may stand between tokens. -/
def isSpace (c : Char) : Bool :=
  c = ' ' || c = '\t' || c = '\n' || c = '\r'

/-- The number of a hexadecimal digit. -/
def hexValue? (c : Char) : Option Nat :=
  let n := c.toNat
  if 48 ≤ n && n ≤ 57 then some (n - 48)
  else if 65 ≤ n && n ≤ 70 then some (n - 55)
  else if 97 ≤ n && n ≤ 102 then some (n - 87)
  else none

/-- The number of four hexadecimal digits. -/
def hexValue4? (a b c d : Char) : Option Nat :=
  match hexValue? a, hexValue? b, hexValue? c, hexValue? d with
  | some a, some b, some c, some d =>
    some (((a * 16 + b) * 16 + c) * 16 + d)
  | _, _, _, _ => none

/-- The character an escape of one letter stands for. -/
def escaped? : Char → Option Nat
  | '\x22' => some 0x22
  | '\x5c' => some 0x5C
  | '/' => some 0x2F
  | 'b' => some 0x08
  | 'f' => some 0x0C
  | 'n' => some 0x0A
  | 'r' => some 0x0D
  | 't' => some 0x09
  | _ => none

/-- **The rest of a string** after its opening quote: its characters by
their numbers, and what follows the closing quote. -/
def scanString : List Char → Option (List Nat × List Char)
  | [] => none
  | '\x22' :: rest => some ([], rest)
  | '\x5c' :: 'u' :: a :: b :: c :: d :: rest =>
    match hexValue4? a b c d with
    | some n => (scanString rest).map fun r => (n :: r.1, r.2)
    | none => none
  | '\x5c' :: e :: rest =>
    match escaped? e with
    | some n => (scanString rest).map fun r => (n :: r.1, r.2)
    | none => none
  | c :: rest =>
    if c.toNat < 0x20 then none
    else (scanString rest).map fun r => (c.toNat :: r.1, r.2)

/-- What follows a string is shorter than the two together. -/
theorem length_of_scanString {cs rest : List Char} {ns : List Nat}
    (h : scanString cs = some (ns, rest)) : rest.length < cs.length := by
  fun_induction scanString cs generalizing ns rest with
  | case1 => cases h
  | case2 r =>
    cases h
    simp
  | case3 a b c d r n hn ih =>
    obtain ⟨p, hp, hq⟩ := Option.map_eq_some_iff.mp h
    cases hq
    have := ih hp
    simp only [List.length_cons]
    omega
  | case4 => cases h
  | case5 e r _ n hn ih =>
    obtain ⟨p, hp, hq⟩ := Option.map_eq_some_iff.mp h
    cases hq
    have := ih hp
    simp only [List.length_cons]
    omega
  | case6 => cases h
  | case7 => cases h
  | case8 c r _ _ _ hc ih =>
    obtain ⟨p, hp, hq⟩ := Option.map_eq_some_iff.mp h
    cases hq
    have := ih hp
    simp only [List.length_cons]
    omega

/-- The values that are written as words. -/
def words : List (List Char × Json) :=
  [("null".toList, .null), ("true".toList, .bool true),
   ("false".toList, .bool false), ("NaN".toList, .float (.nan ⟨0, []⟩)),
   ("Infinity".toList, .float (.infinite false)),
   ("-Infinity".toList, .float (.infinite true))]

/-- A word at the front of a text, and what follows it. -/
def scanWord (cs : List Char) : Option (Json × List Char) :=
  words.findSome? fun w =>
    if w.1.isPrefixOf cs then some (w.2, cs.drop w.1.length) else none

/-- No word is empty. -/
theorem length_words : ∀ w ∈ words, 0 < w.1.length := by
  simp [words]

/-- A word takes at least one character. -/
theorem length_of_scanWord {c : Char} {cs rest : List Char}
    {j : Json} (h : scanWord (c :: cs) = some (j, rest)) :
    rest.length < (c :: cs).length := by
  obtain ⟨w, hmem, hw⟩ := List.exists_of_findSome?_eq_some h
  have := length_words w hmem
  split at hw
  · cases hw
    simp only [List.length_drop, List.length_cons]
    omega
  · cases hw

/-- The token of a bracket or a mark. -/
def mark? : Char → Option Token
  | '[' => some .openArray
  | ']' => some .closeArray
  | '\x7b' => some .openObject
  | '\x7d' => some .closeObject
  | ',' => some .comma
  | ':' => some .colon
  | _ => none

namespace Token

/-- **The first token** of a text that starts with a given character, and
what follows it. -/
def first? (c : Char) (rest : List Char) : Option (Token × List Char) :=
  match mark? c with
  | some t => some (t, rest)
  | none =>
    if c = '\x22' then
      (scanString rest).map fun r => (.text (.ofPairs r.1), r.2)
    else
      match scanWord (c :: rest) with
      | some r => some (.word r.1, r.2)
      | none =>
        (Numeral.scan (c :: rest)).map fun r => (.numeral r.1, r.2)

/-- A token takes at least one character. -/
theorem length_of_first? {c : Char} {rest after : List Char} {t : Token}
    (h : first? c rest = some (t, after)) :
    after.length < (c :: rest).length := by
  unfold first? at h
  split at h
  · cases h
    simp
  · split at h
    · obtain ⟨r, hr, hq⟩ := Option.map_eq_some_iff.mp h
      cases hq
      have := length_of_scanString hr
      simp only [List.length_cons]
      omega
    · split at h
      · next r hw =>
        cases h
        exact length_of_scanWord hw
      · obtain ⟨r, hr, hq⟩ := Option.map_eq_some_iff.mp h
        cases hq
        exact Numeral.length_of_scan hr

end Token

end FormTree.Json
