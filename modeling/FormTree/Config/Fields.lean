import FormTree.Config
import FormTree.Json
import FormTree.Text.Quoted

/-!
# Settings from named fields

Settings are given field by field. Each field has its own rule, unknown
fields are refused, and everything that is wrong is reported at once: the
separator first, then the treatment of comments, then the unknown fields
in the order in which they were given. Only when the name of some field
holds half a character is that reported and nothing else.

The treatment of comments is a truth value, but the usual ways of writing
one are understood as well: the numbers one and zero, and a few words.
-/

namespace FormTree

/-- **What is wrong with a field.** -/
inductive Issue where
  /-- The separator is not a text. -/
  | separatorNotText
  /-- The separator is not blank text. -/
  | separatorNotBlank (t : Text)
  /-- The treatment of comments is a word or a number that is no truth
  value. -/
  | commentsUnclear
  /-- The treatment of comments is nothing like a truth value. -/
  | commentsNotTruth
  /-- The treatment of comments holds half a character. -/
  | commentsHalved
  /-- The name of a field holds half a character. -/
  | nameHalved
  /-- There is no such field. -/
  | unknownField (name : String)
deriving DecidableEq, Repr

namespace Issue

/-- The field that is wrong, if it has a name. -/
def field? : Issue → Option String
  | .separatorNotText => some "separator"
  | .separatorNotBlank _ => some "separator"
  | .commentsUnclear => some "skip_comments"
  | .commentsNotTruth => some "skip_comments"
  | .commentsHalved => some "skip_comments"
  | .nameHalved => none
  | .unknownField name => some name

/-- The code of an issue. -/
def code : Issue → String
  | .separatorNotText => "string_type"
  | .separatorNotBlank _ => "value_error"
  | .commentsUnclear => "bool_parsing"
  | .commentsNotTruth => "bool_type"
  | .commentsHalved => "string_unicode"
  | .nameHalved => "string_unicode"
  | .unknownField _ => "extra_forbidden"

/-- The wording for a text with half a character in it. -/
def halvedMessage : String :=
  "Input should be a valid string, unable to parse raw data as a unicode"
    ++ " string"

/-- The wording of an issue. -/
def message : Issue → String
  | .separatorNotText => "Input should be a valid string"
  | .separatorNotBlank t =>
    "Value error, Separator must be non-empty whitespace, got: "
      ++ t.quoted
  | .commentsUnclear =>
    "Input should be a valid boolean, unable to interpret input"
  | .commentsNotTruth => "Input should be a valid boolean"
  | .commentsHalved => halvedMessage
  | .nameHalved => halvedMessage
  | .unknownField _ => "Extra inputs are not permitted"

end Issue

namespace Config

/-- The words for no. -/
def noWords : List String := ["0", "off", "f", "false", "n", "no"]

/-- The words for yes. -/
def yesWords : List String := ["1", "on", "t", "true", "y", "yes"]

/-- A truth value from a word, whatever its letters' case. -/
def truthOfWord (s : String) : Except Issue Bool :=
  let s := String.ofList (s.toList.map Char.toLower)
  if yesWords.contains s then .ok true
  else if noWords.contains s then .ok false
  else .error .commentsUnclear

/-- The numbers of a machine word with a sign lie below this bound. -/
def wordBound : Int := 9223372036854775808

/-- A truth value from a whole number above some least one: one and zero
are truth values, other numbers below the bound of a machine word are
unclear, and the rest is not like a truth value at all. -/
def truthOfWhole (least n : Int) : Except Issue Bool :=
  if n = 0 then .ok false
  else if n = 1 then .ok true
  else if least ≤ n && n < wordBound then .error .commentsUnclear
  else .error .commentsNotTruth

/-- A truth value from a double, which has to be a whole number. The least
number of a machine word counts as one of its whole numbers, but not as
one of its doubles. -/
def truthOfDouble (x : Binary64) : Except Issue Bool :=
  match x.value? with
  | none => .error .commentsNotTruth
  | some q =>
    if q.den = 1 then truthOfWhole (1 - wordBound) q.num
    else .error .commentsNotTruth

/-- **A truth value, as it may be written.** -/
def truthOf : Json → Except Issue Bool
  | .bool b => .ok b
  | .string t =>
    match t.string? with
    | some s => truthOfWord s
    | none => .error .commentsHalved
  | .int n => truthOfWhole (-wordBound) n
  | .float x => truthOfDouble x
  | _ => .error .commentsNotTruth

/-- A separator: a text together with the fact that it is blank. -/
abbrev Separator := { t : Text // t.isBlank = true }

/-- **A separator, as it may be written.** -/
def separatorOf : Json → Except Issue Separator
  | .string t =>
    if h : t.isBlank = true then .ok ⟨t, h⟩
    else .error (.separatorNotBlank t)
  | _ => .error .separatorNotText

/-- Fields by names without halves of characters. -/
abbrev Fields := List (String × Json)

/-- The fields, if no name holds half a character. -/
def named? : List (Text × Json) → Option Fields
  | [] => some []
  | (name, j) :: rest =>
    match name.string?, named? rest with
    | some name, some fields => some ((name, j) :: fields)
    | _, _ => none

/-- The value of a field. -/
def field? (name : String) (fields : Fields) : Option Json :=
  (fields.find? fun f => decide (f.1 = name)).map Prod.snd

/-- A field that is read if it is given. -/
def readField {α : Type} (fields : Fields) (name : String)
    (standard : α) (read : Json → Except Issue α) :
    Except Issue α :=
  match field? name fields with
  | none => .ok standard
  | some j => read j

/-- The issue of a field, if there is one. -/
def issueOf {α : Type} : Except Issue α → List Issue
  | .ok _ => []
  | .error issue => [issue]

/-- The names of the fields there are. -/
def fieldNames : List String := ["separator", "skip_comments"]

/-- The issues of the fields there are not. -/
def unknownFields (fields : Fields) : List Issue :=
  (fields.filter fun f => !fieldNames.contains f.1).map fun f =>
    .unknownField f.1

/-- Settings from fields with proper names, or everything that is wrong
with them. -/
def ofNamed (fields : Fields) : Except (List Issue) Config :=
  let separator := readField fields "separator"
    (⟨standard.separator, standard.isBlank_separator⟩ : Separator)
    separatorOf
  let comments :=
    readField fields "skip_comments" standard.skipComments truthOf
  match separator, comments, unknownFields fields with
  | .ok s, .ok b, [] => .ok ⟨s.1, b, s.2⟩
  | _, _, unknown =>
    .error (issueOf separator ++ issueOf comments ++ unknown)

/-- **Settings from their fields**, or what is wrong with them. -/
def ofFields (fields : List (Text × Json)) :
    Except (List Issue) Config :=
  match named? fields with
  | some fields => ofNamed fields
  | none => .error [.nameHalved]

end Config

end FormTree
