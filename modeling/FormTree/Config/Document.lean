import FormTree.Config.Fields
import FormTree.Json.Reading

/-!
# Settings from a document

Settings may be kept in a document of their own. It is read as text, the
text as JSON, the JSON as an object and the members of the object as
fields; each stage has its own way to fail, and the first that fails is
the one reported.
-/

namespace FormTree

/-- What is found where a document should be. -/
inductive Document where
  /-- Nothing. -/
  | missing
  /-- A directory. -/
  | directory
  /-- The bytes of a document. -/
  | content (bytes : ByteArray)

/-- **Why a document gives no settings.** -/
inductive DocumentError where
  | missing
  | directory
  | notText
  | unreadable (fault : Json.Fault)
  | notObject
  | invalid (issues : List Issue)

namespace DocumentError

/-- The name of a field. A name with a dot in it is set apart, since the
dot is what joins names. -/
def fieldText (name : String) : String :=
  if name.toList.contains '.' then "`" ++ name ++ "`" else name

/-- One issue on lines of its own, the field on the first. -/
def issueText (i : Issue) : String :=
  let line := match i.field? with
    | some name => "\n" ++ fieldText name
    | none => ""
  line ++ "\n  " ++ i.message ++ " [type=" ++ i.code ++ "]"

/-- The wording of a fault. -/
def faultText : Json.Fault → String
  | .malformed => "Invalid JSON"
  | .numeralTooLong cause => "Validation error: " ++ cause.message
  | .tooDeep array =>
    "maximum recursion depth exceeded while decoding a JSON "
      ++ (if array then "array" else "object") ++ " from a unicode string"

/-- How many issues there are. -/
def countText (issues : List Issue) : String :=
  match issues.length with
  | 1 => "1 validation error for ZipperConfig"
  | n => n.repr ++ " validation errors for ZipperConfig"

/-- The wording, given where the document should be. -/
def message (path : String) : DocumentError → String
  | .missing => "Configuration file not found: " ++ path
  | .directory =>
    "Cannot read configuration: [Errno 21] Is a directory: "
      ++ Text.quoted path
  | .notText => "Validation error: 'utf-8' codec"
  | .unreadable fault => faultText fault
  | .notObject => "Configuration must be a JSON object"
  | .invalid issues =>
    "Validation error: " ++ countText issues
      ++ String.join (issues.map issueText)

/-- The report to a caller who needs the settings. -/
def report (path : String) (e : DocumentError) : Report :=
  ⟨e.message path, .configuration none,
    [(.text "path", .text path)]⟩

end DocumentError

namespace Document

/-- The settings in a text. -/
def settingsIn (s : String) : Except DocumentError Config :=
  match Json.ofText s with
  | .error fault => .error (.unreadable fault)
  | .ok (.object fields) =>
    match Config.ofFields fields with
    | .ok cfg => .ok cfg
    | .error issues => .error (.invalid issues)
  | .ok _ => .error .notObject

/-- **The settings in a document.** -/
def settings : Document → Except DocumentError Config
  | .missing => .error .missing
  | .directory => .error .directory
  | .content bytes =>
    match String.fromUTF8? bytes with
    | none => .error .notText
    | some s => settingsIn s

end Document

end FormTree
