import FormTree.Value.Membership
import FormTree.Value.Printed

/-!
# What can go wrong

Moving about in a tree never fails; a move that leads nowhere has no
result. Failures are left to four things: a branch put together from
what cannot be its children (`StructureError`), a value or a node without
a counterpart on the other side of a conversion (`ConversionError`), a
cursor put by hand into a row that has no such place, and whatever a
function of the caller's raises itself, be it handed in or the hash
function of an object.

Each failure is a cause with the data it concerns. Its wording is in one
place, and so is the report that a caller sees: message, code, details and
the one attribute of its category.
-/

namespace FormTree

/-- A kind as it is asked for: one of the kinds, or a plain name. -/
inductive KindRequest where
  | kind (k : Kind)
  | name (t : Text)
deriving DecidableEq, Repr

namespace KindRequest

/-- The printed form of a request. -/
def printed : KindRequest → String
  | .kind k => k.printed
  | .name t => t.quoted

end KindRequest

/-- **Why a branch cannot be built.** -/
inductive StructureError where
  /-- The kind asked for has no children. -/
  | notComposite (request : KindRequest)
  /-- The children come in a collection without an order. -/
  | unorderedChildren (kind : Composite) (typeName : String)
  /-- A child is not a node. -/
  | childNotNode (kind : Composite) (child : Value)
  /-- Something that is not a branch was to be given children. -/
  | notRebuildable (value : Value)

namespace StructureError

/-- The wording of a structural failure. -/
def message : StructureError → String
  | .notComposite request => "Not a composite kind: " ++ request.printed
  | .unorderedChildren kind typeName =>
    "Children of a " ++ kind.name ++ " node must be an ordered sequence, got "
      ++ typeName
  | .childNotNode kind child =>
    "Child of a " ++ kind.name ++ " node is not a node: " ++ child.printed
  | .notRebuildable value =>
    "Cannot rebuild atomic node " ++ value.printed ++ " with children"

/-- The details of a structural failure: for a wrong kind, the right
ones. -/
def details : StructureError → List (Value × Value)
  | .notComposite _ =>
    [(.text "allowed",
      .list (Kind.compositeNames.map fun name : String => .text name))]
  | _ => []

end StructureError

/-- **Why a branch of a named kind cannot be built.** -/
inductive NamingError where
  | structural (e : StructureError)
  /-- The children are wrong, and there is no kind to put it in terms
  of. -/
  | nameOnly

/-- **Why a conversion fails.** -/
inductive ConversionError where
  /-- A value has no form in a tree. -/
  | noTreeForm (value : Value)
  /-- A node, or what stands in its place, has no value. -/
  | noHostValue (value : Value)
  /-- A set has a member that cannot be one. -/
  | unhashableMember (node : Form) (reason : String)
  /-- A set has equal members. -/
  | repeatedMembers (node : Form) (forms distinct : Nat)
  /-- A map has a key without a value. -/
  | oddForms (node : Form) (forms : Nat)
  /-- A map has a key that cannot be one. -/
  | unhashableKey (node : Form) (reason : String)
  /-- A map has equal keys. -/
  | repeatedKeys (node : Form) (keys distinct : Nat)
  /-- A converter of the caller's refuses, in its own words. -/
  | refused (message : String) (value : Value)
      (details : List (Value × Value))

namespace ConversionError

/-- What a thing without a value is called: formatting by its kind, and
anything else by its type. -/
def nounFor : Value → String
  | .node (.whitespace _) => Kind.whitespace.constant
  | .node (.comment _) => Kind.comment.constant
  | v => v.typeName

/-- The wording of a failed conversion. -/
def message : ConversionError → String
  | .noTreeForm value =>
    "No tree representation for value of type " ++ value.typeName
  | .noHostValue value => "No host value for " ++ nounFor value ++ " node"
  | .unhashableMember _ reason =>
    "Set contains an unhashable element: " ++ reason
  | .repeatedMembers _ forms distinct =>
    "Set has " ++ forms.repr ++ " forms but only " ++ distinct.repr
      ++ " distinct values"
  | .oddForms _ forms =>
    "Map literal needs an even number of forms, got " ++ forms.repr
  | .unhashableKey _ reason => "Map has an unhashable key: " ++ reason
  | .repeatedKeys _ keys distinct =>
    "Map has " ++ keys.repr ++ " keys but only " ++ distinct.repr
      ++ " distinct values"
  | .refused message _ _ => message

/-- **The value or node to blame.** -/
def value : ConversionError → Value
  | .noTreeForm value => value
  | .noHostValue value => value
  | .unhashableMember node _ => .node node
  | .repeatedMembers node _ _ => .node node
  | .oddForms node _ => .node node
  | .unhashableKey node _ => .node node
  | .repeatedKeys node _ _ => .node node
  | .refused _ value _ => value

/-- The details of a failed conversion. -/
def details : ConversionError → List (Value × Value)
  | .refused _ _ details => details
  | _ => []

end ConversionError

/-- **A failure** of an operation on a tree. -/
inductive Failure where
  | structural (e : StructureError)
  | conversion (e : ConversionError)
  /-- A step to a sibling that the row does not have. -/
  | outsideRow
  /-- A function of the caller's fails in its own way. -/
  | raised (className : String) (message : Text)

/-- **What a fault in hashing comes to**: a refusal is blamed on the
conversion, and any other failure is passed on. -/
def HashFault.failure (blame : String → ConversionError) :
    HashFault → Failure
  | .refused reason => .conversion (blame reason)
  | .raised className message => .raised className message

/-- What goes wrong in building a branch is a structural failure. -/
def liftStructural {α : Type} : Except StructureError α → Except Failure α
  | .ok a => .ok a
  | .error e => .error (.structural e)

/-- **What a failure is about**, with the attribute that goes with it. -/
inductive Category where
  | general (code : Option Text)
  | structural (operation : Option Text)
  | conversion (value : Value)
  | configuration (key : Option Text)

/-- **The report of a failure.** -/
structure Report where
  /-- The wording. -/
  message : Text
  /-- The category, with its attribute. -/
  category : Category
  /-- Further details, by name. -/
  details : List (Value × Value)

namespace Report

/-- The code of a report. Only a general report may choose it. -/
def code (r : Report) : Option Text :=
  match r.category with
  | .general code => code
  | .structural _ => some "TREE_STRUCTURE_ERROR"
  | .conversion _ => some "CONVERSION_ERROR"
  | .configuration _ => some "CONFIGURATION_ERROR"

end Report

namespace StructureError

/-- The report of a structural failure. Every such failure comes up when a
branch is made. -/
def report (e : StructureError) : Report :=
  ⟨e.message, .structural (some "make_node"), e.details⟩

end StructureError

namespace ConversionError

/-- The report of a failed conversion. -/
def report (e : ConversionError) : Report :=
  ⟨e.message, .conversion e.value, e.details⟩

end ConversionError

end FormTree
