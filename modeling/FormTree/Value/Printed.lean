import FormTree.Number.Numeral
import FormTree.Text.Quoted
import FormTree.Value

/-!
# Printed values

Messages and sort keys show values in printed form: scalars as they would
be written in a program, collections in their brackets, dictionaries entry
by entry, nodes with the names of their fields. Members of an unordered
collection are printed in the order of iteration. What has a guise of its
own is printed as that says.

Whole numbers are printed whatever their length. The limit on the number
of digits that holds in reading a numeral (`FormTree.Numeral.readInt`) is
a setting of the interpreter, which may be lifted, and printing leaves it
out.

`displayed` is the plain text of a value, which differs for the scalars
that have a spelling of their own.
-/

namespace FormTree

/-- Texts one after the other with a comma between every two. -/
def commaSeparated (parts : List String) : String :=
  String.intercalate ", " parts

namespace Scalar

/-- The printed form of a scalar. -/
def printed : Scalar → String
  | .nil => "None"
  | .bool b => if b then "True" else "False"
  | .int n => n.repr
  | .float x => x.text
  | .ratio q => "Fraction(" ++ q.num.repr ++ ", " ++ q.den.repr ++ ")"
  | .text t => t.quoted
  | .symbol name => "Symbol(name=" ++ name.quoted ++ ")"
  | .keyword name => "Keyword(name=" ++ name.quoted ++ ")"
  | .derived guise _ => guise.printed

/-- The plain text of a scalar. -/
def displayed : Scalar → Text
  | .text t => t
  | .symbol name => name
  | .keyword name => Text.ofString ":" ++ name
  | .ratio q =>
    if q.den = 1 then q.num.repr else q.num.repr ++ "/" ++ q.den.repr
  | .derived _ base => base.displayed
  | s => s.printed

end Scalar

namespace Kind

/-- The printed form of a kind. -/
def printed (k : Kind) : String :=
  "<" ++ k.constant ++ ": " ++ Text.quoted k.name ++ ">"

end Kind

namespace Value

/-- The brackets of a tuple; a single member keeps its comma. -/
def tupleText : List String → String
  | [one] => "(" ++ one ++ ",)"
  | parts => "(" ++ commaSeparated parts ++ ")"

/-- The brackets of the unordered and changeable collections. -/
def braced (parts : List String) : String :=
  "\x7b" ++ commaSeparated parts ++ "\x7d"

/-- The brackets of a collection. -/
def groupText (c : Collection.Base) (parts : List String) : String :=
  match c with
  | .tuple => tupleText parts
  | .list => "[" ++ commaSeparated parts ++ "]"
  | .set => if parts.isEmpty then "set()" else braced parts
  | .frozenset =>
    if parts.isEmpty then "frozenset()"
    else "frozenset(" ++ braced parts ++ ")"

mutual
/-- **The printed form of a value.** -/
def printed : Value → String
  | .scalar s => s.printed
  | .bytes bs => Text.quotedBytes bs
  | .foreign o _ => o.guise.printed
  | .group c items =>
    (c.guise.map Guise.printed).getD (groupText c.base (printedRow items))
  | .dict guise entries =>
    (guise.map Guise.printed).getD (braced (printedEntries entries))
  | .node n => printedNode n
termination_by structural v => v
/-- The printed forms of a row of values. -/
def printedRow : List Value → List String
  | [] => []
  | v :: vs => v.printed :: printedRow vs
/-- The printed forms of the entries of a dictionary. -/
def printedEntries : List (Value × Value) → List String
  | [] => []
  | (k, v) :: es => (k.printed ++ ": " ++ v.printed) :: printedEntries es
/-- The printed form of a node. -/
def printedNode : Form → String
  | .token v => "Token(value=" ++ v.printed ++ ")"
  | .whitespace t => "Whitespace(text=" ++ t.quoted ++ ")"
  | .comment t => "Comment(text=" ++ t.quoted ++ ")"
  | .branch c cs =>
    "Branch(kind=" ++ (Kind.composite c).printed ++ ", children="
      ++ tupleText (printedNodes cs) ++ ")"
/-- The printed forms of a row of nodes. -/
def printedNodes : List Form → List String
  | [] => []
  | n :: ns => printedNode n :: printedNodes ns
end

/-- **The plain text of a value.** -/
def displayed : Value → Text
  | .scalar s => s.displayed
  | v => v.printed

end Value

end FormTree
