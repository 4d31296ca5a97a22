import FormTree.Node
import FormTree.Number.Binary64

/-!
# Host values

Outside the tree the literals live as plain values: scalars, ordered and
unordered collections, dictionaries. A value may also be something the
tree has no form for – a byte string, an object of an unknown class – and
it may be, or contain, a node of the tree itself. A token in turn may hold
any value. So values and nodes are one recursive family, `Value` being
closed under `Node Value`.

Unordered collections are lists of their members in the order of
iteration; two members are never equal, which is a matter of
`FormTree.Value.Equality`.

Scalars, collections and dictionaries may be instances of derived classes.
Such an instance shows a class name and a printed form of its own, its
`Guise`. In all else it is an instance of the class that it is derived
from: it has the same members, is compared in the same way, and can be
hashed where that can be.

Of an object of an unknown class only its conduct is known: what it shows,
whether it can be hashed, and what it is equal to. Equality is taken to be
what equality has to be, so that an object is equal to what one value is
equal to, the value it stands for – a decimal stands for a number, an
array of bytes for a byte string – or else to the objects that have the
same mark.
-/

namespace FormTree

/-- **The guise of an object**: what it shows of itself. -/
structure Guise where
  /-- The name of its class. -/
  className : String
  /-- Its printed form. -/
  printed : String
deriving DecidableEq, Inhabited, Repr

/-- **What goes wrong when an object is hashed.** -/
inductive HashFault where
  /-- The object is not hashable. -/
  | refused (message : String)
  /-- Its hash function fails in a way of its own. -/
  | raised (className message : String)
deriving DecidableEq, Repr

/-- The fault of a type that is not hashable. -/
def HashFault.ofType (typeName : String) : HashFault :=
  .refused ("unhashable type: " ++ "'" ++ typeName ++ "'")

/-- **An object of an unknown class.** -/
structure Foreign where
  /-- What it shows. -/
  guise : Guise
  /-- Tells it from the objects that it is not equal to. -/
  mark : Nat
  /-- What goes wrong when it is hashed, if anything does. -/
  hashFault : Option HashFault
deriving DecidableEq, Inhabited, Repr

/-- **The literal scalars**, those a token can be read from. -/
inductive Scalar where
  | nil
  | bool (b : Bool)
  | int (n : Int)
  | float (x : Binary64)
  | ratio (q : Rat)
  | text (t : Text)
  | symbol (name : Text)
  | keyword (name : Text)
  /-- An instance of a class derived from that of a scalar. -/
  | derived (guise : Guise) (base : Scalar)
deriving DecidableEq, Inhabited

/-- **The collections of members**: two ordered ones and two unordered
ones. -/
inductive Collection.Base where
  | tuple
  | list
  | set
  | frozenset
deriving DecidableEq, Inhabited, Repr

/-- **A sort of collections**: one of the four, or a class derived from
it, in which case its instance has a guise. -/
structure Collection where
  /-- The one of the four. -/
  base : Collection.Base
  /-- The guise of an instance of a derived class. -/
  guise : Option Guise
deriving DecidableEq, Inhabited, Repr

/-- **A value**: what a token can hold and what conversions read and
write. -/
inductive Value where
  /-- A literal scalar. -/
  | scalar (s : Scalar)
  /-- A byte string. -/
  | bytes (bs : List UInt8)
  /-- An object of an unknown class, and the value it stands for in
  comparisons, if it stands for one. -/
  | foreign (o : Foreign) (other : Option Value)
  /-- A collection of members. -/
  | group (c : Collection) (items : List Value)
  /-- A dictionary, its entries in the order of insertion; an instance of
  a derived class has a guise. -/
  | dict (guise : Option Guise) (entries : List (Value × Value))
  /-- A node of a tree. -/
  | node (n : Node Value)
deriving Inhabited

/-- A tree whose tokens hold values. -/
abbrev Form := Node Value

namespace Guise

/-- The name that a type shows, in a guise or without. -/
def typeNameOr (guise : Option Guise) (name : String) : String :=
  (guise.map className).getD name

/-- The classes of an instance, its own first. -/
def classesOf (guise : Option Guise) (name : String) : List String :=
  (guise.map className).toList ++ [name]

end Guise

namespace Scalar

/-- The name of a scalar's type. -/
def typeName : Scalar → String
  | .nil => "NoneType"
  | .bool _ => "bool"
  | .int _ => "int"
  | .float _ => "float"
  | .ratio _ => "Fraction"
  | .text _ => "str"
  | .symbol _ => "Symbol"
  | .keyword _ => "Keyword"
  | .derived guise _ => guise.className

/-- The classes of a scalar, its own first. -/
def classes : Scalar → List String
  | .derived guise base => guise.className :: base.classes
  | s => [s.typeName]

/-- The scalar that one of a derived class is an instance of. -/
def plain : Scalar → Scalar
  | .derived _ base => base.plain
  | s => s

end Scalar

namespace Collection

namespace Base

/-- The name of a collection's type. -/
def typeName : Base → String
  | .tuple => "tuple"
  | .list => "list"
  | .set => "set"
  | .frozenset => "frozenset"

/-- Whether the members have a place. -/
def isOrdered : Base → Bool
  | .tuple => true
  | .list => true
  | .set => false
  | .frozenset => false

end Base

/-- Tuples, and not instances of a derived class. -/
@[match_pattern] abbrev tuple : Collection := ⟨.tuple, none⟩

/-- Lists, and not instances of a derived class. -/
@[match_pattern] abbrev list : Collection := ⟨.list, none⟩

/-- Sets, and not instances of a derived class. -/
@[match_pattern] abbrev set : Collection := ⟨.set, none⟩

/-- Frozen sets, and not instances of a derived class. -/
@[match_pattern] abbrev frozenset : Collection := ⟨.frozenset, none⟩

/-- The name of a collection's type. -/
def typeName (c : Collection) : String :=
  Guise.typeNameOr c.guise c.base.typeName

/-- Whether the members have a place. -/
def isOrdered (c : Collection) : Bool := c.base.isOrdered

end Collection

namespace Value

/-- The empty value, at which a cursor has nothing in focus yet. -/
abbrev nil : Value := .scalar .nil

/-- A text as a value. -/
abbrev text (t : Text) : Value := .scalar (.text t)

/-- A whole number as a value. -/
abbrev int (n : Int) : Value := .scalar (.int n)

/-- A tuple as a value. -/
abbrev tuple (items : List Value) : Value := .group .tuple items

/-- A list as a value. -/
abbrev list (items : List Value) : Value := .group .list items

/-- Whether a value is the empty one. -/
def isNil : Value → Bool
  | .scalar .nil => true
  | _ => false

/-- The node a value is, if it is one. -/
def node? : Value → Option Form
  | .node n => some n
  | _ => none

/-- Whether a value is a node. -/
def isNode (v : Value) : Bool := v.node?.isSome

/-- The kind of the node a value is. -/
def kind? (v : Value) : Option Kind := v.node?.map Node.kind

/-- The name of the type of a node. -/
def nodeTypeName : Form → String
  | .token _ => "Token"
  | .whitespace _ => "Whitespace"
  | .comment _ => "Comment"
  | .branch _ _ => "Branch"

/-- **The name of a value's type.** -/
def typeName : Value → String
  | .scalar s => s.typeName
  | .bytes _ => "bytes"
  | .foreign o _ => o.guise.className
  | .group c _ => c.typeName
  | .dict guise _ => Guise.typeNameOr guise "dict"
  | .node n => nodeTypeName n

/-- **The classes of a value**, its own first. An unknown class is none of
the library's, whatever its name. -/
def classes : Value → List String
  | .scalar s => s.classes
  | .foreign o _ => [o.guise.className, "object"]
  | .group c _ => Guise.classesOf c.guise c.base.typeName
  | .dict guise _ => Guise.classesOf guise "dict"
  | v => [v.typeName]

/-- **Whether two values have the same type.** -/
def sameType (a b : Value) : Bool := decide (a.classes = b.classes)

/-- Whether a value is a branch of a tree. -/
def isBranch : Value → Bool
  | .node (.branch _ _) => true
  | _ => false

@[simp] theorem node?_node (n : Form) : (Value.node n).node? = some n := rfl

@[simp] theorem isNode_node (n : Form) : (Value.node n).isNode = true := rfl

@[simp] theorem kind?_node (n : Form) :
    (Value.node n).kind? = some n.kind := rfl

mutual
/-- **The weight of a value**: how many places a cursor can take in it at
most. Members of collections and children of branches weigh something,
everything else is one place. -/
def weight : Value → Nat
  | .scalar _ => 1
  | .bytes _ => 1
  | .foreign _ _ => 1
  | .group _ items => 1 + weights items
  | .dict _ _ => 1
  | .node n => n.size
termination_by structural v => v
/-- The weight of a row of values. -/
def weights : List Value → Nat
  | [] => 0
  | v :: vs => v.weight + weights vs
end

/-- Every value weighs something. -/
theorem weight_pos (v : Value) : 0 < v.weight := by
  cases v with
  | node n => rw [weight]; exact n.size_pos
  | _ => rw [weight]; omega

/-- The children of a branch weigh, as values, what they count as
nodes. -/
theorem weights_map_node (ns : List Form) :
    weights (ns.map Value.node) = Node.sizes ns := by
  induction ns with
  | nil => rfl
  | cons n ns ih => simp [weights, weight, Node.sizes, ih]

end Value

end FormTree
