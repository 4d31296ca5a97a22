import FormTree.Text

/-!
# Trees of forms with their formatting

A document is kept as a tree that loses nothing: what stands between two
forms – white space and comments – is a node like any other, in its place
among the children. A tree therefore has four sorts of nodes: a token,
which holds one literal; white space and comments, which hold their text;
and a branch, which holds its children in order.

The type is generic in the literals. That the children of a branch are
nodes is a fact of the type, so no operation on trees has to check it.
-/

namespace FormTree

/-- **The kinds of branches.** -/
inductive Composite where
  | list
  | vector
  | set
  | map
deriving DecidableEq, Inhabited, Repr

/-- **The kinds of nodes**: the four composite ones, and three without
children. -/
inductive Kind where
  | composite (c : Composite)
  | token
  | whitespace
  | comment
deriving DecidableEq, Inhabited, Repr

namespace Composite

/-- The name of a composite kind. -/
def name : Composite → String
  | .list => "list"
  | .vector => "vector"
  | .set => "set"
  | .map => "map"

end Composite

namespace Kind

/-- The name of a kind. -/
def name : Kind → String
  | .composite c => c.name
  | .token => "token"
  | .whitespace => "whitespace"
  | .comment => "comment"

/-- Every kind, the composite ones first. -/
def all : List Kind :=
  [.composite .list, .composite .vector, .composite .set, .composite .map,
   .token, .whitespace, .comment]

/-- The kind of a name. -/
def ofName? (s : String) : Option Kind := all.find? fun k => k.name = s

/-- The names of the composite kinds, in alphabetical order. -/
def compositeNames : List String := ["list", "map", "set", "vector"]

/-- The composite kind, if it is one. -/
def composite? : Kind → Option Composite
  | .composite c => some c
  | _ => none

/-- **The kinds of formatting**: what a reader of the forms may ignore. -/
def isFormatting : Kind → Bool
  | .whitespace => true
  | .comment => true
  | _ => false

/-- The constant by which a kind is referred to in messages. -/
def constant : Kind → String
  | .composite .list => "NodeKind.LIST"
  | .composite .vector => "NodeKind.VECTOR"
  | .composite .set => "NodeKind.SET"
  | .composite .map => "NodeKind.MAP"
  | .token => "NodeKind.TOKEN"
  | .whitespace => "NodeKind.WHITESPACE"
  | .comment => "NodeKind.COMMENT"

end Kind

/-- **A node** of a tree over literals of type `α`. -/
inductive Node (α : Type) where
  /-- One literal. -/
  | token (value : α)
  /-- White space between forms. -/
  | whitespace (text : Text)
  /-- A comment, with the mark that opens it. -/
  | comment (text : Text)
  /-- A composite form with everything between its brackets. -/
  | branch (kind : Composite) (children : List (Node α))
deriving Inhabited

namespace Node

variable {α : Type}

/-- The kind of a node. -/
def kind : Node α → Kind
  | .token _ => .token
  | .whitespace _ => .whitespace
  | .comment _ => .comment
  | .branch c _ => .composite c

/-- Whether a node is formatting. -/
def isFormatting (n : Node α) : Bool := n.kind.isFormatting

/-- The children of a node; only a branch has any. -/
def children : Node α → List (Node α)
  | .branch _ cs => cs
  | _ => []

@[simp] theorem kind_token (v : α) : (Node.token v).kind = .token := rfl

@[simp] theorem kind_whitespace (t : Text) :
    (Node.whitespace t : Node α).kind = .whitespace := rfl

@[simp] theorem kind_comment (t : Text) :
    (Node.comment t : Node α).kind = .comment := rfl

@[simp] theorem kind_branch (c : Composite) (cs : List (Node α)) :
    (Node.branch c cs).kind = .composite c := rfl

@[simp] theorem children_branch (c : Composite) (cs : List (Node α)) :
    (Node.branch c cs).children = cs := rfl

mutual
/-- **The number of nodes** of a tree. -/
def size : Node α → Nat
  | .token _ => 1
  | .whitespace _ => 1
  | .comment _ => 1
  | .branch _ cs => 1 + sizes cs
termination_by structural n => n
/-- The number of nodes of a row of trees. -/
def sizes : List (Node α) → Nat
  | [] => 0
  | n :: ns => n.size + sizes ns
end

/-- A tree has at least its root. -/
theorem size_pos (n : Node α) : 0 < n.size := by
  cases n <;> rw [size] <;> omega

/-- **Forms set side by side**: a separator between every two of them and
none at the ends. -/
def spaced (separator : Text) : List (Node α) → List (Node α)
  | [] => []
  | [n] => [n]
  | n :: rest => n :: .whitespace separator :: spaced separator rest

end Node

end FormTree
