import FormTree.Branch
import FormTree.Literal.Order

/-!
# Literals: values as forms and forms as values

The literal conversion relates values and trees in the natural way. A
scalar is a token. A tuple is a list form, a list a vector form, a set of
either sort a set form, a dictionary a map form with keys and values
taking turns; the children are separated by one white space node each. An
instance of a derived class is taken for what it is an instance of.

The way back forgets the formatting. It can fail: a set form may hold
equal members or members that cannot be in a set, a map form may hold an
odd number of forms or keys that cannot be keys. Nothing is dropped
silently – if a set or a map would come out smaller than it is written,
the conversion fails and the branch is to blame. Only if the hash function
of something in a token fails in a way of its own, that failure comes
through as it is.

A `Converter` is any such pair of directions; a cursor carries one.
-/

namespace FormTree

namespace Literal

/-- The results of a row of attempts, or the first failure. -/
def collect {ε α : Type} : List (Except ε α) → Except ε (List α)
  | [] => .ok []
  | .error e :: _ => .error e
  | .ok a :: rest => (collect rest).map (a :: ·)

/-- The kind of branch a collection becomes. -/
def kindOf (c : Collection) : Composite :=
  match c.base with
  | .tuple => .list
  | .list => .vector
  | .set => .set
  | .frozenset => .set

/-- Members with what becomes of them, in the order of the tree: as they
come when they have an order, and sorted by their keys otherwise. -/
def arranged {β : Type} (c : Collection) (items : List (Value × β)) :
    List β :=
  if c.isOrdered then items.map Prod.snd
  else
    ((items.map fun p => (p.1.memberKey, p.2)).mergeSort
      fun p q => p.1.le q.1).map Prod.snd

mutual
/-- **The form of a value**, with the given separator between the children
of its branches. Nodes are forms already. -/
def toForm (separator : Text) : Value → Except ConversionError Form
  | .scalar s => .ok (.token (.scalar s))
  | .node n => .ok n
  | .group c items =>
    (collect (arranged c (toForms separator items))).map fun ns =>
      .branch (kindOf c) (Node.spaced separator ns)
  | .dict _ entries =>
    (collect (entryForms separator entries)).map fun ns =>
      .branch .map (Node.spaced separator ns)
  | v => .error (.noTreeForm v)
termination_by structural v => v
/-- Every value of a row with its form. -/
def toForms (separator : Text) :
    List Value → List (Value × Except ConversionError Form)
  | [] => []
  | v :: vs => (v, toForm separator v) :: toForms separator vs
/-- The forms of the keys and values of a dictionary, taking turns. -/
def entryForms (separator : Text) :
    List (Value × Value) → List (Except ConversionError Form)
  | [] => []
  | (k, v) :: es =>
    toForm separator k :: toForm separator v :: entryForms separator es
end

/-- The items at even places paired with those at odd places. -/
def pairs {α : Type} : List α → List (α × α)
  | a :: b :: rest => (a, b) :: pairs rest
  | _ => []

/-- The value of a set form, from the values of its members. -/
def setValue (self : Form) (items : List Value) : Except Failure Value :=
  match Value.members items with
  | .error fault => .error (fault.failure (.unhashableMember self))
  | .ok members =>
    if members.length = items.length then .ok (.group .frozenset members)
    else .error
      (.conversion (.repeatedMembers self items.length members.length))

/-- The value of a map form, from the values of its children. -/
def mapValue (self : Form) (items : List Value) : Except Failure Value :=
  if items.length % 2 = 0 then
    let entries := pairs items
    match Value.members (entries.map Prod.fst) with
    | .error fault => .error (fault.failure (.unhashableKey self))
    | .ok keys =>
      if keys.length = entries.length then .ok (.dict none entries)
      else .error
        (.conversion (.repeatedKeys self entries.length keys.length))
  else .error (.conversion (.oddForms self items.length))

/-- The value of a branch, from the values of its children. -/
def branchValue (self : Form) (kind : Composite) (items : List Value) :
    Except Failure Value :=
  match kind with
  | .list => .ok (.tuple items)
  | .vector => .ok (.list items)
  | .set => setValue self items
  | .map => mapValue self items

mutual
/-- **The value of a form.** -/
def formValue : Form → Except Failure Value
  | .token v => .ok v
  | .whitespace s =>
    .error (.conversion (.noHostValue (.node (.whitespace s))))
  | .comment s => .error (.conversion (.noHostValue (.node (.comment s))))
  | .branch kind cs =>
    match formValues cs with
    | .ok items => branchValue (.branch kind cs) kind items
    | .error e => .error e
termination_by structural n => n
/-- The values of a row of forms, without its formatting. -/
def formValues : List Form → Except Failure (List Value)
  | [] => .ok []
  | n :: ns =>
    if n.isFormatting then formValues ns
    else
      match formValue n with
      | .ok v => (formValues ns).map (v :: ·)
      | .error e => .error e
end

/-- **The value of what is in focus.** The empty value stands for itself;
of other things only nodes have a value. -/
def toValue : Value → Except Failure Value
  | .scalar .nil => .ok .nil
  | .node n => formValue n
  | v => .error (.conversion (.noHostValue v))

end Literal

/-- **A converter**: how forms and values are exchanged. What a converter
makes of a value need not be a node. -/
structure Converter where
  /-- From a value to a node. -/
  toNode : Value → Except Failure Value
  /-- From a node to a value. -/
  toValue : Value → Except Failure Value

namespace Converter

/-- **The literal converter** with the given separator. -/
def literal (separator : Text) : Converter where
  toNode v :=
    match Literal.toForm separator v with
    | .ok n => .ok (.node n)
    | .error e => .error (.conversion e)
  toValue := Literal.toValue

end Converter

end FormTree
