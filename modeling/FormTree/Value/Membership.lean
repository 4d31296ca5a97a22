import FormTree.Value.Equality

/-!
# Members of sets and keys of dictionaries

Not every value can be looked up: a list, a set and a dictionary may
change and are refused, and so is a tuple or a node with one of them
inside. A frozen set is always accepted, having been checked when it was
built. An object of an unknown class may refuse as well, or its hash
function may fail in a way of its own. It is the fault of the first
culprit, depth first, that comes up.

A row of values that passes becomes a set by keeping the first of every
group of equal ones.
-/

namespace FormTree.Value

mutual
/-- **What keeps a value from being a member**, if anything does. -/
def hashFault? : Value → Option HashFault
  | .foreign o _ => o.hashFault
  | .group c items =>
    match c.base with
    | .tuple => hashFaultIn? items
    | .frozenset => none
    | _ => some (.ofType c.typeName)
  | .dict guise _ => some (.ofType (Guise.typeNameOr guise "dict"))
  | .node n => hashFaultNode? n
  | _ => none
termination_by structural v => v
/-- The first fault of a row. -/
def hashFaultIn? : List Value → Option HashFault
  | [] => none
  | v :: vs => v.hashFault?.or (hashFaultIn? vs)
/-- The first fault inside a node. -/
def hashFaultNode? : Form → Option HashFault
  | .token v => v.hashFault?
  | .branch _ cs => hashFaultNodes? cs
  | _ => none
/-- The first fault inside a row of nodes. -/
def hashFaultNodes? : List Form → Option HashFault
  | [] => none
  | n :: ns => (hashFaultNode? n).or (hashFaultNodes? ns)
end

/-- The fault of a row is that of its first faulty member. -/
theorem hashFaultIn?_eq_findSome? (vs : List Value) :
    hashFaultIn? vs = vs.findSome? hashFault? := by
  induction vs with
  | nil => rfl
  | cons v vs ih =>
    rw [hashFaultIn?, List.findSome?_cons, ih]
    cases v.hashFault? <;> rfl

/-- Whether a value is among the given ones. -/
def isAmong (v : Value) (vs : List Value) : Bool :=
  vs.any fun w => w.eqv true v

/-- Adds a member, unless an equal one is there already. -/
def addMember (members : List Value) (v : Value) : List Value :=
  if v.isAmong members then members else members ++ [v]

/-- **The distinct values of a row**: of equal ones the first. -/
def distinct (vs : List Value) : List Value := vs.foldl addMember []

/-- **Sets the value of a key** in the entries of a dictionary. A key that
is there already stays and only its value changes. -/
def putEntry (entries : List (Value × Value)) (key value : Value) :
    List (Value × Value) :=
  match entries with
  | [] => [(key, value)]
  | (k, v) :: rest =>
    if k.eqv true key then (k, value) :: rest
    else (k, v) :: putEntry rest key value

/-- **The members of the set** of a row of values. -/
def members (vs : List Value) : Except HashFault (List Value) :=
  match vs.findSome? hashFault? with
  | some fault => .error fault
  | none => .ok (distinct vs)

end FormTree.Value
