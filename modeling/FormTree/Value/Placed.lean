import FormTree.Value.Equality

/-!
# Values written anew

When a value is made into a form again, its scalars go into new tokens. A
scalar is the same scalar in whatever token it stands, with one exception:
the tokens around an indefinite result are equal to themselves alone. So
before a value is written anew the indefinite results in it are given
places of their own, one for each of them.

A place is a row of numbers: the occasion of the writing, and in front of
it the way into the value, innermost step first. Nodes inside the value
are in their tokens already and stay as they are.
-/

namespace FormTree

namespace Scalar

/-- A scalar at a place. -/
def placed (place : List Nat) : Scalar → Scalar
  | .float (.nan result) => .float (.nan { result with place := place })
  | .derived guise base => .derived guise (base.placed place)
  | s => s

/-- A scalar denotes the same number at every place. -/
@[simp] theorem number?_placed (place : List Nat) (s : Scalar) :
    (s.placed place).number? = s.number? := by
  induction s with
  | derived guise base ih => exact ih
  | float x => cases x <;> rfl
  | _ => rfl

end Scalar

namespace Value

mutual
/-- **A value at a place**, every indefinite result in it at one of its
own. -/
def placed (place : List Nat) : Value → Value
  | .scalar s => .scalar (s.placed place)
  | .group c items => .group c (placedItems place 0 items)
  | .dict guise entries => .dict guise (placedEntries place 0 entries)
  | v => v
termination_by structural v => v
/-- The items of a collection, from the given number on. -/
def placedItems (place : List Nat) (i : Nat) : List Value → List Value
  | [] => []
  | v :: vs => v.placed (i :: place) :: placedItems place (i + 1) vs
/-- The entries of a dictionary; key and value count as two. -/
def placedEntries (place : List Nat) (i : Nat) :
    List (Value × Value) → List (Value × Value)
  | [] => []
  | (k, v) :: es =>
    (k.placed (i :: place), v.placed ((i + 1) :: place))
      :: placedEntries place (i + 2) es
end

/-- Writing a value anew does not change its type. -/
@[simp] theorem typeName_placed (place : List Nat) (v : Value) :
    (v.placed place).typeName = v.typeName := by
  cases v with
  | scalar s =>
    cases s with
    | float x => cases x <;> rfl
    | _ => rfl
  | _ => rfl

/-- No item is lost. -/
@[simp] theorem length_placedItems (place : List Nat) (i : Nat)
    (vs : List Value) : (placedItems place i vs).length = vs.length := by
  induction vs generalizing i with
  | nil => rfl
  | cons v vs ih => simp [placedItems, ih]

end Value

end FormTree
