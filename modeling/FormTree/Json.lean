import FormTree.Number.Binary64
import FormTree.Text

/-!
# Data in JSON

Settings arrive as JSON: the usual values, with whole numbers of any size
and floating-point numbers kept apart. The members of an object have the
order in which their keys first appear, and a key that appears again
replaces the value it had.
-/

namespace FormTree

/-- **A JSON value.** -/
inductive Json where
  | null
  | bool (b : Bool)
  | int (n : Int)
  | float (x : Binary64)
  | string (t : Text)
  | array (items : List Json)
  | object (members : List (Text × Json))
deriving Inhabited

namespace Json

/-- Sets the value of a key: in the place of the key if it is there, and at
the end otherwise. -/
def put (key : Text) (j : Json) :
    List (Text × Json) → List (Text × Json)
  | [] => [(key, j)]
  | (k, i) :: rest =>
    if k = key then (k, j) :: rest else (k, i) :: put key j rest

end Json

end FormTree
