import FormTree.Branch
import FormTree.Cursor

/-!
# Shapes over values

The trees a cursor over values can be in. In a tree of forms the branches
are the branch nodes, and making one checks that all children are nodes.
Nested lists, and likewise nested tuples, are trees as well: every list is
a branch, everything else a leaf, and any row makes a list.
-/

namespace FormTree

/-- The sum of weights of a row. -/
theorem total_weight (vs : List Value) :
    total Value.weight vs = Value.weights vs := by
  induction vs with
  | nil => rfl
  | cons v vs ih => rw [total, Value.weights, ih]

namespace Shape

/-- The children of a form. -/
def formChildren : Value → List Value
  | .node n => n.children.map Value.node
  | _ => []

/-- **The shape of forms.** -/
def forms : Shape Value Failure where
  isBranch := Value.isBranch
  children := formChildren
  make v row := (liftStructural (Form.rebuild v row)).map Value.node
  outside := .outsideRow
  weight := Value.weight
  weight_pos := Value.weight_pos
  total_children_lt v hv := by
    match v, hv with
    | .node (.branch c cs), _ =>
      rw [formChildren, Node.children_branch, total_weight,
        Value.weights_map_node, Value.weight, Node.size]
      omega

/-- Whether a value is a collection of the given sort. -/
def isGroup (c : Collection) : Value → Bool
  | .group d _ => decide (d = c)
  | _ => false

/-- The members of a collection. -/
def groupItems : Value → List Value
  | .group _ items => items
  | _ => []

/-- **The shape of nested collections** of one sort. -/
def nested (c : Collection) : Shape Value Failure where
  isBranch := isGroup c
  children := groupItems
  make _ row := .ok (.group c row.items)
  outside := .outsideRow
  weight := Value.weight
  weight_pos := Value.weight_pos
  total_children_lt v hv := by
    match v, hv with
    | .group d items, _ =>
      rw [groupItems, total_weight, Value.weight]
      omega

end Shape

end FormTree
