/-!
# Rows of siblings

What is handed over to become the children of a branch is a row: items in
a collection. Normally the collection is a list and the row is nothing but
its items. A collection without an order can be handed over as well; its
items can still be counted, but no branch can be made of them.
-/

namespace FormTree

/-- **A row**: the items handed over as the children of something, and the
type of the collection they came in when that has no order. -/
structure Row (τ : Type) where
  /-- The items. -/
  items : List τ
  /-- The type of the collection, if the items have no places in it. -/
  unordered : Option String
deriving Inhabited

namespace Row

variable {τ : Type}

/-- The row of a list. -/
def ofList (items : List τ) : Row τ := ⟨items, none⟩

@[simp] theorem items_ofList (items : List τ) :
    (ofList items).items = items := rfl

@[simp] theorem unordered_ofList (items : List τ) :
    (ofList items).unordered = none := rfl

end Row

end FormTree
