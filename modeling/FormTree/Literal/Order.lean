import FormTree.Value.Printed

/-!
# The order of set members

A set has no order of its own, but its form in a tree needs one, and it
should not depend on how the set is stored. Members are sorted by a key
that is read off the member: the name of its type and then its printed
form. The printed form of a set would itself depend on storage, so the key
of a set is made of the keys of its members, sorted. The two sorts of keys
do not meet under one name as long as no class takes the name of another,
and that is assumed.
-/

namespace FormTree

/-- **The key of a set member.** -/
inductive MemberKey where
  /-- Type and printed form. -/
  | printed (typeName text : String)
  /-- Type of a set, and the keys of its members in order. -/
  | members (typeName : String) (keys : List MemberKey)
deriving Inhabited

/-- The order of texts, character by character; a text comes after what it
continues. -/
def orderChars : List Char → List Char → Ordering
  | [], [] => .eq
  | [], _ :: _ => .lt
  | _ :: _, [] => .gt
  | a :: as, b :: bs =>
    if a.toNat < b.toNat then .lt
    else if b.toNat < a.toNat then .gt
    else orderChars as bs

/-- The order of texts. -/
def orderText (s t : String) : Ordering := orderChars s.toList t.toList

namespace MemberKey

mutual
/-- **The order of keys**: by type, then by printed form or, member by
member, by the keys of the members. -/
def order : MemberKey → MemberKey → Ordering
  | .printed t s, .printed u r => (orderText t u).then (orderText s r)
  | .printed t _, .members u _ => (orderText t u).then .lt
  | .members t _, .printed u _ => (orderText t u).then .gt
  | .members t ks, .members u ls => (orderText t u).then (orderRow ks ls)
termination_by structural k => k
/-- The order of rows of keys; a row comes after what it continues. -/
def orderRow : List MemberKey → List MemberKey → Ordering
  | [], [] => .eq
  | [], _ :: _ => .lt
  | _ :: _, [] => .gt
  | k :: ks, l :: ls => (k.order l).then (orderRow ks ls)
end

/-- Whether a key may stand before another. -/
def le (k l : MemberKey) : Bool := (k.order l).isLE

end MemberKey

namespace Value

mutual
/-- **The key of a value** as a member of a set. -/
def memberKey : Value → MemberKey
  | .group c items =>
    if c.isOrdered then .printed c.typeName (group c items).printed
    else .members c.typeName ((memberKeys items).mergeSort MemberKey.le)
  | v => .printed v.typeName v.printed
termination_by structural v => v
/-- The keys of a row of values. -/
def memberKeys : List Value → List MemberKey
  | [] => []
  | v :: vs => v.memberKey :: memberKeys vs
end

/-- The keys of a row are the keys of its values. -/
theorem memberKeys_eq_map (vs : List Value) :
    memberKeys vs = vs.map memberKey := by
  induction vs with
  | nil => rfl
  | cons v vs ih => simp [memberKeys, ih]

end Value

end FormTree
