import FormTree.Value

/-!
# Positions in a tree

A position names a node of a tree by the way to it from the root: at every
level the number of the child to go to. The positions of a tree are listed
in the order in which a document shows its nodes, every node before its
children and the children from left to right.

That order needs no tree to be decided. Of two positions the earlier one
is the smaller one in the lexicographic order: it either leads to an
ancestor of the other, being shorter, or turns off to the left of it where
the two part. So the list of all positions is sorted
(`positions_pairwise`), it lists exactly the positions that lead somewhere
(`mem_positions_iff`), and what comes after a position in a document is
what is greater than it (`filter_lt_of_split`).
-/

namespace FormTree

namespace Node

variable {α : Type}

/-- **Induction over a tree**: what holds of a branch as soon as it holds
of its children, and holds of everything else, holds of every tree. -/
@[elab_as_elim]
theorem induction {motive : Node α → Prop}
    (token : ∀ v, motive (.token v))
    (whitespace : ∀ t, motive (.whitespace t))
    (comment : ∀ t, motive (.comment t))
    (branch : ∀ k cs, (∀ c ∈ cs, motive c) → motive (.branch k cs)) :
    ∀ n, motive n
  | .token v => token v
  | .whitespace t => whitespace t
  | .comment t => comment t
  | .branch k cs =>
    branch k cs fun c _ => induction token whitespace comment branch c

/-- **The node at a position**, if the position leads anywhere. -/
def at? : Node α → List Nat → Option (Node α)
  | n, [] => some n
  | n, i :: p => n.children[i]?.bind fun c => c.at? p

@[simp] theorem at?_nil (n : Node α) : n.at? [] = some n := by
  rw [at?]

theorem at?_cons (n : Node α) (i : Nat) (p : List Nat) :
    n.at? (i :: p) = n.children[i]?.bind fun c => c.at? p := by
  rw [at?]

mutual
/-- **The positions of a tree**, in the order of the document. -/
def positions : Node α → List (List Nat)
  | .branch _ cs => [] :: positionsIn 0 cs
  | _ => [[]]
termination_by structural n => n
/-- The positions inside a row of children, the first of which has the
number `i`. -/
def positionsIn (i : Nat) : List (Node α) → List (List Nat)
  | [] => []
  | c :: cs => c.positions.map (i :: ·) ++ positionsIn (i + 1) cs
end

/-- The root comes first. -/
theorem positions_eq_cons (n : Node α) :
    n.positions = [] :: positionsIn 0 n.children := by
  cases n <;> rfl

/-- A position inside a row leads to one of the children first. -/
theorem mem_positionsIn {i : Nat} {cs : List (Node α)} {p : List Nat} :
    p ∈ positionsIn i cs
      ↔ ∃ j q c, p = (i + j) :: q ∧ cs[j]? = some c ∧ q ∈ c.positions := by
  induction cs generalizing i with
  | nil => simp [positionsIn]
  | cons c cs ih =>
    rw [positionsIn, List.mem_append, List.mem_map, ih]
    constructor
    · rintro (⟨q, hq, rfl⟩ | ⟨j, q, d, rfl, hd, hq⟩)
      · exact ⟨0, q, c, rfl, rfl, hq⟩
      · exact ⟨j + 1, q, d, by rw [Nat.add_right_comm, Nat.add_assoc], hd, hq⟩
    · rintro ⟨j, q, d, rfl, hd, hq⟩
      cases j with
      | zero =>
        obtain rfl : c = d := by simpa using hd
        exact .inl ⟨q, hq, rfl⟩
      | succ j =>
        refine .inr ⟨j, q, d, ?_, by simpa using hd, hq⟩
        rw [Nat.add_right_comm, Nat.add_assoc]

/-- **The positions of a tree are those that lead somewhere.** -/
theorem mem_positions_iff {n : Node α} {p : List Nat} :
    p ∈ n.positions ↔ (n.at? p).isSome := by
  induction p generalizing n with
  | nil => simp [positions_eq_cons]
  | cons i p ih =>
    rw [positions_eq_cons, List.mem_cons, mem_positionsIn, at?_cons]
    constructor
    · rintro (h | ⟨j, q, c, hp, hc, hq⟩)
      · cases h
      · obtain ⟨rfl, rfl⟩ : i = j ∧ p = q := by simpa using hp
        rw [hc, Option.bind_some]
        exact ih.mp hq
    · intro h
      obtain ⟨c, hc⟩ : ∃ c, n.children[i]? = some c := by
        cases hi : n.children[i]? with
        | none => rw [hi] at h; cases h
        | some c => exact ⟨c, rfl⟩
      rw [hc, Option.bind_some] at h
      exact .inr ⟨i, p, c, by rw [Nat.zero_add], hc, ih.mpr h⟩

/-- The positions in a row are in order as soon as those of every child
are. -/
theorem positionsIn_pairwise {cs : List (Node α)}
    (h : ∀ c ∈ cs, c.positions.Pairwise (· < ·)) (i : Nat) :
    (positionsIn i cs).Pairwise (· < ·) := by
  induction cs generalizing i with
  | nil => exact List.Pairwise.nil
  | cons c cs ih =>
    rw [positionsIn, List.pairwise_append]
    refine ⟨?_, ih (fun d hd => h d (List.mem_cons_of_mem c hd)) (i + 1), ?_⟩
    · refine List.pairwise_map.mpr ((h c List.mem_cons_self).imp ?_)
      intro p q hpq
      exact List.cons_lt_cons_iff.mpr (.inr ⟨rfl, hpq⟩)
    · intro p hp q hq
      obtain ⟨p', -, rfl⟩ := List.mem_map.mp hp
      obtain ⟨j, q', -, rfl, -, -⟩ := mem_positionsIn.mp hq
      exact List.cons_lt_cons_iff.mpr (.inl (by omega))

/-- **The positions of a tree are listed in order, each once.** -/
theorem positions_pairwise (n : Node α) :
    n.positions.Pairwise (· < ·) := by
  induction n using Node.induction with
  | branch k cs ih =>
    rw [positions_eq_cons, List.pairwise_cons]
    refine ⟨?_, positionsIn_pairwise ih 0⟩
    intro p hp
    obtain ⟨j, q, -, rfl, -, -⟩ := mem_positionsIn.mp hp
    exact List.nil_lt_cons _ _
  | _ => exact List.pairwise_singleton _ _

/-- **What comes after a position is what is greater, what comes before it
is what is smaller.** -/
theorem filter_lt_of_split {n : Node α} {p : List Nat}
    {before after : List (List Nat)}
    (h : n.positions = before ++ p :: after) :
    n.positions.filter (p < ·) = after
      ∧ n.positions.filter (· < p) = before := by
  have hs := positions_pairwise n
  rw [h, List.pairwise_append, List.pairwise_cons] at hs
  obtain ⟨-, ⟨hafter, -⟩, hbefore⟩ := hs
  have hlow : ∀ q ∈ before, q < p := fun q hq =>
    hbefore q hq p List.mem_cons_self
  rw [h]
  constructor
  · have hb : before.filter (p < ·) = [] :=
      List.filter_eq_nil_iff.mpr fun q hq => by
        simpa using List.lt_asymm (hlow q hq)
    have ha : after.filter (p < ·) = after :=
      List.filter_eq_self.mpr fun q hq => by simpa using hafter q hq
    rw [List.filter_append, hb, List.nil_append, List.filter_cons,
      if_neg (by simp), ha]
  · have hb : before.filter (· < p) = before :=
      List.filter_eq_self.mpr fun q hq => by simpa using hlow q hq
    have ha : after.filter (· < p) = [] :=
      List.filter_eq_nil_iff.mpr fun q hq => by
        simpa using List.lt_asymm (hafter q hq)
    rw [List.filter_append, hb, List.filter_cons,
      if_neg (by simp), ha, List.append_nil]

end Node

namespace Value

/-- The node of a tree at a position. What is no node has nothing in it
and is found at its own position only. -/
def at? (v : Value) (p : List Nat) : Option Value :=
  match v, p with
  | v, [] => some v
  | .node n, p => (n.at? p).map Value.node
  | _, _ => none

@[simp] theorem at?_nil (v : Value) : v.at? [] = some v := by
  cases v <;> rfl

@[simp] theorem at?_node (n : Form) (p : List Nat) :
    (Value.node n).at? p = (n.at? p).map Value.node := by
  cases p with
  | nil => rw [at?_nil, Node.at?_nil, Option.map_some]
  | cons i p => rfl

/-- The positions of a value as a tree. -/
def positions : Value → List (List Nat)
  | .node n => n.positions
  | _ => [[]]

@[simp] theorem positions_node (n : Form) :
    (Value.node n).positions = n.positions := rfl

theorem positions_of_not_node {v : Value} (h : v.isNode = false) :
    v.positions = [[]] := by
  cases v with
  | node n => cases h
  | _ => rfl

/-- The positions are those that lead somewhere. -/
theorem mem_positions_iff {v : Value} {p : List Nat} :
    p ∈ v.positions ↔ (v.at? p).isSome := by
  cases v with
  | node n => rw [positions_node, Node.mem_positions_iff, at?_node,
      Option.isSome_map]
  | _ => cases p <;> simp [positions, at?]

/-- The positions are listed in order, each once. -/
theorem positions_pairwise (v : Value) :
    v.positions.Pairwise (· < ·) := by
  cases v with
  | node n => exact n.positions_pairwise
  | _ => exact List.pairwise_singleton _ _

/-- Going back from a position through all smaller ones ends at the
root. -/
theorem getLast?_backwards (v : Value) (p : List Nat) :
    (p :: (v.positions.filter (· < p)).reverse).getLast? = some [] := by
  have hroot : ∃ l, v.positions = [] :: l := by
    cases v with
    | node n => exact ⟨_, n.positions_eq_cons⟩
    | _ => exact ⟨[], rfl⟩
  obtain ⟨l, hl⟩ := hroot
  cases p with
  | nil =>
    have hnone : v.positions.filter (· < ([] : List Nat)) = [] :=
      List.filter_eq_nil_iff.mpr fun q _ => by simp
    rw [hnone]
    rfl
  | cons i q =>
    have hlt : decide (([] : List Nat) < i :: q) = true :=
      decide_eq_true (List.nil_lt_cons i q)
    rw [hl, List.filter_cons, if_pos hlt, List.reverse_cons,
      ← List.cons_append, List.getLast?_concat]

end Value

end FormTree
