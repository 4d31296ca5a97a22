import FormTree.Proofs.Positions
import FormTree.Session

/-!
# The forms of values

What the literal conversion makes of a value is built from tokens by
putting rows of forms side by side, unless nodes come in from outside.
`Literal.toForm_induction` says so for the values without nodes in them,
and properties of their forms are proved by it.

Values are one recursive family with nodes. `Value.induction` is the
induction over it: through collections and dictionaries, through the
objects that stand for something, and through the tokens of nodes.
-/

namespace FormTree

/-- What is made of a result comes from a result. -/
theorem Attempt.exists_of_map_eq_ok {ε α β : Type} {x : Except ε α}
    {f : α → β} {b : β} (h : x.map f = .ok b) :
    ∃ a, x = .ok a ∧ f a = b := by
  cases x with
  | error e => cases h
  | ok a =>
    injection h with h
    exact ⟨a, rfl, h⟩

namespace Node

variable {α : Type}

mutual
/-- **What the tokens of a tree hold.** -/
def tokens : Node α → List α
  | .token v => [v]
  | .branch _ cs => tokensIn cs
  | _ => []
termination_by structural n => n
/-- What the tokens of a row of trees hold. -/
def tokensIn : List (Node α) → List α
  | [] => []
  | n :: ns => n.tokens ++ tokensIn ns
end

theorem mem_tokens_branch {k : Composite} {cs : List (Node α)} {v : α} :
    v ∈ (Node.branch k cs).tokens ↔ ∃ c ∈ cs, v ∈ c.tokens := by
  rw [tokens]
  induction cs with
  | nil => simp [tokensIn]
  | cons c cs ih => simp [tokensIn, ih]

end Node

namespace Value

theorem sizeOf_lt_of_mem_tokens {n : Form} {v : Value}
    (h : v ∈ n.tokens) : sizeOf v < sizeOf n := by
  induction n using Node.induction with
  | token w =>
    obtain rfl : v = w := List.mem_singleton.mp h
    rw [Node.token.sizeOf_spec]
    omega
  | whitespace t => cases h
  | comment t => cases h
  | branch k cs ih =>
    obtain ⟨c, hc, hv⟩ := Node.mem_tokens_branch.mp h
    have hlt := ih c hc hv
    have hmem := List.sizeOf_lt_of_mem hc
    rw [Node.branch.sizeOf_spec]
    omega

/-- **Induction over a value**: what holds of a collection or a dictionary
as soon as it holds of everything in it, of an object as soon as it holds
of what that stands for, of a node as soon as it holds of what its tokens
hold, and of everything else, holds of every value. -/
@[elab_as_elim]
theorem induction {motive : Value → Prop}
    (scalar : ∀ s, motive (.scalar s))
    (bytes : ∀ bs, motive (.bytes bs))
    (foreign : ∀ o other, (∀ v, other = some v → motive v) →
      motive (.foreign o other))
    (group : ∀ c items, (∀ v ∈ items, motive v) → motive (.group c items))
    (dict : ∀ guise entries, (∀ e ∈ entries, motive e.1 ∧ motive e.2) →
      motive (.dict guise entries))
    (node : ∀ n : Form, (∀ v ∈ n.tokens, motive v) → motive (.node n)) :
    ∀ v, motive v
  | .scalar s => scalar s
  | .bytes bs => bytes bs
  | .foreign o other =>
    foreign o other fun v _ =>
      induction scalar bytes foreign group dict node v
  | .group c items =>
    group c items fun v _ =>
      induction scalar bytes foreign group dict node v
  | .dict guise entries =>
    dict guise entries fun e _ =>
      ⟨induction scalar bytes foreign group dict node e.1,
        induction scalar bytes foreign group dict node e.2⟩
  | .node n =>
    node n fun v _ => induction scalar bytes foreign group dict node v
termination_by v => sizeOf v
decreasing_by
  all_goals simp_wf
  · subst other
    simp only [Option.some.sizeOf_spec]
    omega
  · have hlt := List.sizeOf_lt_of_mem ‹_ ∈ items›
    omega
  iterate 2
    have hlt := List.sizeOf_lt_of_mem ‹_ ∈ entries›
    obtain ⟨k, v⟩ := e
    simp only [Prod.mk.sizeOf_spec] at hlt ⊢
    omega
  · have hlt := sizeOf_lt_of_mem_tokens ‹_ ∈ n.tokens›
    omega

mutual
/-- **Whether there is no node in a value.** -/
def isNodeFree : Value → Bool
  | .group _ items => areNodeFree items
  | .dict _ entries => entriesNodeFree entries
  | .node _ => false
  | _ => true
termination_by structural v => v
/-- Whether there is no node in any of the values. -/
def areNodeFree : List Value → Bool
  | [] => true
  | v :: vs => v.isNodeFree && areNodeFree vs
/-- Whether there is no node in any of the entries. -/
def entriesNodeFree : List (Value × Value) → Bool
  | [] => true
  | (k, v) :: es => k.isNodeFree && v.isNodeFree && entriesNodeFree es
end

theorem areNodeFree_iff {vs : List Value} :
    areNodeFree vs = true ↔ ∀ v ∈ vs, v.isNodeFree = true := by
  induction vs with
  | nil => simp [areNodeFree]
  | cons v vs ih => simp [areNodeFree, ih]

theorem entriesNodeFree_iff {es : List (Value × Value)} :
    entriesNodeFree es = true
      ↔ ∀ e ∈ es, e.1.isNodeFree = true ∧ e.2.isNodeFree = true := by
  induction es with
  | nil => simp [entriesNodeFree]
  | cons e es ih =>
    obtain ⟨k, v⟩ := e
    simp [entriesNodeFree, ih]

/-- **Writing a value anew puts no nodes into it.** -/
@[simp] theorem isNodeFree_placed (place : List Nat) (v : Value) :
    (v.placed place).isNodeFree = v.isNodeFree := by
  induction v using Value.induction generalizing place with
  | group c items ih =>
    rw [placed, isNodeFree, isNodeFree]
    generalize 0 = i
    induction items generalizing i with
    | nil => rfl
    | cons v vs ihs =>
      rw [placedItems, areNodeFree, areNodeFree, ih v List.mem_cons_self,
        ihs fun w hw => ih w (List.mem_cons_of_mem v hw)]
  | dict guise entries ih =>
    rw [placed, isNodeFree, isNodeFree]
    generalize 0 = i
    induction entries generalizing i with
    | nil => rfl
    | cons e es ihs =>
      obtain ⟨k, v⟩ := e
      rw [placedEntries, entriesNodeFree, entriesNodeFree,
        (ih (k, v) List.mem_cons_self).1, (ih (k, v) List.mem_cons_self).2,
        ihs fun w hw => ih w (List.mem_cons_of_mem _ hw)]
  | _ => rfl

end Value

namespace Node

variable {α : Type}

theorem spaced_cons_cons (separator : Text) (m n : Node α)
    (ns : List (Node α)) :
    spaced separator (m :: n :: ns)
      = m :: .whitespace separator :: spaced separator (n :: ns) := by
  rw [spaced]
  simp

/-- Between forms set side by side there is white space and nothing
else. -/
theorem mem_spaced {separator : Text} {ns : List (Node α)} {n : Node α}
    (h : n ∈ spaced separator ns) : n ∈ ns ∨ n = .whitespace separator := by
  induction ns with
  | nil => cases h
  | cons m ns ih =>
    cases ns with
    | nil => exact .inl h
    | cons l ns =>
      rw [spaced_cons_cons] at h
      rcases List.mem_cons.mp h with rfl | h
      · exact .inl List.mem_cons_self
      · rcases List.mem_cons.mp h with rfl | h
        · exact .inr rfl
        · exact (ih h).imp_left (List.mem_cons_of_mem m)

end Node

namespace Literal

/-- What has been collected was there. -/
theorem mem_of_collect {ε α : Type} {l : List (Except ε α)} {as : List α}
    (h : collect l = .ok as) {a : α} (ha : a ∈ as) : .ok a ∈ l := by
  induction l generalizing as with
  | nil =>
    cases h
    cases ha
  | cons x l ih =>
    cases x with
    | error e => cases h
    | ok b =>
      obtain ⟨bs, hl, rfl⟩ := Attempt.exists_of_map_eq_ok h
      rcases List.mem_cons.mp ha with rfl | ha
      · exact List.mem_cons_self
      · exact List.mem_cons_of_mem _ (ih hl ha)

/-- Arranging members neither adds nor drops any. -/
theorem mem_arranged {β : Type} {c : Collection}
    {items : List (Value × β)} {b : β} :
    b ∈ arranged c items ↔ b ∈ items.map Prod.snd := by
  unfold arranged
  by_cases hc : c.isOrdered = true
  · rw [if_pos hc]
  · have hperm := (List.mergeSort_perm
      (items.map fun p => (p.1.memberKey, p.2))
      fun p q => p.1.le q.1).map Prod.snd
    rw [if_neg hc, hperm.mem_iff, List.map_map]
    rfl

theorem toForms_eq_map (separator : Text) (vs : List Value) :
    toForms separator vs = vs.map fun v => (v, toForm separator v) := by
  induction vs with
  | nil => rfl
  | cons v vs ih => rw [toForms, ih, List.map_cons]

theorem mem_entryForms {separator : Text} {es : List (Value × Value)}
    {x : Except ConversionError Form}
    (h : x ∈ entryForms separator es) :
    ∃ e ∈ es, x = toForm separator e.1 ∨ x = toForm separator e.2 := by
  induction es with
  | nil => cases h
  | cons e es ih =>
    obtain ⟨k, v⟩ := e
    rw [entryForms] at h
    rcases List.mem_cons.mp h with rfl | h
    · exact ⟨(k, v), List.mem_cons_self, .inl rfl⟩
    · rcases List.mem_cons.mp h with rfl | h
      · exact ⟨(k, v), List.mem_cons_self, .inr rfl⟩
      · obtain ⟨e, he, hx⟩ := ih h
        exact ⟨e, List.mem_cons_of_mem _ he, hx⟩

/-- A collection of forms set side by side comes from its members. -/
theorem exists_of_map_spaced {separator : Text} {k : Composite}
    {l : List (Except ConversionError Form)} {n : Form}
    (h : (collect l).map (fun ns => Node.branch k (Node.spaced separator ns))
      = .ok n) :
    ∃ ns, n = .branch k (Node.spaced separator ns)
      ∧ ∀ m ∈ ns, .ok m ∈ l := by
  obtain ⟨ns, hl, rfl⟩ := Attempt.exists_of_map_eq_ok h
  exact ⟨ns, rfl, fun m hm => mem_of_collect hl hm⟩

/-- **Induction over the forms of values without nodes**: what holds of
the tokens of scalars, and of forms set side by side as soon as it holds
of each of them, holds of every such form. -/
theorem toForm_induction {separator : Text} {P : Form → Prop}
    (token : ∀ s, P (.token (.scalar s)))
    (branch : ∀ k ns, (∀ n ∈ ns, P n) →
      P (.branch k (Node.spaced separator ns)))
    {v : Value} {n : Form} (hv : v.isNodeFree = true)
    (h : toForm separator v = .ok n) : P n := by
  induction v using Value.induction generalizing n with
  | scalar s =>
    cases h
    exact token s
  | bytes bs => cases h
  | foreign o other => cases h
  | node m => cases hv
  | group c items ih =>
    obtain ⟨ns, rfl, hns⟩ := exists_of_map_spaced h
    refine branch _ ns fun m hm => ?_
    have hmem := mem_arranged.mp (hns m hm)
    rw [toForms_eq_map, List.map_map, List.mem_map] at hmem
    obtain ⟨w, hw, hform⟩ := hmem
    exact ih w hw (Value.areNodeFree_iff.mp hv w hw) hform
  | dict guise entries ih =>
    obtain ⟨ns, rfl, hns⟩ := exists_of_map_spaced h
    refine branch _ ns fun m hm => ?_
    obtain ⟨e, he, hform⟩ := mem_entryForms (hns m hm)
    have hfree := Value.entriesNodeFree_iff.mp hv e he
    rcases hform with hform | hform
    · exact (ih e he).1 hfree.1 hform.symm
    · exact (ih e he).2 hfree.2 hform.symm

end Literal

end FormTree
