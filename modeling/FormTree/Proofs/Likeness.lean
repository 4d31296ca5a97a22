import FormTree.Proofs.Forms
import Mathlib.Data.List.Forall2
import Mathlib.Data.List.Perm.Basic

/-!
# Likeness and equality of values

Equality of values is coarse: `true` equals `1`, and two dictionaries with
the same entries are equal in whatever order these were put in. To say
that a conversion preserves a value one needs more. Two values are
**alike** (`Value.Like`) when they have the same scalars in the same
collections in the same order; only the members of sets have no order, a
set may be frozen, and an indefinite result is the same in any place.

Like values are equal as members of something (`Value.Like.eqv`), and no
more than that is needed to see that likeness cannot be told by comparing:
equality is transitive, so what is like equal values is equal
(`Value.Like.eqv_of_eqv`).

Equality of values is not symmetric by the way it is defined. Sets are
compared by their number of members and by finding an equal member for
each; that nothing is left over on the other side is because no two
members are equal. So it takes values that can be built in the first
place, their members hashable and pairwise unequal at every depth
(`Value.isBuildable`), for equality to be symmetric
(`Value.eqv_symm`).
-/

namespace FormTree

/-! ## Rows that correspond -/

section Rows

variable {α β : Type} {R S : α → β → Prop} {xs : List α} {ys : List β}

/-- Everything in a row has something that corresponds to it. -/
theorem exists_mem_of_forall₂ (h : List.Forall₂ R xs ys) {x : α}
    (hx : x ∈ xs) : ∃ y ∈ ys, R x y := by
  induction h with
  | nil => cases hx
  | @cons x' y xs ys hxy _ ih =>
    cases hx with
    | head => exact ⟨y, .head _, hxy⟩
    | tail _ hx =>
      obtain ⟨y', hy', hxy'⟩ := ih hx
      exact ⟨y', .tail _ hy', hxy'⟩

/-- The same the other way round. -/
theorem exists_mem_of_forall₂_right (h : List.Forall₂ R xs ys) {y : β}
    (hy : y ∈ ys) : ∃ x ∈ xs, R x y :=
  exists_mem_of_forall₂ (R := fun y x => R x y) h.flip hy

/-- A correspondence of what is in two rows may be replaced by another. -/
theorem forall₂_imp_of_mem (h : List.Forall₂ R xs ys)
    (hRS : ∀ x ∈ xs, ∀ y ∈ ys, R x y → S x y) : List.Forall₂ S xs ys := by
  induction h with
  | nil => exact .nil
  | @cons x y xs ys hxy _ ih =>
    refine .cons (hRS x (.head _) y (.head _) hxy) (ih ?_)
    exact fun x hx y hy => hRS x (.tail _ hx) y (.tail _ hy)

theorem forall₂_comp {γ : Type} {S : β → γ → Prop} {T : α → γ → Prop}
    {zs : List γ} (h : List.Forall₂ R xs ys) (h' : List.Forall₂ S ys zs)
    (hT : ∀ x ∈ xs, ∀ y z, R x y → S y z → T x z) :
    List.Forall₂ T xs zs := by
  induction h generalizing zs with
  | nil =>
    cases h'
    exact .nil
  | @cons x y xs ys hxy _ ih =>
    cases h' with
    | cons hyz h' =>
      exact .cons (hT x (.head _) y _ hxy hyz)
        (ih h' fun x hx => hT x (.tail _ hx))

/-- What holds of every two things in a row holds of every two that
correspond to them. -/
theorem pairwise_of_forall₂ {P : α → α → Prop} {Q : β → β → Prop}
    (h : List.Forall₂ R xs ys) (hxs : xs.Pairwise P)
    (hPQ : ∀ {x x' y y'}, x ∈ xs → x' ∈ xs → R x y → R x' y' → P x x' →
      Q y y') : ys.Pairwise Q := by
  induction h with
  | nil => exact .nil
  | @cons x y xs ys hxy hrest ih =>
    cases hxs with
    | cons hx hxs =>
      refine .cons (fun y' hy' => ?_) (ih hxs fun hx hx' =>
        hPQ (.tail _ hx) (.tail _ hx'))
      obtain ⟨x', hx', hxy'⟩ := exists_mem_of_forall₂_right hrest hy'
      exact hPQ (.head _) (.tail _ hx') hxy hxy' (hx x' hx')

/-- **Rows of one length match** if everything in the first has a partner
in the second and no two things share one: nothing is left over. By
induction on the first row, taking partners out of the second. -/
theorem exists_perm_of_partners (hlen : xs.length = ys.length)
    (hpartner : ∀ x ∈ xs, ∃ y ∈ ys, R x y)
    (hshared : xs.Pairwise fun x x' => ∀ y ∈ ys, R x y → ¬ R x' y) :
    ∃ zs, List.Forall₂ R xs zs ∧ zs.Perm ys := by
  induction xs generalizing ys with
  | nil =>
    obtain rfl := List.length_eq_zero_iff.mp hlen.symm
    exact ⟨[], .nil, .refl _⟩
  | cons x xs ih =>
    obtain ⟨y, hy, hxy⟩ := hpartner x (.head _)
    obtain ⟨ls, rs, rfl⟩ := List.append_of_mem hy
    -- the others have their partners in what is left without `y`
    cases hshared with
    | cons hx hshared =>
      have hsub : ∀ {y'}, y' ∈ ls ++ rs → y' ∈ ls ++ y :: rs := by
        intro y' hy'
        rw [List.mem_append] at hy' ⊢
        exact hy'.imp_right (.tail _)
      have hmid : (ls ++ y :: rs).Perm (y :: (ls ++ rs)) :=
        List.perm_middle
      obtain ⟨zs, hzs, hperm⟩ := @ih (ls ++ rs)
        (by simpa using hlen.trans hmid.length_eq)
        (fun x' hx' => by
          obtain ⟨y', hy', hxy'⟩ := hpartner x' (.tail _ hx')
          rcases List.mem_cons.mp (hmid.mem_iff.mp hy') with rfl | hy'
          · exact absurd hxy' (hx x' hx' y' hy hxy)
          · exact ⟨y', hy', hxy'⟩)
        (hshared.imp fun h y' hy' => h y' (hsub hy'))
      exact ⟨y :: zs, .cons hxy hzs, (hperm.cons y).trans hmid.symm⟩

end Rows

/-! ## Trees that correspond -/

namespace Node

variable {α : Type}

/-- **Two trees correspond**: they are the same tree, with related
literals in their tokens. -/
inductive Corresponds (R : α → α → Prop) : Node α → Node α → Prop
  | token {v w : α} : R v w → Corresponds R (.token v) (.token w)
  | whitespace (t : Text) : Corresponds R (.whitespace t) (.whitespace t)
  | comment (t : Text) : Corresponds R (.comment t) (.comment t)
  | branch (k : Composite) {cs ds : List (Node α)} :
      List.Forall₂ (Corresponds R) cs ds →
        Corresponds R (.branch k cs) (.branch k ds)

namespace Corresponds

variable {R S T : α → α → Prop} {l m n : Node α}

/-- A tree corresponds to itself, if all its literals are related to
themselves. -/
theorem refl_of (h : ∀ v ∈ n.tokens, R v v) : n.Corresponds R n := by
  induction n using Node.induction with
  | token v => exact .token (h v (.head _))
  | whitespace t => exact .whitespace t
  | comment t => exact .comment t
  | branch k cs ih =>
    exact .branch k (List.forall₂_same.mpr fun c hc =>
      ih c hc fun v hv => h v (mem_tokens_branch.mpr ⟨c, hc, hv⟩))

/-- Correspondence goes the other way, if the relation of the literals
does. -/
theorem symm_of (hmn : m.Corresponds R n)
    (h : ∀ v ∈ m.tokens, ∀ w ∈ n.tokens, R v w → S w v) :
    n.Corresponds S m := by
  induction m using Node.induction generalizing n with
  | token v =>
    cases hmn with
    | token hvw => exact .token (h v (.head _) _ (.head _) hvw)
  | whitespace t => cases hmn; exact .whitespace t
  | comment t => cases hmn; exact .comment t
  | branch k cs ih =>
    cases hmn with
    | branch _ hrow =>
      refine .branch k (List.Forall₂.flip ?_)
      refine forall₂_imp_of_mem hrow fun c hc d hd hcd => ih c hc hcd ?_
      exact fun v hv w hw => h v (mem_tokens_branch.mpr ⟨c, hc, hv⟩) w
        (mem_tokens_branch.mpr ⟨d, hd, hw⟩)

/-- Correspondences are put together, if the relations of the literals
are. -/
theorem trans_of (hlm : l.Corresponds R m) (hmn : m.Corresponds S n)
    (h : ∀ u ∈ l.tokens, ∀ v w, R u v → S v w → T u w) :
    l.Corresponds T n := by
  induction l using Node.induction generalizing m n with
  | token u =>
    cases hlm with
    | token huv =>
      cases hmn with
      | token hvw => exact .token (h u (.head _) _ _ huv hvw)
  | whitespace t =>
    cases hlm
    cases hmn
    exact .whitespace t
  | comment t =>
    cases hlm
    cases hmn
    exact .comment t
  | branch k bs ih =>
    cases hlm with
    | branch _ hbc =>
      cases hmn with
      | branch _ hcd =>
        refine .branch k (forall₂_comp hbc hcd fun b hb c d hbc hcd => ?_)
        exact ih b hb hbc hcd fun u hu =>
          h u (mem_tokens_branch.mpr ⟨b, hb, hu⟩)

end Corresponds

/-- What is decided token by token and branch by branch is decided by the
tokens. -/
theorem iff_forall_tokens {P : α → Prop} {Q : Node α → Prop}
    (token : ∀ v, Q (.token v) ↔ P v) (whitespace : ∀ t, Q (.whitespace t))
    (comment : ∀ t, Q (.comment t))
    (branch : ∀ k cs, Q (.branch k cs) ↔ ∀ c ∈ cs, Q c) (n : Node α) :
    Q n ↔ ∀ v ∈ n.tokens, P v := by
  induction n using Node.induction with
  | token v => simp [tokens, token]
  | whitespace t => simp [tokens, whitespace]
  | comment t => simp [tokens, comment]
  | branch k cs ih =>
    rw [branch]
    constructor
    · intro h v hv
      obtain ⟨c, hc, hv⟩ := mem_tokens_branch.mp hv
      exact (ih c hc).mp (h c hc) v hv
    · intro h c hc
      exact (ih c hc).mpr fun v hv =>
        h v (mem_tokens_branch.mpr ⟨c, hc, hv⟩)

end Node

/-! ## Equality -/

namespace Scalar

/-- **What a scalar is compared by**: its number if it has one, the origin
of an indefinite result, and else its content. -/
def meaning (s : Scalar) : Option Rat × Option Nat × Scalar :=
  match s.number?, s.indefinite? with
  | some q, _ => (some q, none, .nil)
  | none, some i => (none, some i.origin, .nil)
  | none, none => (none, none, s.content)

/-- **Scalars are equal as members when they have the same meaning.** -/
theorem eqv_iff {s t : Scalar} :
    s.eqv true t = true ↔ s.meaning = t.meaning := by
  unfold eqv meaning
  cases s.number? with
  | some p => cases t.number? <;> cases t.indefinite? <;> simp
  | none =>
    cases t.number? with
    | some q => cases s.indefinite? <;> simp
    | none => cases s.indefinite? <;> cases t.indefinite? <;> simp

/-- An indefinite result moves to the place, and keeps its origin. -/
theorem indefinite?_placed (place : List Nat) (s : Scalar) :
    (s.placed place).indefinite?
      = s.indefinite?.map fun i => { i with place := place } := by
  induction s with
  | derived guise base ih => exact ih
  | float x => cases x <;> rfl
  | _ => rfl

/-- A number is not an indefinite result. -/
theorem indefinite?_of_number? {s : Scalar} {q : Rat}
    (h : s.number? = some q) : s.indefinite? = none := by
  induction s with
  | derived guise base ih => exact ih h
  | float x =>
    cases x with
    | nan result => cases h
    | _ => rfl
  | _ => rfl

theorem placed_of_indefinite? {s : Scalar} (h : s.indefinite? = none)
    (place : List Nat) : s.placed place = s := by
  induction s with
  | derived guise base ih => rw [placed, ih h]
  | float x =>
    cases x with
    | nan i => cases h
    | _ => rfl
  | _ => rfl

/-- A scalar has the same meaning at every place. -/
theorem meaning_placed (place : List Nat) (s : Scalar) :
    (s.placed place).meaning = s.meaning := by
  cases hi : s.indefinite? with
  | none => rw [placed_of_indefinite? hi]
  | some i =>
    unfold meaning
    rw [number?_placed, indefinite?_placed, hi]
    cases s.number? <;> rfl

/-- The meaning of a scalar does not depend on where it stands. -/
theorem meaning_eq {s t : Scalar} (h : s.placed [] = t.placed []) :
    s.meaning = t.meaning := by
  rw [← meaning_placed [] s, h, meaning_placed]

/-- A scalar written twice stands where it was written last. -/
theorem placed_placed (p q : List Nat) (s : Scalar) :
    (s.placed p).placed q = s.placed q := by
  induction s with
  | derived guise base ih => exact congrArg (derived guise) ih
  | float x => cases x <;> rfl
  | _ => rfl

end Scalar

namespace Value

/-- What a value is compared as does not stand for anything else. -/
theorem comparand_comparand (v : Value) :
    v.comparand.comparand = v.comparand := by
  induction v using Value.induction with
  | foreign o other ih =>
    cases other with
    | none => rfl
    | some v => exact ih v rfl
  | _ => rfl

theorem eq_none_of_comparand {v : Value} {o : Foreign}
    {other : Option Value} (h : v.comparand = .foreign o other) :
    other = none := by
  induction v using Value.induction with
  | foreign p other' ih =>
    cases other' with
    | none =>
      cases h
      rfl
    | some v => exact ih v rfl h
  | _ => cases h

section Equality

variable {m : Bool} {c : Collection} {xs : List Value} {w : Value}

/-- An object is compared as what it stands for, on the left. -/
theorem eqv_comparand_left (m : Bool) (v w : Value) :
    v.comparand.eqv m w = v.eqv m w := by
  induction v using Value.induction with
  | foreign o other ih =>
    cases other with
    | none => rfl
    | some v => exact ih v rfl
  | _ => rfl

/-- And so it is on the right. -/
theorem eqv_comparand_right (m : Bool) (v w : Value) :
    v.eqv m w.comparand = v.eqv m w :=
  eqv_of_comparand_eq m (comparand_comparand w) v

/-- A scalar is equal to scalars, and to what stands for them. -/
theorem eqv_scalar {a : Scalar} : (scalar a).eqv m w = true
    ↔ ∃ b, w.comparand = .scalar b ∧ a.eqv m b = true := by
  rw [eqv]
  cases w.comparand <;> simp

theorem eqv_bytes {as : List UInt8} : (bytes as).eqv m w = true
    ↔ w.comparand = .bytes as := by
  rw [eqv]
  cases w.comparand <;> simp [eq_comm]

/-- An object that stands for nothing else is equal to those with the same
mark. -/
theorem eqv_foreign {o : Foreign} : (foreign o none).eqv m w = true
    ↔ ∃ p, w.comparand = .foreign p none ∧ o.mark = p.mark := by
  rw [eqv]
  cases h : w.comparand with
  | foreign p other =>
    obtain rfl := eq_none_of_comparand h
    simp
  | _ => simp

theorem eqvRow_iff {ys : List Value} : eqvRow xs ys = true
    ↔ List.Forall₂ (fun x y => x.eqv true y = true) xs ys := by
  induction xs generalizing ys with
  | nil =>
    cases ys with
    | nil => exact iff_of_true rfl .nil
    | cons y ys => exact iff_of_false Bool.false_ne_true (fun h => nomatch h)
  | cons x xs ih =>
    cases ys with
    | nil => exact iff_of_false Bool.false_ne_true (fun h => nomatch h)
    | cons y ys => rw [eqvRow, Bool.and_eq_true, ih, List.forall₂_cons]

/-- Ordered collections are equal place by place. -/
theorem eqv_ordered (hc : c.isOrdered = true) :
    (group c xs).eqv m w = true
      ↔ ∃ d ys, w.comparand = .group d ys ∧ c.base = d.base
        ∧ List.Forall₂ (fun x y => x.eqv true y = true) xs ys := by
  rw [eqv]
  cases w.comparand <;> simp [hc, eqvRow_iff]

/-- Sets are equal when they have as many members and each has an equal
one. -/
theorem eqv_unordered (hc : c.isOrdered = false) :
    (group c xs).eqv m w = true
      ↔ ∃ d ys, w.comparand = .group d ys ∧ d.isOrdered = false
        ∧ xs.length = ys.length
        ∧ ∀ x ∈ xs, ∃ y ∈ ys, x.eqv true y = true := by
  rw [eqv]
  cases w.comparand <;> simp [hc, eqvTo_eq_map, and_assoc]

/-- Dictionaries are equal when they have as many entries and each has one
with an equal key and an equal value. -/
theorem eqv_dict {guise : Option Guise} {ds : List (Value × Value)} :
    (dict guise ds).eqv m w = true
      ↔ ∃ guise' es, w.comparand = .dict guise' es
        ∧ ds.length = es.length ∧ ∀ d ∈ ds, ∃ e ∈ es,
          d.1.eqv true e.1 = true ∧ d.2.eqv true e.2 = true := by
  rw [eqv]
  cases w.comparand <;> simp [eqvToEntry_eq_map]

/-- **Literals are equal in their tokens**: they have the same classes,
are at the same place, and are equal. -/
def EqualInTokens (a b : Value) : Prop :=
  a.classes = b.classes ∧ a.place? = b.place? ∧ a.eqv true b = true

theorem eqvNode_iff {n n' : Form} : eqvNode true n n' = true
    ↔ n.Corresponds EqualInTokens n' := by
  induction n using Node.induction generalizing n' with
  | token a =>
    cases n' with
    | token b =>
      rw [eqvNode, Bool.and_eq_true, Bool.and_eq_true, sameType,
        decide_eq_true_iff, decide_eq_true_iff, and_assoc]
      exact ⟨fun h => .token h, fun h => by cases h; assumption⟩
    | _ => exact iff_of_false Bool.false_ne_true fun h => nomatch h
  | whitespace s =>
    cases n' with
    | whitespace t =>
      rw [eqvNode, decide_eq_true_iff]
      exact ⟨fun h => h ▸ .whitespace s, fun h => by cases h; rfl⟩
    | _ => exact iff_of_false Bool.false_ne_true fun h => nomatch h
  | comment s =>
    cases n' with
    | comment t =>
      rw [eqvNode, decide_eq_true_iff]
      exact ⟨fun h => h ▸ .comment s, fun h => by cases h; rfl⟩
    | _ => exact iff_of_false Bool.false_ne_true fun h => nomatch h
  | branch k cs ih =>
    cases n' with
    | branch l ds =>
      have hrow : eqvNodes cs ds = true
          ↔ List.Forall₂ (Node.Corresponds EqualInTokens) cs ds := by
        induction cs generalizing ds with
        | nil =>
          cases ds with
          | nil => exact iff_of_true rfl .nil
          | cons d ds =>
            exact iff_of_false Bool.false_ne_true fun h => nomatch h
        | cons c cs ihs =>
          cases ds with
          | nil => exact iff_of_false Bool.false_ne_true fun h => nomatch h
          | cons d ds =>
            rw [eqvNodes, Bool.and_eq_true, ih c (.head _),
              ihs (fun c hc => ih c (.tail _ hc)), List.forall₂_cons]
      rw [eqvNode, Bool.and_eq_true, decide_eq_true_iff, hrow]
      constructor
      · rintro ⟨rfl, h⟩
        exact .branch k h
      · intro h
        cases h with
        | branch _ h => exact ⟨rfl, h⟩
    | _ => exact iff_of_false Bool.false_ne_true fun h => nomatch h

/-- Nodes are equal when they are the same tree with equal tokens. -/
theorem eqv_node {n : Form} : (node n).eqv true w = true
    ↔ ∃ n', w.comparand = .node n' ∧ n.Corresponds EqualInTokens n' := by
  rw [eqv]
  cases w.comparand <;> simp [eqvNode_iff]

end Equality

/-- **A value is equal to itself**, as a member of something. -/
theorem eqv_refl (v : Value) : v.eqv true v = true := by
  induction v using Value.induction with
  | scalar s => exact eqv_scalar.mpr ⟨s, rfl, Scalar.eqv_iff.mpr rfl⟩
  | bytes bs => exact eqv_bytes.mpr rfl
  | foreign o other ih =>
    cases other with
    | none => exact eqv_foreign.mpr ⟨o, rfl, rfl⟩
    | some v =>
      rw [← eqv_comparand_right]
      show v.eqv true v.comparand = true
      rw [eqv_comparand_right]
      exact ih v rfl
  | group c items ih =>
    cases hc : c.isOrdered with
    | true =>
      exact (eqv_ordered hc).mpr
        ⟨c, items, rfl, rfl, List.forall₂_same.mpr ih⟩
    | false =>
      exact (eqv_unordered hc).mpr
        ⟨c, items, rfl, hc, rfl, fun v hv => ⟨v, hv, ih v hv⟩⟩
  | dict guise entries ih =>
    exact eqv_dict.mpr
      ⟨guise, entries, rfl, rfl, fun e he => ⟨e, he, ih e he⟩⟩
  | node n ih =>
    exact eqv_node.mpr ⟨n, rfl, .refl_of fun v hv => ⟨rfl, rfl, ih v hv⟩⟩

/-- **Equality is transitive.** -/
theorem eqv_trans {u v w : Value} (huv : u.eqv true v = true)
    (hvw : v.eqv true w = true) : u.eqv true w = true := by
  rw [← eqv_comparand_left] at hvw
  induction u using Value.induction generalizing v w with
  | scalar s =>
    obtain ⟨t, hv, hst⟩ := eqv_scalar.mp huv
    rw [hv] at hvw
    obtain ⟨r, hw, htr⟩ := eqv_scalar.mp hvw
    exact eqv_scalar.mpr ⟨r, hw, Scalar.eqv_iff.mpr
      ((Scalar.eqv_iff.mp hst).trans (Scalar.eqv_iff.mp htr))⟩
  | bytes as =>
    rw [eqv_bytes.mp huv] at hvw
    exact hvw
  | foreign o other ih =>
    cases other with
    | some u => exact ih u rfl huv hvw
    | none =>
      obtain ⟨p, hv, hop⟩ := eqv_foreign.mp huv
      rw [hv] at hvw
      obtain ⟨q, hw, hpq⟩ := eqv_foreign.mp hvw
      exact eqv_foreign.mpr ⟨q, hw, hop.trans hpq⟩
  | group c xs ih =>
    have hitem : ∀ x ∈ xs, ∀ y z, x.eqv true y = true →
        y.eqv true z = true → x.eqv true z = true :=
      fun x hx y z hxy hyz => ih x hx hxy (by rwa [eqv_comparand_left])
    cases hc : c.isOrdered with
    | true =>
      obtain ⟨d, ys, hv, hcd, hxy⟩ := (eqv_ordered hc).mp huv
      have hd : d.isOrdered = true := by
        rw [Collection.isOrdered, ← hcd]
        exact hc
      rw [hv] at hvw
      obtain ⟨e, zs, hw, hde, hyz⟩ := (eqv_ordered hd).mp hvw
      exact (eqv_ordered hc).mpr
        ⟨e, zs, hw, hcd.trans hde, forall₂_comp hxy hyz hitem⟩
    | false =>
      obtain ⟨d, ys, hv, hd, hlen, hxy⟩ := (eqv_unordered hc).mp huv
      rw [hv] at hvw
      obtain ⟨e, zs, hw, he, hlen', hyz⟩ := (eqv_unordered hd).mp hvw
      refine (eqv_unordered hc).mpr
        ⟨e, zs, hw, he, hlen.trans hlen', fun x hx => ?_⟩
      obtain ⟨y, hy, hxy⟩ := hxy x hx
      obtain ⟨z, hz, hyz⟩ := hyz y hy
      exact ⟨z, hz, hitem x hx y z hxy hyz⟩
  | dict guise ds ih =>
    obtain ⟨_, es, hv, hlen, hde⟩ := eqv_dict.mp huv
    rw [hv] at hvw
    obtain ⟨_, fs, hw, hlen', hef⟩ := eqv_dict.mp hvw
    refine eqv_dict.mpr ⟨_, fs, hw, hlen.trans hlen', fun d hd => ?_⟩
    obtain ⟨e, he, hkey, hvalue⟩ := hde d hd
    obtain ⟨f, hf, hkey', hvalue'⟩ := hef e he
    rw [← eqv_comparand_left] at hkey' hvalue'
    exact ⟨f, hf, (ih d hd).1 hkey hkey', (ih d hd).2 hvalue hvalue'⟩
  | node n ih =>
    obtain ⟨n', hv, hn⟩ := eqv_node.mp huv
    rw [hv] at hvw
    obtain ⟨n'', hw, hn'⟩ := eqv_node.mp hvw
    refine eqv_node.mpr
      ⟨n'', hw, hn.trans_of hn' fun a ha b c hab hbc => ?_⟩
    exact ⟨hab.1.trans hbc.1, hab.2.1.trans hbc.2.1,
      ih a ha hab.2.2 (by rw [eqv_comparand_left]; exact hbc.2.2)⟩

/-! ## Values that can be built -/

/-- **A row that makes a set**: everything in it is hashable, and no two
things are equal. -/
def isMemberRow (vs : List Value) : Bool :=
  vs.all (fun v => v.hashFault?.isNone)
    && decide (vs.Pairwise fun v w => v.eqv true w = false)

theorem isMemberRow_iff {vs : List Value} :
    isMemberRow vs = true ↔ (∀ v ∈ vs, v.hashFault? = none)
      ∧ vs.Pairwise fun v w => v.eqv true w = false := by
  rw [isMemberRow, Bool.and_eq_true, decide_eq_true_iff, List.all_eq_true]
  simp only [Option.isNone_iff_eq_none]

mutual
/-- **A value that can be built**: at every depth the members of sets and
the keys of dictionaries are hashable and pairwise unequal. -/
def isBuildable : Value → Bool
  | .foreign _ (some v) => v.isBuildable
  | .group c items =>
    areBuildable items && (c.isOrdered || isMemberRow items)
  | .dict _ entries =>
    entriesBuildable entries && isMemberRow (entries.map Prod.fst)
  | .node n => isBuildableNode n
  | _ => true
termination_by structural v => v
/-- Whether every value of a row can be built. -/
def areBuildable : List Value → Bool
  | [] => true
  | v :: vs => v.isBuildable && areBuildable vs
/-- Whether the keys and values of all entries can be built. -/
def entriesBuildable : List (Value × Value) → Bool
  | [] => true
  | (k, v) :: es => k.isBuildable && v.isBuildable && entriesBuildable es
/-- Whether what the tokens of a tree hold can be built. -/
def isBuildableNode : Form → Bool
  | .token v => v.isBuildable
  | .branch _ cs => areBuildableNodes cs
  | _ => true
/-- Whether what the tokens of a row of trees hold can be built. -/
def areBuildableNodes : List Form → Bool
  | [] => true
  | n :: ns => isBuildableNode n && areBuildableNodes ns
end

theorem isBuildable_group {c : Collection} {items : List Value} :
    (group c items).isBuildable = true
      ↔ (∀ v ∈ items, v.isBuildable = true)
        ∧ (c.isOrdered = false → isMemberRow items = true) := by
  have hall : areBuildable items = true
      ↔ ∀ v ∈ items, v.isBuildable = true := by
    induction items with
    | nil => simp [areBuildable]
    | cons v vs ih => simp [areBuildable, ih]
  rw [isBuildable, Bool.and_eq_true, hall, Bool.or_eq_true]
  cases c.isOrdered <;> simp

theorem isBuildable_dict {guise : Option Guise}
    {entries : List (Value × Value)} :
    (dict guise entries).isBuildable = true
      ↔ (∀ e ∈ entries, e.1.isBuildable = true ∧ e.2.isBuildable = true)
        ∧ isMemberRow (entries.map Prod.fst) = true := by
  have hall : entriesBuildable entries = true
      ↔ ∀ e ∈ entries, e.1.isBuildable = true
        ∧ e.2.isBuildable = true := by
    induction entries with
    | nil => simp [entriesBuildable]
    | cons e es ih =>
      obtain ⟨k, v⟩ := e
      simp [entriesBuildable, ih]
  rw [isBuildable, Bool.and_eq_true, hall]

theorem isBuildable_node {n : Form} : (node n).isBuildable = true
    ↔ ∀ v ∈ n.tokens, v.isBuildable = true := by
  refine Node.iff_forall_tokens (Q := fun n => isBuildableNode n = true)
    (fun v => Iff.rfl) (fun t => rfl) (fun t => rfl) (fun k cs => ?_) n
  show areBuildableNodes cs = true ↔ ∀ c ∈ cs, isBuildableNode c = true
  induction cs with
  | nil => simp [areBuildableNodes]
  | cons c cs ih => simp [areBuildableNodes, ih]

/-- What can be built is compared as something that can be built. -/
theorem isBuildable_comparand (v : Value) :
    v.comparand.isBuildable = v.isBuildable := by
  induction v using Value.induction with
  | foreign o other ih =>
    cases other with
    | none => rfl
    | some v => exact ih v rfl
  | _ => rfl

/-- Unequal members have no equal in common, if equality is symmetric
between the members and their equals. -/
theorem not_eqv_of_pairwise {xs ys : List Value}
    (hpair : xs.Pairwise fun x x' => x.eqv true x' = false)
    (hsymm : ∀ x ∈ xs, ∀ y ∈ ys, x.eqv true y = true →
      y.eqv true x = true) :
    xs.Pairwise fun x x' => ∀ y ∈ ys, x.eqv true y = true →
      ¬ x'.eqv true y = true := by
  refine hpair.imp_of_mem fun {x x'} hx hx' hne y hy hxy hxy' => ?_
  have heq := eqv_trans hxy (hsymm x' hx' y hy hxy')
  rw [hne] at heq
  cases heq

/-- **Equality is symmetric** among values that can be built. For sets and
dictionaries the members find their equals one to one, so that none is
left over. -/
theorem eqv_symm {v w : Value} (hv : v.isBuildable = true)
    (hw : w.isBuildable = true) (h : v.eqv true w = true) :
    w.eqv true v = true := by
  rw [← eqv_comparand_left]
  rw [← isBuildable_comparand] at hw
  induction v using Value.induction generalizing w with
  | scalar s =>
    obtain ⟨t, hwt, hst⟩ := eqv_scalar.mp h
    rw [hwt]
    exact eqv_scalar.mpr
      ⟨s, rfl, Scalar.eqv_iff.mpr (Scalar.eqv_iff.mp hst).symm⟩
  | bytes as =>
    rw [eqv_bytes.mp h]
    exact eqv_bytes.mpr rfl
  | foreign o other ih =>
    cases other with
    | some v =>
      rw [← eqv_comparand_right]
      show w.comparand.eqv true v.comparand = true
      rw [eqv_comparand_right]
      exact ih v rfl hv hw h
    | none =>
      obtain ⟨p, hwp, hop⟩ := eqv_foreign.mp h
      rw [hwp]
      exact eqv_foreign.mpr ⟨o, rfl, hop.symm⟩
  | group c xs ih =>
    obtain ⟨hxs, hrow⟩ := isBuildable_group.mp hv
    have hsymm : ∀ {ys : List Value}, (∀ y ∈ ys, y.isBuildable = true) →
        ∀ x ∈ xs, ∀ y ∈ ys, x.eqv true y = true → y.eqv true x = true := by
      intro ys hys x hx y hy hxy
      rw [← eqv_comparand_left]
      refine ih x hx (hxs x hx) ?_ hxy
      rw [isBuildable_comparand]
      exact hys y hy
    cases hc : c.isOrdered with
    | true =>
      obtain ⟨d, ys, hwd, hcd, hxy⟩ := (eqv_ordered hc).mp h
      rw [hwd] at hw ⊢
      have hd : d.isOrdered = true := by
        rw [Collection.isOrdered, ← hcd]
        exact hc
      refine (eqv_ordered hd).mpr
        ⟨c, xs, rfl, hcd.symm, List.Forall₂.flip ?_⟩
      exact forall₂_imp_of_mem hxy (hsymm (isBuildable_group.mp hw).1)
    | false =>
      obtain ⟨d, ys, hwd, hd, hlen, hxy⟩ := (eqv_unordered hc).mp h
      rw [hwd] at hw ⊢
      have hback := hsymm (isBuildable_group.mp hw).1
      refine (eqv_unordered hd).mpr
        ⟨c, xs, rfl, hc, hlen.symm, fun y hy => ?_⟩
      -- a member of the other set is the partner of one of this
      obtain ⟨zs, hzs, hperm⟩ := exists_perm_of_partners hlen hxy
        (not_eqv_of_pairwise (isMemberRow_iff.mp (hrow hc)).2 hback)
      obtain ⟨x, hx, hxy⟩ := exists_mem_of_forall₂_right hzs
        (hperm.mem_iff.mpr hy)
      exact ⟨x, hx, hback x hx y hy hxy⟩
  | dict guise ds ih =>
    obtain ⟨hds, hrow⟩ := isBuildable_dict.mp hv
    obtain ⟨guise', es, hwe, hlen, hde⟩ := eqv_dict.mp h
    rw [hwe] at hw ⊢
    obtain ⟨hes, -⟩ := isBuildable_dict.mp hw
    have hkeys : ∀ d ∈ ds, ∀ e ∈ es, d.1.eqv true e.1 = true →
        e.1.eqv true d.1 = true := by
      intro d hd e he hkey
      rw [← eqv_comparand_left]
      refine (ih d hd).1 (hds d hd).1 ?_ hkey
      rw [isBuildable_comparand]
      exact (hes e he).1
    refine eqv_dict.mpr ⟨guise, ds, rfl, hlen.symm, fun e he => ?_⟩
    -- two entries with a common equal would have equal keys
    have hshared : ds.Pairwise fun d d' => ∀ e ∈ es,
        d.1.eqv true e.1 = true ∧ d.2.eqv true e.2 = true →
          ¬ (d'.1.eqv true e.1 = true ∧ d'.2.eqv true e.2 = true) := by
      have hpair := List.pairwise_map.mp (isMemberRow_iff.mp hrow).2
      refine hpair.imp_of_mem fun {d d'} hd hd' hne e he heq heq' => ?_
      have hkey := eqv_trans heq.1 (hkeys d' hd' e he heq'.1)
      rw [hne] at hkey
      cases hkey
    obtain ⟨zs, hzs, hperm⟩ := exists_perm_of_partners hlen hde hshared
    obtain ⟨d, hd, heq⟩ := exists_mem_of_forall₂_right hzs
      (hperm.mem_iff.mpr he)
    refine ⟨d, hd, hkeys d hd e he heq.1, ?_⟩
    rw [← eqv_comparand_left]
    refine (ih d hd).2 (hds d hd).2 ?_ heq.2
    rw [isBuildable_comparand]
    exact (hes e he).2
  | node n ih =>
    obtain ⟨n', hwn, hn⟩ := eqv_node.mp h
    rw [hwn] at hw ⊢
    have hvs := isBuildable_node.mp hv
    have hws := isBuildable_node.mp hw
    refine eqv_node.mpr ⟨n, rfl, hn.symm_of fun a ha b hb hab => ?_⟩
    refine ⟨hab.1.symm, hab.2.1.symm, ?_⟩
    rw [← eqv_comparand_left]
    refine ih a ha (hvs a ha) ?_ hab.2.2
    rw [isBuildable_comparand]
    exact hws b hb

/-! ## Likeness -/

/-- **Two values are alike**: the same scalars in the same collections and
in the same order. Only sets have no order of members and may be frozen,
and an indefinite result is the same in every place. -/
inductive Like : Value → Value → Prop
  /-- The same scalar, wherever it stands. -/
  | scalar {s t : Scalar} : s.placed [] = t.placed [] →
      Like (.scalar s) (.scalar t)
  /-- Like members in the same order. -/
  | ordered {c : Collection} {xs ys : List Value} : c.isOrdered = true →
      List.Forall₂ Like xs ys → Like (.group c xs) (.group c ys)
  /-- Like members in any order. -/
  | unordered {c d : Collection} {xs ys zs : List Value} :
      c.isOrdered = false → d.isOrdered = false → c.guise = d.guise →
      List.Forall₂ Like xs zs → zs.Perm ys →
      Like (.group c xs) (.group d ys)
  /-- Like keys and like values, in the same order. -/
  | dict {guise : Option Guise} {ds es : List (Value × Value)} :
      List.Forall₂ (fun d e => Like d.1 e.1) ds es →
      List.Forall₂ (fun d e => Like d.2 e.2) ds es →
      Like (.dict guise ds) (.dict guise es)

namespace Like

/-- Likeness is symmetric. -/
theorem symm {v w : Value} (h : v.Like w) : w.Like v := by
  induction v using Value.induction generalizing w with
  | group c xs ih =>
    cases h with
    | ordered hc hxy =>
      refine .ordered hc (List.Forall₂.flip ?_)
      exact forall₂_imp_of_mem hxy fun x hx y _ => ih x hx
    | unordered hc hd hcd hxz hperm =>
      have hzx : List.Forall₂ Like _ xs := List.Forall₂.flip
        (forall₂_imp_of_mem hxz fun x hx y _ => ih x hx)
      obtain ⟨us, hyu, hux⟩ := List.perm_comp_forall₂ hperm.symm hzx
      exact .unordered hd hc hcd.symm hyu hux
  | dict guise ds ih =>
    cases h with
    | dict hkeys hvalues =>
      refine .dict (List.Forall₂.flip ?_) (List.Forall₂.flip ?_)
      · exact forall₂_imp_of_mem hkeys fun d hd e _ => (ih d hd).1
      · exact forall₂_imp_of_mem hvalues fun d hd e _ => (ih d hd).2
  | scalar s =>
    cases h with
    | scalar hst => exact .scalar hst.symm
  | _ => cases h

/-- Likeness is transitive. -/
theorem trans {u v w : Value} (huv : u.Like v) (hvw : v.Like w) :
    u.Like w := by
  induction u using Value.induction generalizing v w with
  | group c xs ih =>
    cases huv with
    | ordered hc hxy =>
      cases hvw with
      | ordered _ hyz =>
        exact .ordered hc (forall₂_comp hxy hyz fun x hx y z => ih x hx)
      | unordered hc' => rw [hc] at hc'; cases hc'
    | unordered hc hd hcd hxy hperm =>
      cases hvw with
      | ordered hd' => rw [hd] at hd'; cases hd'
      | unordered _ he hde hyz hperm' =>
        obtain ⟨us, hxu, huz⟩ := List.perm_comp_forall₂ hperm hyz
        exact .unordered hc he (hcd.trans hde)
          (forall₂_comp hxy hxu fun x hx y z => ih x hx) (huz.trans hperm')
  | dict guise ds ih =>
    cases huv with
    | dict hkeys hvalues =>
      cases hvw with
      | dict hkeys' hvalues' =>
        exact .dict
          (forall₂_comp hkeys hkeys' fun d hd e f => (ih d hd).1)
          (forall₂_comp hvalues hvalues' fun d hd e f => (ih d hd).2)
  | scalar s =>
    cases huv with
    | scalar hst =>
      cases hvw with
      | scalar htr => exact .scalar (hst.trans htr)
  | _ => cases huv

/-- **Like values are equal**, as members of something. -/
theorem eqv {v w : Value} (h : v.Like w) : v.eqv true w = true := by
  induction v using Value.induction generalizing w with
  | group c xs ih =>
    cases h with
    | ordered hc hxy =>
      exact (eqv_ordered hc).mpr ⟨_, _, rfl, rfl,
        forall₂_imp_of_mem hxy fun x hx y _ => ih x hx⟩
    | unordered hc hd _ hxz hperm =>
      refine (eqv_unordered hc).mpr ⟨_, _, rfl, hd,
        hxz.length_eq.trans hperm.length_eq, fun x hx => ?_⟩
      obtain ⟨z, hz, hlike⟩ := exists_mem_of_forall₂ hxz hx
      exact ⟨z, hperm.mem_iff.mp hz, ih x hx hlike⟩
  | dict guise ds ih =>
    cases h with
    | dict hkeys hvalues =>
      refine eqv_dict.mpr ⟨_, _, rfl, hkeys.length_eq, fun d hd => ?_⟩
      obtain ⟨e, he, hkey, hvalue⟩ := exists_mem_of_forall₂
        (List.Forall₂.mp (fun _ _ => And.intro) hkeys hvalues) hd
      exact ⟨e, he, (ih d hd).1 hkey, (ih d hd).2 hvalue⟩
  | scalar s =>
    cases h with
    | @scalar _ t hst =>
      exact eqv_scalar.mpr
        ⟨t, rfl, Scalar.eqv_iff.mpr (Scalar.meaning_eq hst)⟩
  | _ => cases h

/-- **Comparing does not tell like values apart.** -/
theorem eqv_of_eqv {v v' w w' : Value} (hv : v.Like v') (hw : w.Like w')
    (h : v'.eqv true w' = true) : v.eqv true w = true :=
  eqv_trans (eqv_trans hv.eqv h) hw.symm.eqv

end Like

end Value

end FormTree
