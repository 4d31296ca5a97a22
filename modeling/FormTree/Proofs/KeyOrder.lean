import FormTree.Literal.Order
import Mathlib.Data.List.Nodup

/-!
# The order of keys is linear

The members of a set are sorted by their keys, and a row sorted by a
linear order does not depend on how it was arranged before. That the order
of keys is linear is proved here, from the order of characters up: texts
are compared character by character, keys by type and then by text or
member by member, and each time a comparison that comes out even leaves it
to the next one (`Ordering.then`).

Two keys compare as equal only if they are the same key
(`MemberKey.eq_of_order`). So the sorted row of keys is the same for every
arrangement of them (`MemberKey.mergeSort_eq_of_perm`), and what goes with
a key is in the same place too, as long as no two keys are the same
(`MemberKey.mergeSort_fst_eq_of_perm`).
-/

namespace FormTree

section Then

variable {α : Type} (cmp : α → α → Ordering) {x y z : α}
  {o o' o'' : Ordering}

/-- A comparison that is continued where it comes out even is transitive,
if it is and what continues it is. -/
theorem then_lt_trans (hxy : cmp x y = .eq → x = y)
    (hyz : cmp y z = .eq → y = z)
    (hlt : cmp x y = .lt → cmp y z = .lt → cmp x z = .lt)
    (ho : o = .lt → o' = .lt → o'' = .lt)
    (h : (cmp x y).then o = .lt) (h' : (cmp y z).then o' = .lt) :
    (cmp x z).then o'' = .lt := by
  rw [Ordering.then_eq_lt] at h h' ⊢
  rcases h with h | ⟨heq, h⟩
  · rcases h' with h' | ⟨heq', -⟩
    · exact .inl (hlt h h')
    · exact .inl (hyz heq' ▸ h)
  · rcases h' with h' | ⟨heq', h'⟩
    · exact .inl ((hxy heq).symm ▸ h')
    · exact .inr ⟨hyz heq' ▸ heq, ho h h'⟩

end Then

/-! ## Texts -/

/-- Characters are compared by their numbers. -/
theorem orderChars_cons (a b : Char) (as bs : List Char) :
    orderChars (a :: as) (b :: bs)
      = (compare a.toNat b.toNat).then (orderChars as bs) := by
  rw [orderChars]
  split
  · next h => rw [Nat.compare_eq_lt.mpr h]; rfl
  · split
    · next h => rw [Nat.compare_eq_gt.mpr h]; rfl
    · next h h' =>
      rw [Nat.compare_eq_eq.mpr (by omega)]
      rfl

theorem eq_of_orderChars {as bs : List Char} (h : orderChars as bs = .eq) :
    as = bs := by
  induction as generalizing bs with
  | nil =>
    cases bs with
    | nil => rfl
    | cons b bs => cases h
  | cons a as ih =>
    cases bs with
    | nil => cases h
    | cons b bs =>
      rw [orderChars_cons, Ordering.then_eq_eq, Nat.compare_eq_eq] at h
      rw [Char.toNat_inj.mp h.1, ih h.2]

theorem orderChars_swap (as bs : List Char) :
    orderChars bs as = (orderChars as bs).swap := by
  induction as generalizing bs with
  | nil => cases bs <;> rfl
  | cons a as ih =>
    cases bs with
    | nil => rfl
    | cons b bs =>
      rw [orderChars_cons, orderChars_cons, Ordering.swap_then, ih,
        Nat.compare_swap]

theorem orderChars_lt_trans {as bs cs : List Char}
    (h : orderChars as bs = .lt) (h' : orderChars bs cs = .lt) :
    orderChars as cs = .lt := by
  induction as generalizing bs cs with
  | nil =>
    cases cs with
    | nil => cases bs <;> cases h'
    | cons c cs => rfl
  | cons a as ih =>
    cases bs with
    | nil => cases h
    | cons b bs =>
      cases cs with
      | nil => cases h'
      | cons c cs =>
        rw [orderChars_cons] at h h' ⊢
        refine then_lt_trans (fun a b : Char => compare a.toNat b.toNat)
          ?_ ?_ ?_ ih h h'
        · exact fun he => Char.toNat_inj.mp (Nat.compare_eq_eq.mp he)
        · exact fun he => Char.toNat_inj.mp (Nat.compare_eq_eq.mp he)
        · intro hab hbc
          exact Nat.compare_eq_lt.mpr (Nat.lt_trans
            (Nat.compare_eq_lt.mp hab) (Nat.compare_eq_lt.mp hbc))

theorem eq_of_orderText {s t : String} (h : orderText s t = .eq) : s = t :=
  String.toList_inj.mp (eq_of_orderChars h)

theorem orderText_swap (s t : String) :
    orderText t s = (orderText s t).swap :=
  orderChars_swap s.toList t.toList

theorem orderText_lt_trans {s t u : String} (h : orderText s t = .lt)
    (h' : orderText t u = .lt) : orderText s u = .lt :=
  orderChars_lt_trans h h'

/-! ## Keys -/

namespace MemberKey

/-- **Induction over a key**: what holds of the keys of members holds of
the key of the set. -/
@[elab_as_elim]
theorem induction {motive : MemberKey → Prop}
    (printed : ∀ typeName text, motive (.printed typeName text))
    (members : ∀ typeName keys, (∀ k ∈ keys, motive k) →
      motive (.members typeName keys)) : ∀ k, motive k
  | .printed typeName text => printed typeName text
  | .members typeName keys =>
    members typeName keys fun k _ => induction printed members k

/-- **Keys that compare as equal are equal.** -/
theorem eq_of_order {k l : MemberKey} (h : k.order l = .eq) : k = l := by
  induction k using MemberKey.induction generalizing l with
  | printed t s =>
    cases l with
    | printed u r =>
      obtain ⟨ht, hs⟩ := Ordering.then_eq_eq.mp h
      rw [eq_of_orderText ht, eq_of_orderText hs]
    | members u ls => cases (Ordering.then_eq_eq.mp h).2
  | members t ks ih =>
    cases l with
    | printed u r => cases (Ordering.then_eq_eq.mp h).2
    | members u ls =>
      obtain ⟨ht, hrow⟩ := Ordering.then_eq_eq.mp h
      rw [eq_of_orderText ht]
      congr 1
      clear h ht
      induction ks generalizing ls with
      | nil =>
        cases ls with
        | nil => rfl
        | cons l ls => cases hrow
      | cons k ks ihs =>
        cases ls with
        | nil => cases hrow
        | cons l ls =>
          obtain ⟨hk, hks⟩ := Ordering.then_eq_eq.mp hrow
          rw [ih k (.head _) hk, ihs (fun m hm => ih m (.tail k hm)) ls hks]

/-- **Comparing the other way round** turns the outcome round. -/
theorem order_swap (k l : MemberKey) : l.order k = (k.order l).swap := by
  induction k using MemberKey.induction generalizing l with
  | printed t s =>
    cases l with
    | printed u r =>
      rw [order, order, Ordering.swap_then, ← orderText_swap,
        ← orderText_swap]
    | members u ls =>
      rw [order, order, Ordering.swap_then, ← orderText_swap]
      rfl
  | members t ks ih =>
    cases l with
    | printed u r =>
      rw [order, order, Ordering.swap_then, ← orderText_swap]
      rfl
    | members u ls =>
      rw [order, order, Ordering.swap_then, ← orderText_swap]
      congr 1
      induction ks generalizing ls with
      | nil => cases ls <;> rfl
      | cons k ks ihs =>
        cases ls with
        | nil => rfl
        | cons l ls =>
          rw [orderRow, orderRow, Ordering.swap_then, ih k (.head _),
            ihs fun m hm => ih m (.tail k hm)]

theorem order_self (k : MemberKey) : k.order k = .eq := by
  have h := order_swap k k
  cases hk : k.order k with
  | eq => rfl
  | lt => rw [hk] at h; cases h
  | gt => rw [hk] at h; cases h

/-- Rows of keys are compared transitively, if the keys of the first row
are. -/
theorem orderRow_lt_trans {ks ls ms : List MemberKey}
    (hks : ∀ k ∈ ks, ∀ {l m : MemberKey}, k.order l = .lt →
      l.order m = .lt → k.order m = .lt)
    (h : orderRow ks ls = .lt) (h' : orderRow ls ms = .lt) :
    orderRow ks ms = .lt := by
  induction ks generalizing ls ms with
  | nil =>
    cases ms with
    | nil => cases ls <;> cases h'
    | cons m ms => rfl
  | cons k ks ih =>
    cases ls with
    | nil => cases h
    | cons l ls =>
      cases ms with
      | nil => cases h'
      | cons m ms =>
        exact then_lt_trans order eq_of_order eq_of_order
          (hks k (.head _)) (ih fun j hj => hks j (.tail k hj)) h h'

/-- **The order of keys is transitive.** -/
theorem order_lt_trans {k l m : MemberKey} (h : k.order l = .lt)
    (h' : l.order m = .lt) : k.order m = .lt := by
  -- the types come first, and a printed key before one made of members
  have htype : ∀ {t u w : String} {o o' o'' : Ordering},
      (o = .lt → o' = .lt → o'' = .lt) → (orderText t u).then o = .lt →
      (orderText u w).then o' = .lt → (orderText t w).then o'' = .lt :=
    then_lt_trans orderText eq_of_orderText eq_of_orderText
      orderText_lt_trans
  have hgt : ∀ {o : Ordering}, Ordering.gt = .lt → o = .lt := nofun
  induction k using MemberKey.induction generalizing l m with
  | printed t s =>
    cases l with
    | printed u r =>
      cases m with
      | printed w q => exact htype orderText_lt_trans h h'
      | members w ms => exact htype (fun _ _ => rfl) h h'
    | members u ls =>
      cases m with
      | printed w q => exact htype (fun _ => hgt) h h'
      | members w ms => exact htype (fun _ _ => rfl) h h'
  | members t ks ih =>
    cases l with
    | printed u r =>
      cases m with
      | printed w q => exact htype (fun h _ => hgt h) h h'
      | members w ms => exact htype (fun h _ => hgt h) h h'
    | members u ls =>
      cases m with
      | printed w q => exact htype (fun _ => hgt) h h'
      | members w ms =>
        exact htype (orderRow_lt_trans fun k hk => ih k hk) h h'

/-! ## Sorted rows -/

theorem le_total (k l : MemberKey) : (k.le l || l.le k) = true := by
  rw [le, le, order_swap k l]
  cases k.order l <;> rfl

theorem le_antisymm {k l : MemberKey} (h : k.le l = true)
    (h' : l.le k = true) : k = l := by
  refine eq_of_order ?_
  rw [le, order_swap k l] at h'
  rw [le] at h
  cases hkl : k.order l with
  | eq => rfl
  | lt => rw [hkl] at h'; cases h'
  | gt => rw [hkl] at h; cases h

theorem le_trans {k l m : MemberKey} (h : k.le l = true)
    (h' : l.le m = true) : k.le m = true := by
  have hcases : ∀ {x y : MemberKey}, x.le y = true →
      x.order y = .lt ∨ x = y := by
    intro x y hxy
    rw [le] at hxy
    cases ho : x.order y with
    | lt => exact .inl rfl
    | eq => exact .inr (eq_of_order ho)
    | gt => rw [ho] at hxy; cases hxy
  rcases hcases h with hkl | rfl
  · rcases hcases h' with hlm | rfl
    · rw [le, order_lt_trans hkl hlm]
      rfl
    · exact h
  · exact h'

/-- **Sorted keys do not depend on how they were arranged.** -/
theorem mergeSort_eq_of_perm {ks ls : List MemberKey} (h : ks.Perm ls) :
    ks.mergeSort le = ls.mergeSort le := by
  have hsorted := @List.pairwise_mergeSort _ le (fun _ _ _ => le_trans)
    le_total
  refine List.Perm.eq_of_pairwise (fun _ _ _ _ => le_antisymm)
    (hsorted ks) (hsorted ls) ?_
  exact (List.mergeSort_perm ks le).trans
    (h.trans (List.mergeSort_perm ls le).symm)

/-- **Neither does what goes with them**, as long as no two of them are
the same. -/
theorem mergeSort_fst_eq_of_perm {β : Type}
    {ps qs : List (MemberKey × β)} (h : ps.Perm qs)
    (hkeys : (ps.map Prod.fst).Nodup) :
    ps.mergeSort (fun p q => p.1.le q.1)
      = qs.mergeSort fun p q => p.1.le q.1 := by
  have hsorted := @List.pairwise_mergeSort (MemberKey × β)
    (fun p q => p.1.le q.1) (fun _ _ _ => le_trans)
    fun p q => le_total p.1 q.1
  refine List.Perm.eq_of_pairwise ?_ (hsorted ps) (hsorted qs) ?_
  · intro p q hp hq hpq hqp
    rw [List.mem_mergeSort] at hp hq
    exact List.inj_on_of_nodup_map hkeys hp (h.mem_iff.mpr hq)
      (le_antisymm hpq hqp)
  · exact (List.mergeSort_perm ps _).trans
      (h.trans (List.mergeSort_perm qs _).symm)

/-- **Rows with the same keys are sorted alike**: what stood side by side
still does. -/
theorem forall₂_mergeSort_fst {β γ : Type} {R : β → γ → Prop}
    {ps : List (MemberKey × β)} {qs : List (MemberKey × γ)}
    (h : List.Forall₂ (fun p q => p.1 = q.1 ∧ R p.2 q.2) ps qs) :
    List.Forall₂ (fun p q => R p.2 q.2)
      (ps.mergeSort fun p q => p.1.le q.1)
      (qs.mergeSort fun p q => p.1.le q.1) := by
  obtain ⟨hlen, hzip⟩ := List.forall₂_iff_zip.mp h
  -- both rows are read off the sorted row of the pairs
  have hps : ((ps.zip qs).mergeSort fun s t => s.1.1.le t.1.1).map Prod.fst
      = ps.mergeSort fun p q => p.1.le q.1 := by
    rw [List.map_mergeSort (s := fun p q => p.1.le q.1),
      List.map_fst_zip (Nat.le_of_eq hlen)]
    exact fun _ _ _ _ => rfl
  have hqs : ((ps.zip qs).mergeSort fun s t => s.1.1.le t.1.1).map Prod.snd
      = qs.mergeSort fun p q => p.1.le q.1 := by
    rw [List.map_mergeSort (s := fun p q => p.1.le q.1),
      List.map_snd_zip (Nat.le_of_eq hlen.symm)]
    intro s hs t ht
    rw [(hzip hs).1, (hzip ht).1]
  rw [← hps, ← hqs, List.forall₂_map_left_iff, List.forall₂_map_right_iff,
    List.forall₂_same]
  exact fun t ht => (hzip (List.mem_mergeSort.mp ht)).2

end MemberKey

end FormTree
