import FormTree.Proofs.Trails

/-!
# Moves along a route

Repeating a move tests one place after the other, and the move itself may
be a repetition of a simpler one: a search goes from one significant node
to the next, and each of its moves passes over formatting step by step.
With loops inside loops it is not evident that nothing is tested twice or
left out.

A **route** takes the loops apart. It numbers the places that a move comes
to, in any type of numbers, and says which place is before which. A move
keeps to a route when from every place it leads to the first open place
behind it, and nowhere if there is none (`Route.IsKeptBy`). Then a
repetition of the move lands on the first place that passes its test, the
place where it started included (`Route.IsKeptBy.skip`). And a move
followed by such a repetition keeps to the same route, with fewer places
open (`Route.IsKeptBy.andThen_skip`), so that it can be repeated in turn.

What is said about a search is said by `IsFirst`: that the place passes,
and that every other place that passes is behind it.
-/

namespace FormTree

/-- **The first of the places** at which something holds: all others come
after it. -/
structure IsFirst {ι : Type} (before : ι → ι → Prop) (P : ι → Prop)
    (i : ι) : Prop where
  /-- It holds there. -/
  holds : P i
  /-- Wherever else it holds is behind. -/
  eq_or_before : ∀ j, P j → j = i ∨ before i j

/-- **An attempt lands on the first place** at which something holds, and
leads nowhere exactly if it holds at none. What is at a place is said by
`At`. -/
def LandsOn {ι α ε : Type} (before : ι → ι → Prop) (At : ι → α → Prop)
    (P : ι → Prop) (a : Attempt ε α) : Prop :=
  (∃ i x, IsFirst before P i ∧ At i x ∧ a = .ok (some x))
    ∨ ((∀ i, ¬ P i) ∧ a = .ok none)

namespace LandsOn

variable {ι α β ε : Type} {before : ι → ι → Prop} {At : ι → α → Prop}
  {P Q : ι → Prop} {a : Attempt ε α}

/-- Only the places count at which it holds. -/
theorem congr (h : LandsOn before At P a) (hPQ : ∀ i, P i ↔ Q i) :
    LandsOn before At Q a := by
  obtain rfl : P = Q := funext fun i => propext (hPQ i)
  exact h

/-- What is made of the result is where the result was. -/
theorem map (h : LandsOn before At P a) {At' : ι → β → Prop} {f : α → β}
    (hf : ∀ {i x}, At i x → At' i (f x)) :
    LandsOn before At' P (Except.map (Option.map f) a) := by
  rcases h with ⟨i, x, hfirst, hx, rfl⟩ | ⟨hnone, rfl⟩
  · exact .inl ⟨i, f x, hfirst, hf hx, rfl⟩
  · exact .inr ⟨hnone, rfl⟩

/-- **There is one first place**: attempts that land on it are equal. -/
theorem unique {b : Attempt ε α} (ha : LandsOn before At P a)
    (hb : LandsOn before At P b)
    (hasymm : ∀ i j, before i j → ¬ before j i)
    (hAt : ∀ i x y, At i x → At i y → x = y) : a = b := by
  rcases ha with ⟨i, x, hi, hx, rfl⟩ | ⟨hnone, rfl⟩
  · rcases hb with ⟨j, y, hj, hy, rfl⟩ | ⟨hnone, -⟩
    · obtain rfl : j = i := by
        rcases hi.eq_or_before j hj.holds with hji | hij
        · exact hji
        · rcases hj.eq_or_before i hi.holds with hij' | hji
          · exact hij'.symm
          · exact absurd hji (hasymm i j hij)
      rw [hAt j x y hx hy]
    · exact absurd hi.holds (hnone i)
  · rcases hb with ⟨j, y, hj, -, -⟩ | ⟨-, rfl⟩
    · exact absurd hj.holds (hnone j)
    · rfl

/-- Where the way out has landed on the first of the places behind, the way
back lands on the place it led from. -/
theorem eq_of_back {b : Attempt ε α} {i : ι} {x y : α}
    (ha : LandsOn before At (fun k => P k ∧ before i k) a)
    (hx : At i x) (hi : P i) (hy : a = .ok (some y))
    (hb : ∀ j, At j y →
      LandsOn (fun k l => before l k) At (fun k => P k ∧ before k j) b)
    (htotal : ∀ i j, before i j ∨ i = j ∨ before j i)
    (hasymm : ∀ i j, before i j → ¬ before j i)
    (hAt : ∀ i x y, At i x → At i y → x = y) : b = .ok (some x) := by
  rcases ha with ⟨j, y', hj, hy', rfl⟩ | ⟨-, rfl⟩
  · cases hy
    refine (hb j hy').unique
      (.inl ⟨i, x, ⟨⟨hi, hj.holds.2⟩, fun k hk => ?_⟩, hx, rfl⟩)
      (fun k l => hasymm l k) hAt
    -- between the two places there is nothing to land on
    rcases htotal i k with hik | rfl | hki
    · rcases hj.eq_or_before k ⟨hk.1, hik⟩ with rfl | hjk
      · exact absurd hk.2 (hasymm _ _ hk.2)
      · exact absurd hjk (hasymm _ _ hk.2)
    · exact .inl rfl
    · exact .inr hki
  · cases hy

end LandsOn

/-- **A route** of cursors: places in an order, of which only so many are
left behind each of them. A cursor at a place can repeat a move often
enough to come to the end. -/
structure Route {τ ε : Type} (S : Shape τ ε) (ι : Type) where
  /-- Where a cursor is. -/
  At : ι → Cursor τ → Prop
  /-- Which place comes before which. -/
  before : ι → ι → Prop
  /-- A bound for the places behind a place. -/
  remaining : ι → Nat
  /-- What is behind a place behind is behind. -/
  before_trans : ∀ {i j k}, before i j → before j k → before i k
  /-- There are fewer places behind a place behind. -/
  remaining_lt : ∀ {i j c}, At j c → before i j → remaining j < remaining i
  /-- A cursor can repeat a move that often. -/
  remaining_le_reach : ∀ {i c}, At i c → remaining i ≤ c.reach S

namespace Route

variable {τ ε ι : Type} {S : Shape τ ε} {R : Route S ι}
  {Open Passes : ι → Prop} {move : Cursor.Mover τ ε}
  {toSkip : Cursor τ → Bool} {i : ι} {c : Cursor τ}

/-- **A move keeps to a route** with some of its places open: it leads to
the first open place behind. -/
def IsKeptBy (R : Route S ι) (Open : ι → Prop)
    (move : Cursor.Mover τ ε) : Prop :=
  ∀ i c, R.At i c →
    LandsOn R.before R.At (fun j => Open j ∧ R.before i j) (move c)

/-- No place is before itself. -/
theorem not_before_self (R : Route S ι) (hc : R.At i c) :
    ¬ R.before i i :=
  fun h => Nat.lt_irrefl _ (R.remaining_lt hc h)

/-- Behind a place lie the first open place and the open places behind
that. -/
theorem behind_iff {j : ι}
    (hj : IsFirst R.before (fun k => Open k ∧ R.before i k) j) (k : ι) :
    Open k ∧ R.before i k ↔ k = j ∨ Open k ∧ R.before j k := by
  constructor
  · intro hk
    exact (hj.eq_or_before k hk).imp_right fun hjk => ⟨hk.1, hjk⟩
  · rintro (rfl | ⟨hk, hjk⟩)
    · exact hj.holds
    · exact ⟨hk, R.before_trans hj.holds.2 hjk⟩

namespace IsKeptBy

/-- Only the places that are open count. -/
theorem congr (h : R.IsKeptBy Open move) {Open' : ι → Prop}
    (hopen : ∀ j, Open j ↔ Open' j) : R.IsKeptBy Open' move :=
  fun i c hc => (h i c hc).congr fun j => and_congr_left' (hopen j)

/-- The place itself and what is open behind it, if there are enough steps
for the places that remain. -/
theorem skipOf (h : R.IsKeptBy Open move)
    (htest : ∀ {j d}, R.At j d → (toSkip d = false ↔ Passes j))
    {steps : Nat} (hc : R.At i c) (hsteps : R.remaining i ≤ steps) :
    LandsOn R.before R.At
      (fun j => (j = i ∨ Open j ∧ R.before i j) ∧ Passes j)
      (Cursor.skipOf move toSkip steps c) := by
  -- by induction on the steps; a place that is skipped counts no more
  induction steps generalizing i c with
  | zero =>
    have hlast : ∀ j, ¬ (Open j ∧ R.before i j) := by
      intro j hj
      rcases h i c hc with ⟨k, d, hk, hd, -⟩ | ⟨hnone, -⟩
      · have := R.remaining_lt hd hk.holds.2
        omega
      · exact hnone j hj
    rw [Cursor.skipOf]
    cases hskip : toSkip c with
    | false =>
      refine .inl ⟨i, c, ⟨⟨.inl rfl, (htest hc).mp hskip⟩, ?_⟩, hc, rfl⟩
      exact fun j hj => .inl (hj.1.resolve_right (hlast j))
    | true =>
      refine .inr ⟨?_, rfl⟩
      rintro j ⟨rfl | hj, hpass⟩
      · rw [(htest hc).mpr hpass] at hskip
        cases hskip
      · exact hlast j hj
  | succ steps ih =>
    rw [Cursor.skipOf]
    cases hskip : toSkip c with
    | false =>
      rw [if_neg Bool.false_ne_true]
      refine .inl ⟨i, c, ⟨⟨.inl rfl, (htest hc).mp hskip⟩, ?_⟩, hc, rfl⟩
      exact fun j hj => hj.1.imp_right And.right
    | true =>
      rw [if_pos rfl]
      have hself : ¬ Passes i := by
        intro hpass
        rw [(htest hc).mpr hpass] at hskip
        cases hskip
      rcases h i c hc with ⟨j, d, hj, hd, hmove⟩ | ⟨hnone, hmove⟩
      · rw [hmove, Attempt.andThen_ok_some]
        have hfewer := R.remaining_lt hd hj.holds.2
        refine (ih hd (by omega)).congr fun k => ?_
        rw [← behind_iff hj k]
        constructor
        · exact fun hk => ⟨.inr hk.1, hk.2⟩
        · rintro ⟨rfl | hk, hpass⟩
          · exact absurd hpass hself
          · exact ⟨hk, hpass⟩
      · rw [hmove, Attempt.andThen_ok_none]
        refine .inr ⟨?_, rfl⟩
        rintro k ⟨rfl | hk, hpass⟩
        · exact hself hpass
        · exact hnone k hk

/-- **Repeating a move lands on the first place that passes**: the place
itself or an open one behind it. -/
theorem skip (h : R.IsKeptBy Open move)
    (htest : ∀ {j d}, R.At j d → (toSkip d = false ↔ Passes j))
    (hc : R.At i c) :
    LandsOn R.before R.At
      (fun j => (j = i ∨ Open j ∧ R.before i j) ∧ Passes j)
      (c.skip S move toSkip) :=
  h.skipOf htest hc (R.remaining_le_reach hc)

/-- **A move and then a repetition of it keeps to the route** as well,
where only the places are open that pass. -/
theorem andThen_skip (h : R.IsKeptBy Open move)
    (htest : ∀ {j d}, R.At j d → (toSkip d = false ↔ Passes j)) :
    R.IsKeptBy (fun j => Open j ∧ Passes j)
      fun c => (move c).andThen fun d => d.skip S move toSkip := by
  intro i c hc
  rcases h i c hc with ⟨j, d, hj, hd, hmove⟩ | ⟨hnone, hmove⟩
  · simp only [hmove, Attempt.andThen_ok_some]
    refine (h.skip htest hd).congr fun k => ?_
    rw [← behind_iff hj k]
    exact and_right_comm
  · simp only [hmove, Attempt.andThen_ok_none]
    exact .inr ⟨fun k hk => hnone k ⟨hk.1.1, hk.2⟩, rfl⟩

/-- **Repeated until it leads nowhere, a move that keeps to a route visits
every open place behind**, each once and in order. -/
theorem exists_exhausts (h : R.IsKeptBy Open move) {js : List ι}
    (hsorted : js.Pairwise R.before)
    (hjs : ∀ j, j ∈ js ↔ Open j ∧ R.before i j) (hc : R.At i c) :
    ∃ cs, Exhausts move c (c :: cs) ∧ List.Forall₂ R.At js cs := by
  induction js generalizing i c with
  | nil =>
    rcases h i c hc with ⟨j, d, hj, -, -⟩ | ⟨-, hmove⟩
    · exact absurd ((hjs j).mpr hj.holds) List.not_mem_nil
    · exact ⟨[], .stop hmove, .nil⟩
  | cons j js ih =>
    obtain ⟨hfirst, hlater⟩ := List.pairwise_cons.mp hsorted
    have hj := (hjs j).mp List.mem_cons_self
    rcases h i c hc with ⟨k, d, hk, hd, hmove⟩ | ⟨hnone, -⟩
    · -- the first open place behind is the head of the list
      obtain rfl : k = j := by
        rcases List.mem_cons.mp ((hjs k).mpr hk.holds) with hkj | hmem
        · exact hkj
        · rcases hk.eq_or_before j hj with hjk | hkj
          · exact hjk.symm
          · exact absurd (R.before_trans hkj (hfirst k hmem))
              (R.not_before_self hd)
      have hrest : ∀ l, l ∈ js ↔ Open l ∧ R.before k l := by
        intro l
        constructor
        · intro hl
          exact ⟨((hjs l).mp (List.mem_cons_of_mem k hl)).1, hfirst l hl⟩
        · intro hl
          rcases List.mem_cons.mp ((hjs l).mpr
            ((behind_iff hk l).mpr (.inr hl))) with rfl | hmem
          · exact absurd hl.2 (R.not_before_self hd)
          · exact hmem
      obtain ⟨cs, hcs, hall⟩ := ih hlater hrest hd
      exact ⟨d :: cs, .go hmove hcs, .cons hd hall⟩
    · exact absurd hj (hnone j)

end IsKeptBy

end Route

end FormTree
