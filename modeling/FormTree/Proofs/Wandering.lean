import FormTree.Proofs.Invariants
import FormTree.Proofs.Walk

/-!
# Wandering through a tree

Between two edits a cursor may go anywhere, by any moves: plain ones and
those over significant nodes, repeated or in a search. Along the way rows
that have been edited are made into new parents, sooner or later according
to the route, so the frames of two cursors at the same position need not
be the same. The tree that a cursor stands for is: no move changes it
(`Session.Wanders.standsAt`), and every position of it can be reached
(`Session.StandsAt.exists_wanders_position`). What is done at a position therefore
depends on the tree and the position and not on the route.
-/

namespace FormTree

/-- **Whether an action only moves**, however often: none of its moves
takes out the focus. -/
def Action.onlyMoves : Action → Bool
  | .move m => decide (m ≠ .remove)
  | .skip m _ => decide (m ≠ .remove)
  | .skipInsignificant m => decide (m ≠ .remove)
  | .find _ m => decide (m ≠ .remove)
  | .findKind _ m => decide (m ≠ .remove)
  | .findToken _ m => decide (m ≠ .remove)
  | .findLiteral _ m => decide (m ≠ .remove)
  | .findNext _ => true
  | .findPrevious _ => true
  | _ => false

namespace Session

/-- **A session wanders** to another if moves lead from the one to the
other. -/
def Wanders (s t : Session) : Prop :=
  s.Reaches (fun _ a => a.onlyMoves = true) t

/-- **A session is at a position**: the indices of its frames, from the
outermost in, are the position. -/
def IsAtPosition (s : Session) (p : List Nat) : Prop :=
  (s.cursor.path.map Frame.index).reverse = p.map Int.ofNat

/-- What plain steps keep, an action that only moves keeps. -/
theorem within_outcome_of_onlyMoves {s : Session}
    {I : Cursor Value → Prop} {E : Failure → Prop}
    (hstep : ∀ {c} (d : Direction), I c → (d.step s.shape c).Within I E)
    (hs : I s.cursor) {a : Action} (ha : a.onlyMoves = true) :
    (s.outcome a).Within I E := by
  have hrun : ∀ {m : Move}, decide (m ≠ .remove) = true → ∀ c, I c →
      (m.run s.shape s.policy.config c).Within I E :=
    fun hm _ => Cursor.within_run hstep s.policy.config
      (of_decide_eq_true hm)
  cases a with
  | move m => exact hrun ha _ hs
  | skip m test => exact Cursor.within_skipOf (hrun ha) _ _ hs
  | skipInsignificant m => exact Cursor.within_skipOf (hrun ha) _ _ hs
  | find test m => exact Cursor.within_skipOf (hrun ha) _ _ hs
  | findKind k m => exact Cursor.within_skipOf (hrun ha) _ _ hs
  | findToken test m => exact Cursor.within_skipOf (hrun ha) _ _ hs
  | findLiteral v m => exact Cursor.within_skipOf (hrun ha) _ _ hs
  | findNext k =>
    exact Cursor.within_findSibling hstep s.policy.config k .right hs
  | findPrevious k =>
    exact Cursor.within_findSibling hstep s.policy.config k .left hs
  | _ => cases ha

/-- **A session stands at a place** of a tree of forms, with a policy. -/
structure StandsAt (s : Session) (policy : Policy) (z : Place) : Prop where
  /-- The session is over forms. -/
  shape_eq : s.shape = .forms
  /-- It has the policy. -/
  policy_eq : s.policy = policy
  /-- Its cursor is at the place. -/
  isAt : s.cursor.IsAt z

theorem standsAt_start (policy : Policy) (t : Form) :
    (start .forms policy (.node t)).StandsAt policy ⟨t, []⟩ :=
  ⟨rfl, rfl, Cursor.isAt_atRoot t⟩

namespace StandsAt

variable {s : Session} {policy : Policy} {z : Place}

theorem root_eq (h : s.StandsAt policy z) :
    s.root = .ok (.node z.whole) := by
  rw [root, h.shape_eq]
  exact h.isAt.root_eq

/-- The session is at the position of the place, and at no other. -/
theorem isAtPosition_iff (h : s.StandsAt policy z) {p : List Nat} :
    s.IsAtPosition p ↔ z.index = p := by
  rw [IsAtPosition, h.isAt.index_eq]
  exact List.map_inj_right fun _ _ => Int.ofNat.inj

end StandsAt

/-- **A reply answers** an attempt on places: it fails in the same way,
leads nowhere where that does, or leads to a session that stands where
that leads. -/
inductive Answers (policy : Policy) :
    Attempt Failure Place → Attempt Failure Session → Prop
  | fail (e : Failure) : Answers policy (.error e) (.error e)
  | nowhere : Answers policy (.ok none) (.ok none)
  | somewhere {y : Place} {t : Session} : t.StandsAt policy y →
      Answers policy (.ok (some y)) (.ok (some t))

/-- What comes of an action that goes like one on places. -/
theorem StandsAt.answers {s : Session} {policy : Policy} {z : Place}
    (h : s.StandsAt policy z) {a : Action} {o : Attempt Failure Place}
    (ha : Cursor.GoesLike (s.outcome a) o) :
    Answers policy o (s.perform a).result := by
  show Answers policy o ((s.outcome a).map _)
  cases o with
  | error e =>
    rw [show s.outcome a = .error e from ha]
    exact .fail e
  | ok o =>
    cases o with
    | none =>
      rw [show s.outcome a = .ok none from ha]
      exact .nowhere
    | some y =>
      obtain ⟨d, hd, hat⟩ := ha
      rw [hd]
      exact .somewhere ⟨h.shape_eq, h.policy_eq, hat⟩

/-- A step of a cursor that is somewhere in a tree stays in that tree. -/
theorem within_step_of_whole (t : Form) {c : Cursor Value} (d : Direction)
    (h : ∃ y, c.IsAt y ∧ y.whole = t) :
    (d.step .forms c).Within (fun e => ∃ y, e.IsAt y ∧ y.whole = t)
      fun _ => False := by
  obtain ⟨y, hat, rfl⟩ := h
  have harrives := hat.step d
  cases hy : y.step d with
  | none =>
    rw [hy] at harrives
    rw [show d.step .forms c = .ok none from harrives]
    trivial
  | some x =>
    rw [hy] at harrives
    obtain ⟨e, he, hx⟩ := harrives
    rw [he]
    exact ⟨x, hx, Place.whole_of_step hy⟩

/-- **Wandering does not change the tree.** -/
theorem Wanders.standsAt {s t : Session} (h : s.Wanders t)
    {policy : Policy} {z : Place} (hs : s.StandsAt policy z) :
    ∃ y, t.StandsAt policy y ∧ y.whole = z.whole := by
  refine Reaches.invariant
    (I := fun u => ∃ y, u.StandsAt policy y ∧ y.whole = z.whole) h ?_
    ⟨z, hs, rfl⟩
  rintro u a c ⟨y, hy, hwhole⟩ ha hc
  have hstep : ∀ {c} (d : Direction), _ → (d.step u.shape c).Within _ _ :=
    hy.shape_eq ▸ within_step_of_whole z.whole
  have hwithin := within_outcome_of_onlyMoves hstep ⟨y, hy.isAt, hwhole⟩ ha
  rw [hc] at hwithin
  obtain ⟨x, hx, hwhole⟩ := hwithin
  exact ⟨x, ⟨hy.shape_eq, hy.policy_eq, hx⟩, hwhole⟩

/-- Along the trail of a direction a session wanders to every place. -/
theorem exists_wanders_of_mem {s t : Session} {policy : Policy}
    {d : Direction} {z : Place} {l : List Place}
    (hl : Exhausts (Place.stepping d) z l) (hst : s.Wanders t)
    (ht : t.StandsAt policy z) {y : Place} (hy : y ∈ l) :
    ∃ u, s.Wanders u ∧ u.StandsAt policy y := by
  induction hl generalizing t with
  | stop _ =>
    obtain rfl := List.mem_singleton.mp hy
    exact ⟨t, hst, ht⟩
  | @go z x l hmove _ ih =>
    cases hy with
    | head => exact ⟨t, hst, ht⟩
    | tail _ hy =>
      have hgo : Cursor.GoesLike (t.outcome (.move (.plain d)))
          (Place.stepping d z) := by
        show Cursor.Arrives (d.step t.shape t.cursor) (z.step d)
        rw [ht.shape_eq]
        exact ht.isAt.step d
      have hanswer := ht.answers hgo
      rw [hmove] at hanswer
      generalize hu : (t.perform (.move (.plain d))).result = r at hanswer
      cases hanswer with
      | somewhere hux => exact ih (.step hst rfl hu) hux hy

/-- **Every place of the tree can be reached by wandering.** -/
theorem StandsAt.exists_wanders {s : Session} {policy : Policy} {z : Place}
    (h : s.StandsAt policy z) {y : Place} (hy : y ∈ Place.walk z.whole) :
    ∃ t, s.Wanders t ∧ t.StandsAt policy y := by
  -- it is behind the place of the session, or else ahead
  rw [Place.walk_eq, List.mem_append, List.mem_reverse] at hy
  rcases hy with hy | hy
  · exact exists_wanders_of_mem z.exhausts_prev .here h
      (List.mem_cons_of_mem z hy)
  · exact exists_wanders_of_mem z.exhausts_next .here h hy

/-- **Every position can be reached by wandering.** -/
theorem StandsAt.exists_wanders_position {s : Session} {policy : Policy}
    {z : Place} (h : s.StandsAt policy z) {p : List Nat}
    (hp : (z.whole.at? p).isSome = true) :
    ∃ t y, s.Wanders t ∧ t.StandsAt policy y ∧ y.whole = z.whole
      ∧ y.index = p := by
  have hmem : p ∈ (Place.walk z.whole).map Place.index := by
    rw [Place.map_index_walk]
    exact Node.mem_positions_iff.mpr hp
  obtain ⟨y, hy, rfl⟩ := List.mem_map.mp hmem
  obtain ⟨t, ht, hty⟩ := h.exists_wanders hy
  obtain ⟨x, hx, hwhole⟩ := ht.standsAt h
  have hroot := hx.root_eq.symm.trans hty.root_eq
  have hxy : x.whole = y.whole := by
    injection hroot with hroot
    injection hroot
  exact ⟨t, y, ht, hty, hxy.symm.trans hwhole, rfl⟩

end Session

end FormTree
