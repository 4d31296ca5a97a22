import FormTree.Proofs.Frames

/-!
# The bearings of a cursor

A cursor knows its way back to the root from its frames alone, and the
frames are touched by every operation: a step to a sibling changes an
index, an insertion before the focus shifts it, taking out the focus
shortens the row, and going up enters a new parent into the row outside.
Should one of them leave an index beside its row, or a row that does not
hold what the frame inside it records, the cursor would be lost, and the
next way up would put together another tree.

That never happens, for trees of any shape and whatever is put into them
(`Session.hasBearings_of_reaches`). The invariant behind it,
`Cursor.Enclosed`, follows the path from the inside out. Here it is read
off frame by frame: `Cursor.lineage` lists what each frame leads to, and
`Frame.Locates` says what a frame has to do with it.
-/

namespace FormTree

variable {τ ε : Type}

/-- **A frame locates a node**: its index is a place of its row and the
node stands there, its parent is a branch, and a row that is not marked as
changed is the row of that parent. -/
structure Frame.Locates (S : Shape τ ε) (f : Frame τ) (t : τ) : Prop where
  /-- The index does not count from the end. -/
  index_nonneg : 0 ≤ f.index
  /-- The index is inside the row. -/
  index_lt : f.index < f.siblings.length
  /-- The node stands at the index. -/
  getElem?_index : f.siblings[f.index.toNat]? = some t
  /-- The recorded parent is a branch. -/
  isBranch : S.isBranch f.parent = true
  /-- An unchanged row is the row of the recorded parent. -/
  eq_of_unchanged : f.changed = false →
    f.row = .ofList (S.children f.parent)

/-- What a frame encloses is located by it. -/
theorem Frame.Encloses.locates {S : Shape τ ε} {f : Frame τ} {t : τ}
    (h : f.Encloses S t) : f.Locates S t := by
  obtain ⟨ls, rs, hrow, hindex⟩ := h.split
  have hsiblings : f.siblings = ls ++ t :: rs := siblings_eq hrow
  refine ⟨?_, ?_, ?_, h.isBranch, fun hc => ?_⟩
  · rw [hindex]
    exact Int.natCast_nonneg _
  · rw [hindex, length_siblings hrow]
    omega
  · rw [hindex, Int.toNat_natCast, hsiblings]
    simp
  · rw [← h.eq_of_unchanged hc, hrow, hsiblings]

namespace Cursor

/-- **What the frames of a cursor lead to**, from the inside out: the
focus, and after it the parent that each of the frames records. -/
def lineage (c : Cursor τ) : List τ := c.focus :: c.path.map Frame.parent

/-- **A cursor has its bearings**: each of its frames locates what it
leads to – the innermost one the focus, and every other one the parent
that the frame inside it records. -/
def HasBearings (S : Shape τ ε) (c : Cursor τ) : Prop :=
  ∀ (i : Nat) (f : Frame τ), c.path[i]? = some f →
    ∃ t, c.lineage[i]? = some t ∧ f.Locates S t

/-- **A cursor whose path encloses its focus has its bearings.** By
induction on the path; the frames around a frame enclose the parent it
records. -/
theorem Enclosed.hasBearings {S : Shape τ ε} {c : Cursor τ}
    (h : c.IsEnclosed S) : c.HasBearings S := by
  obtain ⟨focus, path⟩ := c
  change Enclosed S path focus at h
  induction h with
  | root t =>
    intro i f hf
    cases hf
  | @inside g path t hg _ ih =>
    intro i f hf
    cases i with
    | zero =>
      obtain rfl : g = f := Option.some_inj.mp hf
      exact ⟨t, rfl, hg.locates⟩
    | succ i => exact ih i f hf

/-- Every place of a trail has what the start has and the move keeps. -/
theorem forall_mem_of_trailOf {I : Cursor τ → Prop} {E : ε → Prop}
    {move : Mover τ ε} (hmove : ∀ c, I c → (move c).Within I E)
    (steps : Nat) {c : Cursor τ} (hc : I c) {cs : List (Cursor τ)}
    (h : trailOf move steps c = .ok cs) : ∀ d ∈ cs, I d := by
  induction steps generalizing c cs with
  | zero =>
    cases h
    simpa using hc
  | succ steps ih =>
    have hnext := hmove c hc
    rw [trailOf] at h
    split at h
    · cases h
    · cases h
      simpa using hc
    · next d hd =>
      rw [hd] at hnext
      obtain ⟨ds, hds, rfl⟩ := Attempt.exists_of_map_eq_ok h
      exact List.forall_mem_cons.mpr ⟨hc, ih hnext hds⟩

end Cursor

namespace Session

/-- **A cursor never loses its bearings.** Whatever has been done in a
session, over a tree of whatever shape, with whatever has been put into
it: each frame of the cursor locates what it leads to, and so it is for
every place on the trail of a move. The shape and the policy are those
that the session was started with. Nothing is asked of how a shape makes
branches. Its trees are finite, as a branch weighs more than all its
children (`Shape.weight_pos`, `Shape.total_children_lt`), and that is all
a shape comes with. -/
theorem hasBearings_of_reaches {Allowed : Session → Action → Prop}
    {S : Shape Value Failure} {policy : Policy} {root : Value}
    {s : Session} (h : (Session.start S policy root).Reaches Allowed s) :
    s.cursor.HasBearings S ∧ s.shape = S ∧ s.policy = policy
      ∧ ∀ m cs, (s.trail m).1 = .ok cs → ∀ c ∈ cs, c.HasBearings S := by
  have hshape : s.shape = S := h.shape_eq
  have henclosed := h.isEnclosed
  obtain ⟨S', policy', c⟩ := s
  obtain rfl : S' = S := hshape
  refine ⟨henclosed.hasBearings, rfl, h.policy_eq, ?_⟩
  intro m cs hcs d hd
  have htrail : c.trail S' (m.run S' policy'.config) = .ok cs := by
    unfold trail at hcs
    split at hcs
    · next places hplaces =>
      cases hcs
      exact hplaces
    · cases hcs
  have hkeeps := Cursor.keeps_isEnclosed S' (E := fun _ => True)
    fun _ _ _ _ => trivial
  exact Cursor.Enclosed.hasBearings (Cursor.forall_mem_of_trailOf
    (fun _ => hkeeps.run policy'.config m) _ henclosed htrail d hd)

/-- In the nested lists `[[1, 2], 3]` the cursor has gone down to the `2`,
has put a value before it, and has gone up and in again: the frame outside
is marked by then, and the one inside is new. -/
theorem hasBearings_of_reaches_nested :
    ∃ s : Session,
      (Session.start (.nested .list) .standard
        (.list [.list [.int 1, .int 2], .int 3])).Reaches
          (fun _ _ => True) s
      ∧ s.cursor.path.map Frame.changed = [false, true]
      ∧ s.cursor.path.map Frame.index = [2, 0]
      ∧ s.cursor.HasBearings (.nested .list) := by
  have hrun : (Session.start (.nested .list) .standard
      (.list [.list [.int 1, .int 2], .int 3])).Reaches
        (fun _ _ => True) _ :=
    .step (.step (.step (.step (.step (.step (.step .here
      (a := .move (.plain .down)) trivial rfl)
      (a := .move (.plain .down)) trivial rfl)
      (a := .move (.plain .right)) trivial rfl)
      (a := .insert .left .nil) trivial rfl)
      (a := .move (.plain .up)) trivial rfl)
      (a := .move (.plain .down)) trivial rfl)
      (a := .move (.plain .rightmost)) trivial rfl
  exact ⟨_, hrun, rfl, rfl, (hasBearings_of_reaches hrun).1⟩

end Session

end FormTree
