import FormTree.Proofs.Strays

/-!
# Retracing a step

A step to the next place may leave several branches at once, and the step
back has to enter the same ones again, through frames that are made on the
way. If one of the branches left was edited, it is made anew in between,
so the cursor that comes back is not the cursor that went: its frames hold
the edit that the others had still pending. What has to be the same is the
place. Where nothing is pending the frames are the same as well, since a
cursor without a mark is determined by its place
(`Cursor.IsAt.eq_of_isClean`).

On places every direction that can be kept to is undone by the opposite
one (`Place.step_opposite`). The steps to significant nodes pass over a
run of places in between, in both directions over the same run
(`Place.ahead_opposite`), and so they undo each other too, as long as they
started at a significant place (`Place.significant_opposite`).
-/

namespace FormTree

namespace Direction

/-- **The opposite direction.** -/
def opposite : Direction → Direction
  | .down => .up
  | .up => .down
  | .left => .right
  | .right => .left
  | .leftmost => .rightmost
  | .rightmost => .leftmost
  | .next => .prev
  | .prev => .next

/-- A direction that can be kept to has an opposite that can be kept
to. -/
theorem onward_opposite {d : Direction} (hd : d.onward = d) :
    d.opposite.onward = d.opposite := by
  cases d with
  | left | right | next | prev => rfl
  | down | up | leftmost | rightmost => cases hd

end Direction

/-! ## On places -/

namespace Place

variable {d : Direction} {z y : Place}

/-- **The opposite step leads back.** -/
theorem step_opposite (hd : d.onward = d) (h : z.step d = some y) :
    y.step d.opposite = some z := by
  obtain ⟨n, levels⟩ := z
  cases d with
  | right =>
    match levels, h with
    | ⟨k, ls, r :: rs⟩ :: outer, h =>
      obtain rfl := Option.some_inj.mp h
      rfl
  | left =>
    match levels, h with
    | ⟨k, l :: ls, rs⟩ :: outer, h =>
      obtain rfl := Option.some_inj.mp h
      rfl
  | next => exact prev_of_next h
  | prev => exact next_of_prev h
  | down | up | leftmost | rightmost => cases hd

/-- **Between two places lie the same places in both directions**, in
reverse order. -/
theorem ahead_opposite (hd : d.onward = d) {as bs : List Place}
    (h : z.ahead d = as ++ y :: bs) :
    y.ahead d.opposite = as.reverse ++ z :: z.ahead d.opposite := by
  -- one step after the other, from the place that lies nearest
  induction as generalizing z with
  | nil =>
    have hstep : z.step d = some y := by
      rw [step_eq_head? hd, h]
      rfl
    exact ahead_of_step (Direction.onward_opposite hd)
      (step_opposite hd hstep)
  | cons x as ih =>
    have hstep : z.step d = some x := by
      rw [step_eq_head? hd, h]
      rfl
    have hrest : x.ahead d = as ++ y :: bs := by
      rw [ahead_of_step hd hstep] at h
      exact (List.cons.inj h).2
    rw [ih hrest, ahead_of_step (Direction.onward_opposite hd)
      (step_opposite hd hstep), List.reverse_cons, List.append_assoc]
    rfl

/-- **A step between significant places is undone by the opposite one.** -/
theorem significant_opposite (hd : d.onward = d) {cfg : Config}
    (hz : z.isSignificant cfg = true) (h : z.significant cfg d = some y) :
    y.significant cfg d.opposite = some z := by
  rw [significant_eq_find? hd] at h
  obtain ⟨-, as, bs, hahead, hskipped⟩ := List.find?_eq_some_iff_append.mp h
  rw [significant_eq_find? (Direction.onward_opposite hd),
    ahead_opposite hd hahead]
  refine List.find?_eq_some_iff_append.mpr ⟨hz, as.reverse, _, rfl, ?_⟩
  exact fun x hx => hskipped x (List.mem_reverse.mp hx)

end Place

/-! ## Cursors with nothing pending -/

namespace Cursor

section Clean

variable {τ ε : Type}

/-- **A cursor is clean** if none of its frames is marked as changed. -/
def IsClean (c : Cursor τ) : Prop := ∀ f ∈ c.path, f.changed = false

/-- **No plain step leaves a mark** where there is none: going up takes the
recorded parent, and every other step enters a row without editing it. -/
theorem keptByParts_isClean (S : Shape τ ε) :
    KeptByParts S IsClean where
  down hc hd := by
    unfold down at hd
    split at hd
    · cases hd
      exact List.forall_mem_cons.mpr ⟨rfl, hc⟩
    · cases hd
  downLast hc hd := by
    unfold downLast at hd
    split at hd
    · cases hd
    · obtain ⟨t, -, rfl⟩ := Option.map_eq_some_iff.mp hd
      exact List.forall_mem_cons.mpr ⟨rfl, hc⟩
  up {c d} hc hd := by
    obtain ⟨t, _ | ⟨f, outer⟩⟩ := c
    · cases hd
    · obtain ⟨hf, houter⟩ := List.forall_mem_cons.mp hc
      simp only [up, hf, Bool.false_eq_true, if_false] at hd
      cases hd
      exact houter
  toSibling {c d i} hc hd := by
    obtain ⟨t, _ | ⟨f, outer⟩⟩ := c
    · cases hd
    · obtain ⟨hf, houter⟩ := List.forall_mem_cons.mp hc
      unfold toSibling at hd
      split at hd
      · cases hd
      · next hpath =>
        cases hpath
        split at hd
        · cases hd
        · cases hd
          exact List.forall_mem_cons.mpr ⟨hf, houter⟩

end Clean

end Cursor

/-- A frame without a mark is determined by the level it records. -/
theorem Frame.Records.eq_of_clean {f g : Frame Value} {l : Level}
    {n : Form} {old older : List Form} (hf : f.Records l n old)
    (hg : g.Records l n older) (hfclean : f.changed = false)
    (hgclean : g.changed = false) : f = g ∧ old = older := by
  have hold : old = older :=
    (hf.eq_of_unchanged hfclean).trans (hg.eq_of_unchanged hgclean).symm
  have hparent : f.parent = g.parent := by
    rw [hf.parent_eq, hg.parent_eq, hold]
  have hrow : f.row = g.row := hf.row_eq.trans hg.row_eq.symm
  have hindex : f.index = g.index := hf.index_eq.trans hg.index_eq.symm
  obtain ⟨row, index, parent, changed⟩ := f
  obtain ⟨row', index', parent', changed'⟩ := g
  obtain rfl : row = row' := hrow
  obtain rfl : index = index' := hindex
  obtain rfl : parent = parent' := hparent
  obtain rfl : changed = changed' := hfclean.trans hgclean.symm
  exact ⟨rfl, hold⟩

namespace Cursor

/-- So is a path without marks. -/
theorem Follows.eq_of_clean {path path' : List (Frame Value)}
    {levels : List Level} {n : Form} (h : Follows path levels n)
    (h' : Follows path' levels n) (hc : ∀ f ∈ path, f.changed = false)
    (hc' : ∀ f ∈ path', f.changed = false) : path = path' := by
  induction h generalizing path' with
  | root n =>
    cases h'
    rfl
  | inside hf _ ih =>
    cases h' with
    | inside hg hpath =>
      obtain ⟨hfclean, houter⟩ := List.forall_mem_cons.mp hc
      obtain ⟨hgclean, houter'⟩ := List.forall_mem_cons.mp hc'
      -- the recorded parents are the same, so the paths around them are
      obtain ⟨rfl, rfl⟩ := hf.eq_of_clean hg hfclean hgclean
      rw [ih hpath houter houter']

namespace IsAt

variable {c d : Cursor Value} {z : Place}

/-- **A clean cursor is determined by its place.** -/
theorem eq_of_isClean (h : c.IsAt z) (h' : d.IsAt z) (hc : c.IsClean)
    (hd : d.IsClean) : c = d := by
  have hfocus : c.focus = d.focus := h.focus_eq.trans h'.focus_eq.symm
  have hpath := h.follows.eq_of_clean h'.follows hc hd
  obtain ⟨focus, path⟩ := c
  obtain ⟨focus', path'⟩ := d
  obtain rfl : focus = focus' := hfocus
  obtain rfl : path = path' := hpath
  rfl

/-- Cursors at one place have their frames at the same indices. -/
theorem map_index_eq (h : c.IsAt z) (h' : d.IsAt z) :
    c.path.map Frame.index = d.path.map Frame.index :=
  List.reverse_inj.mp (h.index_eq.trans h'.index_eq.symm)

end IsAt

end Cursor

/-! ## In a session -/

namespace Session

/-- **An action puts nodes** into the tree and nothing else: what it is
given to put there as it is, is a node, and what a conversion makes for it
is one. -/
def PutsNodes (s : Session) (a : Action) : Prop :=
  match a with
  | .assign v conv => ∀ w, (s.converterOr conv).toNode v = .ok w →
      w.isNode = true
  | .amend f conv occasion => ∀ v u w,
      (s.converterOr conv).toValue s.cursor.focus = .ok v →
        written occasion f v = .ok u →
          (s.converterOr conv).toNode u = .ok w → w.isNode = true
  | a => s.Puts (fun v => v.isNode = true) a

/-- An action that puts nodes into the tree keeps the cursor standing
somewhere. -/
theorem PutsNodes.stands {policy : Policy} {c d : Cursor Value}
    {a : Action} (ha : PutsNodes ⟨.forms, policy, c⟩ a) (hc : c.Stands)
    (hd : outcome ⟨.forms, policy, c⟩ a = .ok (some d)) : d.Stands := by
  have hkept : Puts (fun v => v.isNode = true) ⟨.forms, policy, c⟩ a →
      d.Stands := by
    intro hputs
    have hwithin := (Cursor.keeps_stands fun _ => True).outcome
      (s := ⟨.forms, policy, c⟩) hc hputs fun _ _ => trivial
    rw [hd] at hwithin
    exact hwithin
  cases a with
  | assign v conv =>
    obtain ⟨e, he, hd⟩ := Attempt.exists_of_map_eq_ok hd
    obtain ⟨w, hw, rfl⟩ := Attempt.exists_of_map_eq_ok he
    obtain rfl := Option.some_inj.mp hd
    exact hc.replace (ha w hw)
  | amend f conv occasion =>
    obtain ⟨e, he, hd⟩ := Attempt.exists_of_map_eq_ok hd
    obtain rfl := Option.some_inj.mp hd
    unfold Cursor.amend at he
    split at he
    · cases he
    · next v hv =>
      split at he
      · cases he
      · next u hu =>
        obtain ⟨w, hw, rfl⟩ := Attempt.exists_of_map_eq_ok he
        exact hc.replace (ha v u w hv hu hw)
  | _ => exact hkept ha

/-- **In a run that puts nodes into the tree the cursor stands
somewhere.** -/
theorem Reaches.stands_of_putsNodes {policy : Policy} {root : Value}
    {s : Session}
    (h : (Session.start .forms policy root).Reaches PutsNodes s) :
    s.cursor.Stands := by
  suffices hI : s.shape = .forms ∧ s.cursor.Stands from hI.2
  refine h.invariant (I := fun t => t.shape = .forms ∧ t.cursor.Stands) ?_
    ⟨rfl, Cursor.isAt_or_isBare_atRoot root⟩
  rintro ⟨shape, policy, c⟩ a d ⟨rfl, hc⟩ ha hd
  exact ⟨rfl, ha.stands hc hd⟩

/-- **A session is back** where another was: it has the same focus at the
same position of the same tree. If no frame was marked there, it is the
same session, frame by frame. -/
structure IsBackAt (t s : Session) : Prop where
  /-- The focus is the same. -/
  focus_eq : t.cursor.focus = s.cursor.focus
  /-- The position is the same, level by level. -/
  index_eq : t.cursor.path.map Frame.index = s.cursor.path.map Frame.index
  /-- Both stand for one tree. -/
  exists_root : ∃ T, s.root = .ok T ∧ t.root = .ok T
  /-- Nothing differs where nothing was pending. -/
  eq_of_isClean : s.cursor.IsClean → t = s

/-- A move that leads like one of places, followed by a move that leads
like the one back. -/
theorem isBackAt_of_isAt {policy : Policy} {c : Cursor Value} {z : Place}
    (h : c.IsAt z) (there back : Move) {go goBack : Place → Option Place}
    (hthere : Cursor.Arrives (there.run .forms policy.config c) (go z))
    (hback : ∀ {d y}, d.IsAt y →
      Cursor.Arrives (back.run .forms policy.config d) (goBack y))
    (hundo : ∀ {y}, go z = some y → goBack y = some z)
    (hstays : ∀ m, m = there ∨ m = back → m ≠ .remove) {t : Session}
    (ht : (perform ⟨.forms, policy, c⟩ (.move there)).result
      = .ok (some t)) :
    ∃ u, (t.perform (.move back)).result = .ok (some u)
      ∧ u.IsBackAt ⟨.forms, policy, c⟩ := by
  obtain ⟨d, hd, rfl⟩ := perform_result_eq_some.mp ht
  replace hd : there.run .forms policy.config c = .ok (some d) := hd
  rw [hd] at hthere
  cases hy : go z with
  | none =>
    rw [hy] at hthere
    cases hthere
  | some y =>
    rw [hy] at hthere
    obtain ⟨d', hd', hat⟩ := hthere
    cases hd'
    have hreturn := hback hat
    rw [hundo hy] at hreturn
    obtain ⟨e, he, hate⟩ := hreturn
    refine ⟨⟨.forms, policy, e⟩, perform_result_eq_some.mpr ⟨e, he, rfl⟩,
      hate.focus_eq.trans h.focus_eq.symm, hate.map_index_eq h,
      ⟨_, h.root_eq, hate.root_eq⟩, fun hc => ?_⟩
    have hparts := Cursor.keptByParts_isClean Shape.forms
    have hcleand := Cursor.within_run hparts.within_step policy.config
      (hstays there (.inl rfl)) hc
    rw [hd] at hcleand
    have hcleane := Cursor.within_run hparts.within_step policy.config
      (hstays back (.inr rfl)) hcleand
    rw [he] at hcleane
    rw [hate.eq_of_isClean h hcleane hc]

/-- **Steps are undone by the opposite steps.** In a run that puts nodes
into the tree, a plain step in a direction that can be kept to – `next`
and `prev`, as well as `right` and `left` – is followed by the opposite
step back to the place, whatever edits are pending. So is a step to a
significant node, if it started at one. Where no frame is marked as
changed the session is the very same again. -/
theorem isBackAt_of_opposite {policy : Policy} {root : Value} {s : Session}
    (h : (Session.start .forms policy root).Reaches PutsNodes s)
    {d : Direction} (hd : d.onward = d) :
    (∀ t, (s.perform (.move (.plain d))).result = .ok (some t) →
      ∃ u, (t.perform (.move (.plain d.opposite))).result = .ok (some u)
        ∧ u.IsBackAt s)
    ∧ (policy.config.isInsignificant s.cursor.focus = false →
      ∀ t, (s.perform (.move (.significant d))).result = .ok (some t) →
        ∃ u, (t.perform (.move (.significant d.opposite))).result
            = .ok (some u) ∧ u.IsBackAt s) := by
  have hshape : s.shape = .forms := h.shape_eq
  have hpolicy : s.policy = policy := h.policy_eq
  have hstands := h.stands_of_putsNodes
  obtain ⟨shape, policy', c⟩ := s
  obtain rfl : shape = .forms := hshape
  obtain rfl : policy' = policy := hpolicy
  rcases hstands with ⟨z, hz⟩ | hbare
  · refine ⟨fun t ht => ?_, fun hfocus t ht => ?_⟩
    · refine isBackAt_of_isAt hz (.plain d) (.plain d.opposite)
        (hz.step d) (fun h => h.step d.opposite)
        (Place.step_opposite hd) (by simp) ht
    · have hsignificant : z.isSignificant policy'.config = true := by
        rw [← hz.isInsignificant_eq, Cursor.isInsignificant]
        exact (Bool.not_eq_true' _).mpr hfocus
      refine isBackAt_of_isAt hz (.significant d) (.significant d.opposite)
        (hz.significant _ d) (fun h => h.significant _ d.opposite)
        (Place.significant_opposite hd hsignificant) (by simp) ht
  · -- from something that is no node there is no way
    refine ⟨fun t ht => ?_, fun _ t ht => ?_⟩
    · obtain ⟨e, he, -⟩ := perform_result_eq_some.mp ht
      cases (hbare.step_eq d).symm.trans he
    · obtain ⟨e, he, -⟩ := perform_result_eq_some.mp ht
      cases (hbare.significant_eq policy'.config d).symm.trans he

/-- In `([1] 2)` the `1` has been replaced by a `4`. The next significant
place is outside the vector, which is made anew on the way; the step back
goes into the new one. -/
theorem isBackAt_of_opposite_edited :
    ∃ s t u : Session,
      (Session.start .forms .standard (.node (.branch .list
        [.branch .vector [.token (.int 1)], .whitespace " ",
          .token (.int 2)]))).Reaches PutsNodes s
      ∧ s.cursor.path.map Frame.changed = [true, false]
      ∧ (s.perform (.move (.significant .next))).result = .ok (some t)
      ∧ t.cursor.path.map Frame.index = [2]
      ∧ (t.perform (.move (.significant .prev))).result = .ok (some u)
      ∧ u.IsBackAt s := by
  have hrun : (Session.start .forms .standard (.node (.branch .list
      [.branch .vector [.token (.int 1)], .whitespace " ",
        .token (.int 2)]))).Reaches PutsNodes _ :=
    .step (.step (.step .here (a := .move (.plain .down)) trivial rfl)
      (a := .move (.plain .down)) trivial rfl)
      (a := .replace (.node (.token (.int 4)))) rfl rfl
  obtain ⟨s, hs, hchanged, hfocus, hnext⟩ : ∃ s : Session,
      Reaches PutsNodes _ s
      ∧ s.cursor.path.map Frame.changed = [true, false]
      ∧ Policy.standard.config.isInsignificant s.cursor.focus = false
      ∧ (s.perform (.move (.significant .next))).result.map
        (Option.map fun t => t.cursor.path.map Frame.index)
          = .ok (some [2]) := ⟨_, hrun, rfl, rfl, by with_unfolding_all rfl⟩
  obtain ⟨o, ho, hmap⟩ := Attempt.exists_of_map_eq_ok hnext
  obtain ⟨t, rfl, hindex⟩ := Option.map_eq_some_iff.mp hmap
  obtain ⟨u, hu, hback⟩ :=
    (isBackAt_of_opposite hs (d := .next) rfl).2 hfocus t ho
  exact ⟨s, t, u, hs, hchanged, ho, hindex, hu, hback⟩

end Session

end FormTree
