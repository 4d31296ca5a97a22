import FormTree.Proofs.Runs
import FormTree.Proofs.Walk
import Mathlib.Data.List.Forall2

/-!
# The trails of a cursor

Repeating a move has no bound in sight: it goes on until the move leads
nowhere. The trails and the searches of cursors are computed with a number
of steps that is read off the cursor beforehand, and this module proves
that the number is always large enough. A cursor holds at least as much as
the tree it stands for has nodes (`Cursor.IsAt.size_le_reach`), and no
trail visits a node twice.

So a trail is what the repetition visits (`Exhausts`), with nothing cut
off, and a search is the first place of the trail that passes the test
(`Cursor.IsAt.exists_trail`). The places themselves are those ahead of the
cursor. A step to a significant node, repeated, visits the significant
ones among them.
-/

namespace FormTree

/-! ## Given enough steps -/

namespace Exhausts

variable {τ ε : Type} {move : Cursor τ → Attempt ε (Cursor τ)}
  {c : Cursor τ} {cs : List (Cursor τ)} {steps : Nat}

/-- **With enough steps a trail is complete.** -/
theorem trailOf_eq (h : Exhausts move c cs) (hlen : cs.length ≤ steps + 1) :
    Cursor.trailOf move steps c = .ok cs := by
  induction h generalizing steps with
  | stop h =>
    cases steps with
    | zero => rfl
    | succ steps => rw [Cursor.trailOf, h]
  | go h htrail ih =>
    obtain ⟨l, rfl⟩ := htrail.eq_cons
    cases steps with
    | zero => simp at hlen
    | succ steps =>
      rw [Cursor.trailOf, h]
      simp only
      rw [ih (by simpa using hlen)]
      rfl

/-- **With enough steps a search is complete**: it finds the first place
of the trail that is not to be skipped. -/
theorem skipOf_eq (h : Exhausts move c cs) (hlen : cs.length ≤ steps + 1)
    (toSkip : Cursor τ → Bool) :
    Cursor.skipOf move toSkip steps c
      = .ok (cs.find? fun d => !toSkip d) := by
  induction h generalizing steps with
  | @stop c h =>
    cases steps with
    | zero =>
      rw [Cursor.skipOf]
      cases hc : toSkip c <;> simp [hc]
    | succ steps =>
      rw [Cursor.skipOf, h]
      cases hc : toSkip c <;> simp [hc]
  | @go c d l h htrail ih =>
    obtain ⟨l, rfl⟩ := htrail.eq_cons
    cases steps with
    | zero => simp at hlen
    | succ steps =>
      rw [Cursor.skipOf, h]
      cases hc : toSkip c with
      | false => simp [hc]
      | true =>
        rw [if_pos rfl, Attempt.andThen_ok_some, ih (by simpa using hlen)]
        simp [hc]

/-- A trail is determined by where it begins. -/
theorem unique {α : Type} {move : α → Attempt ε α} {a : α} {l m : List α}
    (hl : Exhausts move a l) (hm : Exhausts move a m) : l = m := by
  induction hl generalizing m with
  | stop h =>
    cases hm with
    | stop _ => rfl
    | go h' _ => rw [h] at h'; cases h'
  | go h _ ih =>
    cases hm with
    | stop h' => rw [h] at h'; cases h'
    | go h' htrail =>
      rw [h] at h'
      cases h'
      rw [ih htrail]

/-- Two places from which a move leads to the same have the same trail,
themselves apart. -/
theorem of_move_eq {α : Type} {move : α → Attempt ε α} {a b : α}
    {l : List α} (hab : move a = move b) (h : Exhausts move b (b :: l)) :
    Exhausts move a (a :: l) := by
  cases h with
  | stop h => exact .stop (hab.trans h)
  | go h htrail => exact .go (hab.trans h) htrail

/-- A repeated move visits nothing that it does not lead to. -/
theorem forall_mem {α : Type} {move : α → Attempt ε α} {a : α}
    {l : List α} {P : α → Prop} (h : Exhausts move a l)
    (hmove : ∀ {x y}, move x = .ok (some y) → P x → P y) (ha : P a) :
    ∀ b ∈ l, P b := by
  induction h with
  | stop _ =>
    intro b hb
    rwa [List.mem_singleton.mp hb]
  | go hab _ ih =>
    rintro b (_ | ⟨_, hb⟩)
    · exact ha
    · exact ih (hmove hab ha) b hb

end Exhausts

/-! ## Places ahead -/

namespace Direction

/-- The direction in which a step is continued can be kept to. -/
@[simp] theorem onward_onward (d : Direction) :
    d.onward.onward = d.onward := by
  cases d <;> rfl

end Direction

namespace Place

/-- What lies ahead begins with the next step. -/
theorem ahead_of_step {d : Direction} (hd : d.onward = d) {z y : Place}
    (h : z.step d = some y) : z.ahead d = y :: y.ahead d := by
  have hz := exhausts_ahead z hd
  have hy : Exhausts (stepping d) z (z :: y :: y.ahead d) :=
    .go (congrArg Except.ok h) (exhausts_ahead y hd)
  injection hz.unique hy

/-- The first place ahead is where the next step leads. -/
theorem step_eq_head? {d : Direction} (hd : d.onward = d) (z : Place) :
    z.step d = (z.ahead d).head? := by
  have h := (exhausts_ahead z hd).move_eq
  injection h

/-- What lies ahead lies in the same tree. -/
theorem whole_of_mem_ahead {d : Direction} (hd : d.onward = d)
    {z y : Place} (hy : y ∈ z :: z.ahead d) : y.whole = z.whole := by
  refine (exhausts_ahead z hd).forall_mem (P := fun x => x.whole = z.whole)
    ?_ rfl y hy
  intro x w hxw hx
  injection hxw with hxw
  exact (whole_of_step hxw).trans hx

theorem siblingsAfter_sublist (k : Composite) (outer : List Level)
    (lefts ns : List Form) :
    (siblingsAfter k outer lefts ns).Sublist
      (insideRow k outer lefts ns) := by
  induction ns generalizing lefts with
  | nil => exact List.Sublist.slnil
  | cons n ns ih =>
    rw [siblingsAfter, insideRow]
    exact ((ih (n :: lefts)).trans
      (List.sublist_append_right _ _)).cons_cons _

theorem siblingsBefore_sublist (k : Composite) (outer : List Level)
    (rights ns : List Form) :
    (siblingsBefore k outer rights ns).Sublist
      (insideBefore k outer rights ns) := by
  induction ns generalizing rights with
  | nil => exact List.Sublist.slnil
  | cons n ns ih =>
    rw [siblingsBefore, insideBefore]
    exact ((ih (n :: rights)).cons_cons _).trans
      (List.sublist_append_right _ _)

/-- Nothing ahead is ahead twice: there are fewer places ahead than the
tree has nodes. -/
theorem length_ahead_lt (z : Place) (d : Direction) :
    (z.ahead d).length < z.whole.size := by
  have hwalk := congrArg List.length (walk_eq z)
  rw [length_walk, List.length_append, List.length_reverse,
    List.length_cons] at hwalk
  have hnext : z.following.length < z.whole.size := by omega
  have hprev : z.preceding.length < z.whole.size := by omega
  obtain ⟨n, levels⟩ := z
  cases d with
  | next => exact hnext
  | prev => exact hprev
  | right =>
    cases levels with
    | nil => exact Node.size_pos _
    | cons l outer =>
      refine Nat.lt_of_le_of_lt ?_ hnext
      refine ((siblingsAfter_sublist _ _ _ _).trans ?_).length_le
      rw [following, beyond]
      exact (List.sublist_append_left _ _).trans
        (List.sublist_append_right _ _)
  | left =>
    cases levels with
    | nil => exact Node.size_pos _
    | cons l outer =>
      refine Nat.lt_of_le_of_lt ?_ hprev
      refine ((siblingsBefore_sublist _ _ _ _).trans ?_).length_le
      exact List.sublist_append_left _ _
  | _ => exact Node.size_pos _

/-! ## Significant places -/

/-- Whether the node at a place is significant. -/
def isSignificant (cfg : Config) (z : Place) : Bool :=
  !cfg.ignores z.focus.kind

/-- Goes on in a direction until the node is significant. -/
def toSignificant (cfg : Config) (d : Direction) (z : Place) :
    Option Place :=
  (z :: z.ahead d).find? (isSignificant cfg)

/-- **A step to a significant place.** -/
def significant (cfg : Config) (d : Direction) (z : Place) :
    Option Place :=
  (z.step d).bind (toSignificant cfg d.onward)

/-- In a direction that can be kept to, that is the first significant
place ahead. -/
theorem significant_eq_find? {d : Direction} (hd : d.onward = d)
    (cfg : Config) (z : Place) :
    z.significant cfg d = (z.ahead d).find? (isSignificant cfg) := by
  unfold significant toSignificant
  rw [hd]
  cases h : z.step d with
  | none =>
    rw [step_eq_head? hd, List.head?_eq_none_iff] at h
    rw [h]
    rfl
  | some y =>
    rw [ahead_of_step hd h]
    rfl

/-- The significant places ahead are fewer than the tree has nodes. -/
theorem length_significant_le (cfg : Config) (d : Direction) (z : Place) :
    (z :: (z.ahead d).filter (isSignificant cfg)).length
      ≤ z.whole.size :=
  Nat.le_trans (Nat.succ_le_succ (List.length_filter_le _ _))
    (z.length_ahead_lt d)

/-- **Steps to significant places visit the significant places ahead.** -/
theorem exhausts_significant {d : Direction} (hd : d.onward = d)
    (cfg : Config) (z : Place) :
    Exhausts (ε := Failure) (fun y => .ok (y.significant cfg d)) z
      (z :: (z.ahead d).filter (isSignificant cfg)) := by
  -- by induction on what lies ahead
  induction hl : z.ahead d generalizing z with
  | nil =>
    refine .stop (congrArg Except.ok ?_)
    rw [significant_eq_find? hd, hl]
    rfl
  | cons y l ih =>
    have hstep : z.step d = some y := by
      rw [step_eq_head? hd, hl]
      rfl
    have hrest : y.ahead d = l := by
      have h := ahead_of_step hd hstep
      rw [hl] at h
      injection h with _ h
      exact h.symm
    by_cases hy : isSignificant cfg y = true
    · rw [List.filter_cons_of_pos hy]
      refine .go (congrArg Except.ok ?_) (ih y hrest)
      rw [significant_eq_find? hd, hl, List.find?_cons_of_pos hy]
    · rw [List.filter_cons_of_neg hy]
      refine (ih y hrest).of_move_eq (congrArg Except.ok ?_)
      rw [significant_eq_find? hd, significant_eq_find? hd, hl, hrest,
        List.find?_cons_of_neg hy]

end Place

/-! ## What a cursor can reach -/

theorem Node.sizes_append (ns ms : List Form) :
    Node.sizes (ns ++ ms) = Node.sizes ns + Node.sizes ms := by
  induction ns with
  | nil => rw [List.nil_append, Node.sizes, Nat.zero_add]
  | cons n ns ih =>
    rw [List.cons_append, Node.sizes, Node.sizes, ih, Nat.add_assoc]

/-- The number of nodes a level has beside those in its gap. -/
def Level.size (l : Level) : Nat :=
  1 + Node.sizes l.lefts.reverse + Node.sizes l.rights

namespace Place

theorem size_fill (l : Level) (n : Form) :
    (l.fill n).size = n.size + l.size := by
  rw [Level.fill, Level.row, Node.size, Node.sizes_append, Node.sizes,
    Level.size]
  omega

/-- A tree has the nodes in the gap and those of the levels around it. -/
theorem size_fillAll (levels : List Level) (n : Form) :
    (fillAll levels n).size = n.size + total Level.size levels := by
  induction levels generalizing n with
  | nil => rfl
  | cons l outer ih =>
    rw [fillAll, ih, size_fill, total, Nat.add_assoc]

end Place

namespace Cursor

/-- A frame holds at least the nodes of its level. -/
theorem size_le_frameReach {f : Frame Value} {l : Level} {n : Form}
    {old : List Form} (h : f.Records l n old) :
    l.size ≤ frameReach .forms f := by
  have htotal : total Value.weight f.siblings = n.size + l.size - 1 := by
    rw [h.siblings_eq, total_weight, Value.weights_map_node,
      ← Place.size_fill, Level.fill, Node.size, Nat.add_sub_cancel_left]
  have hpos := n.size_pos
  show _ ≤ Value.weight f.parent + 2 * total Value.weight f.siblings
  have := f.parent.weight_pos
  omega

/-- The frames hold at least the nodes of the levels they follow. -/
theorem Follows.total_size_le {path : List (Frame Value)}
    {levels : List Level} {n : Form} (h : Follows path levels n) :
    total Level.size levels ≤ total (frameReach .forms) path := by
  induction h with
  | root n => exact Nat.le_refl 0
  | inside hf _ ih => exact Nat.add_le_add (size_le_frameReach hf) ih

/-- **A cursor holds at least as much as its tree has nodes.** -/
theorem IsAt.size_le_reach {c : Cursor Value} {z : Place} (h : c.IsAt z) :
    z.whole.size ≤ c.reach .forms := by
  have hfocus : Shape.forms.weight c.focus = z.focus.size := by
    rw [h.focus_eq]
    rfl
  rw [Place.whole, Place.size_fillAll, reach, hfocus]
  calc z.focus.size + total Level.size z.levels
      ≤ z.focus.size + total (frameReach .forms) c.path :=
        Nat.add_le_add_left h.follows.total_size_le _
    _ ≤ _ := Nat.le_mul_of_pos_left _ (Nat.succ_pos _)

/-! ## Trails and searches of a cursor -/

section Search

variable {c : Cursor Value} {z : Place} {zs : List Place}
  {move : Mover Value Failure} {go : Place → Option Place}

/-- A cursor whose moves arrive where those of places lead visits what
they visit. -/
theorem IsAt.exists_exhausts (h : c.IsAt z)
    (hmove : ∀ {d y}, IsAt d y → Arrives (move d) (go y))
    (hz : Exhausts (ε := Failure) (fun y => .ok (go y)) z zs) :
    ∃ cs, Exhausts move c cs ∧ List.Forall₂ IsAt cs zs := by
  induction hz generalizing c with
  | @stop z hz =>
    injection hz with hz
    have hc := hmove h
    rw [hz] at hc
    exact ⟨[c], .stop hc, .cons h .nil⟩
  | @go z y l hz _ ih =>
    injection hz with hz
    have hc := hmove h
    rw [hz] at hc
    obtain ⟨d, hd, hat⟩ := hc
    obtain ⟨cs, hcs, hall⟩ := ih hat
    exact ⟨c :: cs, .go hd hcs, .cons h hall⟩

/-- **A trail is complete, and so is a search along it.** -/
theorem IsAt.exists_trail (h : c.IsAt z)
    (hmove : ∀ {d y}, IsAt d y → Arrives (move d) (go y))
    (hz : Exhausts (ε := Failure) (fun y => .ok (go y)) z zs)
    (hlen : zs.length ≤ z.whole.size) :
    ∃ cs, Exhausts move c cs ∧ List.Forall₂ IsAt cs zs
      ∧ c.trail .forms move = .ok cs
      ∧ ∀ toSkip, c.skip .forms move toSkip
          = .ok (cs.find? fun d => !toSkip d) := by
  obtain ⟨cs, hcs, hall⟩ := h.exists_exhausts hmove hz
  have henough : cs.length ≤ c.reach .forms + 1 := by
    rw [hall.length_eq]
    exact Nat.le_succ_of_le (Nat.le_trans hlen h.size_le_reach)
  exact ⟨cs, hcs, hall, hcs.trailOf_eq henough, hcs.skipOf_eq henough⟩

/-- Every cursor of a trail is at one of the places visited. -/
theorem exists_isAt_of_mem {cs : List (Cursor Value)}
    (hall : List.Forall₂ IsAt cs zs) {d : Cursor Value} (hd : d ∈ cs) :
    ∃ y ∈ zs, d.IsAt y := by
  induction hall with
  | nil => cases hd
  | @cons e y cs zs hat _ ih =>
    rcases List.mem_cons.mp hd with rfl | hd
    · exact ⟨y, List.mem_cons_self, hat⟩
    · obtain ⟨x, hx, hat⟩ := ih hd
      exact ⟨x, List.mem_cons_of_mem y hx, hat⟩

/-- A test of cursors and one of places that agree find the same. -/
theorem arrives_find? {cs : List (Cursor Value)}
    (hall : List.Forall₂ IsAt cs zs) {test : Cursor Value → Bool}
    {passes : Place → Bool}
    (htest : ∀ {d y}, IsAt d y → test d = passes y) :
    Arrives (.ok (cs.find? test)) (zs.find? passes) := by
  induction hall with
  | nil => rfl
  | @cons d y cs zs h _ ih =>
    rw [List.find?_cons, List.find?_cons, htest h]
    cases passes y with
    | true => exact h.arrives
    | false => exact ih

/-- **A search arrives at the first place that passes.** -/
theorem IsAt.skip (h : c.IsAt z)
    (hmove : ∀ {d y}, IsAt d y → Arrives (move d) (go y))
    (hz : Exhausts (ε := Failure) (fun y => .ok (go y)) z zs)
    (hlen : zs.length ≤ z.whole.size) {toSkip : Cursor Value → Bool}
    {passes : Place → Bool}
    (htest : ∀ {d y}, IsAt d y → (!toSkip d) = passes y) :
    Arrives (c.skip .forms move toSkip) (zs.find? passes) := by
  obtain ⟨cs, -, hall, -, hskip⟩ := h.exists_trail hmove hz hlen
  rw [hskip]
  exact arrives_find? hall htest

end Search

namespace IsAt

variable {c : Cursor Value} {z : Place}

/-- The focus is significant where the node at the place is. -/
theorem isInsignificant_eq (h : c.IsAt z) (cfg : Config) :
    (!c.isInsignificant cfg) = z.isSignificant cfg := by
  rw [isInsignificant, h.focus_eq]
  rfl

/-- Going on until the focus is significant leads to the first significant
place. -/
theorem toSignificant (h : c.IsAt z) (cfg : Config) {d : Direction}
    (hd : d.onward = d) :
    Arrives (c.toSignificant .forms cfg d) (z.toSignificant cfg d) :=
  h.skip (fun h => h.step d) (Place.exhausts_ahead z hd)
    (z.length_ahead_lt d) fun h => h.isInsignificant_eq cfg

/-- **A step to a significant node** leads to the significant place. -/
theorem significant (h : c.IsAt z) (cfg : Config) (d : Direction) :
    Arrives (d.significant .forms cfg c) (z.significant cfg d) := by
  have hstep := h.step d
  unfold Direction.significant Place.significant
  cases hz : z.step d with
  | none =>
    rw [hz] at hstep
    rw [show d.step .forms c = .ok none from hstep]
    rfl
  | some y =>
    rw [hz] at hstep
    obtain ⟨e, he, hat⟩ := hstep
    rw [he]
    exact hat.toSignificant cfg d.onward_onward

end IsAt

end Cursor

end FormTree
