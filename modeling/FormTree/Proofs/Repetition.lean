import FormTree.Proofs.Enumeration
import FormTree.Proofs.Matching
import FormTree.Proofs.Retracing
import FormTree.Proofs.Siblings
import FormTree.Proofs.Wandering

/-!
# Repetitions come to an end

Nothing in a repeated move says that it will ever stop. `next` goes down
as well as up, `prev` turns back into branches it has passed, and taking
out the focus changes the tree at every step. That trails and searches are
given a number of steps proves nothing by itself: it is read off the
frames, which may hold rows long out of date, and a repetition that was
cut off would look like one that has ended.

What stops a repetition is counted on places, where nothing is out of
date. Every move that gets on (`Move.advances`) has a **scope**
(`Place.scope`), which the move lowers: the nodes inside the focus on the
way down, the ancestors on the way up, the places ahead for a direction
that can be kept to, and the nodes of the tree for taking out the focus.
To go on until a node is significant lowers it all the more, so the same
count serves for plain steps and for those over significant nodes. No
scope is larger than the tree.

The moves to the ends of a row are left out, because they stay where they
are once they are there.

Two loops inside the moves have no name of their own: `next` climbs until
some ancestor has a sibling to its right, and `prev` descends to the last
place of what is to its left. They are written here one round at a time
(`Cursor.climb`, `Cursor.descend`), so that their rounds can be counted
like the steps of a move.
-/

namespace FormTree

/-! ## Moves that get on -/

/-- **Whether a direction gets on**: a step in it never stays where it
is. -/
def Direction.advances : Direction → Bool
  | .leftmost => false
  | .rightmost => false
  | _ => true

/-- A step is continued in a direction that gets on. -/
theorem Direction.advances_onward (d : Direction) :
    d.onward.advances = true := by
  cases d <;> rfl

/-- **Whether a move gets on.** To settle is to stay where the focus is
significant. -/
def Move.advances : Move → Bool
  | .plain d => d.advances
  | .significant d => d.advances
  | .settle _ => false
  | .remove => true

/-- **The places of a tree of forms**: one for each of its nodes. What is
no node is one place. -/
def Value.places : Value → Nat
  | .node n => n.size
  | _ => 1

theorem Value.places_of_not_node {v : Value} (h : v.isNode = false) :
    v.places = 1 := by
  cases v with
  | node n => cases h
  | _ => rfl

namespace Exhausts

variable {ε α β : Type} {a : α} {l : List α}

/-- **A move that lowers a measure can be repeated only so often**: it
visits no more places than the measure says. -/
theorem exists_of_lt {go : α → Option α} {measure : α → Nat}
    (hpos : ∀ a, 0 < measure a)
    (hlt : ∀ {a b}, go a = some b → measure b < measure a) (a : α) :
    ∃ l, Exhausts (ε := ε) (fun x => .ok (go x)) a l
      ∧ l.length ≤ measure a := by
  -- by induction on the measure, since nothing else gets smaller
  induction hm : measure a using Nat.strongRecOn generalizing a with
  | ind m ih =>
    subst hm
    cases hgo : go a with
    | none => exact ⟨[a], .stop (congrArg Except.ok hgo), hpos a⟩
    | some b =>
      obtain ⟨l, hl, hlen⟩ := ih (measure b) (hlt hgo) b rfl
      exact ⟨a :: l, .go (congrArg Except.ok hgo) hl,
        Nat.lt_of_le_of_lt hlen (hlt hgo)⟩

/-- A repetition ends at a place from which the move leads nowhere, and
what the move keeps is the same there as at the beginning. -/
theorem exists_getLast? {move : α → Attempt ε α} {f : α → β}
    (h : Exhausts move a l)
    (hf : ∀ {x y}, move x = .ok (some y) → f x = f y) :
    ∃ b, l.getLast? = some b ∧ move b = .ok none ∧ f a = f b := by
  induction h with
  | stop h => exact ⟨_, rfl, h, rfl⟩
  | go h htrail ih =>
    obtain ⟨b, hlast, hstop, hb⟩ := ih
    obtain ⟨m, rfl⟩ := htrail.eq_cons
    exact ⟨b, hlast, hstop, (hf h).trans hb⟩

end Exhausts

/-! ## What is left to a place -/

namespace Place

variable {d : Direction} {x y z : Place}

/-- From a place ahead, less lies ahead. -/
theorem length_ahead_of_mem (hd : d.onward = d) (hy : y ∈ z.ahead d) :
    (y.ahead d).length < (z.ahead d).length := by
  obtain ⟨as, bs, hsplit⟩ := List.append_of_mem hy
  have htrail : Exhausts (stepping d) z (z :: as ++ y :: bs) := by
    rw [List.cons_append, ← hsplit]
    exact exhausts_ahead z hd
  have hrest : y :: y.ahead d = y :: bs :=
    (exhausts_ahead y hd).unique htrail.of_append
  rw [(List.cons.inj hrest).2, hsplit, List.length_append, List.length_cons]
  omega

/-- A child has fewer nodes than its parent. -/
theorem size_of_up (h : y.up = some z) : y.focus.size < z.focus.size := by
  obtain ⟨n, _ | ⟨l, outer⟩⟩ := y
  · cases h
  · obtain rfl := Option.some_inj.mp h
    show n.size < (l.fill n).size
    rw [size_fill, Level.size]
    omega

theorem up_of_down (h : z.down = some y) : y.up = some z := by
  obtain ⟨n, levels⟩ := z
  unfold down at h
  split at h
  · next k c cs hn =>
    obtain rfl := Option.some_inj.mp h
    obtain rfl : n = .branch k (c :: cs) := hn
    rfl
  · cases h

/-- A step to a sibling stays below the same parent. -/
theorem up_of_step (hd : d = .left ∨ d = .right) (h : z.step d = some y) :
    y.up = z.up := by
  obtain ⟨n, _ | ⟨⟨k, ls, rs⟩, outer⟩⟩ := z
  · rcases hd with rfl | rfl <;> cases h
  · rcases hd with rfl | rfl
    · cases ls with
      | nil => cases h
      | cons m ls =>
        obtain rfl := Option.some_inj.mp h
        simp [up, Level.fill, Level.row]
    · cases rs with
      | nil => cases h
      | cons m rs =>
        obtain rfl := Option.some_inj.mp h
        simp [up, Level.fill, Level.row]

/-- Siblings have one parent. -/
theorem up_of_mem_ahead (hd : d = .left ∨ d = .right)
    (hy : y ∈ z :: z.ahead d) : y.up = z.up := by
  have honward : d.onward = d := by
    rcases hd with rfl | rfl <;> rfl
  refine (exhausts_ahead z honward).forall_mem
    (P := fun x => x.up = z.up) ?_ rfl y hy
  intro x w hxw hx
  injection hxw with hxw
  exact (up_of_step hd hxw).trans hx

/-- Places with one parent are as deep as each other. -/
theorem length_levels_of_up_eq (h : y.up = z.up) :
    y.levels.length = z.levels.length := by
  obtain ⟨n, _ | ⟨l, outer⟩⟩ := y <;> obtain ⟨m, _ | ⟨k, inner⟩⟩ := z
  · rfl
  · cases h
  · cases h
  · have hparent := Option.some_inj.mp h
    show outer.length + 1 = inner.length + 1
    rw [congrArg (fun x : Place => x.levels.length) hparent]

/-- **How much lies in a direction**: the nodes inside the focus on the
way down, the focus and its ancestors on the way up, and else the place
itself and those ahead. -/
def extent (d : Direction) (z : Place) : Nat :=
  match d with
  | .down => z.focus.size
  | .up => z.levels.length + 1
  | d => (z.ahead d).length + 1

theorem extent_pos (d : Direction) (z : Place) : 0 < z.extent d := by
  cases d with
  | down => exact z.focus.size_pos
  | _ => exact Nat.succ_pos _

/-- There are no more ancestors than nodes beside those of the focus. -/
theorem length_le_total_size (levels : List Level) :
    levels.length ≤ total Level.size levels := by
  induction levels with
  | nil => exact Nat.le_refl 0
  | cons l outer ih =>
    rw [List.length_cons, total, Level.size]
    omega

/-- **In no direction lies more than the tree.** -/
theorem extent_le_size (d : Direction) (z : Place) :
    z.extent d ≤ z.whole.size := by
  have hsize : z.whole.size = z.focus.size + total Level.size z.levels :=
    size_fillAll z.levels z.focus
  cases d with
  | down =>
    show z.focus.size ≤ _
    omega
  | up =>
    show z.levels.length + 1 ≤ _
    have := z.focus.size_pos
    have := length_le_total_size z.levels
    omega
  | _ => exact z.length_ahead_lt _

/-- **A step leaves less to go**, however far it is continued onwards. -/
theorem extent_of_onward (hd : d.advances = true) (hx : z.step d = some x)
    (hy : y ∈ x :: x.ahead d.onward) : y.extent d < z.extent d := by
  cases d with
  | left | right | next | prev =>
    have hahead := ahead_of_step rfl hx
    exact Nat.succ_lt_succ (length_ahead_of_mem rfl (hahead ▸ hy))
  | down =>
    -- the children to the right of the first one have the same parent
    refine size_of_up ((up_of_mem_ahead (.inr rfl) hy).trans ?_)
    exact up_of_down hx
  | up =>
    -- what is to the left of the parent is as deep as the parent
    obtain ⟨n, _ | ⟨l, outer⟩⟩ := z
    · cases hx
    · obtain rfl := Option.some_inj.mp hx
      have hlevels := length_levels_of_up_eq (up_of_mem_ahead (.inl rfl) hy)
      show y.levels.length + 1 < outer.length + 1 + 1
      rw [hlevels]
      exact Nat.lt_succ_self _
  | leftmost | rightmost => cases hd

/-- **Taking out the focus leaves a smaller tree.** -/
theorem size_of_remove (h : z.remove = some y) :
    y.whole.size < z.whole.size := by
  rw [whole, whole, size_fillAll, size_fillAll]
  obtain ⟨n, _ | ⟨⟨k, ls, rs⟩, outer⟩⟩ := z
  · cases h
  · have hpos := n.size_pos
    cases ls with
    | nil =>
      obtain rfl := Option.some_inj.mp h
      simp only [Node.size, total, Level.size]
      omega
    | cons m ls =>
      obtain rfl := Option.some_inj.mp h
      simp only [total, Level.size, List.reverse_cons, Node.sizes_append,
        Node.sizes]
      omega

/-- **A move on a place.** -/
def run (cfg : Config) (m : Move) (z : Place) : Option Place :=
  match m with
  | .plain d => z.step d
  | .significant d => z.significant cfg d
  | .settle d => z.toSignificant cfg d
  | .remove => z.remove

/-- **The scope of a move**: what it can use up. -/
def scope (m : Move) (z : Place) : Nat :=
  match m with
  | .plain d => z.extent d
  | .significant d => z.extent d
  | .settle d => z.extent d
  | .remove => z.whole.size

theorem scope_pos (m : Move) (z : Place) : 0 < z.scope m := by
  cases m with
  | remove => exact z.whole.size_pos
  | _ => exact z.extent_pos _

theorem scope_le_size (m : Move) (z : Place) : z.scope m ≤ z.whole.size := by
  cases m with
  | remove => exact Nat.le_refl _
  | _ => exact z.extent_le_size _

/-- **A move that gets on has less left afterwards.** -/
theorem scope_of_run {cfg : Config} {m : Move} (hm : m.advances = true)
    (h : z.run cfg m = some y) : y.scope m < z.scope m := by
  cases m with
  | plain d => exact extent_of_onward hm h List.mem_cons_self
  | significant d =>
    obtain ⟨x, hx, hfind⟩ := Option.bind_eq_some_iff.mp h
    exact extent_of_onward hm hx (List.mem_of_find?_eq_some hfind)
  | settle d => cases hm
  | remove => exact size_of_remove h

/-- One round of the climb, on places. -/
def climb (z : Place) : Option Place :=
  match z.right with
  | some _ => none
  | none => z.up

theorem extent_of_climb (h : z.climb = some y) :
    y.extent .up < z.extent .up := by
  unfold climb at h
  split at h
  · cases h
  · exact extent_of_onward rfl h List.mem_cons_self

end Place

/-! ## The loops of a cursor -/

namespace Cursor

section Loops

variable {τ ε : Type} {S : Shape τ ε} {c d : Cursor τ}

/-- **One round of the climb** of `next`: to the parent, unless there is a
sibling to the right to go to. -/
def climb (S : Shape τ ε) (c : Cursor τ) : Attempt ε (Cursor τ) :=
  match c.right S with
  | .error e => .error e
  | .ok (some _) => .ok none
  | .ok none => c.up S

/-- **One round of the descent** of `prev`: to the first child, and from
there to the last one. -/
def descend (S : Shape τ ε) (c : Cursor τ) : Attempt ε (Cursor τ) :=
  Attempt.andThen (.ok (c.down S)) (rightmost S)

theorem after_of_climb (h : c.climb S = .ok (some d)) :
    c.after S = d.after S := by
  unfold climb at h
  split at h
  · cases h
  · cases h
  · next hright => exact after_of_up hright h

/-- The climb is over where there is a sibling to go to, or at the
root. -/
theorem after_of_climb_eq_none (h : c.climb S = .ok none) :
    c.after S = c.right S := by
  unfold climb at h
  split at h
  · cases h
  · next r hright => rw [after_of_right hright, hright]
  · next hright => rw [after_of_up_eq_none hright h, hright]

/-- **The descent goes to the last child**, by way of the first one. -/
theorem descend_eq (S : Shape τ ε) (c : Cursor τ) :
    c.descend S = .ok (c.downLast S) := by
  unfold descend down downLast
  cases hkids : c.children? S with
  | none => rfl
  | some ts =>
    cases ts with
    | nil => rfl
    | cons t ts =>
      have hfirst : SitsAt ⟨.ofList (t :: ts), 0, c.focus, false⟩ c.path 0
          ⟨t, ⟨.ofList (t :: ts), 0, c.focus, false⟩ :: c.path⟩ := ⟨rfl, rfl⟩
      obtain ⟨d, hd, hlast⟩ := hfirst.exists_rightmost (S := S)
      have hgetLast : (t :: ts).getLast? = some d.focus := by
        rw [List.getLast?_eq_getElem?]
        exact hlast.1
      refine hd.trans (congrArg Except.ok ?_)
      simp only [hgetLast, Option.map_some]
      exact congrArg some (hlast.unique ⟨hlast.1, rfl⟩)

/-- **The climb leads to what comes after the focus.** -/
theorem exists_after_of_climb {cs : List (Cursor τ)}
    (h : Exhausts (climb S) c cs) :
    ∃ d, cs.getLast? = some d ∧ c.after S = d.right S := by
  obtain ⟨d, hlast, hstop, hafter⟩ :=
    h.exists_getLast? (f := fun d => d.after S) after_of_climb
  exact ⟨d, hlast, hafter.trans (after_of_climb_eq_none hstop)⟩

/-- **The descent leads to the last place in the focus.** -/
theorem getLast?_of_descend {cs : List (Cursor τ)}
    (h : Exhausts (descend S) c cs) :
    cs.getLast? = some (c.lastPlace S) := by
  obtain ⟨d, hlast, hstop, hplace⟩ :=
    h.exists_getLast? (f := fun d => d.lastPlace S) fun {x y} hxy => by
      rw [descend_eq] at hxy
      exact lastPlace_of_downLast (Except.ok.inj hxy)
  rw [descend_eq] at hstop
  rw [hlast, hplace, lastPlace_of_downLast_eq_none (Except.ok.inj hstop)]

end Loops

namespace IsAt

variable {c : Cursor Value} {z : Place}

/-- A move that gets on leads where it leads on places. -/
theorem run (h : c.IsAt z) (cfg : Config) {m : Move}
    (hm : m.advances = true) :
    Arrives (m.run .forms cfg c) (z.run cfg m) := by
  cases m with
  | plain d => exact h.step d
  | significant d => exact h.significant cfg d
  | settle d => cases hm
  | remove => exact h.remove

theorem climb (h : c.IsAt z) : Arrives (c.climb .forms) z.climb := by
  have hright := h.right
  unfold Cursor.climb Place.climb
  cases hz : z.right with
  | none =>
    rw [hz] at hright
    rw [show c.right .forms = .ok none from hright]
    exact h.up
  | some y =>
    rw [hz] at hright
    obtain ⟨d, hd, -⟩ := hright
    rw [hd]
    rfl

theorem descend (h : c.IsAt z) :
    Arrives (c.descend .forms) z.downLast := by
  rw [descend_eq]
  exact h.downLast

/-- A plain step leads to a place of the same tree. -/
theorem exists_of_step (h : c.IsAt z) {d : Direction} {e : Cursor Value}
    (he : d.step .forms c = .ok (some e)) :
    ∃ y, e.IsAt y ∧ y.whole = z.whole := by
  have hwithin := Session.within_step_of_whole z.whole d ⟨z, h, rfl⟩
  rwa [he] at hwithin

/-- **A repetition that uses something up ends**, after no more places
than the tree has nodes. -/
theorem exists_exhausts_of_lt (h : c.IsAt z) {move : Mover Value Failure}
    {go : Place → Option Place} {measure : Place → Nat}
    (hmove : ∀ {d y}, IsAt d y → Arrives (move d) (go y))
    (hpos : ∀ y, 0 < measure y)
    (hlt : ∀ {x y}, go x = some y → measure y < measure x)
    (hle : measure z ≤ z.whole.size) :
    ∃ cs, Exhausts move c cs ∧ cs.length ≤ z.whole.size := by
  obtain ⟨zs, hzs, hlen⟩ := Exhausts.exists_of_lt hpos hlt z
  obtain ⟨cs, hcs, hall⟩ := h.exists_exhausts hmove hzs
  refine ⟨cs, hcs, ?_⟩
  rw [hall.length_eq]
  exact Nat.le_trans hlen hle

end IsAt

end Cursor

/-! ## In a session -/

namespace Session

/-- **Repeating a move ends** with the places it has visited, which are at
most so many. Every search along the move is decided by them: it leads to
the first that passes, and nowhere if there is none. -/
structure Ends (s : Session) (m : Move) (bound : Nat)
    (cs : List (Cursor Value)) : Prop where
  /-- Behind the last of the places the move leads nowhere. -/
  exhausts : Exhausts (s.move m) s.cursor cs
  /-- There are at most so many. -/
  length_le : cs.length ≤ bound
  /-- They are the trail of the move. -/
  trail_eq : (s.trail m).1 = .ok cs
  /-- Skipping leads to the first that is not to be skipped. -/
  skip_eq : ∀ test, (s.perform (.skip m test)).result
    = .ok ((cs.find? fun c => !test c).map s.goTo)
  /-- A search leads to the first that passes. -/
  find_eq : ∀ test, (s.perform (.find test m)).result
    = .ok ((cs.find? test).map s.goTo)
  /-- To allow for more steps than there can be places makes no
  difference. -/
  skipOf_eq : ∀ test steps, bound ≤ steps + 1 →
    Cursor.skipOf (s.move m) test steps s.cursor
      = .ok (cs.find? fun c => !test c)

/-- The steps that a cursor is given are enough for a repetition that
visits no more places than it holds. -/
theorem ends_of_exhausts {s : Session} {m : Move} {bound : Nat}
    {cs : List (Cursor Value)} (h : Exhausts (s.move m) s.cursor cs)
    (hlen : cs.length ≤ bound)
    (hreach : bound ≤ s.cursor.reach s.shape + 1) : s.Ends m bound cs := by
  have henough := Nat.le_trans hlen hreach
  refine ⟨h, hlen, trail_fst_eq (h.trailOf_eq henough), fun test => ?_,
    fun test => ?_, fun test steps hsteps => ?_⟩
  · show Except.map _ (s.cursor.skip s.shape (s.move m) test) = _
    rw [Cursor.skip, h.skipOf_eq henough]
    rfl
  · show Except.map _ (s.cursor.skip s.shape (s.move m) _) = _
    rw [Cursor.skip, h.skipOf_eq henough]
    simp only [Bool.not_not]
    rfl
  · exact h.skipOf_eq (Nat.le_trans hlen hsteps) test

/-- **The loops of a session end** within a bound: those that repeat a
move, and those inside the moves. -/
structure LoopsEnd (s : Session) (bound : Nat) : Prop where
  /-- A move that gets on can be repeated only so often. -/
  ends : ∀ m : Move, m.advances = true → ∃ cs, s.Ends m bound cs
  /-- A step to a significant node is a plain step, and then as many
  onwards as it takes. -/
  significant : ∀ (d : Direction) (e : Cursor Value),
    d.step s.shape s.cursor = .ok (some e) →
    ∃ cs, (s.goTo e).Ends (.plain d.onward) bound cs
      ∧ (s.perform (.move (.significant d))).result
        = .ok ((cs.find? fun c => !c.isInsignificant s.policy.config).map
          s.goTo)
  /-- `next` climbs only so often before there is somewhere to go, or
  before the root is reached. -/
  climb : ∃ cs d, Exhausts (Cursor.climb s.shape) s.cursor cs
    ∧ cs.length ≤ bound ∧ cs.getLast? = some d
    ∧ (s.cursor.down s.shape = none →
      s.cursor.next s.shape = d.right s.shape)
  /-- `prev` descends only so often before there is no way down. -/
  descend : ∀ l, s.cursor.left s.shape = .ok (some l) →
    ∃ cs d, Exhausts (Cursor.descend s.shape) l cs
      ∧ cs.length ≤ bound ∧ cs.getLast? = some d
      ∧ s.cursor.prev s.shape = .ok (some d)

/-- A step to a significant node skips from where the plain step has
led. -/
theorem perform_significant_eq {s : Session} {d : Direction}
    {e : Cursor Value} (he : d.step s.shape s.cursor = .ok (some e)) :
    (s.perform (.move (.significant d))).result
      = ((s.goTo e).perform (.skip (.plain d.onward)
        (Cursor.isInsignificant s.policy.config))).result := by
  show Except.map _ (Attempt.andThen (d.step s.shape s.cursor) _) = _
  rw [he]
  rfl

/-- The loops end when their rounds do: what they lead to is then what the
moves lead to. -/
theorem loopsEnd_of_exhausts {s : Session} {bound : Nat}
    (hends : ∀ m : Move, m.advances = true → ∃ cs, s.Ends m bound cs)
    (honward : ∀ (d : Direction) (e : Cursor Value),
      d.step s.shape s.cursor = .ok (some e) →
      ∃ cs, (s.goTo e).Ends (.plain d.onward) bound cs)
    (hclimb : ∃ cs, Exhausts (Cursor.climb s.shape) s.cursor cs
      ∧ cs.length ≤ bound)
    (hdescend : ∀ l, s.cursor.left s.shape = .ok (some l) →
      ∃ cs, Exhausts (Cursor.descend s.shape) l cs ∧ cs.length ≤ bound) :
    s.LoopsEnd bound where
  ends := hends
  significant d e he := by
    obtain ⟨cs, hcs⟩ := honward d e he
    exact ⟨cs, hcs, (perform_significant_eq he).trans (hcs.skip_eq _)⟩
  climb := by
    obtain ⟨cs, hcs, hlen⟩ := hclimb
    obtain ⟨d, hlast, hafter⟩ := Cursor.exists_after_of_climb hcs
    refine ⟨cs, d, hcs, hlen, hlast, fun hdown => ?_⟩
    rw [Cursor.next, hdown]
    exact hafter
  descend l hl := by
    obtain ⟨cs, hcs, hlen⟩ := hdescend l hl
    refine ⟨cs, _, hcs, hlen, Cursor.getLast?_of_descend hcs, ?_⟩
    rw [Cursor.prev, hl]

/-- **At a place every move that gets on ends**, after no more places than
the tree has nodes. -/
theorem exists_ends_of_isAt {policy : Policy} {c : Cursor Value}
    {z : Place} (h : c.IsAt z) {m : Move} (hm : m.advances = true) :
    ∃ cs, (Session.mk .forms policy c).Ends m z.whole.size cs := by
  obtain ⟨cs, hcs, hlen⟩ := h.exists_exhausts_of_lt
    (fun hd => hd.run policy.config hm) (Place.scope_pos m)
    (Place.scope_of_run hm) (z.scope_le_size m)
  exact ⟨cs, ends_of_exhausts hcs hlen
    (Nat.le_succ_of_le h.size_le_reach)⟩

/-- **At a place all loops end** within the number of nodes. -/
theorem loopsEnd_of_isAt {policy : Policy} {c : Cursor Value} {z : Place}
    (h : c.IsAt z) :
    (Session.mk .forms policy c).LoopsEnd z.whole.size := by
  refine loopsEnd_of_exhausts (fun m hm => exists_ends_of_isAt h hm)
    (fun d e he => ?_) ?_ (fun l hl => ?_)
  · obtain ⟨y, hy, hwhole⟩ := h.exists_of_step he
    rw [← hwhole]
    exact exists_ends_of_isAt hy d.advances_onward
  · exact h.exists_exhausts_of_lt Cursor.IsAt.climb
      (Place.extent_pos .up) Place.extent_of_climb (z.extent_le_size .up)
  · obtain ⟨y, hy, hwhole⟩ := h.exists_of_step (d := .left) hl
    rw [← hwhole]
    exact hy.exists_exhausts_of_lt Cursor.IsAt.descend
      (Place.extent_pos .down) Place.size_of_downLast
      (y.extent_le_size .down)

/-- **Where there is no node yet, every loop ends at once.** -/
theorem loopsEnd_of_isBare {policy : Policy} {c : Cursor Value}
    (h : c.IsBare) : (Session.mk .forms policy c).LoopsEnd 1 := by
  have hrun : ∀ m : Move, m.advances = true →
      m.run .forms policy.config c = .ok none := by
    intro m hm
    cases m with
    | plain d => exact h.step_eq d
    | significant d => exact h.significant_eq policy.config d
    | settle d => cases hm
    | remove => exact h.remove_eq
  have hnowhere : ∀ (d : Direction) (e : Cursor Value),
      ¬ d.step .forms c = .ok (some e) := by
    intro d e he
    cases (h.step_eq d).symm.trans he
  refine loopsEnd_of_exhausts (fun m hm => ?_)
    (fun d e he => absurd he (hnowhere d e)) ⟨[c], .stop ?_, Nat.le_refl 1⟩
    (fun l hl => absurd hl (hnowhere .left l))
  · exact ⟨[c], ends_of_exhausts (.stop (hrun m hm)) (Nat.le_refl 1)
      (Nat.le_add_left 1 _)⟩
  · show c.climb .forms = _
    rw [Cursor.climb, show c.right .forms = .ok none from h.step_eq .right]
    exact h.step_eq .up

/-- **Repeating a move comes to an end.** In a run that puts nodes into
the tree, wherever the session has got to and whatever edits are pending:
every move that gets on – down, up, left, right, `next` and `prev`, plain
or over significant nodes, and taking out the focus – visits no more
places than the tree has nodes, and every skip and every search along it
is decided by these. The loops inside the moves, which pass over what is
insignificant, climb for `next` and descend for `prev`, end within the
same bound. -/
theorem repetitions_end {policy : Policy} {root : Value} {s : Session}
    (h : (Session.start .forms policy root).Reaches PutsNodes s) :
    s.policy = policy ∧ ∃ T, s.root = .ok T ∧ s.LoopsEnd T.places := by
  have hshape : s.shape = .forms := h.shape_eq
  have hstands := h.stands_of_putsNodes
  refine ⟨h.policy_eq, ?_⟩
  obtain ⟨shape, policy, c⟩ := s
  obtain rfl : shape = .forms := hshape
  rcases hstands with ⟨z, hz⟩ | hbare
  · exact ⟨.node z.whole, hz.root_eq, loopsEnd_of_isAt hz⟩
  · refine ⟨c.focus, hbare.root_eq, ?_⟩
    rw [Value.places_of_not_node hbare.not_node]
    exact loopsEnd_of_isBare hbare

/-- In `([1;x⏎] 2)` the `1` has been replaced by a `4`. The vector that the
outer row holds is out of date, and the tree has six nodes; taking out the
`4`, then the vector, leads to the root after three places. -/
theorem repetitions_end_edited :
    ∃ (s : Session) (cs : List (Cursor Value)),
      (Session.start .forms .standard (.node (.branch .list
        [.branch .vector [.token (.int 1), .comment ";x"], .whitespace " ",
          .token (.int 2)]))).Reaches PutsNodes s
      ∧ s.cursor.path.map Frame.changed = [true, false]
      ∧ s.LoopsEnd 6
      ∧ s.Ends .remove 6 cs ∧ cs.length = 3 := by
  have hrun : (Session.start .forms .standard (.node (.branch .list
      [.branch .vector [.token (.int 1), .comment ";x"], .whitespace " ",
        .token (.int 2)]))).Reaches PutsNodes _ :=
    .step (.step (.step .here (a := .move (.plain .down)) trivial rfl)
      (a := .move (.plain .down)) trivial rfl)
      (a := .replace (.node (.token (.int 4)))) rfl rfl
  obtain ⟨s, hs, hchanged, hplaces, hlength⟩ : ∃ s : Session,
      Reaches PutsNodes _ s
      ∧ s.cursor.path.map Frame.changed = [true, false]
      ∧ s.root.map Value.places = .ok 6
      ∧ (s.trail .remove).1.map List.length = .ok 3 :=
    ⟨_, hrun, rfl, by with_unfolding_all rfl, rfl⟩
  obtain ⟨-, T, hT, hloops⟩ := repetitions_end hs
  rw [hT] at hplaces
  rw [Except.ok.inj hplaces] at hloops
  obtain ⟨cs, hcs⟩ := hloops.ends .remove rfl
  rw [hcs.trail_eq] at hlength
  exact ⟨s, cs, hs, hchanged, hloops, hcs, Except.ok.inj hlength⟩

end Session

end FormTree
