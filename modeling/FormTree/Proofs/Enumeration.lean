import FormTree.Proofs.Trails

/-!
# Enumerating a document

Repeating `next` from a cursor visits the rest of the document, and
repeating `prev` goes back to its beginning. This module says it for
sessions, after any run of primitive operations: whatever edits have been
recorded and not carried out, the trail of `next` is the position of the
cursor followed by all greater positions of the tree, in order, and the
trail of `prev` is the position followed by all smaller ones, backwards to
the root. The steps to significant nodes leave out the insignificant
positions, the first excepted, where the cursor is already.

The order of the document is the lexicographic order of positions:
`Value.positions` lists the positions that lead somewhere, each once and
in that order.
-/

namespace FormTree

/-- **Whether a tree has something significant at a position.** -/
def Value.isSignificantAt (cfg : Config) (v : Value) (p : List Nat) :
    Bool :=
  match v.at? p with
  | some w => !cfg.isInsignificant w
  | none => false

/-- A place is significant where its tree is at its position. -/
theorem Place.isSignificantAt_index (cfg : Config) (z : Place) :
    Value.isSignificantAt cfg (.node z.whole) z.index
      = z.isSignificant cfg := by
  rw [Value.isSignificantAt, Value.at?_node, at?_whole]
  rfl

namespace Session

/-- **A cursor visits a position of a tree**: the tree is what the cursor
stands for, the position is where its frames lead, and the focus is what
the tree has there. -/
structure Visits (s : Session) (T : Value) (c : Cursor Value)
    (p : List Nat) : Prop where
  /-- The root can be put together, and is the tree. -/
  root_eq : c.root s.shape = .ok T
  /-- The indices of the frames are the position. -/
  index_eq : (c.path.map Frame.index).reverse = p.map Int.ofNat
  /-- The focus is what stands there. -/
  focus_eq : T.at? p = some c.focus

/-- **A move enumerates positions of a tree**: repeated until it leads
nowhere, it visits exactly these, and that is the trail of the move. -/
def Enumerates (s : Session) (m : Move) (T : Value)
    (ps : List (List Nat)) : Prop :=
  ∃ cs, Exhausts (s.move m) s.cursor cs ∧ (s.trail m).1 = .ok cs
    ∧ List.Forall₂ (s.Visits T) cs ps

/-- A trail of a session is the trail of its cursor. -/
theorem trail_fst_eq {s : Session} {m : Move} {cs : List (Cursor Value)}
    (h : s.cursor.trail s.shape (s.move m) = .ok cs) :
    (s.trail m).1 = .ok cs := by
  rw [trail, h]

section AtPlace

variable {policy : Policy} {c : Cursor Value} {z : Place}

theorem visits_of_isAt (h : c.IsAt z) {s : Session}
    (hs : s.shape = .forms) : s.Visits (.node z.whole) c z.index where
  root_eq := by rw [hs]; exact h.root_eq
  index_eq := h.index_eq
  focus_eq := by rw [Value.at?_node, z.at?_whole, h.focus_eq]; rfl

/-- Moves that lead where those of places lead enumerate the positions of
the places. -/
theorem enumerates_of_isAt (h : c.IsAt z) (m : Move)
    {go : Place → Option Place} {zs : List Place}
    (hmove : ∀ {d y}, d.IsAt y →
      Cursor.Arrives (m.run .forms policy.config d) (go y))
    (hz : Exhausts (ε := Failure) (fun y => .ok (go y)) z zs)
    (hlen : zs.length ≤ z.whole.size)
    (hwhole : ∀ y ∈ zs, y.whole = z.whole) :
    (Session.mk .forms policy c).Enumerates m (.node z.whole)
      (zs.map Place.index) := by
  obtain ⟨cs, hcs, hall, htrail, -⟩ := h.exists_trail hmove hz hlen
  refine ⟨cs, hcs, trail_fst_eq htrail, ?_⟩
  rw [List.forall₂_map_right_iff]
  -- every place visited is in the tree that the trail started in
  clear hz hlen hcs htrail
  induction hall with
  | nil => exact .nil
  | @cons d y cs zs hd _ ih =>
    have hy : y.whole = z.whole := hwhole y List.mem_cons_self
    refine .cons ?_ (ih fun x hx => hwhole x (List.mem_cons_of_mem y hx))
    rw [← hy]
    exact visits_of_isAt hd rfl

/-- **Plain steps enumerate what lies ahead.** -/
theorem enumerates_plain (h : c.IsAt z) {d : Direction}
    (hd : d.onward = d) :
    (Session.mk .forms policy c).Enumerates (.plain d) (.node z.whole)
      (z.index :: (z.ahead d).map Place.index) :=
  enumerates_of_isAt h (.plain d) (fun h => h.step d)
    (Place.exhausts_ahead z hd) (z.length_ahead_lt d)
    fun _ => Place.whole_of_mem_ahead hd

/-- **Steps to significant nodes enumerate the significant part of what
lies ahead.** -/
theorem enumerates_significant (h : c.IsAt z) {d : Direction}
    (hd : d.onward = d) :
    (Session.mk .forms policy c).Enumerates (.significant d)
      (.node z.whole) (z.index :: ((z.ahead d).map Place.index).filter
        (Value.isSignificantAt policy.config (.node z.whole))) := by
  have hfilter : ((z.ahead d).map Place.index).filter
        (Value.isSignificantAt policy.config (.node z.whole))
      = ((z.ahead d).filter (Place.isSignificant policy.config)).map
          Place.index := by
    rw [List.filter_map]
    refine congrArg _ (List.filter_congr fun y hy => ?_)
    rw [← Place.isSignificantAt_index,
      Place.whole_of_mem_ahead hd (List.mem_cons_of_mem z hy)]
    rfl
  have hsub : (z :: (z.ahead d).filter
      (Place.isSignificant policy.config)).Sublist (z :: z.ahead d) :=
    List.filter_sublist.cons_cons z
  rw [hfilter]
  refine enumerates_of_isAt h (.significant d)
    (fun h => h.significant policy.config d)
    (Place.exhausts_significant hd policy.config z)
    (z.length_significant_le policy.config d) ?_
  exact fun y hy => Place.whole_of_mem_ahead hd (hsub.subset hy)

end AtPlace

theorem visits_of_isBare {policy : Policy} {c : Cursor Value}
    (h : c.IsBare) : (Session.mk .forms policy c).Visits c.focus c [] := by
  refine ⟨h.root_eq, ?_, Value.at?_nil _⟩
  rw [h.path_eq]
  rfl

/-- Where there is no node yet, there is one position, whatever the
move. -/
theorem enumerates_of_isBare {policy : Policy} {c : Cursor Value}
    (h : c.IsBare) {m : Move}
    (hm : m.run .forms policy.config c = .ok none) :
    (Session.mk .forms policy c).Enumerates m c.focus [[]] := by
  have hstop : Exhausts (m.run .forms policy.config) c [c] := .stop hm
  have htrail : c.trail .forms (m.run .forms policy.config) = .ok [c] :=
    hstop.trailOf_eq (Nat.le_add_left 1 _)
  exact ⟨[c], hstop, trail_fst_eq htrail, .cons (visits_of_isBare h) .nil⟩

/-- **The document around a session**, as its moves enumerate it: the
cursor visits a position of a tree, and the trails are the greater
positions in order and the smaller ones backwards. -/
structure EnumeratesDocument (s : Session) (T : Value) (p : List Nat) :
    Prop where
  /-- The cursor visits the position. -/
  visits : s.Visits T s.cursor p
  /-- The positions are those that lead somewhere. -/
  mem_positions : ∀ q, q ∈ T.positions ↔ (T.at? q).isSome
  /-- They are listed in order, each once. -/
  positions_sorted : T.positions.Pairwise (· < ·)
  /-- `next` enumerates what is after the position. -/
  next : s.Enumerates (.plain .next) T (p :: T.positions.filter (p < ·))
  /-- `prev` enumerates what is before the position, backwards. -/
  prev : s.Enumerates (.plain .prev) T
    (p :: (T.positions.filter (· < p)).reverse)
  /-- `prev` ends at the root. -/
  ends_at_root :
    (p :: (T.positions.filter (· < p)).reverse).getLast? = some []
  /-- To significant nodes, `next` leaves out the insignificant ones. -/
  significant_next : s.Enumerates (.significant .next) T
    (p :: (T.positions.filter (p < ·)).filter
      (T.isSignificantAt s.policy.config))
  /-- To significant nodes, `prev` leaves out the insignificant ones. -/
  significant_prev : s.Enumerates (.significant .prev) T
    (p :: (T.positions.filter (· < p)).reverse.filter
      (T.isSignificantAt s.policy.config))

/-- At a place the document is its tree. -/
theorem enumeratesDocument_of_isAt {policy : Policy} {c : Cursor Value}
    {z : Place} (h : c.IsAt z) :
    (Session.mk .forms policy c).EnumeratesDocument (.node z.whole)
      z.index where
  visits := visits_of_isAt h rfl
  mem_positions _ := Value.mem_positions_iff
  positions_sorted := Value.positions_pairwise _
  next := by
    rw [Value.positions_node, ← z.map_index_following]
    exact enumerates_plain h rfl
  prev := by
    rw [Value.positions_node, ← z.map_index_preceding]
    exact enumerates_plain h rfl
  ends_at_root := Value.getLast?_backwards _ _
  significant_next := by
    rw [Value.positions_node, ← z.map_index_following]
    exact enumerates_significant h rfl
  significant_prev := by
    rw [Value.positions_node, ← z.map_index_preceding]
    exact enumerates_significant h rfl

/-- Where there is no node yet, the document is one position. -/
theorem enumeratesDocument_of_isBare {policy : Policy} {c : Cursor Value}
    (h : c.IsBare) :
    (Session.mk .forms policy c).EnumeratesDocument c.focus [] := by
  have hnext : c.focus.positions.filter ([] < ·) = [] := by
    rw [Value.positions_of_not_node h.not_node]
    rfl
  have hprev : c.focus.positions.filter (· < []) = [] := by
    rw [Value.positions_of_not_node h.not_node]
    rfl
  have hplain : ∀ d, (Move.plain d).run .forms policy.config c
      = .ok none := h.step_eq
  have hsignificant : ∀ d, (Move.significant d).run .forms
      policy.config c = .ok none := h.significant_eq policy.config
  refine ⟨visits_of_isBare h, fun q => Value.mem_positions_iff,
    Value.positions_pairwise _, ?_, ?_, Value.getLast?_backwards _ _,
    ?_, ?_⟩
  · rw [hnext]
    exact enumerates_of_isBare h (hplain .next)
  · rw [hprev]
    exact enumerates_of_isBare h (hplain .prev)
  · rw [hnext]
    exact enumerates_of_isBare h (hsignificant .next)
  · rw [hprev]
    exact enumerates_of_isBare h (hsignificant .prev)

/-- **`next` and `prev` enumerate the document**, whatever primitive
operations have led to the session. -/
theorem trails_enumerate_document {policy : Policy} {root : Value}
    {s : Session}
    (h : (Session.start .forms policy root).Reaches Primitive.Only s) :
    s.policy = policy ∧ ∃ T p, s.EnumeratesDocument T p := by
  have hshape : s.shape = .forms := h.shape_eq
  have hstands := h.isAt_or_isBare
  refine ⟨h.policy_eq, ?_⟩
  obtain ⟨shape, policy, c⟩ := s
  obtain rfl : shape = .forms := hshape
  rcases hstands with ⟨z, hz⟩ | hbare
  · exact ⟨_, _, enumeratesDocument_of_isAt hz⟩
  · exact ⟨_, _, enumeratesDocument_of_isBare hbare⟩

/-- A session that has gone down into the second form of `(1 [2] 3)` and
put another number in the place of the `2`: the rest of the document is
reached through a row that is out of date. -/
theorem trails_enumerate_document_edited :
    ∃ s : Session,
      (Session.start .forms .standard (.node (.branch .list
        [.token (.int 1), .whitespace " ",
          .branch .vector [.token (.int 2)], .whitespace " ",
          .token (.int 3)]))).Reaches Primitive.Only s
      ∧ s.cursor.path.map Frame.changed = [true, false]
      ∧ s.policy = .standard ∧ ∃ T p, s.EnumeratesDocument T p := by
  have hrun : (Session.start .forms .standard (.node (.branch .list
      [.token (.int 1), .whitespace " ",
        .branch .vector [.token (.int 2)], .whitespace " ",
        .token (.int 3)]))).Reaches Primitive.Only _ :=
    .step (.step (.step (.step (.step .here ⟨.move .down, rfl⟩ rfl)
      ⟨.move .right, rfl⟩ rfl) ⟨.move .right, rfl⟩ rfl)
      ⟨.move .down, rfl⟩ rfl) ⟨.replace (.token (.int 4)), rfl⟩ rfl
  exact ⟨_, hrun, rfl, trails_enumerate_document hrun⟩

end Session

end FormTree
