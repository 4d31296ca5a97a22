import FormTree.Proofs.Place

/-!
# Walking through a tree

A move that is repeated until it leads nowhere leaves a trail. For the
four moves that are ever repeated – to the right, to the left, to the next
place and to the previous one – the trail can be written down without
making the moves: it is a list read off the place (`Place.ahead`).

For `next` that list has two parts, what is inside the focus and what
comes after it (`Place.following`); for `prev` it runs backwards through
everything to the left at every level, the ancestors included
(`Place.preceding`). Together with the place itself the two are all places
of the tree in the order of the document (`Place.walk_eq`), so each of
them visits exactly the positions on its side, each once
(`Place.map_index_following`, `Place.map_index_preceding`).
-/

namespace FormTree

/-- **Repeating a move until it leads nowhere** from `a` on visits a list
of places, `a` first. -/
inductive Exhausts {ε α : Type} (move : α → Attempt ε α) :
    α → List α → Prop
  /-- The move leads nowhere. -/
  | stop {a : α} : move a = .ok none → Exhausts move a [a]
  /-- The move leads to a place from which it is repeated. -/
  | go {a b : α} {l : List α} : move a = .ok (some b) →
      Exhausts move b l → Exhausts move a (a :: l)

namespace Exhausts

variable {ε α : Type} {move back : α → Attempt ε α} {a b : α} {l : List α}

/-- A trail begins where it begins. -/
theorem eq_cons (h : Exhausts move a l) : ∃ m, l = a :: m := by
  cases h with
  | stop _ => exact ⟨[], rfl⟩
  | go _ _ => exact ⟨_, rfl⟩

/-- The move leads to the second place of its trail. -/
theorem move_eq (h : Exhausts move a (a :: l)) :
    move a = .ok l.head? := by
  cases h with
  | stop h => exact h
  | go h htrail =>
    obtain ⟨m, rfl⟩ := htrail.eq_cons
    exact h

/-- A trail from a later place on is the rest of the trail. -/
theorem of_append {m : List α} (h : Exhausts move a (l ++ b :: m)) :
    Exhausts move b (b :: m) := by
  induction l generalizing a with
  | nil =>
    obtain ⟨m', hm⟩ := h.eq_cons
    cases hm
    exact h
  | cons c l ih =>
    rw [List.cons_append] at h
    generalize ht : l ++ b :: m = t at h
    cases h with
    | stop _ => simp at ht
    | go _ htrail => exact ih (ht ▸ htrail)

/-- **A move that undoes another** leaves the trail of that backwards, from
any of its places to the first. -/
theorem reverse (hback : ∀ {x y}, move x = .ok (some y) →
      back y = .ok (some x)) (hfirst : back a = .ok none) {m : List α}
    (h : Exhausts move a (l ++ b :: m)) :
    Exhausts back b (b :: l.reverse) := by
  induction hl : l.reverse generalizing l b m with
  | nil =>
    obtain rfl : l = [] := List.reverse_eq_nil_iff.mp hl
    obtain ⟨m', hm⟩ := h.eq_cons
    cases hm
    exact .stop hfirst
  | cons c rest ih =>
    have hlast : l = rest.reverse ++ [c] := by
      rw [← List.reverse_reverse l, hl, List.reverse_cons]
    rw [hlast, List.append_assoc, List.singleton_append] at h
    have hstep : move c = .ok (some b) := h.of_append.move_eq
    exact .go (hback hstep) (ih h (List.reverse_reverse rest))

end Exhausts

namespace Place

/-! ## The places of a tree -/

mutual
/-- **The places inside a node**, given the ancestors around it. -/
def inside (outer : List Level) : Form → List Place
  | .branch k cs => insideRow k outer [] cs
  | _ => []
termination_by structural n => n
/-- The places in a row of children, given those to the left of it, the
nearest first. -/
def insideRow (k : Composite) (outer : List Level) (lefts : List Form) :
    List Form → List Place
  | [] => []
  | n :: ns =>
    ⟨n, ⟨k, lefts, ns⟩ :: outer⟩ :: (inside (⟨k, lefts, ns⟩ :: outer) n
      ++ insideRow k outer (n :: lefts) ns)
end

/-- The places to the left in a row of children, backwards, given what is
to the right of them. -/
def insideBefore (k : Composite) (outer : List Level)
    (rights : List Form) : List Form → List Place
  | [] => []
  | n :: ns =>
    (inside (⟨k, ns, rights⟩ :: outer) n).reverse
      ++ ⟨n, ⟨k, ns, rights⟩ :: outer⟩
        :: insideBefore k outer (n :: rights) ns

/-- The places after everything in a node. -/
def beyond : List Level → Form → List Place
  | [], _ => []
  | l :: outer, n =>
    insideRow l.kind outer (n :: l.lefts) l.rights
      ++ beyond outer (l.fill n)

/-- The places before a node, backwards. -/
def behind : List Level → Form → List Place
  | [], _ => []
  | l :: outer, n =>
    insideBefore l.kind outer (n :: l.rights) l.lefts
      ++ ⟨l.fill n, outer⟩ :: behind outer (l.fill n)

/-- **The places after a place** in document order. -/
def following (z : Place) : List Place :=
  inside z.levels z.focus ++ beyond z.levels z.focus

/-- **The places before a place**, from the nearest back to the root. -/
def preceding (z : Place) : List Place := behind z.levels z.focus

/-- **All places of a tree** in document order. -/
def walk (t : Form) : List Place := ⟨t, []⟩ :: inside [] t

/-- A row is walked through in two parts. -/
theorem insideRow_append (k : Composite) (outer : List Level)
    (ls ns : List Form) :
    insideRow k outer [] (ls.reverse ++ ns)
      = (insideBefore k outer ns ls).reverse ++ insideRow k outer ls ns := by
  induction ls generalizing ns with
  | nil => rfl
  | cons m ls ih =>
    rw [List.reverse_cons, List.append_assoc, List.singleton_append, ih,
      insideRow, insideBefore, List.reverse_append, List.reverse_cons,
      List.reverse_reverse, List.append_assoc, List.append_assoc,
      List.singleton_append]

/-- **A tree is what precedes a place, the place, and what follows it.** -/
theorem walk_eq (z : Place) :
    walk z.whole = z.preceding.reverse ++ z :: z.following := by
  obtain ⟨n, levels⟩ := z
  -- from the root inwards, the row of every ancestor is cut in three
  induction levels generalizing n with
  | nil =>
    rw [following, preceding, behind, beyond, List.append_nil]
    rfl
  | cons l outer ih =>
    have hrow : inside outer (l.fill n)
        = (insideBefore l.kind outer (n :: l.rights) l.lefts).reverse
          ++ insideRow l.kind outer l.lefts (n :: l.rights) :=
      insideRow_append l.kind outer l.lefts (n :: l.rights)
    have hgap : insideRow l.kind outer l.lefts (n :: l.rights)
        = ⟨n, l :: outer⟩ :: (inside (l :: outer) n
          ++ insideRow l.kind outer (n :: l.lefts) l.rights) := rfl
    show walk (whole ⟨l.fill n, outer⟩) = _
    rw [ih, following, hrow, hgap, preceding, preceding, behind,
      List.reverse_append, List.reverse_cons, following, beyond]
    simp only [List.append_assoc, List.cons_append, List.nil_append]

/-! ## Their positions -/

/-- The places in a row have the positions in that row, one after the
other, as soon as this holds inside every child. -/
theorem map_index_insideRow {k : Composite} {outer : List Level}
    {lefts ns : List Form}
    (h : ∀ n ∈ ns, ∀ levels, (inside levels n).map index
      = (Node.positionsIn 0 n.children).map (gap levels ++ ·)) :
    (insideRow k outer lefts ns).map index
      = (Node.positionsIn lefts.length ns).map (gap outer ++ ·) := by
  induction ns generalizing lefts with
  | nil => rfl
  | cons n ns ih =>
    have hgap : gap (⟨k, lefts, ns⟩ :: outer)
        = gap outer ++ [lefts.length] := gap_cons _ _
    have hhead := h n List.mem_cons_self (⟨k, lefts, ns⟩ :: outer)
    have htail : (insideRow k outer (n :: lefts) ns).map index
        = (Node.positionsIn (lefts.length + 1) ns).map (gap outer ++ ·) :=
      ih fun m hm => h m (List.mem_cons_of_mem n hm)
    rw [insideRow, List.map_cons, List.map_append, hhead, htail,
      Node.positionsIn, Node.positions_eq_cons, index, hgap]
    simp [List.map_map, Function.comp_def]

/-- **The places inside a node have the positions inside it.** -/
theorem map_index_inside (levels : List Level) (n : Form) :
    (inside levels n).map index
      = (Node.positionsIn 0 n.children).map (gap levels ++ ·) := by
  induction n using Node.induction generalizing levels with
  | branch k cs ih =>
    exact map_index_insideRow fun n hn levels => ih n hn levels
  | _ => rfl

/-- The places of a tree have its positions. -/
theorem map_index_walk (t : Form) : (walk t).map index = t.positions := by
  rw [walk, List.map_cons, map_index_inside, Node.positions_eq_cons]
  simp [index, gap]

/-- The positions of a tree, cut at a place. -/
theorem positions_whole (z : Place) :
    z.whole.positions
      = (z.preceding.map index).reverse ++ z.index
        :: z.following.map index := by
  rw [← map_index_walk, walk_eq, List.map_append, List.map_cons,
    List.map_reverse]

/-- **What follows a place has the greater positions.** -/
theorem map_index_following (z : Place) :
    z.following.map index = z.whole.positions.filter (z.index < ·) :=
  (Node.filter_lt_of_split (positions_whole z)).1.symm

/-- **What precedes a place has the smaller positions**, backwards. -/
theorem map_index_preceding (z : Place) :
    z.preceding.map index
      = (z.whole.positions.filter (· < z.index)).reverse := by
  rw [(Node.filter_lt_of_split (positions_whole z)).2,
    List.reverse_reverse]

/-- The places in a row are as many as its nodes, as soon as this holds
inside every child. -/
theorem length_insideRow {k : Composite} {outer : List Level}
    {lefts ns : List Form}
    (h : ∀ n ∈ ns, ∀ levels, (inside levels n).length + 1 = n.size) :
    (insideRow k outer lefts ns).length = Node.sizes ns := by
  induction ns generalizing lefts with
  | nil => rfl
  | cons n ns ih =>
    have hhead := h n List.mem_cons_self (⟨k, lefts, ns⟩ :: outer)
    have htail : (insideRow k outer (n :: lefts) ns).length
        = Node.sizes ns :=
      ih fun m hm => h m (List.mem_cons_of_mem n hm)
    rw [insideRow, List.length_cons, List.length_append, htail, Node.sizes]
    omega

theorem length_inside (levels : List Level) (n : Form) :
    (inside levels n).length + 1 = n.size := by
  induction n using Node.induction generalizing levels with
  | branch k cs ih =>
    rw [inside, length_insideRow fun n hn levels => ih n hn levels,
      Node.size, Nat.add_comm]
  | _ => rfl

/-- **A tree has as many places as nodes.** -/
theorem length_walk (t : Form) : (walk t).length = t.size := by
  rw [walk, List.length_cons, length_inside]

/-! ## The trails of the four moves -/

/-- The siblings after a place, the nearest first. -/
def siblingsAfter (k : Composite) (outer : List Level)
    (lefts : List Form) : List Form → List Place
  | [] => []
  | n :: ns =>
    ⟨n, ⟨k, lefts, ns⟩ :: outer⟩ :: siblingsAfter k outer (n :: lefts) ns

/-- The siblings before a place, the nearest first. -/
def siblingsBefore (k : Composite) (outer : List Level)
    (rights : List Form) : List Form → List Place
  | [] => []
  | n :: ns =>
    ⟨n, ⟨k, ns, rights⟩ :: outer⟩ :: siblingsBefore k outer (n :: rights) ns

/-- **The places ahead of a place** in one of the directions that can be
kept to. -/
def ahead (d : Direction) (z : Place) : List Place :=
  match d, z.levels with
  | .right, l :: outer =>
    siblingsAfter l.kind outer (z.focus :: l.lefts) l.rights
  | .left, l :: outer =>
    siblingsBefore l.kind outer (z.focus :: l.rights) l.lefts
  | .next, _ => z.following
  | .prev, _ => z.preceding
  | _, _ => []

/-- A step of places as an attempt, which never fails. -/
def stepping (d : Direction) (z : Place) : Attempt Failure Place :=
  .ok (z.step d)

theorem exhausts_right (z : Place) :
    Exhausts (stepping .right) z (z :: z.ahead .right) := by
  obtain ⟨n, _ | ⟨⟨k, ls, rs⟩, outer⟩⟩ := z
  · exact .stop rfl
  · induction rs generalizing n ls with
    | nil => exact .stop rfl
    | cons r rs ih => exact .go rfl (ih r (n :: ls))

theorem exhausts_left (z : Place) :
    Exhausts (stepping .left) z (z :: z.ahead .left) := by
  obtain ⟨n, _ | ⟨⟨k, ls, rs⟩, outer⟩⟩ := z
  · exact .stop rfl
  · induction ls generalizing n rs with
    | nil => exact .stop rfl
    | cons l ls ih => exact .go rfl (ih l (n :: rs))

/-- What a trail of `next` goes on with after a node: nothing at the end
of the tree, and else the trail from the next place on. -/
def Continues (o : Option Place) (rest : List Place) : Prop :=
  match o with
  | none => rest = []
  | some z => Exhausts (stepping .next) z rest

/-- Where there is no way down, the trail goes on at once. -/
theorem Continues.exhausts_of_leaf {z : Place} {rest : List Place}
    (hdown : z.down = none) (h : Continues (after z.levels z.focus) rest) :
    Exhausts (stepping .next) z (z :: rest) := by
  have hnext : stepping .next z = .ok (after z.levels z.focus) := by
    show Except.ok z.next = _
    rw [next, hdown]
  cases ho : after z.levels z.focus with
  | none =>
    rw [ho] at h hnext
    obtain rfl : rest = [] := h
    exact .stop hnext
  | some y =>
    rw [ho] at h hnext
    exact .go hnext h

/-- A row is walked through by `next` as soon as every child is. -/
theorem exhausts_insideRow {k : Composite} {outer : List Level}
    {lefts : List Form} {n : Form} {ns : List Form} {rest : List Place}
    (h : ∀ m ∈ n :: ns, ∀ levels l, Continues (after levels m) l →
      Exhausts (stepping .next) ⟨m, levels⟩
        (⟨m, levels⟩ :: (inside levels m ++ l)))
    (hrest : Continues
      (after outer (.branch k (lefts.reverse ++ n :: ns))) rest) :
    Exhausts (stepping .next) ⟨n, ⟨k, lefts, ns⟩ :: outer⟩
      (insideRow k outer lefts (n :: ns) ++ rest) := by
  induction ns generalizing lefts n with
  | nil =>
    have hgo := h n List.mem_cons_self (⟨k, lefts, []⟩ :: outer) rest hrest
    rw [insideRow, insideRow, List.append_nil]
    exact hgo
  | cons m ns ih =>
    rw [insideRow, List.cons_append, List.append_assoc]
    refine h n List.mem_cons_self _ _ (ih ?_ ?_)
    · exact fun m' hm' => h m' (List.mem_cons_of_mem n hm')
    · rwa [List.reverse_cons, List.append_assoc, List.singleton_append]

/-- **A node is walked through by `next`**, and then the trail goes on
with what comes after the node. -/
theorem exhausts_inside (n : Form) (levels : List Level)
    (rest : List Place) (hrest : Continues (after levels n) rest) :
    Exhausts (stepping .next) ⟨n, levels⟩
      (⟨n, levels⟩ :: (inside levels n ++ rest)) := by
  induction n using Node.induction generalizing levels rest with
  | branch k cs ih =>
    cases cs with
    | nil => exact hrest.exhausts_of_leaf rfl
    | cons c cs =>
      refine .go (b := ⟨c, ⟨k, [], cs⟩ :: levels⟩) rfl ?_
      exact exhausts_insideRow ih hrest
  | _ => exact hrest.exhausts_of_leaf rfl

/-- After a node comes what is beyond it. -/
theorem continues_beyond (levels : List Level) (n : Form) :
    Continues (after levels n) (beyond levels n) := by
  induction levels generalizing n with
  | nil => rfl
  | cons l outer ih =>
    obtain ⟨k, ls, rs⟩ := l
    cases rs with
    | nil => exact ih (Level.fill ⟨k, ls, []⟩ n)
    | cons r rs =>
      have hfill : Level.fill ⟨k, ls, r :: rs⟩ n
          = .branch k ((n :: ls).reverse ++ r :: rs) := by
        simp [Level.fill, Level.row]
      refine exhausts_insideRow (fun m _ => exhausts_inside m) ?_
      rw [← hfill]
      exact ih _

theorem exhausts_next (z : Place) :
    Exhausts (stepping .next) z (z :: z.ahead .next) :=
  exhausts_inside z.focus z.levels _ (continues_beyond z.levels z.focus)

/-- From the root on, `next` visits all places of a tree. -/
theorem exhausts_walk (t : Form) :
    Exhausts (stepping .next) ⟨t, []⟩ (walk t) := by
  have h := exhausts_next ⟨t, []⟩
  rwa [ahead, following, beyond, List.append_nil] at h

theorem exhausts_prev (z : Place) :
    Exhausts (stepping .prev) z (z :: z.ahead .prev) := by
  have hroot := exhausts_walk z.whole
  rw [walk_eq] at hroot
  have hundo : ∀ {x y}, stepping .next x = .ok (some y) →
      stepping .prev y = .ok (some x) := by
    intro x y h
    injection h with h
    exact congrArg Except.ok (prev_of_next h)
  have hback := hroot.reverse hundo rfl
  rwa [List.reverse_reverse] at hback

/-- **The trail of a direction that is kept to** is what lies ahead. -/
theorem exhausts_ahead (z : Place) {d : Direction} (hd : d.onward = d) :
    Exhausts (stepping d) z (z :: z.ahead d) := by
  cases d with
  | right => exact exhausts_right z
  | left => exact exhausts_left z
  | next => exact exhausts_next z
  | prev => exact exhausts_prev z
  | _ => cases hd

/-- The next place is the first of those that follow. -/
theorem next_eq_head? (z : Place) : z.next = z.following.head? := by
  have h := (exhausts_next z).move_eq
  injection h

/-- The previous place is the first of those that precede. -/
theorem prev_eq_head? (z : Place) : z.prev = z.preceding.head? := by
  have h := (exhausts_prev z).move_eq
  injection h

/-- **The next place of the previous one is the place itself.** -/
theorem next_of_prev {z y : Place} (h : z.prev = some y) :
    y.next = some z := by
  rw [prev_eq_head?] at h
  obtain ⟨rest, hrest⟩ := List.head?_eq_some_iff.mp h
  have hroot := exhausts_walk z.whole
  rw [walk_eq, hrest, List.reverse_cons, List.append_assoc,
    List.singleton_append] at hroot
  have hmove := hroot.of_append.move_eq
  injection hmove

end Place

end FormTree
