import FormTree.Proofs.Enumeration
import FormTree.Proofs.Siblings
import FormTree.Proofs.Wandering

/-!
# Searching

A search tests the place where it starts, significant or not, and then the
places that its move leads to, which are significant. So what it should
find can be said without the moves: the first place that holds what is
wanted, among the place itself and the significant ones behind it. Behind
are the places to the right in a row, and the greater positions in a
document.

A row is a route, whatever stands in it, and so is a document
(`Cursor.document`), as long as it can be put together at all. Along a
route it makes no difference that a search repeats a move which is itself
a repetition: both keep to the route, with fewer and fewer places open.

The search for the next sibling of a kind moves first and tests then, so
it can be repeated, and it comes to every sibling of the kind in turn
(`Frame.placesOf`). What is insignificant is never among them, even if it
is of the kind.

Moving around is no edit. Whatever is pending, the tree that a cursor
stands for, or the failure to put it together, is the same before a search
and after it (`Cursor.keptByParts_root`).
-/

namespace FormTree

namespace Wanted

/-- **Whether a value is what is wanted.** What is no node never is. -/
def wants (w : Wanted) : Value → Bool
  | .node n => w.passes n
  | _ => false

/-- A search tests nothing but the focus. -/
theorem test_eq_wants (w : Wanted) (c : Cursor Value) :
    w.test c = w.wants c.focus := by
  obtain ⟨v, path⟩ := c
  cases v with
  | node n =>
    cases w with
    | kind k => exact decide_eq_decide.mpr Option.some_inj
    | token test => cases n <;> rfl
    | literal v => cases n <;> rfl
  | _ => cases w <;> rfl

/-- A search for a kind is for nodes of that kind. -/
theorem wants_kind (k : Kind) (v : Value) :
    (Wanted.kind k).wants v = decide (v.kind? = some k) := by
  cases v with
  | node n => exact decide_eq_decide.mpr Option.some_inj.symm
  | _ => rfl

end Wanted

/-- A search is an action. -/
theorem Session.outcome_search (s : Session) (w : Wanted) (m : Move) :
    s.outcome (w.action m)
      = s.cursor.find s.shape s.policy.config w.test m := by
  cases w <;> rfl

/-! ## In a row -/

namespace Frame

/-- **What is wanted stands at a place of the row.** -/
def Holds (w : Wanted) (f : Frame Value) (j : Nat) : Prop :=
  ∃ v, f.siblings[j]? = some v ∧ w.wants v = true

/-- **The places of the significant siblings of a kind**, in order. -/
def placesOf (cfg : Config) (k : Kind) (f : Frame Value) : List Nat :=
  (List.range f.siblings.length).filter fun j =>
    f.siblings[j]?.any fun v =>
      !cfg.isInsignificant v && decide (v.kind? = some k)

theorem pairwise_placesOf (cfg : Config) (k : Kind) (f : Frame Value) :
    (f.placesOf cfg k).Pairwise (· < ·) :=
  List.pairwise_lt_range.filter _

theorem mem_placesOf {cfg : Config} {k : Kind} {f : Frame Value} {j : Nat} :
    j ∈ f.placesOf cfg k
      ↔ f.IsSignificantAt cfg j ∧ f.Holds (.kind k) j := by
  rw [placesOf, List.mem_filter, List.mem_range]
  constructor
  · rintro ⟨-, hany⟩
    obtain ⟨v, hv, htest⟩ := Option.any_eq_true _ _ |>.mp hany
    obtain ⟨hsig, hkind⟩ := Bool.and_eq_true_iff.mp htest
    exact ⟨⟨v, hv, by simpa using hsig⟩, v, hv,
      (Wanted.wants_kind k v).trans hkind⟩
  · rintro ⟨hsig, v, hv, hwants⟩
    refine ⟨hsig.lt_length, ?_⟩
    obtain ⟨w, hw, hinsig⟩ := hsig
    obtain rfl := Option.some_inj.mp (hv.symm.trans hw)
    rw [hv, Option.any_some, hinsig, ← Wanted.wants_kind, hwants]
    rfl

end Frame

namespace Cursor

section Row

variable {ε : Type} {S : Shape Value ε} {cfg : Config} {f : Frame Value}
  {outer : List (Frame Value)} {i j : Nat} {c : Cursor Value}

/-- A search passes on at every place that does not hold what is
wanted. -/
theorem SitsAt.test_iff (h : SitsAt f outer j c) (w : Wanted) :
    (!w.test c) = false ↔ f.Holds w j := by
  rw [Bool.not_eq_false', w.test_eq_wants]
  exact h.focus_iff fun v => w.wants v = true

/-- **A search to the right** lands on the first place that holds what is
wanted: the place itself or a significant one further on. -/
theorem SitsAt.landsOn_find (h : SitsAt f outer i c) (w : Wanted) :
    LandsOn (· < ·) (SitsAt f outer)
      (fun j => (j = i ∨ f.IsSignificantAt cfg j ∧ i < j) ∧ f.Holds w j)
      (c.find S cfg w.test (.significant .right)) :=
  (isKeptBy_significant_right S cfg f outer).skip
    (fun hd => hd.test_iff w) h

/-- **The search for the next sibling of a kind keeps to the row**, with
the places of that kind open. -/
theorem isKeptBy_findNext (S : Shape Value ε) (cfg : Config)
    (f : Frame Value) (outer : List (Frame Value)) (k : Kind) :
    (rightward S f outer).IsKeptBy (· ∈ f.placesOf cfg k)
      (findNext S cfg k) :=
  ((isKeptBy_significant_right S cfg f outer).andThen_skip
    fun hd => hd.test_iff (.kind k)).congr fun _ => Frame.mem_placesOf.symm

/-- So does the search for the previous one. -/
theorem isKeptBy_findPrevious (S : Shape Value ε) (cfg : Config)
    (f : Frame Value) (outer : List (Frame Value)) (k : Kind) :
    (leftward S f outer).IsKeptBy (· ∈ f.placesOf cfg k)
      (findPrevious S cfg k) :=
  ((isKeptBy_significant_left S cfg f outer).andThen_skip
    fun hd => hd.test_iff (.kind k)).congr fun _ => Frame.mem_placesOf.symm

/-- **Repeated, it comes to every sibling of the kind to the right**, one
after the other. -/
theorem SitsAt.exhausts_findNext (h : SitsAt f outer i c)
    (S : Shape Value ε) (cfg : Config) (k : Kind) :
    ∃ cs, Exhausts (findNext S cfg k) c (c :: cs)
      ∧ List.Forall₂ (SitsAt f outer)
        ((f.placesOf cfg k).filter (i < ·)) cs := by
  refine (isKeptBy_findNext S cfg f outer k).exists_exhausts
    ((f.pairwise_placesOf cfg k).filter _) ?_ h
  intro j
  rw [List.mem_filter, decide_eq_true_eq]
  rfl

/-- And to every sibling of the kind to the left, the nearest first. -/
theorem SitsAt.exhausts_findPrevious (h : SitsAt f outer i c)
    (S : Shape Value ε) (cfg : Config) (k : Kind) :
    ∃ cs, Exhausts (findPrevious S cfg k) c (c :: cs)
      ∧ List.Forall₂ (SitsAt f outer)
        ((f.placesOf cfg k).filter (· < i)).reverse cs := by
  refine (isKeptBy_findPrevious S cfg f outer k).exists_exhausts
    (List.pairwise_reverse.mpr ((f.pairwise_placesOf cfg k).filter _)) ?_ h
  intro j
  rw [List.mem_reverse, List.mem_filter, decide_eq_true_eq]
  rfl

end Row

/-! ## In a document -/

/-- **A cursor is at a position** of a tree. -/
def IsAtIn (t : Form) (q : List Nat) (c : Cursor Value) : Prop :=
  ∃ z, c.IsAt z ∧ z.whole = t ∧ z.index = q

theorem IsAtIn.mem_positions {t : Form} {q : List Nat} {c : Cursor Value}
    (h : IsAtIn t q c) : q ∈ t.positions := by
  obtain ⟨z, -, rfl, rfl⟩ := h
  rw [Place.positions_whole]
  exact List.mem_append_right _ List.mem_cons_self

/-- **The document as a route**, in the order of its positions. -/
def document (t : Form) : Route Shape.forms (List Nat) where
  At := IsAtIn t
  before := (· < ·)
  remaining q := (t.positions.filter (q < ·)).length
  before_trans := List.lt_trans
  remaining_lt {p q c} hc hpq := by
    have hrest : t.positions.filter (q < ·)
        = (t.positions.filter (p < ·)).filter (q < ·) := by
      rw [List.filter_filter]
      refine List.filter_congr fun r _ => ?_
      simpa using fun hqr => List.lt_trans hpq hqr
    rw [hrest, List.length_filter_lt_length_iff_exists]
    refine ⟨q, List.mem_filter.mpr ⟨hc.mem_positions, ?_⟩, ?_⟩
    · exact decide_eq_true hpq
    · simp
  remaining_le_reach {p c} hc := by
    obtain ⟨z, hz, rfl, rfl⟩ := hc
    rw [← Place.map_index_following, List.length_map]
    exact Nat.le_of_lt (Nat.lt_of_lt_of_le (z.length_ahead_lt .next)
      hz.size_le_reach)

/-- Steps to the next place keep to the document. -/
theorem isKeptBy_next (t : Form) :
    (document t).IsKeptBy (· ∈ t.positions) (next .forms) := by
  rintro p c ⟨z, hz, rfl, rfl⟩
  have hnext := hz.next
  have hmem : ∀ q, q ∈ z.whole.positions ∧ z.index < q
      ↔ q ∈ z.following.map Place.index := by
    intro q
    rw [Place.map_index_following, List.mem_filter, decide_eq_true_eq]
  rw [Place.next_eq_head?] at hnext
  cases hfollowing : z.following with
  | nil =>
    rw [hfollowing] at hnext
    refine .inr ⟨fun q hq => ?_, hnext⟩
    have := (hmem q).mp hq
    rw [hfollowing] at this
    cases this
  | cons y rest =>
    rw [hfollowing] at hnext
    obtain ⟨d, hd, hy⟩ := hnext
    have hstep : z.next = some y := by
      rw [Place.next_eq_head?, hfollowing]
      rfl
    have hsorted : (y.index :: rest.map Place.index).Pairwise (· < ·) := by
      rw [← List.map_cons, ← hfollowing, Place.map_index_following]
      exact (Node.positions_pairwise _).filter _
    rw [hfollowing] at hmem
    refine .inl ⟨y.index, d, ⟨(hmem _).mpr List.mem_cons_self, ?_⟩,
      ⟨y, hy, Place.whole_of_next hstep, rfl⟩, hd⟩
    intro q hq
    exact (List.mem_cons.mp ((hmem q).mp hq)).imp_right
      ((List.pairwise_cons.mp hsorted).1 q)

/-- The focus is what the tree has at the position. -/
theorem IsAtIn.at?_eq {t : Form} {q : List Nat} {c : Cursor Value}
    (h : IsAtIn t q c) : (Value.node t).at? q = some c.focus := by
  obtain ⟨z, hz, rfl, rfl⟩ := h
  rw [Value.at?_node, z.at?_whole, hz.focus_eq]
  rfl

/-- **Steps to the next significant place keep to the document**, with the
significant positions open. -/
theorem isKeptBy_significant_next (cfg : Config) (t : Form) :
    (document t).IsKeptBy
      (fun q => (Value.node t).isSignificantAt cfg q = true)
      (Direction.next.significant .forms cfg) := by
  have htest : ∀ {q c}, IsAtIn t q c → (c.isInsignificant cfg = false
      ↔ (Value.node t).isSignificantAt cfg q = true) := by
    intro q c hc
    rw [Value.isSignificantAt, hc.at?_eq]
    exact (Bool.not_eq_true' _).to_iff.symm
  refine ((isKeptBy_next t).andThen_skip htest).congr fun q => ?_
  refine and_iff_right_of_imp fun hq => ?_
  rw [← Value.positions_node, Value.mem_positions_iff]
  rw [Value.isSignificantAt] at hq
  cases hat : (Value.node t).at? q with
  | none =>
    rw [hat] at hq
    cases hq
  | some v => rfl

end Cursor

/-- **A tree holds what is wanted** at a position. -/
def Value.HoldsAt (w : Wanted) (T : Value) (q : List Nat) : Prop :=
  ∃ v, T.at? q = some v ∧ w.wants v = true

namespace Cursor

/-- **A search through a document** lands on the first position that holds
what is wanted: the position itself or a significant one further on. -/
theorem IsAtIn.landsOn_find {t : Form} {p : List Nat} {c : Cursor Value}
    (h : IsAtIn t p c) (cfg : Config) (w : Wanted) :
    LandsOn (· < ·) (IsAtIn t)
      (fun q => (q = p
          ∨ (Value.node t).isSignificantAt cfg q = true ∧ p < q)
        ∧ (Value.node t).HoldsAt w q)
      (c.find .forms cfg w.test (.significant .next)) := by
  refine (isKeptBy_significant_next cfg t).skip ?_ h
  intro q d hd
  rw [Bool.not_eq_false', w.test_eq_wants]
  constructor
  · exact fun hwants => ⟨d.focus, hd.at?_eq, hwants⟩
  · rintro ⟨v, hv, hwants⟩
    obtain rfl := Option.some_inj.mp (hd.at?_eq.symm.trans hv)
    exact hwants

/-- Where there is no node yet, there is nothing to be found. -/
theorem IsBare.landsOn_find {c : Cursor Value} (h : c.IsBare)
    (cfg : Config) (w : Wanted) (At : List Nat → Cursor Value → Prop) :
    LandsOn (· < ·) At
      (fun q => (q = [] ∨ c.focus.isSignificantAt cfg q = true ∧ [] < q)
        ∧ c.focus.HoldsAt w q)
      (c.find .forms cfg w.test (.significant .next)) := by
  have hnever : ∀ {v : Value}, v.isNode = false → w.wants v = false := by
    intro v hv
    cases v with
    | node n => cases hv
    | _ => rfl
  refine .inr ⟨?_, ?_⟩
  · rintro q ⟨-, v, hv, hwants⟩
    have hq : q ∈ c.focus.positions := by
      rw [Value.mem_positions_iff, hv]
      rfl
    rw [Value.positions_of_not_node h.not_node, List.mem_singleton] at hq
    subst hq
    rw [Value.at?_nil] at hv
    obtain rfl := Option.some_inj.mp hv
    rw [hnever h.not_node] at hwants
    cases hwants
  · rw [h.find_eq, w.test_eq_wants, hnever h.not_node]
    rfl

/-! ## Where a tree can be put together -/

/-- **Frames without strays follow the ancestors** of the focus. By
induction on the path; the parent that a frame records is a branch. -/
theorem Enclosed.exists_follows {path : List (Frame Value)} {n : Form}
    (h : Enclosed .forms path (.node n))
    (hstray : ¬ ∃ f ∈ path, f.HasStray) :
    ∃ levels, Follows path levels n := by
  generalize hv : Value.node n = v at h
  induction h generalizing n with
  | root => exact ⟨[], .root n⟩
  | @inside f path v hf _ ih =>
    rw [List.exists_mem_cons_iff, not_or] at hstray
    obtain ⟨ls, rs, hrow, hindex⟩ := hf.split
    have hsiblings := Frame.Encloses.siblings_eq hrow
    have hnodes := Frame.isNode_of_not_hasStray hstray.1
    rw [hsiblings] at hnodes
    obtain ⟨ns, rfl⟩ := exists_map_node fun v hv =>
      hnodes v (List.mem_append_left _ hv)
    obtain ⟨ms, rfl⟩ := exists_map_node fun w hw =>
      hnodes w (List.mem_append_right _ (List.mem_cons_of_mem v hw))
    obtain ⟨k, old, hparent⟩ := Shape.exists_of_isBranch hf.isBranch
    obtain ⟨outer, houter⟩ := ih hstray.2 hparent.symm
    subst hv
    have hlevel : ns.map Value.node ++ .node n :: ms.map Value.node
        = (Level.row ⟨k, ns.reverse, ms⟩ n).map Value.node := by
      simp [Level.row]
    refine ⟨⟨k, ns.reverse, ms⟩ :: outer, .inside ⟨?_, ?_, hparent, ?_⟩
      houter⟩
    · rw [hrow, hlevel]
    · rw [hindex, List.length_map, List.length_reverse]
    · intro hclean
      have hold := hf.eq_of_unchanged hclean
      rw [hsiblings, hlevel, hparent] at hold
      exact (List.map_injective_iff.mpr (fun _ _ => Value.node.inj)
        hold).symm

/-- **A cursor that stands for a tree stands somewhere in it.** -/
theorem Enclosed.stands {c : Cursor Value} (h : c.IsEnclosed .forms)
    {T : Value} (hT : c.root .forms = .ok T) : c.Stands := by
  have hstray : ¬ ∃ f ∈ c.path, f.HasStray := by
    rw [← h.root_failsExactly.iff]
    rintro ⟨e, he⟩
    cases hT.symm.trans he
  obtain ⟨v, path⟩ := c
  cases h with
  | root => exact isAt_or_isBare_atRoot v
  | @inside f path _ hf hpath =>
    obtain ⟨ls, rs, hrow, -⟩ := hf.split
    have hnode : v.isNode = true := by
      refine Frame.isNode_of_not_hasStray
        (fun hf => hstray ⟨f, List.mem_cons_self, hf⟩) v ?_
      rw [Frame.Encloses.siblings_eq hrow]
      exact List.mem_append_right ls List.mem_cons_self
    cases v with
    | node n =>
      obtain ⟨levels, hfollows⟩ :=
        Enclosed.exists_follows (.inside hf hpath) hstray
      exact .inl ⟨⟨n, levels⟩, rfl, hfollows⟩
    | _ => cases hnode

/-! ## Moving is no edit -/

section Root

variable {τ ε : Type} {S : Shape τ ε}

/-- Where going up fails, so does putting the tree together. -/
theorem root_of_up_eq_error {c : Cursor τ} {e : ε}
    (h : c.up S = .error e) : c.root S = .error e := by
  rw [root]
  split
  · next h' => rw [h] at h'; cases h'; rfl
  · next h' => rw [h] at h'; cases h'
  · next h' => rw [h] at h'; cases h'

/-- The place in the row makes no difference to the tree. -/
theorem root_atIndex (t u : τ) (f : Frame τ) (outer : List (Frame τ))
    (i : Int) :
    (Cursor.mk u (f.atIndex i :: outer)).root S
      = (Cursor.mk t (f :: outer)).root S := by
  have hup : (Cursor.mk u (f.atIndex i :: outer)).up S
      = (Cursor.mk t (f :: outer)).up S := rfl
  cases ho : (Cursor.mk t (f :: outer)).up S with
  | error e =>
    rw [root_of_up_eq_error ho, root_of_up_eq_error (hup.trans ho)]
  | ok o =>
    cases o with
    | some p => rw [root_of_up ho, root_of_up (hup.trans ho)]
    | none =>
      unfold up at ho
      simp only at ho
      split at ho
      · obtain ⟨t, -, ht⟩ := Attempt.exists_of_map_eq_ok ho
        cases ht
      · cases ho

/-- **No plain step changes the tree** that the cursor stands for, nor the
failure to put it together. -/
theorem keptByParts_root (S : Shape τ ε) (r : Except ε τ) :
    KeptByParts S fun c => c.root S = r where
  down {c d} hc hd := by
    have hup : d.up S = .ok (some c) := by
      unfold down at hd
      split at hd
      · cases hd
        rfl
      · cases hd
    exact (root_of_up hup).trans hc
  downLast {c d} hc hd := by
    have hup : d.up S = .ok (some c) := by
      unfold downLast at hd
      split at hd
      · cases hd
      · obtain ⟨t, -, rfl⟩ := Option.map_eq_some_iff.mp hd
        rfl
    exact (root_of_up hup).trans hc
  up hc hd := (root_of_up hd).symm.trans hc
  toSibling {c d i} hc hd := by
    obtain ⟨t, _ | ⟨f, outer⟩⟩ := c
    · cases hd
    · unfold toSibling at hd
      simp only at hd
      split at hd
      · cases hd
      · cases hd
        exact (root_atIndex t _ f outer i).trans hc

end Root

end Cursor

namespace Session

/-- A repeated action visits the sessions at what its cursors visit. -/
theorem exhausts_perform {s : Session} (a : Action) {c : Cursor Value}
    {cs : List (Cursor Value)}
    (h : Exhausts (fun d => (s.goTo d).outcome a) c cs) :
    Exhausts (fun t => (t.perform a).result) (s.goTo c)
      (cs.map s.goTo) := by
  induction h with
  | stop h =>
    refine .stop ?_
    show Except.map _ ((s.goTo _).outcome a) = _
    rw [h]
    rfl
  | go h _ ih => exact .go (perform_result_eq_some.mpr ⟨_, h, rfl⟩) ih

/-- **A session has moved to a position** of a tree. -/
def VisitsFrom (s : Session) (T : Value) (q : List Nat) (t : Session) :
    Prop :=
  t = s.goTo t.cursor ∧ s.Visits T t.cursor q

/-- What a repeated action visits in a row, place by place. -/
theorem exists_exhausts_perform {s : Session} (a : Action)
    {f : Frame Value} {outer : List (Frame Value)} {js : List Nat}
    (h : ∃ cs, Exhausts (fun d => (s.goTo d).outcome a) s.cursor
        (s.cursor :: cs)
      ∧ List.Forall₂ (Cursor.SitsAt f outer) js cs) :
    ∃ ts, Exhausts (fun t => (t.perform a).result) s (s :: ts)
      ∧ List.Forall₂ (s.SitsAt f outer) js ts := by
  obtain ⟨cs, hcs, hall⟩ := h
  refine ⟨cs.map s.goTo, exhausts_perform a hcs, ?_⟩
  rw [List.forall₂_map_right_iff]
  exact hall.imp fun _ _ => sitsAt_goTo

/-- A search through the document of a session whose tree can be put
together. -/
theorem exists_landsOn_search {policy : Policy} {c : Cursor Value}
    (h : c.IsEnclosed .forms) {T : Value} (hT : c.root .forms = .ok T) :
    ∃ p, Visits ⟨.forms, policy, c⟩ T c p
      ∧ ∀ w : Wanted, LandsOn (· < ·) (VisitsFrom ⟨.forms, policy, c⟩ T)
        (fun q => (q = p
            ∨ T.isSignificantAt policy.config q = true ∧ p < q)
          ∧ T.HoldsAt w q)
        (perform ⟨.forms, policy, c⟩
          (w.action (.significant .next))).result := by
  rcases h.stands hT with ⟨z, hz⟩ | hbare
  · obtain rfl : .node z.whole = T := by
      injection hz.root_eq.symm.trans hT
    refine ⟨z.index, visits_of_isAt hz rfl, fun w => ?_⟩
    have hfind : LandsOn (· < ·) (Cursor.IsAtIn z.whole) _
        (c.find .forms policy.config w.test (.significant .next)) :=
      Cursor.IsAtIn.landsOn_find ⟨z, hz, rfl, rfl⟩ _ w
    rw [← outcome_search ⟨.forms, policy, c⟩] at hfind
    refine hfind.map ?_
    rintro q d ⟨y, hy, hwhole, rfl⟩
    exact ⟨rfl, hwhole ▸ visits_of_isAt hy rfl⟩
  · obtain rfl : c.focus = T := by
      injection hbare.root_eq.symm.trans hT
    refine ⟨[], visits_of_isBare hbare, fun w => ?_⟩
    have hfind := hbare.landsOn_find policy.config w fun _ _ => False
    rw [← outcome_search ⟨.forms, policy, c⟩] at hfind
    exact hfind.map False.elim

/-- **Nothing that only moves changes the tree**, of whatever shape. -/
theorem root_eq_of_onlyMoves {s t : Session} {a : Action}
    (ha : a.onlyMoves = true) (ht : (s.perform a).result = .ok (some t)) :
    t.root = s.root := by
  obtain ⟨d, hd, rfl⟩ := perform_result_eq_some.mp ht
  have hkept := within_outcome_of_onlyMoves
    (Cursor.keptByParts_root s.shape s.root).within_step rfl ha
  rw [hd] at hkept
  exact hkept

/-- **A search finds the first match and misses none.** Wherever a session
has got to, by whatever actions, and whatever is wanted: a search to the
right lands on the first place of the row that holds it, among the place
itself and the significant ones further on. The searches for the next and
the previous sibling of a kind, repeated, come to all significant siblings
of that kind on their side, the nearest first, and then lead nowhere. If
the tree can be put together, a search along `next` lands on the first
position that holds what is wanted, in the order of the document. And
nothing that only moves changes the tree. -/
theorem search_landsOn_first {Allowed : Session → Action → Prop}
    {policy : Policy} {root : Value} {s : Session}
    (h : (Session.start .forms policy root).Reaches Allowed s) :
    (∀ f outer, s.cursor.path = f :: outer →
      (∀ w : Wanted, LandsOn (· < ·) (s.SitsAt f outer)
        (fun j => (j = f.index
            ∨ f.IsSignificantAt policy.config j ∧ f.index < j)
          ∧ f.Holds w j)
        (s.perform (w.action (.significant .right))).result)
      ∧ ∀ k,
        (∃ ts, Exhausts (fun t => (t.perform (.findNext k)).result) s
            (s :: ts)
          ∧ List.Forall₂ (s.SitsAt f outer)
            ((f.placesOf policy.config k).filter fun j : Nat =>
              f.index < j) ts)
        ∧ ∃ ts, Exhausts (fun t => (t.perform (.findPrevious k)).result) s
            (s :: ts)
          ∧ List.Forall₂ (s.SitsAt f outer)
            ((f.placesOf policy.config k).filter fun j : Nat =>
              j < f.index).reverse ts)
    ∧ (∀ T, s.root = .ok T → ∃ p, s.Visits T s.cursor p
      ∧ ∀ w : Wanted, LandsOn (· < ·) (s.VisitsFrom T)
        (fun q => (q = p
            ∨ T.isSignificantAt policy.config q = true ∧ p < q)
          ∧ T.HoldsAt w q)
        (s.perform (w.action (.significant .next))).result)
    ∧ ∀ a t, a.onlyMoves = true →
      (s.perform a).result = .ok (some t) → t.root = s.root := by
  have hshape : s.shape = .forms := h.shape_eq
  have hpolicy : s.policy = policy := h.policy_eq
  have henclosed := h.isEnclosed
  obtain ⟨shape, policy', c⟩ := s
  obtain rfl : shape = .forms := hshape
  obtain rfl : policy' = policy := hpolicy
  refine ⟨fun f outer hpath => ?_,
    fun T hT => exists_landsOn_search henclosed hT,
    fun a t ha ht => root_eq_of_onlyMoves ha ht⟩
  obtain ⟨i, hi, hsits⟩ := henclosed.exists_sitsAt hpath
  simp only [hi, Int.ofNat_lt, Int.ofNat_inj]
  refine ⟨fun w => landsOn_perform ?_, fun k => ⟨?_, ?_⟩⟩
  · rw [outcome_search]
    exact hsits.landsOn_find w
  · exact exists_exhausts_perform (.findNext k)
      (hsits.exhausts_findNext .forms policy'.config k)
  · exact exists_exhausts_perform (.findPrevious k)
      (hsits.exhausts_findPrevious .forms policy'.config k)

/-- In `( [2] 1;one⏎2)`, where the white space before the vector has just
been put in, the search for a `2` goes past the vector in the row and into
it in the document; and two tokens are to the right. -/
theorem search_landsOn_first_edited :
    ∃ s t u : Session,
      (Session.start .forms .standard (.node (.branch .list
        [.branch .vector [.token (.int 2)], .whitespace " ",
          .token (.int 1), .comment ";one",
          .token (.int 2)]))).Reaches (fun _ _ => True) s
      ∧ s.cursor.path.map (fun f => (f.index, f.changed)) = [(1, true)]
      ∧ (s.perform (.findLiteral (.int 2) (.significant .right))).result
        = .ok (some t)
      ∧ t.cursor.path.map Frame.index = [5]
      ∧ (s.perform (.findLiteral (.int 2) (.significant .next))).result
        = .ok (some u)
      ∧ u.cursor.path.map Frame.index = [0, 1]
      ∧ t.root = s.root ∧ u.root = s.root
      ∧ ∃ f ts, s.cursor.path = [f]
        ∧ Exhausts (fun t => (t.perform (.findNext .token)).result) s
          (s :: ts)
        ∧ List.Forall₂ (s.SitsAt f []) [3, 5] ts := by
  have hrun : (Session.start .forms .standard (.node (.branch .list
      [.branch .vector [.token (.int 2)], .whitespace " ",
        .token (.int 1), .comment ";one",
        .token (.int 2)]))).Reaches (fun _ _ => True) _ :=
    .step (.step .here (a := .move (.plain .down)) trivial rfl)
      (a := .insert .left (.node (.whitespace " "))) trivial rfl
  obtain ⟨s, f, hs, hpath, hplace, hplaces, hright, hnext⟩ :
      ∃ (s : Session) (f : Frame Value), Reaches (fun _ _ => True) _ s
      ∧ s.cursor.path = [f]
      ∧ (f.index, f.changed) = (1, true)
      ∧ (f.placesOf Policy.standard.config .token).filter
          (fun j : Nat => f.index < j) = [3, 5]
      ∧ (s.perform (.findLiteral (.int 2) (.significant .right))).result.map
        (Option.map fun t => t.cursor.path.map Frame.index)
          = .ok (some [5])
      ∧ (s.perform (.findLiteral (.int 2) (.significant .next))).result.map
        (Option.map fun t => t.cursor.path.map Frame.index)
          = .ok (some [0, 1]) :=
    ⟨_, _, hrun, rfl, rfl, by decide, rfl, rfl⟩
  obtain ⟨o, ho, hmap⟩ := Attempt.exists_of_map_eq_ok hright
  obtain ⟨t, rfl, hindex⟩ := Option.map_eq_some_iff.mp hmap
  obtain ⟨o', ho', hmap'⟩ := Attempt.exists_of_map_eq_ok hnext
  obtain ⟨u, rfl, hindex'⟩ := Option.map_eq_some_iff.mp hmap'
  obtain ⟨hrow, -, hroot⟩ := search_landsOn_first hs
  obtain ⟨ts, hts, hall⟩ := ((hrow f [] hpath).2 .token).1
  rw [hplaces] at hall
  refine ⟨s, t, u, hs, ?_, ho, hindex, ho', hindex', hroot _ _ rfl ho,
    hroot _ _ rfl ho', f, ts, hpath, hts, hall⟩
  rw [hpath, List.map_singleton, hplace]

end Session

end FormTree
