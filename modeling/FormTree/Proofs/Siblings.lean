import FormTree.Proofs.Routes
import FormTree.Proofs.Strays

/-!
# Significant siblings

A move to a significant node among the siblings takes one plain step and
then goes on over formatting, to the right or to the left. Where it should
end can be said without the steps: at the nearest place of the row on that
side, or the first or the last of the row, that holds something
significant; and nowhere if there is none.

A row is a route in both directions (`Cursor.rightward`,
`Cursor.leftward`), and its places are the cursors with the same frames of
which only the innermost index differs (`Cursor.SitsAt`). What the row
holds does not matter: the moves are the same where strays stand among the
nodes, and whether the frame is marked as changed. For going up there is
nothing to pass over, since a parent is a branch and branches are
significant.
-/

namespace FormTree

/-- **Something significant stands at a place of the row.** -/
def Frame.IsSignificantAt (cfg : Config) (f : Frame Value) (j : Nat) :
    Prop :=
  ∃ v, f.siblings[j]? = some v ∧ cfg.isInsignificant v = false

theorem Frame.IsSignificantAt.lt_length {cfg : Config} {f : Frame Value}
    {j : Nat} (h : f.IsSignificantAt cfg j) : j < f.siblings.length := by
  obtain ⟨v, hv, -⟩ := h
  exact (List.getElem?_eq_some_iff.mp hv).1

/-- What has children is a branch. -/
theorem Shape.isBranch_of_children {v t : Value} {ts : List Value}
    (h : Shape.forms.children v = t :: ts) :
    Shape.forms.isBranch v = true := by
  cases v with
  | node n =>
    cases n with
    | branch k cs => rfl
    | _ => cases h
  | _ => cases h

namespace Cursor

section Rows

variable {τ ε : Type} {S : Shape τ ε} {f : Frame τ}
  {outer : List (Frame τ)} {i j : Nat} {c d : Cursor τ}

/-- **A cursor sits at a place of a row**: the focus is what stands there,
and the frames are those given, the innermost one at that place. -/
def SitsAt (f : Frame τ) (outer : List (Frame τ)) (j : Nat)
    (c : Cursor τ) : Prop :=
  f.siblings[j]? = some c.focus ∧ c.path = f.atIndex j :: outer

namespace SitsAt

theorem lt_length (h : SitsAt f outer j c) : j < f.siblings.length :=
  (List.getElem?_eq_some_iff.mp h.1).1

/-- There is one cursor at a place. -/
theorem unique (h : SitsAt f outer j c) (h' : SitsAt f outer j d) :
    c = d := by
  obtain ⟨focus, path⟩ := c
  obtain ⟨focus', path'⟩ := d
  obtain rfl : focus = focus' := Option.some_inj.mp (h.1.symm.trans h'.1)
  obtain rfl : path = path' := h.2.trans h'.2.symm
  rfl

/-- What stands at the place is the focus. -/
theorem focus_iff (h : SitsAt f outer j c) (P : τ → Prop) :
    P c.focus ↔ ∃ t, f.siblings[j]? = some t ∧ P t := by
  rw [h.1]
  simp only [Option.some_inj, exists_eq_left']

/-- From one place of the row there is a step to any other. -/
theorem exists_toSibling (h : SitsAt f outer i c)
    (hj : j < f.siblings.length) :
    ∃ d, c.toSibling S j = .ok (some d) ∧ SitsAt f outer j d := by
  have hs : (f.atIndex i).sibling? j = some f.siblings[j] := by
    rw [Frame.sibling?_natCast]
    exact List.getElem?_eq_getElem hj
  rw [toSibling, h.2]
  simp only [hs]
  exact ⟨_, rfl, List.getElem?_eq_getElem hj, rfl⟩

/-- A cursor can go through its row. -/
theorem length_le_reach (h : SitsAt f outer j c) :
    f.siblings.length ≤ c.reach S := by
  have hlength : ∀ ts : List τ, ts.length ≤ total S.weight ts := by
    intro ts
    induction ts with
    | nil => exact Nat.zero_le _
    | cons t ts ih =>
      have := S.weight_pos t
      rw [List.length_cons, total]
      omega
  have hrow := hlength f.siblings
  rw [reach, h.2]
  calc f.siblings.length
      ≤ S.weight c.focus + total (frameReach S) (f.atIndex j :: outer) := by
        rw [total, frameReach]
        show _ ≤ _ + (_ + 2 * total S.weight f.siblings + _)
        omega
    _ ≤ _ := Nat.le_mul_of_pos_left _ (Nat.succ_pos _)

end SitsAt

/-- **The row to the right.** -/
def rightward (S : Shape τ ε) (f : Frame τ) (outer : List (Frame τ)) :
    Route S Nat where
  At := SitsAt f outer
  before := (· < ·)
  remaining j := f.siblings.length - j
  before_trans := Nat.lt_trans
  remaining_lt hc hij := by
    have := hc.lt_length
    omega
  remaining_le_reach hc :=
    Nat.le_trans (Nat.sub_le _ _) hc.length_le_reach

/-- **The row to the left.** -/
def leftward (S : Shape τ ε) (f : Frame τ) (outer : List (Frame τ)) :
    Route S Nat where
  At := SitsAt f outer
  before := (· > ·)
  remaining j := j
  before_trans hij hjk := Nat.lt_trans hjk hij
  remaining_lt _ hij := hij
  remaining_le_reach hc :=
    Nat.le_trans (Nat.le_of_lt hc.lt_length) hc.length_le_reach

/-- Steps to the right keep to the row. -/
theorem isKeptBy_right (S : Shape τ ε) (f : Frame τ)
    (outer : List (Frame τ)) :
    (rightward S f outer).IsKeptBy (· < f.siblings.length) (right S) := by
  intro i c hc
  have hi : (f.atIndex i).index + 1 = ((i + 1 : Nat) : Int) := rfl
  rw [right, hc.2]
  simp only [hi]
  by_cases hend : f.siblings.length ≤ i + 1
  · rw [if_pos (by exact_mod_cast hend)]
    exact .inr ⟨fun j hj => absurd (Nat.lt_of_lt_of_le hj.1 hend)
      (Nat.not_lt.mpr hj.2), rfl⟩
  · rw [if_neg (by exact_mod_cast hend)]
    obtain ⟨d, hd, hsits⟩ := hc.exists_toSibling (S := S)
      (Nat.not_le.mp hend)
    refine .inl ⟨i + 1, d, ⟨⟨Nat.not_le.mp hend, Nat.lt_succ_self i⟩,
      fun j hj => ?_⟩, hsits, hd⟩
    exact (Nat.eq_or_lt_of_le hj.2).imp_left Eq.symm

/-- Steps to the left keep to the row. -/
theorem isKeptBy_left (S : Shape τ ε) (f : Frame τ)
    (outer : List (Frame τ)) :
    (leftward S f outer).IsKeptBy (· < f.siblings.length) (left S) := by
  intro i c hc
  rw [left, hc.2]
  cases i with
  | zero =>
    exact .inr ⟨fun j hj => absurd hj.2 (Nat.not_lt_zero j), rfl⟩
  | succ i =>
    have hne : (f.atIndex ((i + 1 : Nat) : Int)).index ≠ 0 := by
      show ((i + 1 : Nat) : Int) ≠ 0
      omega
    have hi : (f.atIndex ((i + 1 : Nat) : Int)).index - 1 = (i : Int) := by
      show ((i + 1 : Nat) : Int) - 1 = i
      omega
    obtain ⟨d, hd, hsits⟩ := hc.exists_toSibling (S := S)
      (Nat.lt_of_succ_lt hc.lt_length)
    simp only [if_neg hne, hi]
    refine .inl ⟨i, d, ⟨⟨hsits.lt_length, Nat.lt_succ_self i⟩,
      fun j hj => ?_⟩, hsits, hd⟩
    exact Nat.eq_or_lt_of_le (Nat.le_of_lt_succ hj.2)

theorem SitsAt.exists_leftmost (h : SitsAt f outer i c) :
    ∃ d, c.leftmost S = .ok (some d) ∧ SitsAt f outer 0 d := by
  rw [leftmost, h.2]
  by_cases hi : i = 0
  · subst hi
    exact ⟨c, rfl, h⟩
  · have hne : (f.atIndex (i : Int)).index ≠ 0 := by
      show (i : Int) ≠ 0
      omega
    simp only [if_neg hne]
    exact h.exists_toSibling (Nat.lt_of_le_of_lt (Nat.zero_le i) h.lt_length)

theorem SitsAt.exists_rightmost (h : SitsAt f outer i c) :
    ∃ d, c.rightmost S = .ok (some d)
      ∧ SitsAt f outer (f.siblings.length - 1) d := by
  have hlt := h.lt_length
  have hlast : ((f.atIndex (i : Int)).siblings.length : Int) - 1
      = ((f.siblings.length - 1 : Nat) : Int) := by
    show (f.siblings.length : Int) - 1 = _
    omega
  rw [rightmost, h.2]
  simp only [hlast]
  by_cases hi : i = f.siblings.length - 1
  · rw [← hi]
    exact ⟨c, if_pos rfl, h⟩
  · have hne : (f.atIndex (i : Int)).index
        ≠ ((f.siblings.length - 1 : Nat) : Int) := by
      show (i : Int) ≠ _
      omega
    rw [if_neg hne]
    exact h.exists_toSibling (by omega)

/-- Where the frames enclose the focus, the cursor sits at the place of
its innermost frame. -/
theorem Enclosed.exists_sitsAt (h : c.IsEnclosed S)
    (hpath : c.path = f :: outer) :
    ∃ i : Nat, f.index = i ∧ SitsAt f outer i c := by
  obtain ⟨focus, path⟩ := c
  obtain rfl : path = f :: outer := hpath
  cases h with
  | inside hf _ =>
    obtain ⟨ls, rs, hrow, hindex⟩ := hf.split
    refine ⟨ls.length, hindex, ?_, ?_⟩
    · rw [Frame.Encloses.siblings_eq hrow]
      simp
    · rw [← hindex]
      rfl

end Rows

/-! ## Moves to significant siblings -/

section Significant

variable {ε : Type} {S : Shape Value ε} {cfg : Config} {f : Frame Value}
  {outer : List (Frame Value)} {i j : Nat} {c d : Cursor Value}

theorem SitsAt.isInsignificant_iff (h : SitsAt f outer j c) :
    c.isInsignificant cfg = false ↔ f.IsSignificantAt cfg j :=
  h.focus_iff fun v => cfg.isInsignificant v = false

/-- **Steps to significant siblings keep to the row**, with the
significant places open. -/
theorem isKeptBy_significant_right (S : Shape Value ε) (cfg : Config)
    (f : Frame Value) (outer : List (Frame Value)) :
    (rightward S f outer).IsKeptBy (f.IsSignificantAt cfg)
      (Direction.right.significant S cfg) :=
  ((isKeptBy_right S f outer).andThen_skip
    SitsAt.isInsignificant_iff).congr fun _ =>
      and_iff_right_of_imp Frame.IsSignificantAt.lt_length

theorem isKeptBy_significant_left (S : Shape Value ε) (cfg : Config)
    (f : Frame Value) (outer : List (Frame Value)) :
    (leftward S f outer).IsKeptBy (f.IsSignificantAt cfg)
      (Direction.left.significant S cfg) :=
  ((isKeptBy_left S f outer).andThen_skip
    SitsAt.isInsignificant_iff).congr fun _ =>
      and_iff_right_of_imp Frame.IsSignificantAt.lt_length

/-- At the root there are no siblings to move to. -/
theorem significant_eq_none (hpath : c.path = []) {d : Direction}
    (hd : d ∈ [Direction.right, .left, .leftmost, .rightmost]) :
    d.significant S cfg c = .ok none := by
  obtain ⟨focus, path⟩ := c
  obtain rfl : path = [] := hpath
  simp only [List.mem_cons, List.not_mem_nil, or_false] at hd
  rcases hd with rfl | rfl | rfl | rfl <;> rfl

namespace SitsAt

/-- From the first place of a row everything is to the right. -/
theorem landsOn_toSignificant_right (h : SitsAt f outer 0 c) :
    LandsOn (· < ·) (SitsAt f outer) (f.IsSignificantAt cfg)
      (c.toSignificant S cfg .right) := by
  refine ((isKeptBy_right S f outer).skip isInsignificant_iff h).congr
    fun j => and_iff_right_of_imp fun hj => ?_
  exact j.eq_zero_or_pos.imp_right fun hpos => ⟨hj.lt_length, hpos⟩

/-- **The first significant sibling.** -/
theorem landsOn_leftmost (h : SitsAt f outer i c) :
    LandsOn (· < ·) (SitsAt f outer) (f.IsSignificantAt cfg)
      (Direction.leftmost.significant S cfg c) := by
  obtain ⟨d, hd, hsits⟩ := h.exists_leftmost (S := S)
  show LandsOn _ _ _ ((c.leftmost S).andThen _)
  rw [hd]
  exact hsits.landsOn_toSignificant_right

/-- **The last significant sibling.** From the last place of a row
everything is to the left. -/
theorem landsOn_rightmost (h : SitsAt f outer i c) :
    LandsOn (· > ·) (SitsAt f outer) (f.IsSignificantAt cfg)
      (Direction.rightmost.significant S cfg c) := by
  obtain ⟨d, hd, hsits⟩ := h.exists_rightmost (S := S)
  show LandsOn _ _ _ ((c.rightmost S).andThen _)
  rw [hd]
  refine ((isKeptBy_left S f outer).skip isInsignificant_iff hsits).congr
    fun j => and_iff_right_of_imp fun hj => ?_
  exact (Nat.eq_or_lt_of_le (Nat.le_sub_one_of_lt hj.lt_length)).imp_right
    fun hlt => ⟨hj.lt_length, hlt⟩

end SitsAt

/-! ## Back and forth -/

/-- **A significant place is found again** to the left of where the move
to the right has led. -/
theorem Enclosed.left_of_right (h : c.IsEnclosed S)
    (hc : c.isInsignificant cfg = false)
    (hd : Direction.right.significant S cfg c = .ok (some d)) :
    Direction.left.significant S cfg d = .ok (some c) := by
  cases hpath : c.path with
  | nil => cases hd.symm.trans (significant_eq_none hpath (by simp))
  | cons f outer =>
    obtain ⟨i, -, hsits⟩ := h.exists_sitsAt hpath
    exact (isKeptBy_significant_right S cfg f outer i c hsits).eq_of_back
      hsits (hsits.isInsignificant_iff.mp hc) hd
      (fun j hj => isKeptBy_significant_left S cfg f outer j d hj)
      Nat.lt_trichotomy (fun _ _ => Nat.lt_asymm) fun _ _ _ => SitsAt.unique

/-- And to the right of where the move to the left has led. -/
theorem Enclosed.right_of_left (h : c.IsEnclosed S)
    (hc : c.isInsignificant cfg = false)
    (hd : Direction.left.significant S cfg c = .ok (some d)) :
    Direction.right.significant S cfg d = .ok (some c) := by
  have htotal : ∀ i j : Nat, i > j ∨ i = j ∨ j > i := fun i j =>
    (Nat.lt_trichotomy j i).imp_right fun h => h.imp_left Eq.symm
  cases hpath : c.path with
  | nil => cases hd.symm.trans (significant_eq_none hpath (by simp))
  | cons f outer =>
    obtain ⟨i, -, hsits⟩ := h.exists_sitsAt hpath
    exact (isKeptBy_significant_left S cfg f outer i c hsits).eq_of_back
      hsits (hsits.isInsignificant_iff.mp hc) hd
      (fun j hj => isKeptBy_significant_right S cfg f outer j d hj)
      htotal (fun _ _ => Nat.lt_asymm) fun _ _ _ => SitsAt.unique

end Significant

/-! ## Moves between levels -/

/-- The frame that going down puts around the children of the focus. -/
def childFrame {τ ε : Type} (S : Shape τ ε) (c : Cursor τ) : Frame τ :=
  ⟨.ofList (S.children c.focus), 0, c.focus, false⟩

/-- **The first significant child.** -/
theorem landsOn_down (cfg : Config) (c : Cursor Value) :
    LandsOn (· < ·) (SitsAt (c.childFrame .forms) c.path)
      ((c.childFrame .forms).IsSignificantAt cfg)
      (Direction.down.significant .forms cfg c) := by
  show LandsOn _ _ _ (Attempt.andThen (.ok (c.down .forms)) _)
  cases hts : Shape.forms.children c.focus with
  | nil =>
    have hdown : c.down .forms = none := by
      rw [down, children?, hts]
      cases Shape.forms.isBranch c.focus <;> rfl
    rw [hdown]
    refine .inr ⟨fun j hj => ?_, rfl⟩
    have hlt : j < (Shape.forms.children c.focus).length := hj.lt_length
    rw [hts] at hlt
    exact absurd hlt (Nat.not_lt_zero j)
  | cons t ts =>
    have hbranch := Shape.isBranch_of_children hts
    have hdown : c.down .forms
        = some ⟨t, c.childFrame .forms :: c.path⟩ := by
      rw [down, children?, hbranch, childFrame, hts]
      rfl
    rw [hdown]
    refine SitsAt.landsOn_toSignificant_right ⟨?_, rfl⟩
    show (Shape.forms.children c.focus)[0]? = some t
    rw [hts]
    rfl

end Cursor

/-- What is made as a branch is one. -/
theorem Shape.isBranch_of_make {v w : Value} {row : Row Value}
    (h : Shape.forms.make v row = .ok w) :
    Shape.forms.isBranch w = true := by
  obtain ⟨n, hn, rfl⟩ := Attempt.exists_of_map_eq_ok h
  match v, hn with
  | .node (.branch k cs), hn =>
    change liftStructural (Form.buildComposite k row) = .ok n at hn
    unfold Form.buildComposite at hn
    split at hn
    · cases hn
    · cases hnodes : nodesOf k row.items with
      | error e =>
        rw [hnodes] at hn
        cases hn
      | ok ns =>
        rw [hnodes] at hn
        cases hn
        rfl

/-- A branch is significant. -/
theorem Config.isInsignificant_of_isBranch (cfg : Config) {v : Value}
    (h : Shape.forms.isBranch v = true) : cfg.isInsignificant v = false := by
  obtain ⟨k, cs, rfl⟩ := Shape.exists_of_isBranch h
  rfl

namespace Cursor

/-- A place that is not to be skipped is where the skipping ends. -/
theorem skip_of_not {τ ε : Type} {S : Shape τ ε} {move : Mover τ ε}
    {toSkip : Cursor τ → Bool} {c : Cursor τ} (h : toSkip c = false) :
    c.skip S move toSkip = .ok (some c) := by
  rw [skip]
  cases c.reach S with
  | zero => rw [skipOf, h]; rfl
  | succ steps => rw [skipOf, h]; rfl

/-- The parent of anything is a branch. -/
theorem Enclosed.isBranch_of_up {c p : Cursor Value}
    (h : c.IsEnclosed .forms) (hp : c.up .forms = .ok (some p)) :
    Shape.forms.isBranch p.focus = true := by
  obtain ⟨focus, path⟩ := c
  cases h with
  | root => cases hp
  | @inside f path _ hf _ =>
    unfold Cursor.up at hp
    simp only at hp
    split at hp
    · obtain ⟨t, ht, hp⟩ := Attempt.exists_of_map_eq_ok hp
      cases hp
      exact Shape.isBranch_of_make ht
    · cases hp
      exact hf.isBranch

/-- **Going up passes over nothing.** -/
theorem Enclosed.significant_up_eq {c : Cursor Value}
    (h : c.IsEnclosed .forms) (cfg : Config) :
    Direction.up.significant .forms cfg c = c.up .forms := by
  show (c.up .forms).andThen _ = _
  cases hp : c.up .forms with
  | error e => rfl
  | ok o =>
    cases o with
    | none => rfl
    | some p =>
      exact skip_of_not (cfg.isInsignificant_of_isBranch (h.isBranch_of_up hp))

end Cursor

namespace Session

/-- **A session has moved to a place of a row**: its focus is what stands
there, and nothing else has changed but the index of the innermost
frame. -/
def SitsAt (s : Session) (f : Frame Value) (outer : List (Frame Value))
    (j : Nat) (t : Session) : Prop :=
  f.siblings[j]? = some t.cursor.focus
    ∧ t = s.goTo ⟨t.cursor.focus, f.atIndex j :: outer⟩

theorem sitsAt_goTo {s : Session} {f : Frame Value}
    {outer : List (Frame Value)} {j : Nat} {c : Cursor Value}
    (h : c.SitsAt f outer j) : s.SitsAt f outer j (s.goTo c) := by
  refine ⟨h.1, ?_⟩
  show s.goTo c = s.goTo ⟨c.focus, _⟩
  rw [← h.2]

/-- Where an action of a cursor lands is where the session lands. -/
theorem landsOn_perform {s : Session} {f : Frame Value}
    {outer : List (Frame Value)} {before : Nat → Nat → Prop}
    {P : Nat → Prop} {a : Action}
    (h : LandsOn before (Cursor.SitsAt f outer) P (s.outcome a)) :
    LandsOn before (s.SitsAt f outer) P (s.perform a).result :=
  h.map sitsAt_goTo

/-- **Moves among siblings and levels land on the nearest significant
node.** Wherever a session has got to, by whatever actions: in the row of
the innermost frame the moves to the right and to the left land on the
nearest significant place on that side, and the moves to the ends on the
first and the last one; only the index changes. At the root they lead
nowhere. Going down lands on the first significant child, and going up is
the plain step. So a move to the right of a significant node and one to
the left lead back to the same session, in either order. -/
theorem landsOn_nearest_significant {Allowed : Session → Action → Prop}
    {policy : Policy} {root : Value} {s : Session}
    (h : (Session.start .forms policy root).Reaches Allowed s) :
    (∀ f outer, s.cursor.path = f :: outer →
      LandsOn (· < ·) (s.SitsAt f outer)
        (fun j => f.IsSignificantAt policy.config j ∧ f.index < j)
        (s.perform (.move (.significant .right))).result
      ∧ LandsOn (· > ·) (s.SitsAt f outer)
        (fun j => f.IsSignificantAt policy.config j ∧ j < f.index)
        (s.perform (.move (.significant .left))).result
      ∧ LandsOn (· < ·) (s.SitsAt f outer)
        (f.IsSignificantAt policy.config)
        (s.perform (.move (.significant .leftmost))).result
      ∧ LandsOn (· > ·) (s.SitsAt f outer)
        (f.IsSignificantAt policy.config)
        (s.perform (.move (.significant .rightmost))).result)
    ∧ (s.cursor.path = [] →
      ∀ d ∈ [Direction.right, .left, .leftmost, .rightmost],
        (s.perform (.move (.significant d))).result = .ok none)
    ∧ LandsOn (· < ·) (s.SitsAt (s.cursor.childFrame .forms) s.cursor.path)
      ((s.cursor.childFrame .forms).IsSignificantAt policy.config)
      (s.perform (.move (.significant .down))).result
    ∧ (s.perform (.move (.significant .up))).result
      = (s.perform (.move (.plain .up))).result
    ∧ (policy.config.isInsignificant s.cursor.focus = false → ∀ t,
      ((s.perform (.move (.significant .right))).result = .ok (some t) →
        (t.perform (.move (.significant .left))).result = .ok (some s))
      ∧ ((s.perform (.move (.significant .left))).result = .ok (some t) →
        (t.perform (.move (.significant .right))).result
          = .ok (some s))) := by
  have hshape : s.shape = .forms := h.shape_eq
  have hpolicy : s.policy = policy := h.policy_eq
  have henclosed := h.isEnclosed
  obtain ⟨shape, policy', c⟩ := s
  obtain rfl : shape = .forms := hshape
  obtain rfl : policy' = policy := hpolicy
  refine ⟨fun f outer hpath => ?_, fun hpath => ?_, ?_, ?_, ?_⟩
  · obtain ⟨i, hi, hsits⟩ := henclosed.exists_sitsAt hpath
    simp only [hi, Int.ofNat_lt]
    exact ⟨landsOn_perform (Cursor.isKeptBy_significant_right .forms _ f
        outer i c hsits),
      landsOn_perform (Cursor.isKeptBy_significant_left .forms _ f outer i
        c hsits),
      landsOn_perform hsits.landsOn_leftmost,
      landsOn_perform hsits.landsOn_rightmost⟩
  · intro d hd
    show Except.map _ (d.significant .forms policy'.config c) = _
    rw [Cursor.significant_eq_none hpath hd]
    rfl
  · exact landsOn_perform (Cursor.landsOn_down policy'.config c)
  · show Except.map _ (Direction.up.significant .forms policy'.config c) = _
    rw [henclosed.significant_up_eq]
    rfl
  · intro hfocus t
    constructor
    · intro ht
      obtain ⟨d, hd, rfl⟩ := perform_result_eq_some.mp ht
      exact perform_result_eq_some.mpr
        ⟨c, henclosed.left_of_right hfocus hd, rfl⟩
    · intro ht
      obtain ⟨d, hd, rfl⟩ := perform_result_eq_some.mp ht
      exact perform_result_eq_some.mpr
        ⟨c, henclosed.right_of_left hfocus hd, rfl⟩

/-- A row that has been edited and holds a stray: white space, a comment
and white space again lie between two tokens, and from the one to the
other and back is one move each. -/
theorem landsOn_nearest_significant_edited :
    ∃ s t : Session,
      (Session.start .forms .standard (.node (.branch .list
        [.token (.int 1), .comment "; one", .whitespace " ",
          .token (.int 2)]))).Reaches (fun _ _ => True) s
      ∧ s.cursor.path.map (fun f => (f.index, f.changed)) = [(1, true)]
      ∧ (s.perform (.move (.significant .right))).result = .ok (some t)
      ∧ t.cursor.path.map Frame.index = [5]
      ∧ (t.perform (.move (.significant .left))).result
        = .ok (some s) := by
  have hrun : (Session.start .forms .standard (.node (.branch .list
      [.token (.int 1), .comment "; one", .whitespace " ",
        .token (.int 2)]))).Reaches (fun _ _ => True) _ :=
    .step (.step (.step .here (a := .move (.plain .down)) trivial rfl)
      (a := .insert .left (.int 7)) trivial rfl)
      (a := .insert .right (.node (.whitespace " "))) trivial rfl
  obtain ⟨s, hs, hplace, hfocus, hright⟩ : ∃ s : Session,
      Reaches (fun _ _ => True) _ s
      ∧ s.cursor.path.map (fun f => (f.index, f.changed)) = [(1, true)]
      ∧ Policy.standard.config.isInsignificant s.cursor.focus = false
      ∧ (s.perform (.move (.significant .right))).result.map
        (Option.map fun t => t.cursor.path.map Frame.index)
          = .ok (some [5]) := ⟨_, hrun, rfl, rfl, rfl⟩
  obtain ⟨o, ho, hmap⟩ := Attempt.exists_of_map_eq_ok hright
  obtain ⟨t, rfl, hindex⟩ := Option.map_eq_some_iff.mp hmap
  exact ⟨s, t, hs, hplace, ho, hindex,
    ((landsOn_nearest_significant hs).2.2.2.2 hfocus t).1 ho⟩

end Session

end FormTree
