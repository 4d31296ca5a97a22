import FormTree.Proofs.Searching
import FormTree.Proofs.Separators

/-!
# Left and right

What can be done to the right of the focus can be done to its left, but
the two are not done alike. An insertion before the focus shifts the index
and one after it does not; a step to the left compares the index with zero
and one to the right compares it with the length of the row; and spacing
is put in by up to three insertions, in an order that depends on the side.

Still the one is the other in a **mirror** (`Cursor.mirror`), which turns
the innermost row round and counts the place from its other end. A move to
the right and one to the left are mirror images since each lands on a
first place of a route, and the mirror takes first places to first places
(`Cursor.landsOn_mirror`); nothing has to be said about how the places in
between are passed over. For insertions the rows are compared
(`Frame.mirror_spliced`), and the spaced ones follow step by step.

The children of a branch have two ends as well. Putting an item after them
is putting it before them where they are in reverse
(`Cursor.map_focus_placeLast`).
-/

namespace FormTree

/-- What is made of a result, and what is made of that. -/
theorem Attempt.map_map {ε α β γ : Type} (a : Attempt ε α) (g : β → γ)
    (f : α → β) :
    Except.map (Option.map g) (Except.map (Option.map f) a)
      = Except.map (Option.map fun x => g (f x)) a := by
  match a with
  | .error e => rfl
  | .ok none => rfl
  | .ok (some x) => rfl

namespace Frame

variable {τ : Type}

/-- **The frame in the mirror**: the row in reverse, and the place counted
from its other end. -/
def mirror (f : Frame τ) : Frame τ :=
  { f with
    row := ⟨f.siblings.reverse, f.row.unordered⟩
    index := f.siblings.length - 1 - f.index }

@[simp] theorem siblings_mirror (f : Frame τ) :
    f.mirror.siblings = f.siblings.reverse := rfl

theorem length_siblings_mirror (f : Frame τ) :
    f.mirror.siblings.length = f.siblings.length :=
  List.length_reverse

/-- A mirror undoes a mirror. -/
@[simp] theorem mirror_mirror (f : Frame τ) : f.mirror.mirror = f := by
  obtain ⟨⟨items, unordered⟩, index, parent, changed⟩ := f
  have hindex : ((items.reverse.length : Nat) : Int) - 1
      - (items.length - 1 - index) = index := by
    rw [List.length_reverse]
    omega
  show Frame.mk ⟨items.reverse.reverse, unordered⟩ _ parent changed = _
  rw [List.reverse_reverse]
  exact congrArg (Frame.mk _ · parent changed) hindex

/-- In the mirror a place holds what the mirrored place holds. -/
theorem getElem?_mirror_eq_some {f : Frame τ} {k : Nat} {t : τ} :
    f.mirror.siblings[k]? = some t ↔ k < f.siblings.length
      ∧ f.siblings[f.siblings.length - 1 - k]? = some t := by
  rw [siblings_mirror]
  by_cases hk : k < f.siblings.length
  · rw [List.getElem?_reverse hk, and_iff_right hk]
  · rw [List.getElem?_eq_none (by simpa using hk)]
    simp [hk]

/-- **The frame with an item between two parts of its row**, the first `a`
siblings and those from place `b` on. -/
def spliced (f : Frame τ) (a b : Nat) (t : τ) (i : Int) : Frame τ :=
  (f.withSiblings (f.siblings.take a ++ t :: f.siblings.drop b)).atIndex i

/-- In the mirror the two parts change places. -/
theorem mirror_spliced {f : Frame τ} {a b : Nat} (ha : a ≤ f.siblings.length)
    (hb : b ≤ f.siblings.length) (t : τ) (i : Int) :
    (f.spliced a b t i).mirror
      = f.mirror.spliced (f.siblings.length - b) (f.siblings.length - a) t
        ((a + (f.siblings.length - b) : Nat) - i) := by
  have hindex : ((f.siblings.take a ++ t :: f.siblings.drop b).length : Int)
      - 1 - i = (a + (f.siblings.length - b) : Nat) - i := by
    rw [List.length_append, List.length_cons, List.length_take,
      List.length_drop, Nat.min_eq_left ha]
    omega
  have hrow : (f.siblings.take a ++ t :: f.siblings.drop b).reverse
      = f.mirror.siblings.take (f.siblings.length - b)
        ++ t :: f.mirror.siblings.drop (f.siblings.length - a) := by
    rw [siblings_mirror, List.take_reverse, List.drop_reverse,
      Nat.sub_sub_self ha, Nat.sub_sub_self hb, List.reverse_append,
      List.reverse_cons, List.append_assoc, List.singleton_append]
  unfold spliced
  rw [← hrow, ← hindex]
  rfl

end Frame

namespace Cursor

section Mirror

variable {τ ε : Type} {S : Shape τ ε} {f : Frame τ}
  {outer : List (Frame τ)} {i : Nat} {c d : Cursor τ}

/-- **The cursor in the mirror**: its innermost frame is. At the root there
is nothing to turn round. -/
def mirror (c : Cursor τ) : Cursor τ :=
  ⟨c.focus, c.path.modifyHead Frame.mirror⟩

@[simp] theorem focus_mirror (c : Cursor τ) : c.mirror.focus = c.focus :=
  rfl

@[simp] theorem mirror_mirror (c : Cursor τ) : c.mirror.mirror = c := by
  obtain ⟨t, _ | ⟨f, outer⟩⟩ := c
  · rfl
  · simp [mirror]

theorem mirror_of_path_nil (h : c.path = []) : c.mirror = c := by
  obtain ⟨t, path⟩ := c
  obtain rfl : path = [] := h
  rfl

/-- **A place in the mirror** is the place counted from the other end. -/
theorem SitsAt.mirror (h : SitsAt f outer i c) :
    SitsAt f.mirror outer (f.siblings.length - 1 - i) c.mirror := by
  have hlt := h.lt_length
  have hback : f.siblings.length - 1 - (f.siblings.length - 1 - i) = i := by
    omega
  refine ⟨Frame.getElem?_mirror_eq_some.mpr ⟨by omega, ?_⟩, ?_⟩
  · rw [hback]
    exact h.1
  · have hindex : (f.siblings.length : Int) - 1 - i
        = ((f.siblings.length - 1 - i : Nat) : Int) := by omega
    show c.path.modifyHead Frame.mirror = _
    rw [h.2, List.modifyHead_cons]
    show { f.mirror with index := (f.siblings.length : Int) - 1 - i }
      :: outer = _
    rw [hindex]
    rfl

/-- **A cursor is seated** when it is at the root or at a place of its
row. -/
def IsSeated (c : Cursor τ) : Prop :=
  c.path = [] ∨ ∃ f outer i, SitsAt f outer i c

theorem Enclosed.isSeated (h : c.IsEnclosed S) : c.IsSeated := by
  cases hpath : c.path with
  | nil => exact .inl hpath
  | cons f outer =>
    obtain ⟨i, -, hsits⟩ := h.exists_sitsAt hpath
    exact .inr ⟨f, outer, i, hsits⟩

theorem IsSeated.mirror (h : c.IsSeated) : c.mirror.IsSeated := by
  rcases h with hpath | ⟨f, outer, i, hsits⟩
  · rw [mirror_of_path_nil hpath]
    exact .inl hpath
  · exact .inr ⟨_, outer, _, hsits.mirror⟩

/-- **One move mirrors another**: from a cursor in the mirror it leads to
the mirror image of where the other leads, nowhere where that leads
nowhere, and fails as that fails. -/
def Mirrors (there here : Mover τ ε) : Prop :=
  ∀ c, c.IsSeated → (there c).map (Option.map mirror) = here c.mirror

/-- Mirroring goes both ways. -/
theorem Mirrors.symm {there here : Mover τ ε} (h : Mirrors there here) :
    Mirrors here there := by
  intro c hc
  rw [← mirror_mirror c, ← h _ hc.mirror, mirror_mirror, Attempt.map_map]
  simp only [mirror_mirror]
  match there c.mirror with
  | .error e => rfl
  | .ok none => rfl
  | .ok (some d) => rfl

/-! ## Moves -/

/-- **First places are mirrored to first places**, in the opposite order:
where an attempt lands on the first place of a row, its mirror image lands
on the first of the mirrored places. -/
theorem landsOn_mirror {before : Nat → Nat → Prop} {P Q : Nat → Prop}
    {a : Attempt ε (Cursor τ)} (ha : LandsOn before (SitsAt f outer) P a)
    (hbefore : ∀ i j, i < f.siblings.length → j < f.siblings.length →
      before i j → before (f.siblings.length - 1 - j)
        (f.siblings.length - 1 - i))
    (hQ : ∀ k, Q k
      ↔ k < f.siblings.length ∧ P (f.siblings.length - 1 - k)) :
    LandsOn (fun i j => before j i) (SitsAt f.mirror outer) Q
      (a.map (Option.map mirror)) := by
  have hback : ∀ k < f.siblings.length,
      f.siblings.length - 1 - (f.siblings.length - 1 - k) = k := by
    intro k hk
    omega
  rcases ha with ⟨i, x, hi, hx, rfl⟩ | ⟨hnone, rfl⟩
  · have hlt := hx.lt_length
    refine .inl ⟨_, x.mirror, ⟨(hQ _).mpr ⟨by omega, ?_⟩, ?_⟩, hx.mirror,
      rfl⟩
    · rw [hback i hlt]
      exact hi.holds
    · intro k hk
      obtain ⟨hklt, hPk⟩ := (hQ k).mp hk
      rcases hi.eq_or_before _ hPk with rfl | hik
      · exact .inl (hback k hklt).symm
      · have hki := hbefore _ _ hlt (by omega) hik
        rw [hback k hklt] at hki
        exact .inr hki
  · exact .inr ⟨fun k hk => hnone _ ((hQ k).mp hk).2, rfl⟩

/-- Moves that keep to the row to the right and to the row to the left,
with mirrored places open, are mirror images. -/
theorem SitsAt.map_mirror_of_isKeptBy {P Q : Nat → Prop}
    {there here : Mover τ ε} (h : SitsAt f outer i c)
    (hthere : (rightward S f outer).IsKeptBy P there)
    (hhere : (leftward S f.mirror outer).IsKeptBy Q here)
    (hQ : ∀ k, Q k
      ↔ k < f.siblings.length ∧ P (f.siblings.length - 1 - k)) :
    (there c).map (Option.map Cursor.mirror) = here c.mirror := by
  have hlt := h.lt_length
  refine (landsOn_mirror (hthere i c h) ?_ ?_).unique
    (hhere _ _ h.mirror) (fun _ _ => Nat.lt_asymm) fun _ _ _ => unique
  · intro i j _ _ hij
    show _ < _
    change i < j at hij
    omega
  · intro k
    rw [hQ k, and_assoc]
    refine and_congr_right fun hk => and_congr_right fun _ => ?_
    show k < f.siblings.length - 1 - i ↔ i < f.siblings.length - 1 - k
    omega

/-- **Steps to the right and to the left** are mirror images. -/
theorem mirrors_right (S : Shape τ ε) : Mirrors (right S) (left S) := by
  rintro c (hpath | ⟨f, outer, i, h⟩)
  · rw [mirror_of_path_nil hpath, right, left, hpath]
    rfl
  · refine h.map_mirror_of_isKeptBy (isKeptBy_right S f outer)
      (isKeptBy_left S f.mirror outer) fun k => ?_
    rw [f.length_siblings_mirror]
    omega

/-- **Steps to the ends of the row** are. -/
theorem mirrors_rightmost (S : Shape τ ε) :
    Mirrors (rightmost S) (leftmost S) := by
  rintro c (hpath | ⟨f, outer, i, h⟩)
  · rw [mirror_of_path_nil hpath, rightmost, leftmost, hpath]
    rfl
  · obtain ⟨x, hx, hlast⟩ := h.exists_rightmost (S := S)
    obtain ⟨y, hy, hfirst⟩ := h.mirror.exists_leftmost (S := S)
    have himage := hlast.mirror
    rw [Nat.sub_self] at himage
    rw [hx, hy, ← himage.unique hfirst]
    rfl

/-! ## Edits beside the focus -/

theorem SitsAt.insertRight_eq (h : SitsAt f outer i c) (t : τ) :
    c.insertRight t
      = some ⟨c.focus, f.spliced (i + 1) (i + 1) t i :: outer⟩ := by
  have hplace : (f.atIndex i).before ((f.atIndex i).index + 1) = i + 1 :=
    Frame.before_natCast f (i + 1)
  rw [insertRight, h.2]
  simp only [hplace]
  rfl

theorem SitsAt.insertLeft_eq (h : SitsAt f outer i c) (t : τ) :
    c.insertLeft t
      = some ⟨c.focus, f.spliced i i t (i + 1 : Nat) :: outer⟩ := by
  have hplace : (f.atIndex i).before (f.atIndex i).index = i :=
    Frame.before_natCast f i
  rw [insertLeft, h.2]
  simp only [hplace]
  rfl

theorem SitsAt.replace_eq (h : SitsAt f outer i c) (t : τ) :
    c.replace t = ⟨t, f.spliced i (i + 1) t i :: outer⟩ := by
  have hlefts : (f.atIndex i).lefts = f.siblings.take i :=
    Frame.lefts_of_index rfl
  have hrights : (f.atIndex i).rights = f.siblings.drop (i + 1) :=
    Frame.rights_of_index rfl
  rw [replace, h.2, refocus, Frame.withFocus, hlefts, hrights]
  rfl

/-- **Insertions beside the focus** are mirror images. -/
theorem mirror_insertRight (h : c.IsSeated) (t : τ) :
    (c.insertRight t).map mirror = c.mirror.insertLeft t := by
  rcases h with hpath | ⟨f, outer, i, h⟩
  · rw [mirror_of_path_nil hpath, insertRight, insertLeft, hpath]
    rfl
  · have hlt := h.lt_length
    have hplace : f.siblings.length - 1 - i = f.siblings.length - (i + 1) := by
      omega
    have hindex : ((i + 1 + (f.siblings.length - (i + 1)) : Nat) : Int) - i
        = (f.siblings.length - (i + 1) + 1 : Nat) := by omega
    rw [h.insertRight_eq, h.mirror.insertLeft_eq, hplace, ← hindex,
      ← Frame.mirror_spliced hlt hlt]
    rfl

/-- **Replacing the focus** is its own mirror image. -/
theorem mirror_replace (h : c.IsSeated) (t : τ) :
    (c.replace t).mirror = c.mirror.replace t := by
  rcases h with hpath | ⟨f, outer, i, h⟩
  · rw [mirror_of_path_nil hpath, mirror_of_path_nil]
    rw [replace, hpath]
    rfl
  · have hlt := h.lt_length
    have hplace : f.siblings.length - 1 - i = f.siblings.length - (i + 1) := by
      omega
    have hafter : f.siblings.length - (i + 1) + 1 = f.siblings.length - i := by
      omega
    have hindex : ((i + (f.siblings.length - (i + 1)) : Nat) : Int) - i
        = (f.siblings.length - (i + 1) : Nat) := by omega
    rw [h.replace_eq, h.mirror.replace_eq, hplace, hafter, ← hindex,
      ← Frame.mirror_spliced (Nat.le_of_lt hlt) hlt]
    rfl

/-- After an insertion the focus still stands in its row. -/
theorem IsSeated.insertRight (h : c.IsSeated) {t : τ}
    (hd : c.insertRight t = some d) : d.IsSeated := by
  rcases h with hpath | ⟨f, outer, i, h⟩
  · rw [Cursor.insertRight, hpath] at hd
    cases hd
  · have hlt := h.lt_length
    rw [h.insertRight_eq] at hd
    obtain rfl := Option.some_inj.mp hd
    refine .inr ⟨_, outer, i, ?_, rfl⟩
    show (f.siblings.take (i + 1) ++ _)[i]? = some c.focus
    rw [List.getElem?_append_left (by simp; omega),
      List.getElem?_take_of_lt (Nat.lt_succ_self i)]
    exact h.1

end Mirror

/-! ## Moves to significant siblings -/

section Significant

variable {ε : Type}

/-- In the mirror something significant stands at the mirrored places. -/
theorem isSignificantAt_mirror (cfg : Config) (f : Frame Value) (j : Nat) :
    f.mirror.IsSignificantAt cfg j ↔ j < f.siblings.length
      ∧ f.IsSignificantAt cfg (f.siblings.length - 1 - j) := by
  unfold Frame.IsSignificantAt
  simp only [Frame.getElem?_mirror_eq_some, and_assoc, exists_and_left]

/-- And siblings of a kind do. -/
theorem mem_placesOf_mirror (cfg : Config) (k : Kind) (f : Frame Value)
    (j : Nat) :
    j ∈ f.mirror.placesOf cfg k ↔ j < f.siblings.length
      ∧ f.siblings.length - 1 - j ∈ f.placesOf cfg k := by
  rw [Frame.mem_placesOf, Frame.mem_placesOf, isSignificantAt_mirror,
    and_assoc]
  refine and_congr_right fun hj => and_congr_right fun _ => ?_
  unfold Frame.Holds
  simp only [Frame.getElem?_mirror_eq_some, hj, true_and]

theorem mirrors_significant_right (S : Shape Value ε) (cfg : Config) :
    Mirrors (Direction.right.significant S cfg)
      (Direction.left.significant S cfg) := by
  rintro c (hpath | ⟨f, outer, i, h⟩)
  · rw [mirror_of_path_nil hpath, significant_eq_none hpath (by simp),
      significant_eq_none hpath (by simp)]
    rfl
  · exact h.map_mirror_of_isKeptBy
      (isKeptBy_significant_right S cfg f outer)
      (isKeptBy_significant_left S cfg f.mirror outer)
      (isSignificantAt_mirror cfg f)

theorem mirrors_significant_rightmost (S : Shape Value ε) (cfg : Config) :
    Mirrors (Direction.rightmost.significant S cfg)
      (Direction.leftmost.significant S cfg) := by
  rintro c (hpath | ⟨f, outer, i, h⟩)
  · rw [mirror_of_path_nil hpath, significant_eq_none hpath (by simp),
      significant_eq_none hpath (by simp)]
    rfl
  · refine (landsOn_mirror h.landsOn_rightmost ?_
      (isSignificantAt_mirror cfg f)).unique h.mirror.landsOn_leftmost
      (fun _ _ => Nat.lt_asymm) fun _ _ _ => SitsAt.unique
    intro i j _ _ hij
    show _ < _
    omega

theorem mirrors_findNext (S : Shape Value ε) (cfg : Config) (k : Kind) :
    Mirrors (findNext S cfg k) (findPrevious S cfg k) := by
  rintro c (hpath | ⟨f, outer, i, h⟩)
  · rw [mirror_of_path_nil hpath, findNext, findPrevious, findSibling,
      findSibling, significant_eq_none hpath (by simp),
      significant_eq_none hpath (by simp)]
    rfl
  · exact h.map_mirror_of_isKeptBy (isKeptBy_findNext S cfg f outer k)
      (isKeptBy_findPrevious S cfg f.mirror outer k)
      (mem_placesOf_mirror cfg k f)

end Significant

/-! ## Insertion with spacing -/

section Spacing

variable {ε : Type} {c : Cursor Value}

/-- One more insertion, if there has been one. -/
theorem bind_insertRight {o : Option (Cursor Value)}
    (ho : ∀ d, o = some d → d.IsSeated) (v : Value) :
    (o.bind (insertRight v)).map mirror
        = (o.map mirror).bind (insertLeft v)
      ∧ ∀ d, o.bind (insertRight v) = some d → d.IsSeated := by
  cases o with
  | none => exact ⟨rfl, fun d hd => (nomatch hd)⟩
  | some e =>
    exact ⟨mirror_insertRight (ho e rfl) v, fun d => (ho e rfl).insertRight⟩

/-- The insertions that put in an item with its spacing. -/
theorem mirror_spacedRight (h : c.IsSeated) (cfg : Config) (item : Value)
    (neighbour : Option (Cursor Value)) :
    (c.spacedRight cfg item neighbour).map mirror
      = c.mirror.spacedLeft cfg item (neighbour.map mirror) := by
  have htouches : touches cfg (neighbour.map mirror)
      = touches cfg neighbour := by
    cases neighbour <;> rfl
  have hfirst : ∀ b : Bool,
      (if b then c.insertRight cfg.space else some c).map mirror
          = (if b then c.mirror.insertLeft cfg.space else some c.mirror)
        ∧ ∀ d, (if b then c.insertRight cfg.space else some c) = some d →
          d.IsSeated := by
    intro b
    cases b with
    | false => exact ⟨rfl, fun d hd => Option.some_inj.mp hd ▸ h⟩
    | true => exact ⟨mirror_insertRight h _, fun d => h.insertRight⟩
  obtain ⟨hspace, hseated⟩ := hfirst (touches cfg neighbour)
  obtain ⟨hitem, hseated⟩ := bind_insertRight hseated item
  rw [spacedRight, spacedLeft, htouches, ← hspace, ← hitem]
  exact (bind_insertRight hseated cfg.space).1

/-- **Insertions with spacing** are mirror images. -/
theorem mirrors_placeRight (S : Shape Value ε) (cfg : Config)
    (item : Value) :
    Mirrors (placeRight S cfg item) (placeLeft S cfg item) := by
  intro c hc
  have hright := mirrors_right S c hc
  rw [placeRight, placeLeft, focus_mirror, ← hright]
  cases c.focus.isNil with
  | true =>
    exact congrArg (Except.ok ∘ some) (mirror_replace hc item)
  | false =>
    simp only [Bool.false_eq_true, if_false]
    cases c.right S with
    | error e => rfl
    | ok o => exact congrArg Except.ok (mirror_spacedRight hc cfg item o)

end Spacing

end Cursor

/-! ## Inside the focus -/

/-- **A form with its children in reverse.** -/
def Value.reversed : Value → Value
  | .node (.branch k cs) => .node (.branch k cs.reverse)
  | v => v

/-- A value that is no node is refused at the end of a row of nodes. -/
theorem nodesOf_concat_of_not_node (k : Composite) (ns : List Form)
    {v : Value} (hv : v.isNode = false) :
    nodesOf k (ns.map Value.node ++ [v]) = .error (.childNotNode k v) := by
  induction ns with
  | nil =>
    cases v with
    | node n => cases hv
    | _ => rfl
  | cons n ns ih =>
    rw [List.map_cons, List.cons_append, nodesOf, ih]
    rfl

/-- A row that is refused makes no branch. -/
theorem Shape.make_eq_error {k : Composite} (old : List Form)
    {items : List Value} {e : StructureError}
    (h : nodesOf k items = .error e) :
    Shape.forms.make (.node (.branch k old)) (.ofList items)
      = .error (.structural e) := by
  show (liftStructural ((nodesOf k items).map _)).map _ = _
  rw [h]
  rfl

/-- One attempt after another, compared by what is looked at. -/
theorem Attempt.map_andThen_congr {ε α β γ : Type} {p : α → γ}
    {q : β → γ} {a : Attempt ε α} {b : Attempt ε β}
    {g : α → Attempt ε α} {h : β → Attempt ε β}
    (hab : a.map (Option.map p) = b.map (Option.map q))
    (hgh : ∀ x y, p x = q y →
      (g x).map (Option.map p) = (h y).map (Option.map q)) :
    (a.andThen g).map (Option.map p) = (b.andThen h).map (Option.map q) := by
  match a, b, hab with
  | .error e, .error _, hab => exact hab
  | .ok none, .ok none, _ => rfl
  | .ok (some x), .ok (some y), hab =>
    refine hgh x y ?_
    injection hab with hab
    injection hab
  | .ok (some x), .ok none, hab => cases hab
  | .ok none, .ok (some x), hab => cases hab

namespace Cursor

section Children

variable {c d : Cursor Value}

/-- Two foci with their children in reverse are branches of one kind, or
neither has children. -/
theorem children?_reversed (h : c.focus.reversed = d.focus) :
    (∃ k cs, c.focus = .node (.branch k cs)
      ∧ d.focus = .node (.branch k cs.reverse)
      ∧ c.children? .forms = some (cs.map Value.node)
      ∧ d.children? .forms = some (cs.reverse.map Value.node))
    ∨ c.children? .forms = none ∧ d.children? .forms = none := by
  obtain ⟨u, path⟩ := c
  obtain ⟨w, path'⟩ := d
  obtain rfl : u.reversed = w := h
  cases u with
  | node n =>
    cases n with
    | branch k cs => exact .inl ⟨k, cs, rfl, rfl, rfl, rfl⟩
    | _ => exact .inr ⟨rfl, rfl⟩
  | _ => exact .inr ⟨rfl, rfl⟩

/-- **Putting something after all children** is putting it before them
where they are in reverse. -/
theorem map_focus_appendChild (h : c.focus.reversed = d.focus)
    (v : Value) :
    (c.appendChild .forms v).map (Option.map fun e => e.focus.reversed)
      = (d.insertChild .forms v).map (Option.map Cursor.focus) := by
  rw [appendChild, insertChild, withChildren, withChildren]
  rcases children?_reversed h with ⟨k, cs, hc, hd, hcs, hds⟩ | ⟨hcs, hds⟩
  · rw [hcs, hds, hc, hd]
    cases hv : v.isNode with
    | true =>
      obtain ⟨m, rfl⟩ : ∃ m, v = .node m := by
        cases v with
        | node m => exact ⟨m, rfl⟩
        | _ => cases hv
      have hlast := Shape.forms_make k cs (cs ++ [m])
      have hfirst := Shape.forms_make k cs.reverse (m :: cs.reverse)
      rw [List.map_append, List.map_singleton] at hlast
      rw [List.map_cons] at hfirst
      simp only [hlast, hfirst]
      show Except.ok (some (Value.node (.branch k (cs ++ [m]).reverse))) = _
      rw [List.reverse_concat]
      rfl
    | false =>
      -- both rows are refused, on account of the same value
      have hfirst : nodesOf k (v :: cs.reverse.map Value.node)
          = .error (.childNotNode k v) := by
        cases v with
        | node m => cases hv
        | _ => rfl
      simp only [Shape.make_eq_error _ (nodesOf_concat_of_not_node k cs hv),
        Shape.make_eq_error _ hfirst]
      rfl
  · rw [hcs, hds]
    rfl

/-- The last child touches an item where the first one does in reverse. -/
theorem childTouches_reversed (h : c.focus.reversed = d.focus)
    (cfg : Config) :
    childTouches cfg (c.downLast .forms)
      = childTouches cfg (d.down .forms) := by
  rcases children?_reversed h with ⟨k, cs, -, -, hcs, hds⟩ | ⟨hcs, hds⟩
  · rw [childTouches_downLast hcs, childTouches_down hds, List.map_reverse,
      List.head?_reverse]
  · rw [downLast, down, hcs, hds]

/-- The same with spacing. -/
theorem map_focus_placeLast (h : c.focus.reversed = d.focus)
    (cfg : Config) (v : Value) :
    (c.placeLast .forms cfg v).map (Option.map fun e => e.focus.reversed)
      = (d.placeFirst .forms cfg v).map (Option.map Cursor.focus) := by
  rw [placeLast, placeFirst, childTouches_reversed h]
  cases childTouches cfg (d.down .forms) with
  | true =>
    exact Attempt.map_andThen_congr (map_focus_appendChild h cfg.space)
      fun x y hxy => map_focus_appendChild hxy v
  | false => exact map_focus_appendChild h v

end Children

end Cursor

namespace Session

/-- **The session in the mirror.** -/
def mirror (s : Session) : Session := s.goTo s.cursor.mirror

/-- **Actions that are mirror images**: the one does to the right what the
other does to the left. -/
inductive MirrorImages : Action → Action → Prop
  /-- A step to a sibling. -/
  | step : MirrorImages (.move (.plain .right)) (.move (.plain .left))
  /-- A step to the end of the row. -/
  | ends : MirrorImages (.move (.plain .rightmost))
      (.move (.plain .leftmost))
  /-- A step to a significant sibling. -/
  | significant : MirrorImages (.move (.significant .right))
      (.move (.significant .left))
  /-- A step to the outermost significant sibling. -/
  | significantEnds : MirrorImages (.move (.significant .rightmost))
      (.move (.significant .leftmost))
  /-- A search for the nearest sibling of a kind. -/
  | find (k : Kind) : MirrorImages (.findNext k) (.findPrevious k)
  /-- An insertion beside the focus. -/
  | insert (item : Value) : MirrorImages (.insert .right item)
      (.insert .left item)
  /-- An insertion with spacing. -/
  | place (item : Value) : MirrorImages (.place .right item)
      (.place .left item)

/-- An item that has no node fails to be put in. -/
theorem outcome_place_of_error {s : Session} {side : Side} {item : Value}
    {e : Failure} (h : s.policy.itemFor item = .error e) :
    s.outcome (.place side item) = .error e := by
  simp only [outcome, h]

/-- The node of an item is put in as it is. -/
theorem outcome_place_of_ok {s : Session} {side : Side} {item node : Value}
    (h : s.policy.itemFor item = .ok node) :
    s.outcome (.place side item)
      = s.cursor.place s.shape s.policy.config side node := by
  simp only [outcome, h]

/-- Mirror images mirror each other on cursors. -/
theorem MirrorImages.mirrors {a b : Action} (h : MirrorImages a b)
    (s : Session) :
    Cursor.Mirrors (fun c => (s.goTo c).outcome a)
      fun c => (s.goTo c).outcome b := by
  cases h with
  | step => exact Cursor.mirrors_right s.shape
  | ends => exact Cursor.mirrors_rightmost s.shape
  | significant =>
    exact Cursor.mirrors_significant_right s.shape s.policy.config
  | significantEnds =>
    exact Cursor.mirrors_significant_rightmost s.shape s.policy.config
  | find k => exact Cursor.mirrors_findNext s.shape s.policy.config k
  | insert item =>
    exact fun c hc => congrArg Except.ok (Cursor.mirror_insertRight hc item)
  | place item =>
    intro c hc
    show Except.map _ ((s.goTo c).outcome (.place .right item))
      = (s.goTo c.mirror).outcome (.place .left item)
    cases hitem : s.policy.itemFor item with
    | error e =>
      rw [outcome_place_of_error (s := s.goTo c) hitem,
        outcome_place_of_error (s := s.goTo c.mirror) hitem]
      rfl
    | ok node =>
      rw [outcome_place_of_ok (s := s.goTo c) hitem,
        outcome_place_of_ok (s := s.goTo c.mirror) hitem]
      exact Cursor.mirrors_placeRight _ _ node c hc

/-- What mirrors on cursors mirrors on sessions. -/
theorem map_mirror_perform {s : Session} {a b : Action}
    (h : Cursor.Mirrors (fun c => (s.goTo c).outcome a)
      fun c => (s.goTo c).outcome b) (hs : s.cursor.IsSeated) :
    (s.perform a).result.map (Option.map mirror)
      = (s.mirror.perform b).result := by
  have hmirror : _ = s.mirror.outcome b := h s.cursor hs
  show Except.map _ (Except.map _ (s.outcome a))
    = Except.map _ (s.mirror.outcome b)
  rw [← hmirror, Attempt.map_map]
  exact (Attempt.map_map (s.outcome a) s.mirror.goTo Cursor.mirror).symm

/-- **What is in focus after an action**, if it leads anywhere. -/
def focusAfter (s : Session) (a : Action) : Attempt Failure Value :=
  (s.perform a).result.map (Option.map fun t => t.cursor.focus)

/-- It is the focus of the cursor that comes out of the action. -/
theorem focusAfter_eq (s : Session) (a : Action) :
    s.focusAfter a = (s.outcome a).map (Option.map Cursor.focus) :=
  Attempt.map_map _ _ _

/-- **Left and right are mirror images.** Wherever a session has got to, by
whatever actions: what an action does to the right is, in the mirror, what
its image does to the left, and the other way round. That holds of the
steps to siblings and to the ends of the row, plain ones and those to
significant nodes, of the searches for siblings of a kind and of the
insertions beside the focus. What an insertion after all children makes
of the focus is, with the children in reverse, what the insertion before
all children makes of the focus with its children in reverse, wherever
that stands. An action fails exactly as its image does, and leads nowhere
where that leads nowhere. -/
theorem perform_mirror {Allowed : Session → Action → Prop}
    {policy : Policy} {root : Value} {s : Session}
    (h : (Session.start .forms policy root).Reaches Allowed s) :
    (∀ a b, MirrorImages a b →
      (s.perform a).result.map (Option.map mirror)
          = (s.mirror.perform b).result
        ∧ (s.perform b).result.map (Option.map mirror)
          = (s.mirror.perform a).result)
    ∧ ∀ path item,
      (s.focusAfter (.insert .last item)).map (Option.map Value.reversed)
          = (s.goTo ⟨s.cursor.focus.reversed, path⟩).focusAfter
            (.insert .first item)
        ∧ (s.focusAfter (.place .last item)).map (Option.map Value.reversed)
          = (s.goTo ⟨s.cursor.focus.reversed, path⟩).focusAfter
            (.place .first item) := by
  have hshape : s.shape = .forms := h.shape_eq
  have hseated := h.isEnclosed.isSeated
  refine ⟨fun a b hab => ⟨?_, ?_⟩, fun path item => ⟨?_, ?_⟩⟩
  · exact map_mirror_perform (hab.mirrors s) hseated
  · exact map_mirror_perform (hab.mirrors s).symm hseated
  · rw [focusAfter_eq, focusAfter_eq, Attempt.map_map]
    show Except.map _ (s.cursor.appendChild s.shape item)
      = Except.map _ (Cursor.insertChild s.shape item _)
    rw [hshape]
    exact Cursor.map_focus_appendChild rfl item
  · rw [focusAfter_eq, focusAfter_eq, Attempt.map_map]
    cases hitem : s.policy.itemFor item with
    | error e =>
      rw [outcome_place_of_error hitem, outcome_place_of_error
        (s := s.goTo ⟨s.cursor.focus.reversed, path⟩) hitem]
      rfl
    | ok node =>
      rw [outcome_place_of_ok hitem, outcome_place_of_ok
        (s := s.goTo ⟨s.cursor.focus.reversed, path⟩) hitem]
      show Except.map _ (s.cursor.placeLast s.shape s.policy.config node)
        = Except.map _ (Cursor.placeFirst s.shape s.policy.config node _)
      rw [hshape]
      exact Cursor.map_focus_placeLast rfl _ node

/-- In `(1 2;two)` a stray has been put before the `1`. A `5` put after the
`1`, with spacing on both sides, is in the mirror a `5` put before it. And
a `3` after the children of `(1 2)` is one before those of `(2 1)`. -/
theorem perform_mirror_spaced :
    (∃ s t : Session,
      (Session.start .forms .standard (.node (.branch .list
        [.token (.int 1), .token (.int 2),
          .comment ";two"]))).Reaches (fun _ _ => True) s
      ∧ s.cursor.path.map (fun f => (f.index, f.siblings.length))
        = [(1, 4)]
      ∧ (s.perform (.place .right (.int 5))).result = .ok (some t)
      ∧ t.cursor.path.map (fun f => (f.index, f.siblings.length))
        = [(1, 7)]
      ∧ (s.mirror.perform (.place .left (.int 5))).result
        = .ok (some t.mirror))
    ∧ (Session.start .forms .standard (.node (.branch .list
        [.token (.int 2), .token (.int 1)]))).focusAfter
          (.place .first (.int 3))
      = .ok (some (.node (.branch .list [.token (.int 3), .whitespace " ",
        .token (.int 2), .token (.int 1)]))) := by
  constructor
  · have hrun : (Session.start .forms .standard (.node (.branch .list
        [.token (.int 1), .token (.int 2),
          .comment ";two"]))).Reaches (fun _ _ => True) _ :=
      .step (.step .here (a := .move (.plain .down)) trivial rfl)
        (a := .insert .left (.int 7)) trivial rfl
    obtain ⟨s, hs, hplace, hright⟩ : ∃ s : Session,
        Reaches (fun _ _ => True) _ s
        ∧ s.cursor.path.map (fun f => (f.index, f.siblings.length))
          = [(1, 4)]
        ∧ (s.perform (.place .right (.int 5))).result.map
          (Option.map fun t => t.cursor.path.map
            fun f => (f.index, f.siblings.length))
            = .ok (some [(1, 7)]) := ⟨_, hrun, rfl, rfl⟩
    obtain ⟨o, ho, hmap⟩ := Attempt.exists_of_map_eq_ok hright
    obtain ⟨t, rfl, hindex⟩ := Option.map_eq_some_iff.mp hmap
    have himage := ((perform_mirror hs).1 _ _ (.place (.int 5))).1
    rw [ho] at himage
    exact ⟨s, t, hs, hplace, ho, hindex, himage.symm⟩
  · have hlast : (Session.start .forms .standard (.node (.branch .list
        [.token (.int 1), .token (.int 2)]))).focusAfter
          (.place .last (.int 3))
        = .ok (some (.node (.branch .list [.token (.int 1),
          .token (.int 2), .whitespace " ", .token (.int 3)]))) := rfl
    have hstart : (Session.start .forms .standard (.node (.branch .list
        [.token (.int 1), .token (.int 2)]))).Reaches (fun _ _ => True) _ :=
      .here
    have himage := ((perform_mirror hstart).2 [] (.int 3)).2
    rw [hlast] at himage
    exact himage.symm

end Session

end FormTree
