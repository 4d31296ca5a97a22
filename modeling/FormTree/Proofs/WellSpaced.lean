import FormTree.Proofs.Surface
import Mathlib.Data.List.Chain

/-!
# Well-spaced trees

In a well-spaced tree no two significant nodes touch and no white space is
split in two: among the children of a branch, of any two neighbours one is
insignificant and one is not white space. What is significant depends on
the settings; a comment may or may not be.

The surface of a session keeps trees well spaced
(`Session.wellSpaced_of_reaches`). The cursor is always on a significant
node, so its neighbours are insignificant; an item put beside it has new
white space on the side of the cursor, and on the other side it is either
kept apart by new white space or beside something insignificant, which
cannot be white space twice. A significant node may take the place of
another, since all significant nodes have the same neighbours
(`Config.apart_eq_ignores`). And forms that are made of values without
nodes are well spaced from the start.
-/

namespace FormTree

namespace Config

/-- **Whether two neighbours are kept apart**: not both are significant,
and not both are white space. -/
def apart (cfg : Config) (m n : Form) : Bool :=
  !(!cfg.ignores m.kind && !cfg.ignores n.kind)
    && !(decide (m.kind = .whitespace) && decide (n.kind = .whitespace))

/-- Two neighbours are kept apart. -/
abbrev Apart (cfg : Config) (m n : Form) : Prop := cfg.apart m n = true

variable {cfg : Config} {m n item : Form}

theorem apart_comm (cfg : Config) (m n : Form) :
    cfg.apart m n = cfg.apart n m := by
  unfold apart
  rw [Bool.and_comm (!cfg.ignores m.kind), Bool.and_comm (decide _)]

/-- **Beside a significant node stands an insignificant one**, and any
may. -/
theorem apart_eq_ignores (hm : cfg.ignores m.kind = false) :
    cfg.apart m n = cfg.ignores n.kind := by
  have hspace : m.kind ≠ .whitespace := by
    intro h
    rw [h] at hm
    cases hm
  unfold apart
  rw [hm, decide_eq_false hspace]
  simp

/-- White space keeps itself apart from significant nodes. -/
theorem apart_whitespace (t : Text) (hn : cfg.ignores n.kind = false) :
    cfg.Apart (.whitespace t) n := by
  rw [Apart, apart_comm, apart_eq_ignores hn]
  rfl

/-- A significant node is as well kept apart as another. -/
theorem isChain_cons_of_significant (hm : cfg.ignores m.kind = false)
    (hn : cfg.ignores n.kind = false) {ns : List Form}
    (h : (m :: ns).IsChain cfg.Apart) : (n :: ns).IsChain cfg.Apart := by
  refine h.imp_head ?_
  intro x hx
  rwa [Apart, apart_eq_ignores hn, ← apart_eq_ignores hm]

/-- **An item put in front of a row is kept apart from it.** -/
theorem isChain_spacedOff (hitem : cfg.ignores item.kind = false)
    {row : List Form} (h : row.IsChain cfg.Apart) :
    (cfg.spacedOff item row).IsChain cfg.Apart := by
  cases row with
  | nil => exact List.isChain_singleton item
  | cons n ns =>
    rw [spacedOff]
    by_cases hn : cfg.ignores n.kind = true
    · rw [if_pos hn]
      refine List.isChain_cons_cons.mpr ⟨?_, h⟩
      rwa [Apart, apart_eq_ignores hitem]
    · rw [if_neg hn]
      rw [Bool.not_eq_true] at hn
      refine List.isChain_cons_cons.mpr ⟨?_, List.isChain_cons_cons.mpr
        ⟨apart_whitespace _ hn, h⟩⟩
      rw [Apart, apart_eq_ignores hitem]
      rfl

/-- So is it from a significant node, with white space between. -/
theorem isChain_space_spacedOff (hm : cfg.ignores m.kind = false)
    (hitem : cfg.ignores item.kind = false) {row : List Form}
    (h : row.IsChain cfg.Apart) :
    (m :: .whitespace cfg.separator :: cfg.spacedOff item row).IsChain
      cfg.Apart := by
  have hrow := isChain_spacedOff hitem h
  obtain ⟨rest, hrest⟩ : ∃ rest, cfg.spacedOff item row = item :: rest := by
    unfold spacedOff
    split
    · exact ⟨_, rfl⟩
    · split
      · exact ⟨_, rfl⟩
      · exact ⟨_, rfl⟩
  rw [hrest] at hrow ⊢
  refine List.isChain_cons_cons.mpr ⟨?_, List.isChain_cons_cons.mpr
    ⟨apart_whitespace _ hitem, hrow⟩⟩
  rw [Apart, apart_eq_ignores hm]
  rfl

/-- Nothing comes into a row but the item and white space. -/
theorem mem_spacedOff {row : List Form}
    (h : n ∈ cfg.spacedOff item row) :
    n = item ∨ n = .whitespace cfg.separator ∨ n ∈ row := by
  unfold spacedOff at h
  split at h
  · exact .inl (List.mem_singleton.mp h)
  · split at h <;> simp only [List.mem_cons] at h ⊢ <;> tauto

end Config

namespace Node

mutual
/-- **Whether a tree is well spaced**: in every branch, at every depth, the
children are kept apart. -/
def wellSpaced (cfg : Config) : Form → Bool
  | .branch _ cs => decide (cs.IsChain cfg.Apart) && areWellSpaced cfg cs
  | _ => true
termination_by structural n => n
/-- Whether all trees of a row are well spaced. -/
def areWellSpaced (cfg : Config) : List Form → Bool
  | [] => true
  | n :: ns => n.wellSpaced cfg && areWellSpaced cfg ns
end

variable {cfg : Config}

theorem areWellSpaced_iff {ns : List Form} :
    areWellSpaced cfg ns = true ↔ ∀ n ∈ ns, n.wellSpaced cfg = true := by
  induction ns with
  | nil => simp [areWellSpaced]
  | cons n ns ih => simp [areWellSpaced, ih]

/-- A branch is well spaced if its children are kept apart and are well
spaced themselves. -/
theorem wellSpaced_branch {k : Composite} {cs : List Form} :
    wellSpaced cfg (.branch k cs) = true
      ↔ cs.IsChain cfg.Apart ∧ ∀ c ∈ cs, c.wellSpaced cfg = true := by
  rw [wellSpaced, Bool.and_eq_true, decide_eq_true_iff, areWellSpaced_iff]

/-- Whether neighbours are kept apart does not depend on the direction in
which they are read. -/
theorem isChain_reverse_iff (ns : List Form) :
    ns.reverse.IsChain cfg.Apart ↔ ns.IsChain cfg.Apart := by
  have hflip : (fun a b => cfg.Apart b a) = cfg.Apart := by
    funext a b
    rw [Config.Apart, Config.apart_comm]
  rw [List.isChain_reverse, hflip]

theorem wellSpaced_branch_reverse {k : Composite} {cs : List Form} :
    wellSpaced cfg (.branch k cs.reverse) = true
      ↔ wellSpaced cfg (.branch k cs) = true := by
  rw [wellSpaced_branch, wellSpaced_branch, isChain_reverse_iff]
  simp only [List.mem_reverse]

/-- White space is well spaced. -/
@[simp] theorem wellSpaced_whitespace (t : Text) :
    wellSpaced cfg (.whitespace t) = true := rfl

/-- Significant nodes set side by side are kept apart. -/
theorem isChain_spaced (separator : Text) {ns : List Form}
    (h : ∀ n ∈ ns, cfg.ignores n.kind = false) :
    (spaced separator ns).IsChain cfg.Apart := by
  induction ns with
  | nil => exact List.isChain_nil
  | cons n ns ih =>
    cases ns with
    | nil => exact List.isChain_singleton n
    | cons m ns =>
      have hrest := ih fun x hx => h x (List.mem_cons_of_mem n hx)
      have hm := h m (List.mem_cons_of_mem n List.mem_cons_self)
      obtain ⟨rest, hspaced⟩ :
          ∃ rest, spaced separator (m :: ns) = m :: rest := by
        cases ns <;> exact ⟨_, rfl⟩
      rw [spaced_cons_cons, hspaced]
      rw [hspaced] at hrest
      refine List.isChain_cons_cons.mpr ⟨?_, List.isChain_cons_cons.mpr
        ⟨Config.apart_whitespace _ hm, hrest⟩⟩
      rw [Config.Apart, Config.apart_eq_ignores (h n List.mem_cons_self)]
      rfl

end Node

namespace Value

/-- **Whether a value may be put into a well-spaced tree**: a node that is
significant and well spaced, or a value without nodes. -/
def fits (cfg : Config) : Value → Bool
  | .node n => !cfg.ignores n.kind && n.wellSpaced cfg
  | v => v.isNodeFree

/-- Writing a value anew does not change whether it may. -/
@[simp] theorem fits_placed (cfg : Config) (place : List Nat) (v : Value) :
    (v.placed place).fits cfg = v.fits cfg := by
  cases v with
  | node n => rfl
  | group c items => exact isNodeFree_placed place (.group c items)
  | dict guise entries => exact isNodeFree_placed place (.dict guise entries)
  | _ => rfl

end Value

/-- **The form of a value without nodes is well spaced**, and
significant. -/
theorem Literal.wellSpaced_toForm {separator : Text} {v : Value} {n : Form}
    (hv : v.isNodeFree = true) (h : toForm separator v = .ok n)
    (cfg : Config) :
    cfg.ignores n.kind = false ∧ n.wellSpaced cfg = true := by
  refine toForm_induction (P := fun n => cfg.ignores n.kind = false
    ∧ n.wellSpaced cfg = true) (fun s => ⟨rfl, rfl⟩) ?_ hv h
  intro k ns hns
  refine ⟨rfl, Node.wellSpaced_branch.mpr
    ⟨Node.isChain_spaced separator fun n hn => (hns n hn).1, ?_⟩⟩
  intro c hc
  rcases Node.mem_spaced hc with hmem | rfl
  · exact (hns c hmem).2
  · exact Node.wellSpaced_whitespace separator

/-- What is put into the tree for a value that fits is significant and
well spaced. -/
theorem Literal.wellSpaced_formFor {separator : Text} {v : Value}
    {n : Form} {cfg : Config} (hv : v.fits cfg = true)
    (h : formFor separator v = .ok n) :
    cfg.ignores n.kind = false ∧ n.wellSpaced cfg = true := by
  have hform := toForm_of_formFor h
  cases v with
  | node m =>
    cases hform
    rw [Value.fits, Bool.and_eq_true, Bool.not_eq_true'] at hv
    exact hv
  | _ => exact wellSpaced_toForm hv hform cfg

/-! ## The sides of a node -/

/-- **One side of a node is in order**: from the node outwards the
neighbours are kept apart, and they are well spaced themselves. -/
structure Config.SideSpaced (cfg : Config) (m : Form) (row : List Form) :
    Prop where
  /-- The neighbours are kept apart. -/
  isChain : (m :: row).IsChain cfg.Apart
  /-- They are well spaced. -/
  wellSpaced : ∀ n ∈ row, n.wellSpaced cfg = true

section Insertion

variable {cfg : Config} {item : Form}
  (hitem : cfg.ignores item.kind = false)
  (hwell : item.wellSpaced cfg = true)

include hitem hwell

/-- A branch stays well spaced with an item before all its children. -/
theorem Node.wellSpaced_spacedOff {k : Composite} {row : List Form}
    (h : wellSpaced cfg (.branch k row) = true) :
    wellSpaced cfg (.branch k (cfg.spacedOff item row)) = true := by
  obtain ⟨hchain, hrow⟩ := wellSpaced_branch.mp h
  refine wellSpaced_branch.mpr
    ⟨Config.isChain_spacedOff hitem hchain, ?_⟩
  intro n hn
  rcases Config.mem_spacedOff hn with rfl | rfl | hn
  · exact hwell
  · exact wellSpaced_whitespace _
  · exact hrow n hn

/-- A side of a significant node stays in order with an item beside the
node. -/
theorem Config.SideSpaced.spacedOff {m : Form}
    (hm : cfg.ignores m.kind = false) {row : List Form}
    (h : cfg.SideSpaced m row) :
    cfg.SideSpaced m
      (.whitespace cfg.separator :: cfg.spacedOff item row) := by
  refine ⟨Config.isChain_space_spacedOff hm hitem h.isChain.tail, ?_⟩
  -- the neighbours are in order as the children of a branch would be
  have hrow : Node.wellSpaced cfg (.branch .list row) = true :=
    Node.wellSpaced_branch.mpr ⟨h.isChain.tail, h.wellSpaced⟩
  intro n hn
  rcases List.mem_cons.mp hn with rfl | hn
  · exact Node.wellSpaced_whitespace _
  · exact (Node.wellSpaced_branch.mp
      (Node.wellSpaced_spacedOff hitem hwell hrow)).2 n hn

end Insertion

/-! ## Places in well-spaced trees -/

namespace Place

variable {cfg : Config}

/-- **An ancestor is well spaced** if both sides of the gap are in order,
and what is in the gap is well spaced. -/
theorem wellSpaced_fill {l : Level} {n : Form} :
    (l.fill n).wellSpaced cfg = true
      ↔ cfg.SideSpaced n l.lefts ∧ cfg.SideSpaced n l.rights
        ∧ n.wellSpaced cfg = true := by
  rw [Level.fill, Node.wellSpaced_branch, Level.row, List.isChain_split,
    ← List.reverse_cons, Node.isChain_reverse_iff]
  constructor
  · rintro ⟨⟨hl, hr⟩, h⟩
    exact ⟨⟨hl, fun m hm => h m (by simp [hm])⟩,
      ⟨hr, fun m hm => h m (by simp [hm])⟩, h n (by simp)⟩
  · rintro ⟨hl, hr, hn⟩
    refine ⟨⟨hl.isChain, hr.isChain⟩, ?_⟩
    intro m hm
    rcases List.mem_append.mp hm with hm | hm
    · exact hl.wellSpaced m (List.mem_reverse.mp hm)
    · rcases List.mem_cons.mp hm with rfl | hm
      · exact hn
      · exact hr.wellSpaced m hm

/-- In a well-spaced tree every node is well spaced. -/
theorem wellSpaced_of_fillAll {levels : List Level} {n : Form}
    (h : (fillAll levels n).wellSpaced cfg = true) :
    n.wellSpaced cfg = true := by
  induction levels generalizing n with
  | nil => exact h
  | cons l outer ih => exact (wellSpaced_fill.mp (ih h)).2.2

/-- **A significant node may take the place of another.** -/
theorem wellSpaced_fillAll_of_significant {levels : List Level}
    {m n : Form} (hm : cfg.ignores m.kind = false)
    (hn : cfg.ignores n.kind = false) (hwell : n.wellSpaced cfg = true)
    (h : (fillAll levels m).wellSpaced cfg = true) :
    (fillAll levels n).wellSpaced cfg = true := by
  induction levels generalizing m n with
  | nil => exact hwell
  | cons l outer ih =>
    -- the ancestor has a well-spaced row again, and is a branch as before
    obtain ⟨hl, hr, -⟩ := wellSpaced_fill.mp (wellSpaced_of_fillAll h)
    have hfill : (l.fill n).wellSpaced cfg = true :=
      wellSpaced_fill.mpr
        ⟨⟨Config.isChain_cons_of_significant hm hn hl.isChain,
          hl.wellSpaced⟩,
        ⟨Config.isChain_cons_of_significant hm hn hr.isChain,
          hr.wellSpaced⟩, hwell⟩
    exact ih (m := l.fill m) rfl rfl hfill h

/-- **A place in good order**: its tree is well spaced, and its node
significant. -/
structure WellSpaced (cfg : Config) (z : Place) : Prop where
  /-- The tree is well spaced. -/
  whole : z.whole.wellSpaced cfg = true
  /-- The node is significant. -/
  significant : cfg.ignores z.focus.kind = false

namespace WellSpaced

variable {z : Place}

/-- The node at a place in good order is well spaced. -/
theorem wellSpaced_focus (h : z.WellSpaced cfg) :
    z.focus.wellSpaced cfg = true := wellSpaced_of_fillAll h.whole

/-- The root of the tree is significant. -/
theorem significant_whole (h : z.WellSpaced cfg) :
    cfg.ignores z.whole.kind = false := by
  obtain ⟨n, levels⟩ := z
  have hn : cfg.ignores n.kind = false := h.significant
  clear h
  show cfg.ignores (fillAll levels n).kind = false
  induction levels generalizing n with
  | nil => exact hn
  | cons l outer ih => exact ih (l.fill n) rfl

/-- Significant places of the same tree are in good order too. -/
theorem of_significant (h : z.WellSpaced cfg) {y : Place}
    (hwhole : y.whole = z.whole) (hy : y.isSignificant cfg = true) :
    y.WellSpaced cfg := by
  refine ⟨?_, by simpa [isSignificant] using hy⟩
  rw [hwhole]
  exact h.whole

theorem replace (h : z.WellSpaced cfg) {n : Form}
    (hn : cfg.ignores n.kind = false) (hwell : n.wellSpaced cfg = true) :
    (z.replace n).WellSpaced cfg :=
  ⟨wellSpaced_fillAll_of_significant h.significant hn hwell h.whole, hn⟩

/-- **A change on both sides** that keeps them in order keeps the place in
good order. -/
theorem withSides {n : Form} {l m : Level} {outer : List Level}
    (h : WellSpaced cfg ⟨n, l :: outer⟩)
    (hl : cfg.SideSpaced n l.lefts → cfg.SideSpaced n m.lefts)
    (hr : cfg.SideSpaced n l.rights → cfg.SideSpaced n m.rights) :
    WellSpaced cfg ⟨n, m :: outer⟩ := by
  refine ⟨?_, h.significant⟩
  have hwhole : (fillAll outer (l.fill n)).wellSpaced cfg = true := h.whole
  obtain ⟨hlefts, hrights, hn⟩ :=
    wellSpaced_fill.mp (wellSpaced_of_fillAll hwhole)
  have hfill : (m.fill n).wellSpaced cfg = true :=
    wellSpaced_fill.mpr ⟨hl hlefts, hr hrights, hn⟩
  show (fillAll outer (m.fill n)).wellSpaced cfg = true
  exact wellSpaced_fillAll_of_significant (m := l.fill n) rfl rfl hfill
    hwhole

/-- The places that a search goes through are in good order. -/
theorem of_mem_search (h : z.WellSpaced cfg) {d : Direction}
    (hd : d.onward = d) {y : Place}
    (hy : y ∈ z :: (z.ahead d).filter (isSignificant cfg)) :
    y.WellSpaced cfg := by
  rcases List.mem_cons.mp hy with rfl | hy
  · exact h
  · obtain ⟨hmem, hsig⟩ := List.mem_filter.mp hy
    exact h.of_significant
      (whole_of_mem_ahead hd (List.mem_cons_of_mem z hmem)) hsig

/-- **Insertion with spacing keeps a place in good order.** -/
theorem place (h : z.WellSpaced cfg) {n : Form}
    (hn : cfg.ignores n.kind = false) (hwell : n.wellSpaced cfg = true)
    {side : Side} {y : Place} (hy : z.place cfg side n = some y) :
    y.WellSpaced cfg := by
  obtain ⟨m, levels⟩ := z
  have hm : cfg.ignores m.kind = false := h.significant
  have hfocus := h.wellSpaced_focus
  cases side with
  | left =>
    cases levels with
    | nil => cases hy
    | cons l outer =>
      cases hy
      exact h.withSides (fun hl => hl.spacedOff hn hwell hm) id
  | right =>
    cases levels with
    | nil => cases hy
    | cons l outer =>
      cases hy
      exact h.withSides id fun hr => hr.spacedOff hn hwell hm
  | first =>
    cases m with
    | branch k cs =>
      cases hy
      exact h.replace rfl (Node.wellSpaced_spacedOff hn hwell hfocus)
    | _ => cases hy
  | last =>
    cases m with
    | branch k cs =>
      cases hy
      refine h.replace rfl (Node.wellSpaced_branch_reverse.mpr ?_)
      exact Node.wellSpaced_spacedOff hn hwell
        (Node.wellSpaced_branch_reverse.mpr hfocus)
    | _ => cases hy

/-- **Every operation of the surface keeps a place in good order**, as
long as what it supplies fits. -/
theorem surface (h : z.WellSpaced cfg) {separator : Text} {op : Surface}
    {c : Cursor Value} (hc : c.IsAt z)
    (hop : op.Supplies (Value.fits cfg) c) {y : Place}
    (hy : z.surface cfg separator op = .ok (some y)) :
    y.WellSpaced cfg := by
  rcases surface_cases (Value.fits_placed cfg) hc hop hy with
    ⟨hwhole, rfl | hsig⟩ | ⟨side, item, n, hitem, hn, hplace⟩
      | ⟨used, v, n, hv, hn, rfl⟩
  · exact h
  · exact h.of_significant hwhole hsig
  · obtain ⟨hsig, hwell⟩ := Literal.wellSpaced_formFor hitem hn
    exact h.place hsig hwell hplace
  · obtain ⟨hsig, hwell⟩ := Literal.wellSpaced_formFor hv hn
    exact h.replace hsig hwell

end WellSpaced

/-- The tree that is the form of a value that fits is in good order. -/
theorem wellSpaced_of_formFor {cfg : Config} {separator : Text}
    {v : Value} (hv : v.fits cfg = true) {n : Form}
    (hn : Literal.formFor separator v = .ok n) :
    WellSpaced cfg ⟨n, []⟩ := by
  obtain ⟨hsig, hwell⟩ := Literal.wellSpaced_formFor hv hn
  exact ⟨hwell, hsig⟩

theorem wellSpaced_of_plant {cfg : Config} {separator : Text} {v : Value}
    (hv : v.fits cfg = true) {y : Place}
    (hy : plant separator v = .ok (some y)) : y.WellSpaced cfg := by
  obtain ⟨n, hn, hy⟩ := Attempt.exists_of_map_eq_ok hy
  rw [← Option.some_inj.mp hy]
  exact wellSpaced_of_formFor hv hn

/-- **What the surface makes of an empty tree is in good order.** -/
theorem wellSpaced_of_surfaceBare {cfg : Config} {separator : Text}
    {op : Surface} (hop : op.Supplies (Value.fits cfg) (.atRoot .nil))
    {y : Place} (hy : surfaceBare separator op = .ok (some y)) :
    y.WellSpaced cfg := by
  cases op with
  | place side item =>
    obtain ⟨n, hn, hy⟩ := Attempt.exists_of_map_eq_ok hy
    have hroot : y = ⟨n, []⟩ := by
      cases side with
      | left => exact (Option.some_inj.mp hy).symm
      | right => exact (Option.some_inj.mp hy).symm
      | first => cases hy
      | last => cases hy
    rw [hroot]
    exact wellSpaced_of_formFor hop hn
  | assign v given => exact wellSpaced_of_plant hop hy
  | amend f given occasion =>
    rw [surfaceBare] at hy
    split at hy
    · cases hy
    · next u hu =>
      obtain ⟨w, hw, rfl⟩ := Attempt.exists_of_map_eq_ok hu
      refine wellSpaced_of_plant ?_ hy
      rw [Value.fits_placed]
      exact hop .nil w rfl hw
  | _ => cases hy

end Place

/-! ## Sessions in good order -/

/-- **Whether a value is a tree in good order**: empty, or a significant
and well-spaced node. -/
def Value.isSpacedTree (cfg : Config) : Value → Bool
  | .scalar .nil => true
  | .node n => !cfg.ignores n.kind && n.wellSpaced cfg
  | _ => false

namespace Session

/-- **What may be done in a session whose tree is to stay well spaced**:
any operation of the surface that supplies what fits, and any search along
significant nodes. -/
def KeepsSpacing (s : Session) (a : Action) : Prop :=
  (∃ op : Surface, a = op.action
    ∧ op.Supplies (Value.fits s.policy.config) s.cursor)
  ∨ ∃ (test : Cursor Value → Bool) (d : Direction),
    d.onward = d ∧ a = .find test (.significant d)

/-- **A session in good order**: its cursor is at a significant node of a
well-spaced tree, or at the root of a tree that is still empty. -/
structure InOrder (s : Session) : Prop where
  /-- The tree is one of forms. -/
  shape_eq : s.shape = .forms
  /-- The cursor is in a well-spaced tree, or in none. -/
  stands : (∃ z, s.cursor.IsAt z ∧ z.WellSpaced s.policy.config)
    ∨ s.cursor = .atRoot .nil

/-- A session that is started on a tree in good order is in good order. -/
theorem inOrder_start {policy : Policy} {root : Value}
    (h : root.isSpacedTree policy.config = true) :
    (Session.start .forms policy root).InOrder := by
  refine ⟨rfl, ?_⟩
  unfold Value.isSpacedTree at h
  split at h
  · exact .inr rfl
  · next n =>
    rw [Bool.and_eq_true, Bool.not_eq_true'] at h
    exact .inl ⟨⟨n, []⟩, Cursor.isAt_atRoot n, h.2, h.1⟩
  · cases h

/-- **What may be done keeps a session in good order.** -/
theorem InOrder.step {policy : Policy} {c d : Cursor Value}
    {separator : Text} (hpolicy : policy.converter = .literal separator)
    {a : Action} (h : (Session.mk .forms policy c).InOrder)
    (ha : (Session.mk .forms policy c).KeepsSpacing a)
    (hd : (Session.mk .forms policy c).outcome a = .ok (some d)) :
    (Session.mk .forms policy d).InOrder := by
  refine ⟨rfl, ?_⟩
  rcases h.stands with ⟨z, hz, hwell⟩ | hnil
  · refine .inl ?_
    rcases ha with ⟨op, rfl, hop⟩ | ⟨test, e, he, rfl⟩
    · have hgo := hz.surface hpolicy op
      rw [hd] at hgo
      obtain ⟨y, hy, hat⟩ := hgo.isAt
      exact ⟨y, hat, hwell.surface hz hop hy⟩
    · obtain ⟨y, hy, hat⟩ := hz.find_mem he hd
      exact ⟨y, hat, hwell.of_mem_search he hy⟩
  · obtain rfl : c = .atRoot .nil := hnil
    rcases ha with ⟨op, rfl, hop⟩ | ⟨test, e, he, rfl⟩
    · refine .inl ?_
      have hgo := Cursor.goesLike_surfaceBare hpolicy op
      rw [hd] at hgo
      obtain ⟨y, hy, hat⟩ := hgo.isAt
      exact ⟨y, hat, Place.wellSpaced_of_surfaceBare hop hy⟩
    · refine .inr ?_
      have hfind : Except.ok (some d) = _ := hd.symm.trans
        (Cursor.isBare_nil.find_eq policy.config test e)
      injection hfind with hfind
      split at hfind
      · exact Option.some_inj.mp hfind
      · cases hfind

/-- **The surface keeps trees well spaced.** Over any run that starts from
nothing, or from a well-spaced and significant tree, the root is always
nothing or a well-spaced and significant tree, and the cursor is on a
significant node or at the root of nothing. -/
theorem wellSpaced_of_reaches {policy : Policy} {separator : Text}
    (hpolicy : policy.converter = .literal separator) {root : Value}
    (hroot : root.isSpacedTree policy.config = true) {s : Session}
    (h : (Session.start .forms policy root).Reaches KeepsSpacing s) :
    ∃ v, s.root = .ok v ∧ v.isSpacedTree policy.config = true
      ∧ ((∃ n, s.cursor.focus = .node n
          ∧ policy.config.ignores n.kind = false)
        ∨ s.cursor = .atRoot .nil) := by
  have hinv : s.policy = policy ∧ s.InOrder := by
    refine h.invariant (I := fun t => t.policy = policy ∧ t.InOrder) ?_
      ⟨rfl, inOrder_start hroot⟩
    rintro ⟨shape, policy, c⟩ a d ⟨rfl, hc⟩ ha hd
    obtain rfl : shape = .forms := hc.shape_eq
    exact ⟨rfl, hc.step hpolicy ha hd⟩
  obtain ⟨shape, policy, c⟩ := s
  obtain ⟨rfl, horder⟩ := hinv
  obtain rfl : shape = .forms := horder.shape_eq
  rcases horder.stands with ⟨z, hz, hwell⟩ | hnil
  · refine ⟨.node z.whole, hz.root_eq, ?_, .inl ⟨z.focus, hz.focus_eq,
      hwell.significant⟩⟩
    rw [Value.isSpacedTree, hwell.significant_whole, hwell.whole]
    rfl
  · obtain rfl : c = .atRoot .nil := hnil
    exact ⟨.nil, Cursor.root_atRoot .forms .nil, rfl, .inr rfl⟩

/-- A session that has gone down into `(1 2)`, has put `[3 4]` between the
two numbers and has replaced the `1` by a word. -/
theorem wellSpaced_of_reaches_edited :
    ∃ s : Session,
      (Session.start .forms .standard (.node (.branch .list
        [.token (.int 1), .whitespace " ", .token (.int 2)]))).Reaches
          KeepsSpacing s
      ∧ s.cursor.path.map Frame.changed = [true]
      ∧ ∃ v, s.root = .ok v
        ∧ v.isSpacedTree Policy.standard.config = true
        ∧ ((∃ n, s.cursor.focus = .node n
            ∧ Policy.standard.config.ignores n.kind = false)
          ∨ s.cursor = .atRoot .nil) := by
  have hrun : (Session.start .forms .standard (.node (.branch .list
      [.token (.int 1), .whitespace " ", .token (.int 2)]))).Reaches
        KeepsSpacing _ :=
    .step (.step (.step .here (.inl ⟨.move .down, rfl, trivial⟩) rfl)
      (.inl ⟨.place .right (.list [.int 3, .int 4]), rfl, rfl⟩) rfl)
      (.inl ⟨.amend (fun _ => .ok (.text "one")) none 0, rfl,
        fun _ _ _ h => by cases h; rfl⟩) rfl
  exact ⟨_, hrun, rfl, wellSpaced_of_reaches rfl rfl hrun⟩

end Session

end FormTree
