import Mathlib.Data.List.InsertIdx
import FormTree.Proofs.Editor
import FormTree.Proofs.RoundTrip
import FormTree.Proofs.Wandering

/-!
# The layout of a row that grows

Two parts of the library decide where white space goes. The conversion of
a collection sets its members side by side with a separator between every
two of them (`Node.spaced`). Insertion knows nothing of the whole row: it
looks at one neighbour, and puts white space where the item would touch
something (`Config.spacedOff`). The two agree. A row that is laid out as
the conversion would do it stays so, whatever is put into it, in whatever
order, at either end or beside any of its members, and the insertions do
to the members what the plain operations of lists do (`Insertion.apply`).
So a collection built up by insertions is what the conversion makes of the
collection at once (`Session.layout_of_grows`).

Seen from one of its members, a row that is laid out is the same on both
sides: separator and member by turns, away from where one stands
(`Node.trailing`, `Node.spaced_append`). Putting an item beside the member
adds one such turn on one side.
-/

namespace FormTree

/-! ## Rows seen from a member -/

namespace Node

variable {α : Type}

/-- A separator and a node by turns. -/
def trailing (separator : Text) (ns : List (Node α)) : List (Node α) :=
  ns.flatMap fun n => [.whitespace separator, n]

theorem trailing_cons (separator : Text) (n : Node α)
    (ns : List (Node α)) :
    trailing separator (n :: ns)
      = .whitespace separator :: n :: trailing separator ns := rfl

theorem trailing_append (separator : Text) (ms ns : List (Node α)) :
    trailing separator (ms ++ ns)
      = trailing separator ms ++ trailing separator ns :=
  List.flatMap_append

/-- A row is its first member and what trails it. -/
theorem spaced_cons (separator : Text) (n : Node α)
    (ns : List (Node α)) :
    spaced separator (n :: ns) = n :: trailing separator ns := by
  induction ns generalizing n with
  | nil => rfl
  | cons m ns ih => rw [spaced_cons_cons, ih, trailing_cons]

/-- **A row seen from one of its members**: separators and members by
turns to both sides. -/
theorem spaced_append (separator : Text) (ms : List (Node α))
    (n : Node α) (ns : List (Node α)) :
    spaced separator (ms ++ n :: ns)
      = (trailing separator ms.reverse).reverse
        ++ n :: trailing separator ns := by
  induction ms with
  | nil => exact spaced_cons separator n ns
  | cons m ms ih =>
    obtain ⟨l, ls, hls⟩ : ∃ l ls, ms ++ n :: ns = l :: ls := by
      cases ms with
      | nil => exact ⟨n, ns, rfl⟩
      | cons l ms => exact ⟨l, ms ++ n :: ns, rfl⟩
    rw [List.cons_append, hls, spaced_cons_cons, ← hls, ih,
      List.reverse_cons, trailing_append, List.reverse_append]
    rfl

/-- A row read backwards is the row of the members backwards. -/
theorem reverse_spaced (separator : Text) (ns : List (Node α)) :
    (spaced separator ns).reverse = spaced separator ns.reverse := by
  rcases List.eq_nil_or_concat ns with rfl | ⟨ms, n, rfl⟩
  · rfl
  · rw [List.concat_eq_append, spaced_append, List.reverse_append,
      List.reverse_reverse, List.reverse_append]
    exact (spaced_cons separator n ms.reverse).symm

/-- **Where a row can be parted**: at anything but white space it is
parted at a member. -/
theorem exists_of_spaced_eq {separator : Text} {items ls rs : List (Node α)}
    {n : Node α} (hn : n ≠ .whitespace separator)
    (h : ls ++ n :: rs = spaced separator items) :
    ∃ ms ns, items = ms ++ n :: ns
      ∧ ls = (trailing separator ms.reverse).reverse
      ∧ rs = trailing separator ns := by
  induction items generalizing ls with
  | nil => exact absurd h (by simp [spaced])
  | cons m items ih =>
    rw [spaced_cons] at h
    obtain _ | ⟨l, ls⟩ := ls
    · injection h with hnm hrs
      exact ⟨[], items, by rw [hnm]; rfl, rfl, hrs⟩
    · injection h with hl hrest
      subst hl
      obtain _ | ⟨m', items⟩ := items
      · exact absurd hrest (by simp [trailing])
      rw [trailing_cons] at hrest
      obtain _ | ⟨l', ls⟩ := ls
      · injection hrest with hsep
        exact absurd hsep hn
      · injection hrest with hl' hrest
        subst hl'
        rw [← spaced_cons] at hrest
        obtain ⟨ms, ns, hitems, rfl, rfl⟩ := ih hrest
        refine ⟨l :: ms, ns, by rw [hitems]; rfl, ?_, rfl⟩
        rw [List.reverse_cons, trailing_append, List.reverse_append]
        rfl

end Node

namespace Config

variable (cfg : Config) (item : Form) (ns : List Form)

/-- An item put beside a member adds one turn to what trails it. -/
theorem space_spacedOff_trailing :
    .whitespace cfg.separator
        :: cfg.spacedOff item (Node.trailing cfg.separator ns)
      = Node.trailing cfg.separator (item :: ns) := by
  cases ns with
  | nil => rfl
  | cons n ns => rfl

/-- An item put before a row becomes its first member. -/
theorem spacedOff_spaced {ns : List Form}
    (h : ∀ n ∈ ns, cfg.ignores n.kind = false) :
    cfg.spacedOff item (Node.spaced cfg.separator ns)
      = Node.spaced cfg.separator (item :: ns) := by
  cases ns with
  | nil => rfl
  | cons n ns =>
    rw [Node.spaced_cons_cons, Node.spaced_cons, spacedOff,
      h n List.mem_cons_self, if_neg Bool.false_ne_true]

/-- The members among what trails a member. -/
theorem filter_trailing {ns : List Form}
    (h : ∀ n ∈ ns, cfg.ignores n.kind = false) :
    (Node.trailing cfg.separator ns).filter (fun n => !cfg.ignores n.kind)
      = ns := by
  induction ns with
  | nil => rfl
  | cons n ns ih =>
    obtain ⟨hn, hns⟩ := List.forall_mem_cons.mp h
    rw [Node.trailing_cons, List.filter_cons_of_neg (by simp [ignores]),
      List.filter_cons_of_pos (by rw [hn]; rfl), ih hns]

end Config

/-! ## Insertions -/

/-- **The insertions** into a row: at either end, or beside the member with
a number. -/
inductive Insertion (α : Type) where
  /-- Before all members. -/
  | prepend (item : α)
  /-- After all members. -/
  | append (item : α)
  /-- Before the member with a number. -/
  | before (i : Nat) (item : α)
  /-- After the member with a number. -/
  | after (i : Nat) (item : α)

namespace Insertion

variable {α β : Type}

/-- What is put in. -/
def item : Insertion α → α
  | .prepend a => a
  | .append a => a
  | .before _ a => a
  | .after _ a => a

/-- The side of the focus on which it is put. -/
def side : Insertion α → Side
  | .prepend _ => .first
  | .append _ => .last
  | .before _ _ => .left
  | .after _ _ => .right

/-- **What an insertion does to the members.** -/
def apply : Insertion α → List α → List α
  | .prepend a, as => a :: as
  | .append a, as => as ++ [a]
  | .before i a, as => as.insertIdx i a
  | .after i a, as => as.insertIdx (i + 1) a

/-- What insertions one after the other do. -/
def applyAll (as : List α) (is : List (Insertion α)) : List α :=
  is.foldl (fun as ins => ins.apply as) as

theorem applyAll_append (as : List α) (is : List (Insertion α))
    (ins : Insertion α) :
    applyAll as (is ++ [ins]) = ins.apply (applyAll as is) := by
  rw [applyAll, List.foldl_append]
  rfl

/-- **Whether an insertion fits** a row of so many members: the member it
goes beside is one of them. -/
def Fits (count : Nat) : Insertion α → Prop
  | .before i _ => i < count
  | .after i _ => i < count
  | _ => True

/-- The same insertion of another item. -/
def withItem (b : β) : Insertion α → Insertion β
  | .prepend _ => .prepend b
  | .append _ => .append b
  | .before i _ => .before i b
  | .after i _ => .after i b

@[simp] theorem item_withItem (b : β) (ins : Insertion α) :
    (ins.withItem b).item = b := by
  cases ins <;> rfl

@[simp] theorem withItem_withItem {γ : Type} (b : β) (c : γ)
    (ins : Insertion α) : (ins.withItem b).withItem c = ins.withItem c := by
  cases ins <;> rfl

/-- An insertion as an action. -/
def action (ins : Insertion Value) : Action := .place ins.side ins.item

/-- An insertion into the images of the members. -/
theorem map_apply (f : α → β) (ins : Insertion α) (as : List α) :
    (ins.apply as).map f = (ins.withItem (f ins.item)).apply (as.map f) := by
  cases ins with
  | prepend a => rfl
  | append a => exact List.map_append
  | before i a => exact List.map_insertIdx f as i a
  | after i a => exact List.map_insertIdx f as (i + 1) a

/-- The members afterwards are those there were and the item. -/
theorem mem_apply {a : α} {ins : Insertion α} {as : List α}
    (h : a ∈ ins.apply as) : a = ins.item ∨ a ∈ as := by
  cases ins with
  | prepend b => exact List.mem_cons.mp h
  | append b =>
    rcases List.mem_append.mp h with h | h
    · exact .inr h
    · exact .inl (List.mem_singleton.mp h)
  | before i b => exact List.eq_or_mem_of_mem_insertIdx h
  | after i b => exact List.eq_or_mem_of_mem_insertIdx h

end Insertion

namespace Place

variable {cfg : Config} {z : Place} {k : Composite} {ns : List Form}

/-- Items put into a branch that is laid out. -/
theorem place_inside_spaced
    (hz : z.focus = .branch k (Node.spaced cfg.separator ns))
    (hns : ∀ n ∈ ns, cfg.ignores n.kind = false) (m : Form) :
    z.place cfg .first m
        = some (z.replace (.branch k (Node.spaced cfg.separator (m :: ns))))
      ∧ z.place cfg .last m
        = some (z.replace
          (.branch k (Node.spaced cfg.separator (ns ++ [m])))) := by
  have hrev : ∀ n ∈ ns.reverse, cfg.ignores n.kind = false :=
    fun n hn => hns n (List.mem_reverse.mp hn)
  unfold place withChildren
  rw [hz]
  constructor
  · rw [← cfg.spacedOff_spaced m hns]
    rfl
  · show some (Place.mk (.branch k (cfg.spacedOff m
      (Node.spaced cfg.separator ns).reverse).reverse) z.levels) = _
    rw [Node.reverse_spaced, cfg.spacedOff_spaced m hrev,
      Node.reverse_spaced, List.reverse_cons, List.reverse_reverse]
    rfl

/-- Items put beside a member of a branch that is laid out. The number of
the member is that of the significant nodes before it. -/
theorem place_beside_spaced {n : Form} {l : Level} (outer : List Level)
    (hl : l.fill n = .branch k (Node.spaced cfg.separator ns))
    (hns : ∀ n ∈ ns, cfg.ignores n.kind = false)
    (hn : cfg.ignores n.kind = false) {i : Nat}
    (hi : (l.lefts.filter fun n => !cfg.ignores n.kind).length = i)
    (m : Form) :
    (∃ l', place cfg .left m ⟨n, l :: outer⟩ = some ⟨n, l' :: outer⟩
        ∧ l'.fill n
          = .branch k (Node.spaced cfg.separator (ns.insertIdx i m)))
      ∧ ∃ l', place cfg .right m ⟨n, l :: outer⟩ = some ⟨n, l' :: outer⟩
        ∧ l'.fill n
          = .branch k (Node.spaced cfg.separator (ns.insertIdx (i + 1) m)) := by
  obtain ⟨k', ls, rs⟩ := l
  have hspace : n ≠ .whitespace cfg.separator := by
    rintro rfl
    cases hn
  injection hl with hk hrow
  obtain ⟨bs, cs, rfl, hls, rfl⟩ := Node.exists_of_spaced_eq hspace hrow
  obtain rfl : k' = k := hk
  obtain rfl : ls = Node.trailing cfg.separator bs.reverse :=
    List.reverse_injective hls
  have hbs : ∀ b ∈ bs.reverse, cfg.ignores b.kind = false := fun b hb =>
    hns b (List.mem_append_left _ (List.mem_reverse.mp hb))
  obtain rfl : bs.length = i := by
    rw [← hi, cfg.filter_trailing hbs, List.length_reverse]
  refine ⟨⟨_, rfl, ?_⟩, ⟨_, rfl, ?_⟩⟩
  · show Level.fill ⟨k', .whitespace cfg.separator :: cfg.spacedOff m _, _⟩ n
      = _
    rw [cfg.space_spacedOff_trailing, Level.insertIdx_append m rfl,
      List.append_cons, Node.spaced_append, List.reverse_append]
    rfl
  · show Level.fill ⟨k', _, .whitespace cfg.separator :: cfg.spacedOff m _⟩ n
      = _
    rw [cfg.space_spacedOff_trailing, List.append_cons bs n cs,
      Level.insertIdx_append m (by rw [List.length_append]; rfl),
      List.append_assoc, List.singleton_append, Node.spaced_append]
    rfl

end Place

/-! ## Branches that are laid out -/

/-- The form of something significant is significant. -/
theorem Literal.ignores_of_toForm {cfg : Config} {separator : Text}
    {v : Value} {n : Form} (hv : cfg.isInsignificant v = false)
    (h : toForm separator v = .ok n) : cfg.ignores n.kind = false := by
  cases v with
  | scalar s => cases h; rfl
  | bytes bs => cases h
  | foreign className mark => cases h
  | group c items =>
    obtain ⟨ns, rfl, -⟩ := exists_of_map_spaced h
    rfl
  | dict entries =>
    obtain ⟨ns, rfl, -⟩ := exists_of_map_spaced h
    rfl
  | node m => cases h; exact hv

/-- **A node is laid out** with the given members: it is a branch of the
kind, and its children are the forms of the members, all significant, with
the separator of the settings between every two of them. -/
def Config.LaysOut (cfg : Config) (separator : Text) (k : Composite)
    (vs : List Value) (n : Form) : Prop :=
  ∃ ns : List Form, vs.map (Literal.toForm separator) = ns.map .ok
    ∧ (∀ m ∈ ns, cfg.ignores m.kind = false)
    ∧ n = .branch k (Node.spaced cfg.separator ns)

namespace Config.LaysOut

variable {cfg : Config} {separator : Text} {k : Composite}
  {vs : List Value} {n : Form}

theorem of_nodes {ns : List Form}
    (hns : ∀ m ∈ ns, cfg.ignores m.kind = false) :
    cfg.LaysOut separator k (ns.map Value.node)
      (.branch k (Node.spaced cfg.separator ns)) :=
  ⟨ns, List.map_map, hns, rfl⟩

/-- **What is laid out is what the conversion makes** of a collection of
the members, if that has an order and becomes a branch of the kind. -/
theorem toForm_eq (h : cfg.LaysOut cfg.separator k vs n) {c : Collection}
    (hc : c.isOrdered = true) (hk : Literal.kindOf c = k) :
    Literal.toForm cfg.separator (.group c vs) = .ok n := by
  obtain ⟨ns, hns, -, rfl⟩ := h
  have hcollect : Literal.collect
      (ns.map .ok : List (Except ConversionError Form)) = .ok ns :=
    Literal.collect_map_eq_ok_iff.mpr (List.forall₂_same.mpr fun _ _ => rfl)
  rw [Literal.toForm_group, Literal.inOrder_of_isOrdered hc, hns, hcollect,
    hk]
  rfl

end Config.LaysOut

namespace Session

/-- **A session is at a member** of the branch at a position: at a
significant child of it, with so many significant siblings before. -/
structure IsAtMember (s : Session) (p : List Nat) (i : Nat) : Prop where
  /-- The focus is a child of what is at the position. -/
  position : ∃ j, s.IsAtPosition (p ++ [j])
  /-- It is significant. -/
  significant : s.policy.config.isInsignificant s.cursor.focus = false
  /-- The significant siblings before it. -/
  number : (s.cursor.lefts.filter fun v =>
    !s.policy.config.isInsignificant v).length = i

/-- **A session stands for an insertion** into the branch at a position:
at the branch, or at the member beside which the item goes. -/
def StandsFor (s : Session) (p : List Nat) : Insertion Value → Prop
  | .prepend _ => s.IsAtPosition p
  | .append _ => s.IsAtPosition p
  | .before i _ => s.IsAtMember p i
  | .after i _ => s.IsAtMember p i

/-- **A session grows a branch** at a position: it moves about, and where
it stands for an insertion of something significant it performs it. The
insertions are listed. -/
inductive Grows (p : List Nat) (s : Session) :
    Session → List (Insertion Value) → Prop
  /-- Nothing has been done yet. -/
  | here : Grows p s s []
  /-- A move. -/
  | move {t u : Session} {is : List (Insertion Value)} {a : Action} :
      Grows p s t is → a.onlyMoves = true →
        (t.perform a).result = .ok (some u) → Grows p s u is
  /-- An insertion. -/
  | insert {t u : Session} {is : List (Insertion Value)}
      {ins : Insertion Value} : Grows p s t is → t.StandsFor p ins →
        t.policy.config.isInsignificant ins.item = false →
          (t.perform ins.action).result = .ok (some u) →
            Grows p s u (is ++ [ins])

variable {s : Session} {policy : Policy} {z : Place} {p : List Nat}
  {k : Composite} {ns : List Form} {separator : Text}

/-- A session in a branch is at a member of it, if its focus is
significant, and the level around the focus says at which. -/
theorem StandsAt.isAtMember_iff {n : Form} {l : Level} {outer : List Level}
    (hs : s.StandsAt policy ⟨n, l :: outer⟩) {i : Nat} :
    s.IsAtMember p i ↔ Place.gap outer = p
      ∧ policy.config.ignores n.kind = false
      ∧ (l.lefts.filter fun n => !policy.config.ignores n.kind).length
        = i := by
  have hposition : ∀ {j}, s.IsAtPosition (p ++ [j])
      ↔ Place.gap outer = p ∧ l.lefts.length = j := by
    intro j
    rw [hs.isAtPosition_iff, Place.index, Place.gap_cons,
      List.append_singleton_inj]
  obtain ⟨shape, policy', c⟩ := s
  obtain ⟨rfl, rfl, hat⟩ := hs
  have hnumber : (c.lefts.filter fun v =>
        !policy'.config.isInsignificant v).length
      = (l.lefts.filter fun n => !policy'.config.ignores n.kind).length := by
    obtain ⟨focus, path⟩ := c
    cases hat.follows with
    | @inside f path _ _ _ old hf hpath =>
      show (f.lefts.filter _).length = _
      rw [hf.lefts_eq, List.filter_map, List.length_map,
        List.filter_reverse, List.length_reverse]
      rfl
  have hfocus : policy'.config.isInsignificant c.focus
      = policy'.config.ignores n.kind := by
    rw [hat.focus_eq]
    rfl
  constructor
  · rintro ⟨⟨j, hj⟩, hsignificant, rfl⟩
    exact ⟨(hposition.mp hj).1, hfocus.symm.trans hsignificant,
      hnumber.symm⟩
  · rintro ⟨hgap, hn, rfl⟩
    exact ⟨⟨_, hposition.mpr ⟨hgap, rfl⟩⟩, hfocus.trans hn, hnumber⟩

/-- At a member of the branch at a position, the place is inside that
branch. -/
theorem StandsAt.exists_level (hs : s.StandsAt policy z) {i : Nat}
    (h : s.IsAtMember p i) :
    ∃ n l outer, z = ⟨n, l :: outer⟩ ∧ Place.gap outer = p
      ∧ policy.config.ignores n.kind = false
      ∧ (l.lefts.filter fun n => !policy.config.ignores n.kind).length
        = i := by
  obtain ⟨n, _ | ⟨l, outer⟩⟩ := z
  · obtain ⟨j, hj⟩ := h.position
    exact absurd (hs.isAtPosition_iff.mp hj).symm
      (by simp [Place.index, Place.gap])
  · exact ⟨n, l, outer, rfl, hs.isAtMember_iff.mp h⟩

/-- **What an insertion does to a branch that is laid out**: the row stays
laid out, with the item among the members. -/
theorem StandsAt.exists_place (hs : s.StandsAt policy z)
    (hat : z.whole.at? p
      = some (.branch k (Node.spaced policy.config.separator ns)))
    (hns : ∀ n ∈ ns, policy.config.ignores n.kind = false)
    {ins : Insertion Value} (h : s.StandsFor p ins) (m : Form) :
    ∃ x, z.place policy.config ins.side m = some x
      ∧ Node.substitute (.branch k (Node.spaced policy.config.separator
          ((ins.withItem m).apply ns))) z.whole p = some x.whole := by
  have hinside : s.IsAtPosition p →
      z.focus = .branch k (Node.spaced policy.config.separator ns)
        ∧ ∀ b, Node.substitute b z.whole p = some (z.replace b).whole := by
    intro hp
    obtain rfl : z.index = p := hs.isAtPosition_iff.mp hp
    exact ⟨Option.some_inj.mp (z.at?_whole.symm.trans hat),
      Place.substitute_fillAll z.levels z.focus⟩
  have hbeside : ∀ {i}, s.IsAtMember p i → ∃ n l outer,
      z = ⟨n, l :: outer⟩ ∧ policy.config.ignores n.kind = false
        ∧ (l.lefts.filter fun n => !policy.config.ignores n.kind).length = i
        ∧ l.fill n = .branch k (Node.spaced policy.config.separator ns)
        ∧ ∀ l' : Level, Node.substitute (l'.fill n) z.whole p
          = some (Place.mk n (l' :: outer)).whole := by
    intro i hi
    obtain ⟨n, l, outer, rfl, rfl, hn, hi⟩ := hs.exists_level hi
    have hparent := Place.at?_whole ⟨l.fill n, outer⟩
    exact ⟨n, l, outer, rfl, hn, hi,
      Option.some_inj.mp (hparent.symm.trans hat),
      fun l' => Place.substitute_fillAll outer (l.fill n) (l'.fill n)⟩
  cases ins with
  | prepend v =>
    obtain ⟨hz, hreplace⟩ := hinside h
    exact ⟨_, (Place.place_inside_spaced hz hns m).1, hreplace _⟩
  | append v =>
    obtain ⟨hz, hreplace⟩ := hinside h
    exact ⟨_, (Place.place_inside_spaced hz hns m).2, hreplace _⟩
  | before i v =>
    obtain ⟨n, l, outer, rfl, hn, hi, hl, hreplace⟩ := hbeside h
    obtain ⟨l', hplace, hl'⟩ :=
      (Place.place_beside_spaced outer hl hns hn hi m).1
    exact ⟨_, hplace, hl' ▸ hreplace l'⟩
  | after i v =>
    obtain ⟨n, l, outer, rfl, hn, hi, hl, hreplace⟩ := hbeside h
    obtain ⟨l', hplace, hl'⟩ :=
      (Place.place_beside_spaced outer hl hns hn hi m).2
    exact ⟨_, hplace, hl' ▸ hreplace l'⟩

/-- The place of a member in a row that is laid out can be reached. -/
theorem StandsAt.exists_wanders_member (hs : s.StandsAt policy z)
    (hat : z.whole.at? p
      = some (.branch k (Node.spaced policy.config.separator ns)))
    (hns : ∀ n ∈ ns, policy.config.ignores n.kind = false) {i : Nat}
    (hi : i < ns.length) : ∃ t, s.Wanders t ∧ t.IsAtMember p i := by
  obtain ⟨-, y, -, -, hwhole, rfl⟩ :=
    hs.exists_wanders_position (p := p) (by rw [hat]; rfl)
  rw [← hwhole] at hat
  obtain ⟨bs, n, cs, rfl, rfl⟩ : ∃ bs n cs, ns = bs ++ n :: cs
      ∧ bs.length = i :=
    ⟨ns.take i, ns[i], ns.drop (i + 1),
      by rw [List.getElem_cons_drop, List.take_append_drop],
      by rw [List.length_take]; omega⟩
  have hbs : ∀ b ∈ bs.reverse, policy.config.ignores b.kind = false :=
    fun b hb => hns b (List.mem_append_left _ (List.mem_reverse.mp hb))
  -- the row of the branch, parted at the member
  let l : Level := ⟨k, Node.trailing policy.config.separator bs.reverse,
    Node.trailing policy.config.separator cs⟩
  have hfill : l.fill n = y.focus := by
    rw [← Option.some_inj.mp (hat.symm.trans y.at?_whole),
      Node.spaced_append]
    rfl
  have hmem : Place.mk n (l :: y.levels) ∈ Place.walk z.whole := by
    have hself := Place.walk_eq ⟨n, l :: y.levels⟩
    rw [Place.whole, Place.fillAll, hfill] at hself
    rw [← hwhole, Place.whole, hself]
    exact List.mem_append_right _ List.mem_cons_self
  obtain ⟨t, ht, hty⟩ := hs.exists_wanders hmem
  refine ⟨t, ht, hty.isAtMember_iff.mpr ⟨rfl, hns n (by simp), ?_⟩⟩
  rw [policy.config.filter_trailing hbs, List.length_reverse]

/-- **Every insertion that fits can be stood for.** -/
theorem StandsAt.exists_wanders_standsFor (hs : s.StandsAt policy z)
    (hat : z.whole.at? p
      = some (.branch k (Node.spaced policy.config.separator ns)))
    (hns : ∀ n ∈ ns, policy.config.ignores n.kind = false)
    {ins : Insertion Value} (hins : ins.Fits ns.length) :
    ∃ t, s.Wanders t ∧ t.StandsFor p ins := by
  have hinside : ∃ t, s.Wanders t ∧ t.IsAtPosition p := by
    obtain ⟨t, y, ht, hty, -, hindex⟩ :=
      hs.exists_wanders_position (p := p) (by rw [hat]; rfl)
    exact ⟨t, ht, hty.isAtPosition_iff.mpr hindex⟩
  cases ins with
  | prepend v => exact hinside
  | append v => exact hinside
  | before i v => exact hs.exists_wanders_member hat hns hins
  | after i v => exact hs.exists_wanders_member hat hns hins

/-- **What comes of an insertion** into a branch that is laid out: it
fails if the item has no form, and leads to the tree with the form among
the members otherwise. -/
theorem StandsAt.insertion_cases (hs : s.StandsAt policy z)
    (hpolicy : policy.converter = .literal separator)
    (hat : z.whole.at? p
      = some (.branch k (Node.spaced policy.config.separator ns)))
    (hns : ∀ n ∈ ns, policy.config.ignores n.kind = false)
    {ins : Insertion Value} (h : s.StandsFor p ins) :
    (∃ m t x, Literal.toForm separator ins.item = .ok m
        ∧ (s.perform ins.action).result = .ok (some t)
        ∧ t.StandsAt policy x
        ∧ Node.substitute (.branch k (Node.spaced policy.config.separator
          ((ins.withItem m).apply ns))) z.whole p = some x.whole)
      ∨ ∃ e, Literal.toForm separator ins.item = .error e
        ∧ (s.perform ins.action).result = .error (.conversion e) := by
  have hgo : Cursor.GoesLike (s.outcome ins.action)
      ((Literal.formFor separator ins.item).map fun n =>
        z.place policy.config ins.side n) := by
    obtain ⟨shape, policy', c⟩ := s
    obtain ⟨rfl, rfl, hc⟩ := hs
    exact hc.surface hpolicy (.place ins.side ins.item)
  have hanswer := hs.answers hgo
  generalize (s.perform ins.action).result = r at hanswer
  unfold Literal.formFor at hanswer
  cases hform : Literal.toForm separator ins.item with
  | error e =>
    rw [hform] at hanswer
    cases hanswer
    exact .inr ⟨e, rfl, rfl⟩
  | ok m =>
    obtain ⟨x, hx, hwhole⟩ := hs.exists_place hat hns h m
    rw [hform] at hanswer
    change Answers policy (.ok (z.place policy.config ins.side m)) r at hanswer
    rw [hx] at hanswer
    cases hanswer with
    | somewhere ht => exact .inl ⟨m, _, x, rfl, rfl, ht, hwhole⟩

/-- **A session that grows a branch** stands in the tree with the branch
laid out, its members those that the insertions make. -/
theorem Grows.laysOut {tree : Form} {items : List Form}
    (hpolicy : policy.converter = .literal separator)
    (hitems : ∀ n ∈ items, policy.config.ignores n.kind = false)
    (htree : tree.at? p
      = some (.branch k (Node.spaced policy.config.separator items)))
    {is : List (Insertion Value)}
    (h : (start .forms policy (.node tree)).Grows p s is) :
    ∃ z n, s.StandsAt policy z
      ∧ policy.config.LaysOut separator k
        (Insertion.applyAll (items.map Value.node) is) n
      ∧ Node.substitute n tree p = some z.whole := by
  induction h with
  | here =>
    exact ⟨⟨tree, []⟩, _, standsAt_start policy tree, .of_nodes hitems,
      Node.substitute_eq_self htree⟩
  | move _ ha hu ih =>
    obtain ⟨z, n, ht, hn, hwhole⟩ := ih
    obtain ⟨y, hy, hyz⟩ := Wanders.standsAt (.step .here ha hu) ht
    exact ⟨y, n, hy, hn, hyz ▸ hwhole⟩
  | @insert t u is ins _ hfor hitem hu ih =>
    obtain ⟨z, n, ht, hn, hwhole⟩ := ih
    obtain ⟨ns, hforms, hns, rfl⟩ := hn
    rcases ht.insertion_cases hpolicy (Node.at?_substitute_self hwhole) hns
      hfor with ⟨m, u', x, hm, hu', hx, hsub⟩ | ⟨e, -, he⟩
    · cases hu.symm.trans hu'
      rw [ht.policy_eq] at hitem
      refine ⟨x, _, hx, ⟨(ins.withItem m).apply ns, ?_, ?_, rfl⟩, ?_⟩
      · rw [Insertion.applyAll_append, Insertion.map_apply, hforms, hm,
          Insertion.map_apply, Insertion.item_withItem,
          Insertion.withItem_withItem]
      · intro b hb
        rcases Insertion.mem_apply hb with rfl | hb
        · rw [Insertion.item_withItem]
          exact Literal.ignores_of_toForm hitem hm
        · exact hns b hb
      · rw [← Node.substitute_substitute hwhole, hsub]
    · cases hu.symm.trans he

/-- **Insertion and conversion agree on the layout of a row.** A branch of
significant items with separators between them stays such a branch while
items are put into it, in any number and any order: what the insertions
do to its members is what they do to a list. If the converter has the
separator of the settings, the branch is what an ordered collection of the
members is converted to. From there the session can go on: it can wander
to where it stands for any insertion that fits, and an insertion it stands
for succeeds, unless the item has no form. -/
theorem layout_of_grows {tree : Form} {items : List Form}
    (hpolicy : policy.converter = .literal separator)
    (hitems : ∀ n ∈ items, policy.config.ignores n.kind = false)
    (htree : tree.at? p
      = some (.branch k (Node.spaced policy.config.separator items)))
    {is : List (Insertion Value)}
    (h : (start .forms policy (.node tree)).Grows p s is) :
    ∃ n whole, policy.config.LaysOut separator k
        (Insertion.applyAll (items.map Value.node) is) n
      ∧ Node.substitute n tree p = some whole
      ∧ s.root = .ok (.node whole)
      ∧ (separator = policy.config.separator → ∀ c : Collection,
        c.isOrdered = true → Literal.kindOf c = k →
          Literal.toForm separator
            (.group c (Insertion.applyAll (items.map Value.node) is)) = .ok n)
      ∧ (∀ ins : Insertion Value,
        ins.Fits (Insertion.applyAll (items.map Value.node) is).length →
          ∃ t, s.Wanders t ∧ t.StandsFor p ins)
      ∧ ∀ ins, s.StandsFor p ins →
        (∃ t, (s.perform ins.action).result = .ok (some t))
          ∨ ∃ e, Literal.toForm separator ins.item = .error e
            ∧ (s.perform ins.action).result = .error (.conversion e) := by
  obtain ⟨z, n, hs, hn, hwhole⟩ := h.laysOut hpolicy hitems htree
  refine ⟨n, z.whole, hn, hwhole, hs.root_eq, ?_, ?_⟩
  · rintro rfl c hc hk
    exact hn.toForm_eq hc hk
  · obtain ⟨ns, hforms, hns, rfl⟩ := hn
    have hat := Node.at?_substitute_self hwhole
    refine ⟨fun ins hins => ?_, fun ins hins => ?_⟩
    · have hlength := congrArg List.length hforms
      rw [List.length_map, List.length_map] at hlength
      exact hs.exists_wanders_standsFor hat hns (hlength ▸ hins)
    · rcases hs.insertion_cases hpolicy hat hns hins with
        ⟨m, t, x, -, ht, -⟩ | hfails
      · exact .inl ⟨t, ht⟩
      · exact .inr hfails

/-- An empty vector, with line breaks to go between its members, is built
up from the middle: the `2`, the `1` before it and the `3` after it. It is
what the list of the three is converted to. -/
theorem layout_of_grows_middle :
    ∃ s, (start .forms (.choose (some ⟨"\n", true, by decide⟩) none)
        (.node (.branch .vector []))).Grows [] s
          [.append (.int 2), .before 0 (.int 1), .after 1 (.int 3)]
      ∧ ∃ n, Literal.toForm "\n" (.list [.int 1, .int 2, .int 3]) = .ok n
        ∧ s.root = .ok (.node n) := by
  have hgrows : ∃ s, (start .forms
      (.choose (some ⟨"\n", true, by decide⟩) none)
      (.node (.branch .vector []))).Grows [] s
        [.append (.int 2), .before 0 (.int 1), .after 1 (.int 3)] := by
    refine ⟨_, .insert (.insert (.move (.insert .here ?_ rfl rfl)
      (a := .move (.plain .down)) rfl rfl) ?_ rfl rfl) ?_ rfl rfl⟩
    · exact rfl
    · exact ⟨⟨0, rfl⟩, rfl, rfl⟩
    · exact ⟨⟨2, rfl⟩, rfl, rfl⟩
  have hitems : ∀ n ∈ ([] : List Form),
      (Config.mk "\n" true (by decide)).ignores n.kind = false :=
    fun _ h => nomatch h
  obtain ⟨s, hs⟩ := hgrows
  obtain ⟨n, whole, -, hwhole, hroot, hform, -⟩ :=
    layout_of_grows rfl hitems rfl hs
  cases hwhole
  exact ⟨s, hs, n, hform rfl .list rfl rfl, hroot⟩

end Session

end FormTree
