import FormTree.Proofs.Place

/-!
# Where a cursor stands

A cursor over forms **is at** a place when its frames record the ancestors
of that place (`Cursor.IsAt`). This is the one invariant behind everything
that is said about cursors, and it has to say how far a frame may be out
of date:

* the innermost row is always right, with the focus in it;
* the recorded parent is the ancestor as it was when the cursor went in,
  and if the frame is not marked as changed it still is;
* the entry of an outer row for the ancestor inside it is that recorded
  parent, so it is as old as the record.

A mark is needed on the innermost edited frame only. The frames outside
may be unmarked although the tree below them has changed, and going up
then marks them one after the other.

Every operation takes a cursor at a place to a cursor at the place where
the same operation on places leads, and leads nowhere only if that does
(`Arrives`). So whatever depends on the place alone can be proved about
places, where nothing is recorded.
-/

namespace FormTree

/-- A branch of forms is made from any row of nodes. -/
theorem Shape.forms_make (k : Composite) (old new : List Form) :
    Shape.forms.make (.node (.branch k old)) (.ofList (new.map Value.node))
      = .ok (.node (.branch k new)) := by
  show (liftStructural (Form.rebuild _ _)).map Value.node = _
  rw [Form.rebuild_branch]
  rfl

namespace Frame

/-- **A frame records a level** around a node. The children that the
recorded parent has are `old`; they are the present ones unless the frame
is marked as changed. -/
structure Records (f : Frame Value) (l : Level) (n : Form)
    (old : List Form) : Prop where
  /-- The row is up to date. -/
  row_eq : f.row = .ofList ((l.row n).map Value.node)
  /-- The place in the row is the gap of the level. -/
  index_eq : f.index = l.lefts.length
  /-- The recorded parent is of the right kind. -/
  parent_eq : f.parent = .node (.branch l.kind old)
  /-- An unchanged row is the row of the recorded parent. -/
  eq_of_unchanged : f.changed = false → old = l.row n

namespace Records

variable {f : Frame Value} {l : Level} {n : Form} {old : List Form}

theorem siblings_eq (h : f.Records l n old) :
    f.siblings = (l.row n).map Value.node := by
  rw [siblings, h.row_eq, Row.items_ofList]

theorem length_siblings (h : f.Records l n old) :
    f.siblings.length = l.lefts.length + l.rights.length + 1 := by
  rw [h.siblings_eq, List.length_map, Level.length_row]

theorem lefts_eq (h : f.Records l n old) :
    f.lefts = l.lefts.reverse.map Value.node := by
  rw [lefts_of_index h.index_eq, h.siblings_eq, ← List.map_take,
    Level.take_row]

theorem rights_eq (h : f.Records l n old) :
    f.rights = l.rights.map Value.node := by
  rw [rights_of_index h.index_eq, h.siblings_eq, ← List.map_drop,
    Level.drop_succ_row]

/-- An edited row is recorded, whatever it was before: the frame is
marked. -/
theorem edited (h : f.Records l n old) {m : Level} {n' : Form}
    {items : List Value} {i : Int} (hk : m.kind = l.kind)
    (hi : i = m.lefts.length)
    (hitems : items = (m.row n').map Value.node) :
    ((f.withSiblings items).atIndex i).Records m n' old where
  row_eq := by rw [hitems]; rfl
  index_eq := hi
  parent_eq := by rw [hk]; exact h.parent_eq
  eq_of_unchanged := fun hc => by cases hc

/-- Another entry for the focus is recorded. -/
theorem withFocus (h : f.Records l n old) (m : Form) :
    (f.withFocus (.node m)).Records l m old := by
  refine ⟨?_, h.index_eq, h.parent_eq, fun hc => by cases hc⟩
  show Row.ofList (f.lefts ++ .node m :: f.rights) = _
  rw [h.lefts_eq, h.rights_eq, Level.row, List.map_append, List.map_cons]

/-- The same row at another place is recorded. -/
theorem atIndex (h : f.Records l n old) {m : Form} {ms : List Form}
    {i : Nat} (hrow : (l.row n).drop i = m :: ms) :
    (f.atIndex i).Records
      ⟨l.kind, ((l.row n).take i).reverse, ms⟩ m old := by
  have hsplit : Level.row ⟨l.kind, ((l.row n).take i).reverse, ms⟩ m
      = l.row n := by
    have hfill := Level.fill_split hrow
    injection hfill
  have hi : i ≤ (l.row n).length := by
    have hlen := congrArg List.length hrow
    rw [List.length_drop, List.length_cons] at hlen
    omega
  refine ⟨?_, ?_, h.parent_eq, ?_⟩
  · rw [hsplit]
    exact h.row_eq
  · show (i : Int) = _
    rw [List.length_reverse, List.length_take, Nat.min_eq_left hi]
  · rw [hsplit]
    exact h.eq_of_unchanged

end Records

end Frame

namespace Cursor

/-- **A path of frames follows the ancestors** around a node. -/
inductive Follows : List (Frame Value) → List Level → Form → Prop
  /-- At the root there is nothing to follow. -/
  | root (n : Form) : Follows [] [] n
  /-- The frames further out follow the ancestors of the recorded
  parent. -/
  | inside {f : Frame Value} {path : List (Frame Value)} {l : Level}
      {outer : List Level} {n : Form} {old : List Form} :
      f.Records l n old → Follows path outer (.branch l.kind old) →
        Follows (f :: path) (l :: outer) n

/-- **The cursor is at a place.** -/
structure IsAt (c : Cursor Value) (z : Place) : Prop where
  /-- The focus is the node there. -/
  focus_eq : c.focus = .node z.focus
  /-- The frames follow the ancestors. -/
  follows : Follows c.path z.levels z.focus

/-- **An attempt arrives** where a move of places leads: nowhere if that
leads nowhere, and else at the place. -/
def Arrives (a : Attempt Failure (Cursor Value)) (o : Option Place) :
    Prop :=
  match o with
  | none => a = .ok none
  | some z => ∃ c, a = .ok (some c) ∧ c.IsAt z

/-- The cursor at the root of a tree is at the root. -/
theorem isAt_atRoot (n : Form) : (atRoot (.node n)).IsAt ⟨n, []⟩ :=
  ⟨rfl, .root n⟩

/-- **A replaced node is followed** by the frames with the new entry. -/
theorem Follows.refocus {path : List (Frame Value)} {levels : List Level}
    {n : Form} (h : Follows path levels n) (m : Form) :
    Follows (refocus (.node m) path) levels m := by
  cases h with
  | root => exact .root m
  | inside hf hpath => exact .inside (hf.withFocus m) hpath

namespace IsAt

variable {c : Cursor Value} {z : Place}

theorem arrives (h : c.IsAt z) : Arrives (.ok (some c)) (some z) :=
  ⟨c, rfl, h⟩

/-! ## Moves between levels -/

/-- The children of the focus are those of the node. -/
theorem children?_eq (h : c.IsAt z) :
    c.children? .forms
      = match z.focus with
        | .branch _ cs => some (cs.map Value.node)
        | _ => none := by
  unfold children?
  rw [h.focus_eq]
  cases z.focus <;> rfl

theorem down (h : c.IsAt z) : Arrives (.ok (c.down .forms)) z.down := by
  unfold Cursor.down Place.down
  rw [h.children?_eq]
  cases hz : z.focus with
  | branch k cs =>
    cases cs with
    | nil => rfl
    | cons n ns =>
      refine ⟨_, rfl, rfl, .inside ⟨rfl, rfl, ?_, fun _ => rfl⟩ ?_⟩
      · rw [h.focus_eq, hz]
        rfl
      · show Follows c.path z.levels (.branch k (n :: ns))
        rw [← hz]
        exact h.follows
  | _ => rfl

theorem downLast (h : c.IsAt z) :
    Arrives (.ok (c.downLast .forms)) z.downLast := by
  unfold Cursor.downLast Place.downLast
  rw [h.children?_eq]
  cases hz : z.focus with
  | branch k cs =>
    simp only
    cases hcs : cs.reverse with
    | nil =>
      rw [List.reverse_eq_nil_iff.mp hcs]
      rfl
    | cons n ns =>
      have hrow : cs = Level.row ⟨k, ns, []⟩ n := by
        rw [← List.reverse_reverse cs, hcs, List.reverse_cons]
        rfl
      have hlast : (cs.map Value.node).getLast? = some (.node n) := by
        rw [List.getLast?_map, List.getLast?_eq_head?_reverse, hcs]
        rfl
      rw [hlast]
      refine ⟨_, rfl, rfl, .inside ⟨?_, ?_, ?_, fun _ => hrow⟩ ?_⟩
      · rw [hrow]
      · rw [hrow, List.length_map, Level.length_row]
        rfl
      · rw [h.focus_eq, hz]
      · rw [← hz]
        exact h.follows
  | _ => rfl

/-- **Going up arrives at the parent**, made anew or as recorded. -/
theorem up (h : c.IsAt z) : Arrives (c.up .forms) z.up := by
  obtain ⟨focus, path⟩ := c
  obtain ⟨n, levels⟩ := z
  cases h.follows with
  | root => rfl
  | @inside f path l outer _ old hf hpath =>
    unfold Cursor.up
    cases hc : f.changed with
    | false =>
      refine ⟨⟨f.parent, path⟩, ?_, ?_, ?_⟩
      · simp only [hc, Bool.false_eq_true, if_false]
      · rw [hf.parent_eq, hf.eq_of_unchanged hc]
        rfl
      · show Follows path outer (.branch l.kind (l.row n))
        rw [← hf.eq_of_unchanged hc]
        exact hpath
    | true =>
      refine ⟨⟨.node (l.fill n), refocus (.node (l.fill n)) path⟩,
        ?_, rfl, hpath.refocus (l.fill n)⟩
      simp only [hc, if_true]
      rw [hf.parent_eq, hf.row_eq, Shape.forms_make]
      rfl

/-- **The tree a cursor stands for** is the tree its place is in. -/
theorem root_eq (h : c.IsAt z) :
    c.root .forms = .ok (.node z.whole) := by
  obtain ⟨n, levels⟩ := z
  -- every step up leaves a level, and the tree stays the same
  induction levels generalizing c n with
  | nil =>
    obtain ⟨focus, path⟩ := c
    cases h.follows
    obtain rfl : focus = .node n := h.focus_eq
    exact root_atRoot .forms _
  | cons l outer ih =>
    obtain ⟨p, hp, hat⟩ := h.up
    rw [root_of_up hp]
    exact ih (l.fill n) hat

/-- **The indices of the frames** give the position of the place. -/
theorem index_eq (h : c.IsAt z) :
    (c.path.map Frame.index).reverse = z.index.map Int.ofNat := by
  rw [Place.index, Place.gap, List.map_reverse]
  congr 1
  obtain ⟨focus, path⟩ := c
  obtain ⟨n, levels⟩ := z
  have hf := h.follows
  clear h
  simp only at hf ⊢
  induction hf with
  | root => rfl
  | inside hf _ ih =>
    rw [List.map_cons, List.map_cons, List.map_cons, ih, hf.index_eq]
    rfl

/-! ## Moves among siblings -/

theorem toSibling (h : c.IsAt z) {i : Nat} {y : Place}
    (hy : z.sibling? i = some y) :
    Arrives (c.toSibling .forms i) (some y) := by
  obtain ⟨focus, path⟩ := c
  obtain ⟨n, levels⟩ := z
  cases h.follows with
  | root => cases hy
  | @inside f path l outer _ old hf hpath =>
    unfold Place.sibling? at hy
    simp only at hy
    split at hy
    · cases hy
    · next m ms hrow =>
      cases hy
      have hm : (l.row n)[i]? = some m := by
        rw [← List.head?_drop, hrow]
        rfl
      have hs : f.sibling? i = some (.node m) := by
        rw [Frame.sibling?_natCast, hf.siblings_eq, List.getElem?_map, hm]
        rfl
      refine ⟨⟨.node m, f.atIndex i :: path⟩, ?_, rfl,
        .inside (hf.atIndex hrow) hpath⟩
      unfold Cursor.toSibling
      simp only [hs]

theorem right (h : c.IsAt z) : Arrives (c.right .forms) z.right := by
  obtain ⟨focus, path⟩ := c
  obtain ⟨n, levels⟩ := z
  cases hfol : h.follows with
  | root => rfl
  | @inside f path l outer _ old hf hpath =>
    have hi : f.index + 1 = ((l.lefts.length + 1 : Nat) : Int) := by
      rw [hf.index_eq]
      rfl
    have hlen := hf.length_siblings
    unfold Cursor.right
    simp only [hi]
    cases hr : l.rights with
    | nil =>
      rw [hr, List.length_nil] at hlen
      rw [if_pos (by omega)]
      obtain ⟨k, ls, rs⟩ := l
      obtain rfl : rs = [] := hr
      rfl
    | cons r rs =>
      rw [hr, List.length_cons] at hlen
      rw [if_neg (by omega)]
      obtain ⟨y, hy⟩ : ∃ y, Place.right ⟨n, l :: outer⟩ = some y := by
        obtain ⟨k, ls, rs'⟩ := l
        obtain rfl : rs' = r :: rs := hr
        exact ⟨_, rfl⟩
      rw [hy]
      rw [Place.right_eq_sibling?] at hy
      exact h.toSibling hy

theorem left (h : c.IsAt z) : Arrives (c.left .forms) z.left := by
  obtain ⟨focus, path⟩ := c
  obtain ⟨n, levels⟩ := z
  cases hfol : h.follows with
  | root => rfl
  | @inside f path l outer _ old hf hpath =>
    obtain ⟨k, ls, rs⟩ := l
    have hi := hf.index_eq
    unfold Cursor.left
    cases ls with
    | nil =>
      simp only [hi, List.length_nil, Int.ofNat_zero, if_true]
      rfl
    | cons m ls =>
      have hne : f.index ≠ 0 := by
        rw [hi, List.length_cons]
        omega
      have hpred : f.index - 1 = (ls.length : Nat) := by
        rw [hi, List.length_cons]
        omega
      simp only [hpred, if_neg hne]
      rw [show Place.left ⟨n, ⟨k, m :: ls, rs⟩ :: outer⟩ = some _ from rfl]
      exact h.toSibling (Place.left_eq_sibling? n m k ls rs outer).symm

theorem leftmost (h : c.IsAt z) :
    Arrives (c.leftmost .forms) z.leftmost := by
  obtain ⟨focus, path⟩ := c
  obtain ⟨n, levels⟩ := z
  cases hfol : h.follows with
  | root => rfl
  | @inside f path l outer _ old hf hpath =>
    unfold Cursor.leftmost Place.leftmost
    by_cases hzero : f.index = 0
    · have hls : l.lefts.length = 0 := by
        have hi := hf.index_eq
        omega
      simp only [if_pos hzero]
      rw [← hls, Place.sibling?_self]
      exact h.arrives
    · simp only [if_neg hzero]
      obtain ⟨y, hy⟩ := Place.exists_sibling? (i := 0) n l outer (by simp)
      rw [hy]
      exact h.toSibling hy

theorem rightmost (h : c.IsAt z) :
    Arrives (c.rightmost .forms) z.rightmost := by
  obtain ⟨focus, path⟩ := c
  obtain ⟨n, levels⟩ := z
  cases hfol : h.follows with
  | root => rfl
  | @inside f path l outer _ old hf hpath =>
    have hi := hf.index_eq
    have hlast : (f.siblings.length : Int) - 1
        = ((l.lefts.length + l.rights.length : Nat) : Int) := by
      rw [hf.length_siblings]
      omega
    unfold Cursor.rightmost Place.rightmost
    simp only [hlast]
    by_cases hself : f.index = ((l.lefts.length + l.rights.length : Nat) : Int)
    · have hrs : l.lefts.length + l.rights.length = l.lefts.length := by
        omega
      rw [if_pos hself, hrs, Place.sibling?_self]
      exact h.arrives
    · rw [if_neg hself]
      obtain ⟨y, hy⟩ := Place.exists_sibling?
        (i := l.lefts.length + l.rights.length) n l outer (by simp)
      rw [hy]
      exact h.toSibling hy

/-! ## Moves in document order -/

theorem after (h : c.IsAt z) :
    Arrives (c.after .forms) (Place.after z.levels z.focus) := by
  obtain ⟨n, levels⟩ := z
  -- climbing: either there is a sibling to the right, or a level is left
  induction levels generalizing c n with
  | nil =>
    have hr : c.right .forms = .ok none := h.right
    have hu : c.up .forms = .ok none := h.up
    rw [Cursor.after, hr]
    simp only
    split
    · next hu' => rw [hu] at hu'; cases hu'
    · rfl
    · next hu' => rw [hu] at hu'; cases hu'
  | cons l outer ih =>
    obtain ⟨k, ls, rs⟩ := l
    cases rs with
    | nil =>
      have hr : c.right .forms = .ok none := h.right
      obtain ⟨p, hp, hat⟩ := h.up
      rw [Cursor.after, hr]
      simp only
      split
      · next hp' => rw [hp] at hp'; cases hp'
      · next hp' => rw [hp] at hp'; cases hp'
      · next q hp' =>
        rw [hp] at hp'
        cases hp'
        exact ih (Level.fill ⟨k, ls, []⟩ n) hat
    | cons r rs =>
      obtain ⟨d, hd, hat⟩ := h.right
      rw [Cursor.after, hd]
      exact hat.arrives

theorem next (h : c.IsAt z) : Arrives (c.next .forms) z.next := by
  have hdown := h.down
  unfold Cursor.next Place.next
  cases hz : z.down with
  | none =>
    rw [hz] at hdown
    obtain hd : c.down .forms = none := by injection hdown
    rw [hd]
    exact h.after
  | some y =>
    rw [hz] at hdown
    obtain ⟨d, hd, hat⟩ := hdown
    obtain hd : c.down .forms = some d := by injection hd
    rw [hd]
    exact hat.arrives

theorem lastPlace (h : c.IsAt z) :
    (c.lastPlace .forms).IsAt z.lastPlace := by
  fun_induction Place.lastPlace z generalizing c with
  | case1 z hz =>
    have hlast := h.downLast
    rw [hz] at hlast
    obtain hd : c.downLast .forms = none := by injection hlast
    rw [Cursor.lastPlace]
    split
    · exact h
    · next hd' => rw [hd] at hd'; cases hd'
  | case2 z y hz _ ih =>
    have hlast := h.downLast
    rw [hz] at hlast
    obtain ⟨d, hd, hat⟩ := hlast
    obtain hd : c.downLast .forms = some d := by injection hd
    rw [Cursor.lastPlace]
    split
    · next hd' => rw [hd] at hd'; cases hd'
    · next hd' =>
      rw [hd] at hd'
      cases hd'
      exact ih hat

theorem prev (h : c.IsAt z) : Arrives (c.prev .forms) z.prev := by
  have hleft := h.left
  unfold Cursor.prev Place.prev
  cases hz : z.left with
  | none =>
    rw [hz] at hleft
    rw [show c.left .forms = .ok none from hleft]
    exact h.up
  | some y =>
    rw [hz] at hleft
    obtain ⟨l, hl, hat⟩ := hleft
    rw [hl]
    exact hat.lastPlace.arrives

/-- **Every step of a cursor arrives** where the step of places leads. -/
theorem step (h : c.IsAt z) (d : Direction) :
    Arrives (d.step .forms c) (z.step d) := by
  cases d with
  | down => exact h.down
  | up => exact h.up
  | left => exact h.left
  | right => exact h.right
  | leftmost => exact h.leftmost
  | rightmost => exact h.rightmost
  | next => exact h.next
  | prev => exact h.prev

/-! ## Edits -/

theorem replace (h : c.IsAt z) (n : Form) :
    (c.replace (.node n)).IsAt (z.replace n) :=
  ⟨rfl, h.follows.refocus n⟩

theorem insertLeft (h : c.IsAt z) (m : Form) :
    Arrives (.ok (c.insertLeft (.node m))) (z.insertLeft m) := by
  obtain ⟨focus, path⟩ := c
  obtain ⟨n, levels⟩ := z
  cases hfol : h.follows with
  | root => rfl
  | @inside f path l outer _ old hf hpath =>
    refine ⟨_, rfl, h.focus_eq, .inside (hf.edited rfl ?_ ?_) hpath⟩
    · rw [hf.index_eq]
      rfl
    · show f.siblings.take (f.before f.index) ++ Value.node m
        :: f.siblings.drop (f.before f.index) = _
      rw [hf.index_eq, Frame.before_natCast, hf.siblings_eq, ← List.map_take,
        ← List.map_drop, Level.take_row, Level.drop_row]
      simp [Level.row]

theorem insertRight (h : c.IsAt z) (m : Form) :
    Arrives (.ok (c.insertRight (.node m))) (z.insertRight m) := by
  obtain ⟨focus, path⟩ := c
  obtain ⟨n, levels⟩ := z
  cases hfol : h.follows with
  | root => rfl
  | @inside f path l outer _ old hf hpath =>
    refine ⟨_, rfl, h.focus_eq, .inside (hf.edited rfl hf.index_eq ?_) hpath⟩
    show f.siblings.take (f.before (f.index + 1)) ++ Value.node m
      :: f.siblings.drop (f.before (f.index + 1)) = _
    rw [hf.index_eq, ← Int.natCast_succ, Frame.before_natCast, hf.siblings_eq,
      ← List.map_take, ← List.map_drop, Level.take_succ_row,
      Level.drop_succ_row]
    simp [Level.row]

theorem withChildren (h : c.IsAt z) {edit : List Value → List Value}
    {edit' : List Form → List Form}
    (hedit : ∀ cs, edit (cs.map Value.node) = (edit' cs).map Value.node) :
    Arrives (c.withChildren .forms edit) (z.withChildren edit') := by
  unfold Cursor.withChildren Place.withChildren
  rw [h.children?_eq]
  cases hz : z.focus with
  | branch k cs =>
    refine ⟨c.replace (.node (.branch k (edit' cs))), ?_, h.replace _⟩
    simp only
    rw [h.focus_eq, hz, hedit, Shape.forms_make]
    rfl
  | _ => rfl

theorem insert (h : c.IsAt z) (side : Side) (m : Form) :
    Arrives (c.insert .forms side (.node m)) (z.insert side m) := by
  cases side with
  | left => exact h.insertLeft m
  | right => exact h.insertRight m
  | first => exact h.withChildren fun cs => rfl
  | last => exact h.withChildren fun cs => by rw [List.map_append]; rfl

theorem remove (h : c.IsAt z) : Arrives (c.remove .forms) z.remove := by
  obtain ⟨focus, path⟩ := c
  obtain ⟨n, levels⟩ := z
  cases hfol : h.follows with
  | root => rfl
  | @inside f path l outer _ old hf hpath =>
    obtain ⟨k, ls, rs⟩ := l
    have hi := hf.index_eq
    have hitems : f.lefts ++ f.rights = (ls.reverse ++ rs).map Value.node := by
      rw [hf.lefts_eq, hf.rights_eq, List.map_append]
    unfold Cursor.remove
    cases ls with
    | nil =>
      -- the first of its row: the parent is made without it
      have hpos : ¬ 0 < f.index := by
        rw [hi, List.length_nil]
        omega
      refine ⟨⟨.node (.branch k rs), refocus (.node (.branch k rs)) path⟩,
        ?_, rfl, hpath.refocus _⟩
      simp only [if_neg hpos]
      show (Shape.forms.make f.parent (.ofList (f.lefts ++ f.rights))).map _
        = _
      rw [hitems, hf.parent_eq, Shape.forms_make]
      rfl
    | cons m ls =>
      -- the sibling before it comes into focus
      have hpos : 0 < f.index := by
        rw [hi, List.length_cons]
        omega
      have hpred : f.index - 1 = (ls.length : Nat) := by
        rw [hi, List.length_cons]
        omega
      have hrow : f.lefts ++ f.rights
          = (Level.row ⟨k, ls, rs⟩ m).map Value.node := by
        rw [hitems]
        simp [Level.row]
      have hg := hf.edited (m := ⟨k, ls, rs⟩) (i := ls.length) rfl rfl hrow
      have hs : (f.withSiblings (f.lefts ++ f.rights)).sibling? ls.length
          = some (.node m) := by
        rw [Frame.sibling?_natCast]
        show (f.lefts ++ f.rights)[ls.length]? = _
        rw [hrow, List.getElem?_map, Level.getElem?_row ⟨k, ls, rs⟩]
        rfl
      refine ⟨⟨.node m, _ :: path⟩, ?_, rfl, .inside hg hpath⟩
      simp only [if_pos hpos, hpred]
      unfold Cursor.toSibling
      simp only [hs]

end IsAt

end Cursor

end FormTree
