import FormTree.Proofs.Surface

/-!
# Skeletons

The **skeleton** of a tree is what is left when the formatting is deleted
at every level. A place has a skeleton as well: the skeletons of its node
and of everything around it. Formatting has nothing inside it, so the
places of the skeleton are those places of the tree that hold a form, in
the same order.

As long as comments are passed over, the surface of a session sees
skeletons only. Each of its operations on a place is a plain operation on
the skeleton of the place: a move to a significant node is a plain step
(`Place.skeleton_significant`), an insertion with spacing a plain
insertion (`Place.skeleton_place`). The value of a form is that of its
skeleton, down to the wording of what goes wrong
(`Literal.formValue_skeleton`), and the separator between forms does not
show in the skeleton of what is made of a value
(`Literal.skeleton_toForm`).
-/

namespace FormTree

namespace Node

variable {α : Type}

mutual
/-- **The skeleton of a tree**: all formatting deleted, at every level. -/
def skeleton : Node α → Node α
  | .branch k cs => .branch k (skeletons cs)
  | n => n
termination_by structural n => n
/-- The skeletons of a row, without its formatting. -/
def skeletons : List (Node α) → List (Node α)
  | [] => []
  | n :: ns =>
    if n.isFormatting then skeletons ns else n.skeleton :: skeletons ns
end

@[simp] theorem skeleton_branch (k : Composite) (cs : List (Node α)) :
    skeleton (.branch k cs) = .branch k (skeletons cs) := rfl

/-- A node and its skeleton are of the same kind. -/
@[simp] theorem kind_skeleton (n : Node α) : n.skeleton.kind = n.kind := by
  cases n <;> rfl

@[simp] theorem isFormatting_skeleton (n : Node α) :
    n.skeleton.isFormatting = n.isFormatting := by
  rw [isFormatting, kind_skeleton, isFormatting]

theorem skeletons_cons_of_formatting {n : Node α}
    (h : n.isFormatting = true) (ns : List (Node α)) :
    skeletons (n :: ns) = skeletons ns := by
  rw [skeletons, if_pos h]

theorem skeletons_cons_of_form {n : Node α} (h : n.isFormatting = false)
    (ns : List (Node α)) :
    skeletons (n :: ns) = n.skeleton :: skeletons ns := by
  rw [skeletons, if_neg (by rw [h]; exact Bool.false_ne_true)]

@[simp] theorem skeletons_whitespace_cons (t : Text)
    (ns : List (Node α)) : skeletons (.whitespace t :: ns) = skeletons ns :=
  skeletons_cons_of_formatting rfl ns

/-- **The skeletons of a row** are those of its forms. -/
theorem skeletons_eq (ns : List (Node α)) :
    skeletons ns = (ns.map skeleton).filter fun n => !n.isFormatting := by
  induction ns with
  | nil => rfl
  | cons n ns ih =>
    rw [List.map_cons]
    by_cases hn : n.isFormatting = true
    · rw [skeletons_cons_of_formatting hn, ih,
        List.filter_cons_of_neg (by simp [hn])]
    · rw [Bool.not_eq_true] at hn
      rw [skeletons_cons_of_form hn, ih,
        List.filter_cons_of_pos (by simp [hn])]

theorem skeletons_append (ns ms : List (Node α)) :
    skeletons (ns ++ ms) = skeletons ns ++ skeletons ms := by
  rw [skeletons_eq, skeletons_eq, skeletons_eq, List.map_append,
    List.filter_append]

theorem skeletons_reverse (ns : List (Node α)) :
    skeletons ns.reverse = (skeletons ns).reverse := by
  rw [skeletons_eq, skeletons_eq, List.map_reverse, List.filter_reverse]

/-- The white space between forms set side by side does not show. -/
theorem skeletons_spaced (separator : Text) (ns : List (Node α)) :
    skeletons (spaced separator ns) = skeletons ns := by
  induction ns with
  | nil => rfl
  | cons n ns ih =>
    cases ns with
    | nil => rfl
    | cons m ns =>
      rw [spaced_cons_cons, skeletons, skeletons_whitespace_cons, ih,
        ← skeletons]

end Node

/-! ## Skeletons of places -/

/-- The skeleton of an ancestor and of everything in it. -/
def Level.skeleton (l : Level) : Level :=
  ⟨l.kind, Node.skeletons l.lefts, Node.skeletons l.rights⟩

/-- The skeleton of an ancestor has the skeleton of the node in its
gap. -/
theorem Level.row_skeleton (l : Level) {n : Form}
    (hn : n.isFormatting = false) :
    Node.skeletons (l.row n) = l.skeleton.row n.skeleton := by
  rw [row, Node.skeletons_append, Node.skeletons_reverse,
    Node.skeletons_cons_of_form hn]
  rfl

theorem Level.fill_skeleton (l : Level) {n : Form}
    (hn : n.isFormatting = false) :
    (l.fill n).skeleton = l.skeleton.fill n.skeleton := by
  rw [fill, Node.skeleton_branch, l.row_skeleton hn]
  rfl

namespace Place

/-- **The skeleton of a place.** -/
def skeleton (z : Place) : Place :=
  ⟨z.focus.skeleton, z.levels.map Level.skeleton⟩

/-- Whether a place holds a form, and not formatting. -/
def holdsForm (z : Place) : Bool := !z.focus.isFormatting

/-- **Where comments are passed over, the significant places are those
that hold a form.** -/
theorem isSignificant_eq {cfg : Config} (h : cfg.skipComments = true) :
    isSignificant cfg = holdsForm := by
  funext z
  unfold isSignificant holdsForm Node.isFormatting
  cases z.focus with
  | comment t =>
    show (!cfg.skipComments) = false
    rw [h]
    rfl
  | _ => rfl

/-- **The tree of a skeleton is the skeleton of the tree.** -/
theorem whole_skeleton {z : Place} (h : z.holdsForm = true) :
    z.skeleton.whole = z.whole.skeleton := by
  obtain ⟨n, levels⟩ := z
  have hn : n.isFormatting = false := by simpa [holdsForm] using h
  clear h
  show fillAll (levels.map Level.skeleton) n.skeleton
    = (fillAll levels n).skeleton
  induction levels generalizing n with
  | nil => rfl
  | cons l outer ih =>
    rw [List.map_cons, fillAll, fillAll, ← l.fill_skeleton hn]
    exact ih (l.fill n) rfl

/-! ## The places ahead -/

/-- The places of a skeleton, out of the places of a tree. -/
def skeletons (zs : List Place) : List Place :=
  (zs.filter holdsForm).map skeleton

theorem skeletons_append (ys zs : List Place) :
    skeletons (ys ++ zs) = skeletons ys ++ skeletons zs := by
  rw [skeletons, List.filter_append, List.map_append]
  rfl

theorem skeletons_reverse (zs : List Place) :
    skeletons zs.reverse = (skeletons zs).reverse := by
  rw [skeletons, List.filter_reverse, List.map_reverse]
  rfl

theorem skeletons_cons_of_formatting {n : Form} {levels : List Level}
    (h : n.isFormatting = true) (zs : List Place) :
    skeletons (⟨n, levels⟩ :: zs) = skeletons zs := by
  rw [skeletons, List.filter_cons_of_neg (by simp [holdsForm, h])]
  rfl

theorem skeletons_cons_of_form {n : Form} {levels : List Level}
    (h : n.isFormatting = false) (zs : List Place) :
    skeletons (⟨n, levels⟩ :: zs)
      = ⟨n.skeleton, levels.map Level.skeleton⟩ :: skeletons zs := by
  rw [skeletons, List.filter_cons_of_pos (by simp [holdsForm, h])]
  rfl

theorem skeletons_siblingsAfter (k : Composite) (outer : List Level)
    (lefts ns : List Form) :
    skeletons (siblingsAfter k outer lefts ns)
      = siblingsAfter k (outer.map Level.skeleton) (Node.skeletons lefts)
          (Node.skeletons ns) := by
  induction ns generalizing lefts with
  | nil => rfl
  | cons n ns ih =>
    by_cases hn : n.isFormatting = true
    · rw [siblingsAfter, skeletons_cons_of_formatting hn, ih,
        Node.skeletons_cons_of_formatting hn,
        Node.skeletons_cons_of_formatting hn]
    · rw [Bool.not_eq_true] at hn
      rw [siblingsAfter, skeletons_cons_of_form hn, ih,
        Node.skeletons_cons_of_form hn, Node.skeletons_cons_of_form hn]
      rfl

theorem skeletons_siblingsBefore (k : Composite) (outer : List Level)
    (rights ns : List Form) :
    skeletons (siblingsBefore k outer rights ns)
      = siblingsBefore k (outer.map Level.skeleton)
          (Node.skeletons rights) (Node.skeletons ns) := by
  induction ns generalizing rights with
  | nil => rfl
  | cons n ns ih =>
    by_cases hn : n.isFormatting = true
    · rw [siblingsBefore, skeletons_cons_of_formatting hn, ih,
        Node.skeletons_cons_of_formatting hn,
        Node.skeletons_cons_of_formatting hn]
    · rw [Bool.not_eq_true] at hn
      rw [siblingsBefore, skeletons_cons_of_form hn, ih,
        Node.skeletons_cons_of_form hn, Node.skeletons_cons_of_form hn]
      rfl

/-- There is nothing inside formatting. -/
theorem inside_of_formatting {n : Form} (h : n.isFormatting = true)
    (levels : List Level) : inside levels n = [] := by
  cases n with
  | branch k cs => cases h
  | _ => rfl

/-- The places of a row have the skeletons they should as soon as this
holds inside every child. -/
theorem skeletons_insideRow {k : Composite} {outer : List Level}
    {lefts ns : List Form}
    (h : ∀ n ∈ ns, ∀ levels, skeletons (inside levels n)
      = inside (levels.map Level.skeleton) n.skeleton) :
    skeletons (insideRow k outer lefts ns)
      = insideRow k (outer.map Level.skeleton) (Node.skeletons lefts)
          (Node.skeletons ns) := by
  induction ns generalizing lefts with
  | nil => rfl
  | cons n ns ih =>
    have htail : skeletons (insideRow k outer (n :: lefts) ns)
        = insideRow k (outer.map Level.skeleton)
            (Node.skeletons (n :: lefts)) (Node.skeletons ns) :=
      ih fun m hm => h m (List.mem_cons_of_mem n hm)
    by_cases hn : n.isFormatting = true
    · rw [insideRow, skeletons_cons_of_formatting hn,
        inside_of_formatting hn, List.nil_append, htail,
        Node.skeletons_cons_of_formatting hn,
        Node.skeletons_cons_of_formatting hn]
    · rw [Bool.not_eq_true] at hn
      rw [insideRow, skeletons_cons_of_form hn, skeletons_append,
        h n List.mem_cons_self, htail, Node.skeletons_cons_of_form hn,
        Node.skeletons_cons_of_form hn]
      rfl

/-- **The places inside a skeleton are those inside the tree that hold a
form.** -/
theorem skeletons_inside (levels : List Level) (n : Form) :
    skeletons (inside levels n)
      = inside (levels.map Level.skeleton) n.skeleton := by
  induction n using Node.induction generalizing levels with
  | branch k cs ih => exact skeletons_insideRow fun n hn => ih n hn
  | _ => rfl

theorem skeletons_insideBefore (k : Composite) (outer : List Level)
    (rights ns : List Form) :
    skeletons (insideBefore k outer rights ns)
      = insideBefore k (outer.map Level.skeleton) (Node.skeletons rights)
          (Node.skeletons ns) := by
  induction ns generalizing rights with
  | nil => rfl
  | cons n ns ih =>
    rw [insideBefore, skeletons_append, skeletons_reverse,
      skeletons_inside]
    by_cases hn : n.isFormatting = true
    · have hnone : inside (List.map Level.skeleton
          (⟨k, ns, rights⟩ :: outer)) n.skeleton = [] :=
        inside_of_formatting (by rwa [Node.isFormatting_skeleton]) _
      rw [skeletons_cons_of_formatting hn, ih, hnone,
        Node.skeletons_cons_of_formatting hn,
        Node.skeletons_cons_of_formatting hn]
      rfl
    · rw [Bool.not_eq_true] at hn
      rw [skeletons_cons_of_form hn, ih, Node.skeletons_cons_of_form hn,
        Node.skeletons_cons_of_form hn]
      rfl

theorem skeletons_beyond (levels : List Level) {n : Form}
    (hn : n.isFormatting = false) :
    skeletons (beyond levels n)
      = beyond (levels.map Level.skeleton) n.skeleton := by
  induction levels generalizing n with
  | nil => rfl
  | cons l outer ih =>
    rw [beyond, skeletons_append, ih rfl, l.fill_skeleton hn,
      skeletons_insideRow fun m _ levels => skeletons_inside levels m,
      Node.skeletons_cons_of_form hn]
    rfl

theorem skeletons_behind (levels : List Level) {n : Form}
    (hn : n.isFormatting = false) :
    skeletons (behind levels n)
      = behind (levels.map Level.skeleton) n.skeleton := by
  induction levels generalizing n with
  | nil => rfl
  | cons l outer ih =>
    have hfill : (l.fill n).isFormatting = false := rfl
    rw [behind, skeletons_append, skeletons_insideBefore,
      skeletons_cons_of_form hfill, ih hfill, l.fill_skeleton hn,
      Node.skeletons_cons_of_form hn]
    rfl

/-- **What lies ahead of a skeleton** are the skeletons of what lies
ahead. -/
theorem ahead_skeleton {z : Place} (h : z.holdsForm = true)
    (d : Direction) : z.skeleton.ahead d = skeletons (z.ahead d) := by
  obtain ⟨n, levels⟩ := z
  have hn : n.isFormatting = false := by simpa [holdsForm] using h
  cases d with
  | next =>
    show inside (levels.map Level.skeleton) n.skeleton
      ++ beyond (levels.map Level.skeleton) n.skeleton
        = skeletons (inside levels n ++ beyond levels n)
    rw [skeletons_append, skeletons_inside, skeletons_beyond levels hn]
  | prev => exact (skeletons_behind levels hn).symm
  | right =>
    cases levels with
    | nil => rfl
    | cons l outer =>
      show siblingsAfter l.kind _ (n.skeleton :: Node.skeletons l.lefts) _
        = skeletons (siblingsAfter l.kind outer (n :: l.lefts) l.rights)
      rw [skeletons_siblingsAfter, Node.skeletons_cons_of_form hn]
      rfl
  | left =>
    cases levels with
    | nil => rfl
    | cons l outer =>
      show siblingsBefore l.kind _ (n.skeleton :: Node.skeletons l.rights) _
        = skeletons (siblingsBefore l.kind outer (n :: l.rights) l.lefts)
      rw [skeletons_siblingsBefore, Node.skeletons_cons_of_form hn]
      rfl
  | _ => rfl

/-! ## Moves -/

/-- The first place that holds a form has the first of the skeletons. -/
theorem skeleton_find? (zs : List Place) :
    (zs.find? holdsForm).map skeleton = (skeletons zs).head? := by
  rw [skeletons, List.head?_map, List.head?_filter]

theorem down_branch (k : Composite) (cs : List Form)
    (levels : List Level) :
    down ⟨.branch k cs, levels⟩ = (siblingsAfter k levels [] cs).head? := by
  cases cs <;> rfl

theorem leftmost_eq_head? (n : Form) (l : Level) (outer : List Level) :
    leftmost ⟨n, l :: outer⟩
      = (siblingsAfter l.kind outer [] (l.row n)).head? := by
  show sibling? 0 _ = _
  unfold sibling?
  simp only [List.drop_zero, List.take_zero, List.reverse_nil]
  cases l.row n <;> rfl

theorem rightmost_eq_head? (n : Form) (l : Level) (outer : List Level) :
    rightmost ⟨n, l :: outer⟩
      = (siblingsBefore l.kind outer [] (l.row n).reverse).head? := by
  cases hrow : (l.row n).reverse with
  | nil => simp [Level.row] at hrow
  | cons m ms =>
    have hsplit : l.row n = ms.reverse ++ [m] := by
      rw [← List.reverse_cons, ← hrow, List.reverse_reverse]
    have hlen : l.lefts.length + l.rights.length = ms.reverse.length := by
      have h := l.length_row n
      rw [hsplit, List.length_append] at h
      exact (Nat.succ.inj h).symm
    show sibling? (l.lefts.length + l.rights.length) ⟨n, l :: outer⟩ = _
    unfold sibling?
    simp only [hsplit, hlen, List.drop_left, List.take_left,
      List.reverse_reverse]
    rfl

/-- Going on to the right from the first of a row goes through the
row. -/
theorem bind_toSignificant_siblingsAfter (cfg : Config) (k : Composite)
    (outer : List Level) (ns : List Form) :
    (siblingsAfter k outer [] ns).head?.bind (toSignificant cfg .right)
      = (siblingsAfter k outer [] ns).find? (isSignificant cfg) := by
  cases ns <;> rfl

theorem bind_toSignificant_siblingsBefore (cfg : Config) (k : Composite)
    (outer : List Level) (ns : List Form) :
    (siblingsBefore k outer [] ns).head?.bind (toSignificant cfg .left)
      = (siblingsBefore k outer [] ns).find? (isSignificant cfg) := by
  cases ns <;> rfl

/-- A move that keeps its direction leads to the first form of its
trail. -/
theorem skeleton_significant_of_onward {cfg : Config}
    (hcfg : cfg.skipComments = true) {z : Place} (h : z.holdsForm = true)
    {d : Direction} (hd : d.onward = d) :
    (z.significant cfg d).map skeleton = z.skeleton.step d := by
  rw [significant_eq_find? hd, isSignificant_eq hcfg, skeleton_find?,
    ← ahead_skeleton h, step_eq_head? hd]

/-- **A move to a significant node is a plain step of the skeleton.** -/
theorem skeleton_significant {cfg : Config}
    (hcfg : cfg.skipComments = true) {z : Place} (h : z.holdsForm = true)
    (d : Direction) :
    (z.significant cfg d).map skeleton = z.skeleton.step d := by
  obtain ⟨n, levels⟩ := z
  have hn : n.isFormatting = false := by simpa [holdsForm] using h
  cases d with
  | right => exact skeleton_significant_of_onward hcfg h rfl
  | left => exact skeleton_significant_of_onward hcfg h rfl
  | next => exact skeleton_significant_of_onward hcfg h rfl
  | prev => exact skeleton_significant_of_onward hcfg h rfl
  | down =>
    cases n with
    | branch k cs =>
      show ((down ⟨.branch k cs, levels⟩).bind
        (toSignificant cfg .right)).map skeleton
          = down ⟨.branch k (Node.skeletons cs), _⟩
      rw [down_branch, down_branch, bind_toSignificant_siblingsAfter,
        isSignificant_eq hcfg, skeleton_find?, skeletons_siblingsAfter]
      rfl
    | _ => rfl
  | up =>
    cases levels with
    | nil => rfl
    | cons l outer =>
      -- a parent is a branch, so the move is over at once
      have hstay : significant cfg .up ⟨n, l :: outer⟩
          = some ⟨l.fill n, outer⟩ := by
        show toSignificant cfg .left ⟨l.fill n, outer⟩ = _
        rw [toSignificant, List.find?_cons_of_pos (by rfl)]
      rw [hstay, Option.map_some, skeleton, l.fill_skeleton hn]
      rfl
  | leftmost =>
    cases levels with
    | nil => rfl
    | cons l outer =>
      show ((leftmost ⟨n, l :: outer⟩).bind
        (toSignificant cfg .right)).map skeleton
          = leftmost ⟨n.skeleton, l.skeleton :: _⟩
      rw [leftmost_eq_head?, leftmost_eq_head?,
        bind_toSignificant_siblingsAfter, isSignificant_eq hcfg,
        skeleton_find?, skeletons_siblingsAfter, l.row_skeleton hn]
      rfl
  | rightmost =>
    cases levels with
    | nil => rfl
    | cons l outer =>
      show ((rightmost ⟨n, l :: outer⟩).bind
        (toSignificant cfg .left)).map skeleton
          = rightmost ⟨n.skeleton, l.skeleton :: _⟩
      rw [rightmost_eq_head?, rightmost_eq_head?,
        bind_toSignificant_siblingsBefore, isSignificant_eq hcfg,
        skeleton_find?, skeletons_siblingsBefore, Node.skeletons_reverse,
        l.row_skeleton hn]
      rfl

/-- Whether a node is what is wanted can be told from its skeleton. -/
theorem passes_skeleton (w : Wanted) (n : Form) :
    w.passes n.skeleton = w.passes n := by
  cases w with
  | kind k =>
    show decide (n.skeleton.kind = k) = decide (n.kind = k)
    rw [Node.kind_skeleton]
  | _ => cases n <;> rfl

/-- A plain search. -/
def seek (w : Wanted) (d : Direction) (z : Place) : Option Place :=
  (z :: z.ahead d).find? fun y => w.passes y.focus

/-- **A search along significant nodes is a plain search of the
skeleton.** -/
theorem skeleton_search {cfg : Config} (hcfg : cfg.skipComments = true)
    {z : Place} (h : z.holdsForm = true) (w : Wanted) (d : Direction) :
    (z.search cfg w d).map skeleton = z.skeleton.seek w d := by
  have htrail : z.skeleton :: z.skeleton.ahead d
      = (z :: (z.ahead d).filter (isSignificant cfg)).map skeleton := by
    rw [ahead_skeleton h, isSignificant_eq hcfg, List.map_cons]
    rfl
  have hpasses : (fun y : Place => w.passes y.focus) ∘ skeleton
      = fun y => w.passes y.focus := by
    funext y
    exact passes_skeleton w y.focus
  rw [seek, htrail, List.find?_map, hpasses]
  rfl

theorem holdsForm_of_significant {cfg : Config}
    (hcfg : cfg.skipComments = true) {z y : Place} {d : Direction}
    (hy : z.significant cfg d = some y) : y.holdsForm = true := by
  rw [← isSignificant_eq hcfg]
  exact (significant_cases hy).2

/-- The nearest significant sibling of a kind is the nearest of the
skeleton. -/
theorem skeleton_findSibling {cfg : Config}
    (hcfg : cfg.skipComments = true) {z : Place} (h : z.holdsForm = true)
    (k : Kind) (d : Direction) :
    (z.findSibling cfg k d).map skeleton
      = (z.skeleton.step d).bind (seek (.kind k) d) := by
  rw [← skeleton_significant hcfg h, findSibling]
  cases hy : z.significant cfg d with
  | none => rfl
  | some y =>
    exact skeleton_search hcfg (holdsForm_of_significant hcfg hy) (.kind k) d

/-! ## Insertion -/

/-- The white space that keeps an item apart does not show. -/
theorem skeletons_spacedOff (cfg : Config) {n : Form}
    (hn : n.isFormatting = false) (row : List Form) :
    Node.skeletons (cfg.spacedOff n row)
      = n.skeleton :: Node.skeletons row := by
  rw [← Node.skeletons_cons_of_form hn]
  unfold Config.spacedOff
  cases row with
  | nil => rfl
  | cons m ms =>
    by_cases hm : cfg.ignores m.kind = true
    · simp only [if_pos hm]
    · simp only [if_neg hm]
      rw [Node.skeletons_cons_of_form hn, Node.skeletons_whitespace_cons,
        Node.skeletons_cons_of_form hn]

/-- **An insertion with spacing is a plain insertion into the
skeleton.** -/
theorem skeleton_place (cfg : Config) {n : Form}
    (hn : n.isFormatting = false) (side : Side) (z : Place) :
    (z.place cfg side n).map skeleton
      = z.skeleton.insert side n.skeleton := by
  obtain ⟨m, levels⟩ := z
  cases side with
  | left =>
    cases levels with
    | nil => rfl
    | cons l outer =>
      show some (Place.mk m.skeleton (⟨l.kind, Node.skeletons
        (.whitespace cfg.separator :: cfg.spacedOff n l.lefts), _⟩ :: _)) = _
      rw [Node.skeletons_whitespace_cons, skeletons_spacedOff cfg hn]
      rfl
  | right =>
    cases levels with
    | nil => rfl
    | cons l outer =>
      show some (Place.mk m.skeleton (⟨l.kind, _, Node.skeletons
        (.whitespace cfg.separator :: cfg.spacedOff n l.rights)⟩ :: _)) = _
      rw [Node.skeletons_whitespace_cons, skeletons_spacedOff cfg hn]
      rfl
  | first =>
    cases m with
    | branch k cs =>
      show some (Place.mk (.branch k (Node.skeletons
        (cfg.spacedOff n cs))) _) = _
      rw [skeletons_spacedOff cfg hn]
      rfl
    | _ => rfl
  | last =>
    cases m with
    | branch k cs =>
      show some (Place.mk (.branch k (Node.skeletons
        (cfg.spacedOff n cs.reverse).reverse)) _) = _
      rw [Node.skeletons_reverse, skeletons_spacedOff cfg hn,
        Node.skeletons_reverse, List.reverse_cons, List.reverse_reverse]
      rfl
    | _ => rfl

end Place

/-! ## Values -/

/-- **What a failure says**: of a failed conversion its wording, whatever
is to blame, and of anything else the failure itself. -/
def Failure.wording : Failure → String ⊕ Failure
  | .conversion e => .inl e.message
  | e => .inr e

/-- A fault in hashing says the same, whichever node is to blame. -/
theorem HashFault.wording_failure {blame blame' : String → ConversionError}
    (h : ∀ reason, (blame reason).message = (blame' reason).message)
    (fault : HashFault) :
    (fault.failure blame).wording = (fault.failure blame').wording := by
  cases fault with
  | refused reason => exact congrArg Sum.inl (h reason)
  | raised className message => rfl

namespace Literal

/-- Two attempts that are the same up to the wording of what goes wrong
come to the same, or both go wrong. -/
theorem cases_of_mapError_eq {ε δ α : Type} {f : ε → δ}
    {a b : Except ε α} (h : a.mapError f = b.mapError f) :
    (∃ v, a = .ok v ∧ b = .ok v)
      ∨ ∃ e e', a = .error e ∧ b = .error e' ∧ f e = f e' := by
  cases a with
  | ok v =>
    cases b with
    | ok w =>
      cases h
      exact .inl ⟨v, rfl, rfl⟩
    | error e' => cases h
  | error e =>
    cases b with
    | ok w => cases h
    | error e' =>
      injection h with h
      exact .inr ⟨e, e', rfl, rfl, h⟩

/-- What a branch is worth depends on its children alone, and so does the
wording of what is wrong with it. -/
theorem branchValue_self (m n : Form) (k : Composite)
    (items : List Value) :
    (branchValue m k items).mapError Failure.wording
      = (branchValue n k items).mapError Failure.wording := by
  cases k with
  | list => rfl
  | vector => rfl
  | set =>
    unfold branchValue setValue
    cases Value.members items with
    | error fault =>
      refine congrArg Except.error (fault.wording_failure ?_)
      exact fun _ => rfl
    | ok members =>
      by_cases h : members.length = items.length
      · simp only [if_pos h]
      · simp only [if_neg h]
        rfl
  | map =>
    unfold branchValue mapValue
    by_cases heven : items.length % 2 = 0
    · simp only [if_pos heven]
      cases Value.members ((pairs items).map Prod.fst) with
      | error fault =>
        refine congrArg Except.error (fault.wording_failure ?_)
        exact fun _ => rfl
      | ok keys =>
        by_cases h : keys.length = (pairs items).length
        · simp only [if_pos h]
        · simp only [if_neg h]
          rfl
    · simp only [if_neg heven]
      rfl

/-- The values of a row are those of its skeletons as soon as this holds
of every form in it. -/
theorem formValues_skeletons {ns : List Form}
    (h : ∀ n ∈ ns, (formValue n).mapError Failure.wording
      = (formValue n.skeleton).mapError Failure.wording) :
    (formValues ns).mapError Failure.wording
      = (formValues (Node.skeletons ns)).mapError
          Failure.wording := by
  induction ns with
  | nil => rfl
  | cons n ns ih =>
    have htail := ih fun m hm => h m (List.mem_cons_of_mem n hm)
    by_cases hn : n.isFormatting = true
    · rw [formValues, if_pos hn, Node.skeletons_cons_of_formatting hn]
      exact htail
    · have hhead := h n List.mem_cons_self
      have hs : ¬ n.skeleton.isFormatting = true := by
        rwa [Node.isFormatting_skeleton]
      rw [formValues, if_neg hn,
        Node.skeletons_cons_of_form (Bool.not_eq_true _ ▸ hn), formValues,
        if_neg hs]
      rcases cases_of_mapError_eq hhead with
        ⟨v, hv, hw⟩ | ⟨e, e', hv, hw, he⟩
      · rw [hv, hw]
        rcases cases_of_mapError_eq htail with
          ⟨vs, hvs, hws⟩ | ⟨e, e', hvs, hws, he⟩
        · rw [hvs, hws]
        · rw [hvs, hws]
          exact congrArg Except.error he
      · rw [hv, hw]
        exact congrArg Except.error he

/-- **The value of a form is that of its skeleton**, and where it has
none, the wording is the same. -/
theorem formValue_skeleton (n : Form) :
    (formValue n).mapError Failure.wording
      = (formValue n.skeleton).mapError Failure.wording := by
  induction n using Node.induction with
  | branch k cs ih =>
    rw [Node.skeleton_branch, formValue, formValue]
    rcases cases_of_mapError_eq (formValues_skeletons ih) with
      ⟨vs, hvs, hws⟩ | ⟨e, e', hvs, hws, he⟩
    · rw [hvs, hws]
      exact branchValue_self _ _ k vs
    · rw [hvs, hws]
      exact congrArg Except.error he
  | _ => rfl

/-- Collecting commutes with a change of what is collected. -/
theorem collect_map {ε α β : Type} (f : α → β) (l : List (Except ε α)) :
    collect (l.map (Except.map f)) = (collect l).map (List.map f) := by
  induction l with
  | nil => rfl
  | cons x l ih =>
    cases x with
    | error e => rfl
    | ok a =>
      show (collect (l.map (Except.map f))).map (f a :: ·)
        = ((collect l).map (a :: ·)).map (List.map f)
      rw [ih]
      cases collect l <;> rfl

/-- So does arranging. -/
theorem arranged_map {β γ : Type} (f : β → γ) (c : Collection)
    (items : List (Value × β)) :
    (arranged c items).map f
      = arranged c (items.map fun p => (p.1, f p.2)) := by
  unfold arranged
  by_cases hc : c.isOrdered = true
  · rw [if_pos hc, if_pos hc, List.map_map, List.map_map]
    rfl
  · have hsort := List.map_mergeSort
      (l := items.map fun p => (p.1.memberKey, p.2))
      (f := fun p => (p.1, f p.2)) (r := fun p q => p.1.le q.1)
      (s := fun p q => p.1.le q.1) fun _ _ _ _ => rfl
    rw [List.map_map] at hsort
    rw [if_neg hc, if_neg hc, List.map_map, List.map_map]
    show _ = (List.mergeSort (items.map ((fun p => (p.1, f p.2))
      ∘ fun p => (p.1.memberKey, p.2))) _).map Prod.snd
    rw [← hsort, List.map_map]
    rfl

/-- Forms set side by side have the skeletons of the forms, whatever the
separator. -/
theorem skeleton_map_spaced (separator : Text) (k : Composite)
    (l : List (Except ConversionError Form)) :
    ((collect l).map fun ns =>
        Node.branch k (Node.spaced separator ns)).map Node.skeleton
      = (collect (l.map (Except.map Node.skeleton))).map fun ns =>
          .branch k (ns.filter fun n => !n.isFormatting) := by
  rw [collect_map]
  cases collect l with
  | error e => rfl
  | ok ns =>
    show Except.ok (Node.branch k (Node.skeletons
      (Node.spaced separator ns))) = _
    rw [Node.skeletons_spaced, Node.skeletons_eq]
    rfl

/-- **The separator does not show in the skeleton of a value's form**, and
whether there is a form does not depend on it. -/
theorem skeleton_toForm (separator other : Text) (v : Value) :
    (toForm separator v).map Node.skeleton
      = (toForm other v).map Node.skeleton := by
  induction v using Value.induction with
  | group c items ih =>
    have hitems : (toForms separator items).map
          (fun p => (p.1, p.2.map Node.skeleton))
        = (toForms other items).map
          fun p => (p.1, p.2.map Node.skeleton) := by
      rw [toForms_eq_map, toForms_eq_map, List.map_map, List.map_map]
      refine List.map_congr_left fun v hv => ?_
      exact congrArg (Prod.mk v) (ih v hv)
    rw [toForm, toForm, skeleton_map_spaced, skeleton_map_spaced,
      arranged_map, arranged_map, hitems]
  | dict guise entries ih =>
    have hentries : (entryForms separator entries).map
          (Except.map Node.skeleton)
        = (entryForms other entries).map (Except.map Node.skeleton) := by
      induction entries with
      | nil => rfl
      | cons e es ihs =>
        obtain ⟨k, v⟩ := e
        have hhead := ih (k, v) List.mem_cons_self
        rw [entryForms, entryForms, List.map_cons, List.map_cons,
          List.map_cons, List.map_cons, hhead.1, hhead.2,
          ihs fun e he => ih e (List.mem_cons_of_mem _ he)]
    rw [toForm, toForm, skeleton_map_spaced, skeleton_map_spaced, hentries]
  | _ => rfl

end Literal

end FormTree
