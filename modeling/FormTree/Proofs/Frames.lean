import FormTree.Proofs.Invariants

/-!
# Frames and what they enclose

Nothing forces what is put into a tree to belong there. An item that is no
node of the tree is put into the row of the focus like any other and does
no harm until a branch is to be made of the row. Even then a cursor keeps
its bearings: the index of every frame is a place of its row, the focus or
the ancestor it leads to stands there, the recorded parent is a branch,
and a row that is not marked as changed is the row of the recorded parent
(`Frame.Encloses`).

This holds for trees of any shape, whatever is put into them, and every
operation of a cursor keeps it (`Cursor.Enclosed.step`,
`Cursor.Enclosed.insert`, `Cursor.Enclosed.remove`). The only failures are
those of making a branch: a step to a sibling never leaves the row.
-/

namespace FormTree

variable {τ ε : Type}

/-- **A frame encloses** what is in focus: the row is a list with the
focus at the place of the frame, the recorded parent is a branch, and an
unchanged row is that of the recorded parent. -/
structure Frame.Encloses (S : Shape τ ε) (f : Frame τ) (t : τ) : Prop where
  /-- The focus stands at the place of the frame. -/
  split : ∃ ls rs, f.row = .ofList (ls ++ t :: rs) ∧ f.index = ls.length
  /-- The recorded parent is a branch. -/
  isBranch : S.isBranch f.parent = true
  /-- An unchanged row is the row of the recorded parent. -/
  eq_of_unchanged : f.changed = false → f.siblings = S.children f.parent

namespace Frame.Encloses

variable {S : Shape τ ε} {f : Frame τ} {t u : τ} {ls rs : List τ}

theorem siblings_eq (hrow : f.row = .ofList (ls ++ t :: rs)) :
    f.siblings = ls ++ t :: rs := by
  rw [siblings, hrow, Row.items_ofList]

theorem length_siblings (hrow : f.row = .ofList (ls ++ t :: rs)) :
    f.siblings.length = ls.length + (rs.length + 1) := by
  rw [siblings_eq hrow, List.length_append, List.length_cons]

theorem lefts_eq (hrow : f.row = .ofList (ls ++ t :: rs))
    (hindex : f.index = ls.length) : f.lefts = ls := by
  rw [lefts_of_index hindex, siblings_eq hrow, List.take_left]

theorem rights_eq (hrow : f.row = .ofList (ls ++ t :: rs))
    (hindex : f.index = ls.length) : f.rights = rs := by
  rw [rights_of_index hindex, siblings_eq hrow, ← List.drop_drop,
    List.drop_left]
  rfl

/-- An edited row is enclosed at any place of it. -/
theorem edited (h : f.Encloses S t) (ls rs : List τ) {items : List τ}
    {i : Int} (hsplit : items = ls ++ u :: rs) (hi : i = ls.length) :
    ((f.withSiblings items).atIndex i).Encloses S u where
  split := ⟨ls, rs, by rw [hsplit]; rfl, hi⟩
  isBranch := h.isBranch
  eq_of_unchanged := fun hc => by cases hc

/-- Another entry for the focus is enclosed. -/
theorem withFocus (h : f.Encloses S t) (u : τ) :
    (f.withFocus u).Encloses S u := by
  obtain ⟨ls, rs, hrow, hindex⟩ := h.split
  refine h.edited ls rs ?_ hindex
  rw [lefts_eq hrow hindex, rights_eq hrow hindex]

/-- The same row at another place is enclosed. -/
theorem atIndex (h : f.Encloses S t) {i : Nat}
    (hu : f.siblings[i]? = some u) : (f.atIndex i).Encloses S u := by
  obtain ⟨ls, rs, hrow, -⟩ := h.split
  refine ⟨⟨f.siblings.take i, f.siblings.drop (i + 1), ?_, ?_⟩,
    h.isBranch, h.eq_of_unchanged⟩
  · obtain ⟨hi, rfl⟩ := List.getElem?_eq_some_iff.mp hu
    rw [List.getElem_cons_drop, List.take_append_drop]
    show f.row = .ofList f.row.items
    rw [hrow]
    rfl
  · have hi := (List.getElem?_eq_some_iff.mp hu).1
    show (i : Int) = _
    rw [List.length_take, Nat.min_eq_left (Nat.le_of_lt hi)]

end Frame.Encloses

namespace Cursor

/-- **A path encloses** what is in focus: the innermost frame does, and
the frames further out enclose the parent it records. -/
inductive Enclosed (S : Shape τ ε) : List (Frame τ) → τ → Prop
  /-- At the root there is nothing around the focus. -/
  | root (t : τ) : Enclosed S [] t
  /-- One frame, and those around it. -/
  | inside {f : Frame τ} {path : List (Frame τ)} {t : τ} :
      f.Encloses S t → Enclosed S path f.parent → Enclosed S (f :: path) t

/-- A cursor whose path encloses its focus. -/
abbrev IsEnclosed (S : Shape τ ε) (c : Cursor τ) : Prop :=
  Enclosed S c.path c.focus

namespace Enclosed

variable {S : Shape τ ε} {c : Cursor τ} {path : List (Frame τ)} {t : τ}
  {E : ε → Prop}

theorem refocus (h : Enclosed S path t) (u : τ) :
    Enclosed S (Cursor.refocus u path) u := by
  cases h with
  | root => exact .root u
  | inside hf hpath => exact .inside (hf.withFocus u) hpath

theorem replace (h : c.IsEnclosed S) (u : τ) :
    (c.replace u).IsEnclosed S := h.refocus u

/-! ## Moves between levels -/

theorem down {d : Cursor τ} (h : c.IsEnclosed S)
    (hd : c.down S = some d) : d.IsEnclosed S := by
  unfold Cursor.down children? at hd
  by_cases hb : S.isBranch c.focus = true
  · rw [if_pos hb] at hd
    split at hd
    · next t ts hts =>
      cases hd
      -- the new frame is unchanged, its row the children of the focus
      refine .inside ⟨⟨[], ts, rfl, rfl⟩, hb, fun _ => ?_⟩ h
      exact (Option.some_inj.mp hts).symm
    · cases hd
  · rw [if_neg hb] at hd
    cases hd

theorem downLast {d : Cursor τ} (h : c.IsEnclosed S)
    (hd : c.downLast S = some d) : d.IsEnclosed S := by
  unfold Cursor.downLast children? at hd
  by_cases hb : S.isBranch c.focus = true
  · rw [if_pos hb] at hd
    obtain ⟨t, ht, rfl⟩ := Option.map_eq_some_iff.mp hd
    obtain ⟨ts, hts⟩ := List.getLast?_eq_some_iff.mp ht
    refine .inside ⟨⟨ts, [], ?_, ?_⟩, hb, fun _ => rfl⟩ h
    · exact congrArg Row.ofList hts
    · rw [hts, List.length_append]
      rfl
  · rw [if_neg hb] at hd
    cases hd

/-- **Going up** fails only if the parent cannot be made. -/
theorem up (h : c.IsEnclosed S)
    (hE : ∀ t row e, S.make t row = .error e → E e) :
    (c.up S).Within (IsEnclosed S) E := by
  obtain ⟨focus, path⟩ := c
  cases h with
  | root => trivial
  | @inside f path _ hf hpath =>
    unfold Cursor.up
    cases hc : f.changed with
    | false =>
      -- the recorded parent stands for the row as it is
      simp only [hc, Bool.false_eq_true, if_false]
      exact hpath
    | true =>
      simp only [hc, if_true]
      exact .map_some (fun t _ => hpath.refocus t) (hE f.parent f.row)

/-! ## Moves among siblings -/

/-- A step to a place of the row does not fail. -/
theorem toSibling {f : Frame τ} (hf : f.Encloses S t)
    (hpath : Enclosed S path f.parent) {i : Nat}
    (hi : i < f.siblings.length) :
    (Cursor.toSibling S i ⟨t, f :: path⟩).Within (IsEnclosed S) E := by
  have hs : f.sibling? i = some f.siblings[i] := by
    rw [Frame.sibling?_natCast, List.getElem?_eq_getElem hi]
  unfold Cursor.toSibling
  simp only [hs]
  exact .inside (hf.atIndex (List.getElem?_eq_getElem hi)) hpath

theorem right (h : c.IsEnclosed S) :
    (c.right S).Within (IsEnclosed S) E := by
  obtain ⟨focus, path⟩ := c
  cases h with
  | root => trivial
  | @inside f path _ hf hpath =>
    obtain ⟨ls, rs, hrow, hindex⟩ := hf.split
    unfold Cursor.right
    by_cases hend : (f.siblings.length : Int) ≤ f.index + 1
    · simp only [if_pos hend]
      trivial
    · simp only [if_neg hend]
      have hnext : f.index + 1 = ((ls.length + 1 : Nat) : Int) := by
        rw [hindex]
        rfl
      rw [hnext] at hend ⊢
      exact toSibling hf hpath (by omega)

theorem left (h : c.IsEnclosed S) :
    (c.left S).Within (IsEnclosed S) E := by
  obtain ⟨focus, path⟩ := c
  cases h with
  | root => trivial
  | @inside f path _ hf hpath =>
    obtain ⟨ls, rs, hrow, hindex⟩ := hf.split
    unfold Cursor.left
    by_cases hfirst : f.index = 0
    · simp only [if_pos hfirst]
      trivial
    · simp only [if_neg hfirst]
      have hlen := Frame.Encloses.length_siblings hrow
      have hprev : f.index - 1 = ((ls.length - 1 : Nat) : Int) := by
        omega
      rw [hprev]
      exact toSibling hf hpath (by omega)

theorem leftmost (h : c.IsEnclosed S) :
    (c.leftmost S).Within (IsEnclosed S) E := by
  obtain ⟨focus, path⟩ := c
  cases h with
  | root => trivial
  | @inside f path _ hf hpath =>
    obtain ⟨ls, rs, hrow, -⟩ := hf.split
    unfold Cursor.leftmost
    by_cases hfirst : f.index = 0
    · simp only [if_pos hfirst]
      exact .inside hf hpath
    · simp only [if_neg hfirst]
      refine toSibling (i := 0) hf hpath ?_
      rw [Frame.Encloses.length_siblings hrow]
      omega

theorem rightmost (h : c.IsEnclosed S) :
    (c.rightmost S).Within (IsEnclosed S) E := by
  obtain ⟨focus, path⟩ := c
  cases h with
  | root => trivial
  | @inside f path _ hf hpath =>
    obtain ⟨ls, rs, hrow, -⟩ := hf.split
    have hlen := Frame.Encloses.length_siblings hrow
    have hlast : (f.siblings.length : Int) - 1
        = ((ls.length + rs.length : Nat) : Int) := by
      omega
    unfold Cursor.rightmost
    simp only [hlast]
    by_cases hself : f.index = ((ls.length + rs.length : Nat) : Int)
    · rw [if_pos hself]
      exact .inside hf hpath
    · rw [if_neg hself]
      exact toSibling hf hpath (by omega)

/-! ## Moves in document order -/

theorem after (h : c.IsEnclosed S)
    (hE : ∀ t row e, S.make t row = .error e → E e) :
    (c.after S).Within (IsEnclosed S) E := by
  fun_induction Cursor.after S c with
  | case1 c e hr => exact hr ▸ h.right
  | case2 c r hr => exact hr ▸ h.right
  | case3 c hr e hu => exact hu ▸ h.up hE
  | case4 c hr hu => trivial
  | case5 c hr p hu _ ih =>
    have hup := h.up hE
    rw [hu] at hup
    exact ih hup

theorem next (h : c.IsEnclosed S)
    (hE : ∀ t row e, S.make t row = .error e → E e) :
    (c.next S).Within (IsEnclosed S) E := by
  unfold Cursor.next
  split
  · next d hd => exact h.down hd
  · exact h.after hE

theorem lastPlace (h : c.IsEnclosed S) : (c.lastPlace S).IsEnclosed S := by
  fun_induction Cursor.lastPlace S c with
  | case1 c hd => exact h
  | case2 c d hd _ ih => exact ih (h.downLast hd)

theorem prev (h : c.IsEnclosed S)
    (hE : ∀ t row e, S.make t row = .error e → E e) :
    (c.prev S).Within (IsEnclosed S) E := by
  have hleft : (c.left S).Within (IsEnclosed S) E := h.left
  unfold Cursor.prev
  cases hl : c.left S with
  | error e =>
    rw [hl] at hleft
    exact hleft
  | ok o =>
    cases o with
    | none => exact h.up hE
    | some l =>
      rw [hl] at hleft
      exact lastPlace hleft

/-- **Every plain step keeps the focus enclosed**, and fails only if a
branch cannot be made. -/
theorem step (h : c.IsEnclosed S) (d : Direction)
    (hE : ∀ t row e, S.make t row = .error e → E e) :
    (d.step S c).Within (IsEnclosed S) E := by
  cases d with
  | down =>
    show Attempt.Within (IsEnclosed S) E (.ok (c.down S))
    cases hd : c.down S with
    | none => trivial
    | some d => exact h.down hd
  | up => exact h.up hE
  | left => exact h.left
  | right => exact h.right
  | leftmost => exact h.leftmost
  | rightmost => exact h.rightmost
  | next => exact h.next hE
  | prev => exact h.prev hE

/-! ## Edits -/

theorem insertLeft (h : c.IsEnclosed S) (u : τ) :
    Attempt.Within (IsEnclosed S) E (.ok (c.insertLeft u)) := by
  obtain ⟨focus, path⟩ := c
  cases h with
  | root => trivial
  | @inside f path _ hf hpath =>
    obtain ⟨ls, rs, hrow, hindex⟩ := hf.split
    refine .inside (hf.edited (ls ++ [u]) rs ?_ ?_) hpath
    · rw [hindex, Frame.before_natCast, Frame.Encloses.siblings_eq hrow,
        List.take_left, List.drop_left, List.append_assoc]
      rfl
    · rw [hindex, List.length_append]
      rfl

theorem insertRight (h : c.IsEnclosed S) (u : τ) :
    Attempt.Within (IsEnclosed S) E (.ok (c.insertRight u)) := by
  obtain ⟨focus, path⟩ := c
  cases h with
  | root => trivial
  | @inside f path _ hf hpath =>
    obtain ⟨ls, rs, hrow, hindex⟩ := hf.split
    refine .inside (hf.edited ls (u :: rs) ?_ hindex) hpath
    have hafter : f.siblings = (ls ++ [focus]) ++ rs := by
      rw [Frame.Encloses.siblings_eq hrow, List.append_assoc]
      rfl
    have hbefore : f.before (f.index + 1) = (ls ++ [focus]).length := by
      rw [hindex, ← Int.natCast_succ, Frame.before_natCast,
        List.length_append]
      rfl
    rw [hbefore, hafter, List.take_left, List.drop_left,
      List.append_assoc]
    rfl

theorem withChildren (h : c.IsEnclosed S) (edit : List τ → List τ)
    (hE : ∀ t row e, S.make t row = .error e → E e) :
    (c.withChildren S edit).Within (IsEnclosed S) E := by
  unfold Cursor.withChildren
  split
  · trivial
  · exact .map_some (fun t _ => h.replace t) (hE c.focus _)

theorem remove (h : c.IsEnclosed S)
    (hE : ∀ t row e, S.make t row = .error e → E e) :
    (c.remove S).Within (IsEnclosed S) E := by
  obtain ⟨focus, path⟩ := c
  cases h with
  | root => trivial
  | @inside f path _ hf hpath =>
    obtain ⟨ls, rs, hrow, hindex⟩ := hf.split
    unfold Cursor.remove
    by_cases hpos : 0 < f.index
    · -- the sibling before the focus is the last of those to the left
      simp only [if_pos hpos]
      have hne : ls ≠ [] := by
        rintro rfl
        rw [hindex] at hpos
        exact absurd hpos (by simp)
      obtain ⟨ls', u, rfl⟩ := (List.eq_nil_or_concat ls).resolve_left hne
      have hrest : f.lefts ++ f.rights = ls' ++ u :: rs := by
        rw [Frame.Encloses.lefts_eq hrow hindex,
          Frame.Encloses.rights_eq hrow hindex, List.concat_append]
      have hi : f.index - 1 = ls'.length := by
        rw [hindex, List.length_concat]
        omega
      have hs : (f.withSiblings (f.lefts ++ f.rights)).sibling?
          ls'.length = some u := by
        rw [Frame.sibling?_natCast]
        show (f.lefts ++ f.rights)[ls'.length]? = some u
        rw [hrest, List.getElem?_append_right (Nat.le_refl _),
          Nat.sub_self]
        rfl
      rw [hi]
      unfold Cursor.toSibling
      simp only [hs]
      exact .inside (hf.edited ls' rs hrest rfl) hpath
    · simp only [if_neg hpos]
      exact .map_some (fun t _ => hpath.refocus t) (hE f.parent _)

/-- **Whatever is put beside the focus or into it**, the focus stays
enclosed. -/
theorem insert {S : Shape Value Failure} {c : Cursor Value}
    {E : Failure → Prop} (h : c.IsEnclosed S) (side : Side) (v : Value)
    (hE : ∀ t row e, S.make t row = .error e → E e) :
    (c.insert S side v).Within (IsEnclosed S) E := by
  cases side with
  | left => exact h.insertLeft v
  | right => exact h.insertRight v
  | first => exact h.withChildren _ hE
  | last => exact h.withChildren _ hE

end Enclosed

/-- The operations of a cursor keep the focus enclosed, whatever they put
into the tree. -/
theorem keeps_isEnclosed (S : Shape Value Failure) {E : Failure → Prop}
    (hE : ∀ t row e, S.make t row = .error e → E e) :
    Keeps S (fun _ => True) (IsEnclosed S) E where
  step d hc := hc.step d hE
  remove hc := hc.remove hE
  insert side _ _ hc := hc.insert side _ hE
  replace _ hc := hc.replace _

end Cursor

namespace Session

/-- Everything is of the sort that anything is of. -/
theorem puts_true (s : Session) (a : Action) :
    s.Puts (fun _ => True) a := by
  cases a with
  | place side item => exact ⟨trivial, fun _ _ => trivial⟩
  | assign v conv => exact fun _ _ _ => trivial
  | amend f conv occasion => exact fun _ _ _ => trivial
  | replaceWith f => exact fun _ _ => trivial
  | _ => trivial

/-- **In every run the frames enclose the focus**, for trees of any shape
and whatever is done. -/
theorem Reaches.isEnclosed {Allowed : Session → Action → Prop}
    {S : Shape Value Failure} {policy : Policy} {root : Value}
    {s : Session} (h : (Session.start S policy root).Reaches Allowed s) :
    s.cursor.IsEnclosed s.shape := by
  refine h.invariant (I := fun t => t.cursor.IsEnclosed t.shape) ?_
    (.root root)
  intro t a c ht _ hc
  have hkept := (Cursor.keeps_isEnclosed t.shape (E := fun _ => True)
    fun _ _ _ _ => trivial).outcome ht (t.puts_true a) fun _ _ => trivial
  rw [hc] at hkept
  exact hkept

end Session

end FormTree
