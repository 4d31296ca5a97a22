import Mathlib.Data.List.Forall2
import FormTree.Session

/-!
# Matching trees

A cursor asks three things of its tree: which nodes are branches, what
their children are, and what becomes of a branch with another row of
children. Nothing else about a tree can make a difference to it. Here that
is made precise for two trees of different shapes. Where the nodes of one
match those of the other – branches match branches, their children match
one by one, and branches made of matching rows match again
(`Shape.Matches`) – two cursors that do the same are in the same place at
every step: the same moves lead nowhere, the frames have the same indices
and the same marks, and the trees that the cursors stand for match
(`Cursor.Matches.outcome`, `Cursor.Matches.root`).

What may be in focus at the root of a tree yet to be filled is nothing
that could stand in a row, so there are two relations: one for the nodes
in a row, and a wider one for what is in focus.
-/

namespace FormTree

variable {τ υ ε : Type}

/-- **The steps of a cursor**: plain moves, and edits with items that are
put into the tree as they are. -/
inductive Step (α : Type) where
  /-- A plain move. -/
  | move (d : Direction)
  /-- Taking out the focus. -/
  | remove
  /-- Replacing the focus. -/
  | replace (item : α)
  /-- Putting an item beside the focus or into it. -/
  | insert (side : Side) (item : α)

namespace Step

/-- The same step with other items. -/
def map {α β : Type} (f : α → β) : Step α → Step β
  | .move d => .move d
  | .remove => .remove
  | .replace a => .replace (f a)
  | .insert side a => .insert side (f a)

/-- A step as an action. -/
def action : Step Value → Action
  | .move d => .move (.plain d)
  | .remove => .move .remove
  | .replace v => .replace v
  | .insert side v => .insert side v

end Step

/-- **Two attempts agree** up to a relation: both lead nowhere, or both
lead somewhere and the results are related. Neither fails. -/
inductive Attempt.Agree {α β : Type} (R : α → β → Prop) :
    Attempt ε α → Attempt ε β → Prop
  | nowhere : Agree R (.ok none) (.ok none)
  | somewhere {x : α} {y : β} : R x y →
      Agree R (.ok (some x)) (.ok (some y))

namespace Attempt.Agree

variable {α β : Type} {R : α → β → Prop} {b : Attempt ε β}

/-- Where the one leads nowhere, so does the other. -/
theorem eq_none (h : Agree R (.ok none) b) : b = .ok none := by
  cases h
  rfl

/-- Where the one leads somewhere, so does the other. -/
theorem exists_some {x : α} (h : Agree R (.ok (some x)) b) :
    ∃ y, b = .ok (some y) ∧ R x y := by
  cases h with
  | somewhere hxy => exact ⟨_, rfl, hxy⟩

theorem imp {a : Attempt ε α} {R' : α → β → Prop}
    (hR : ∀ {x y}, R x y → R' x y) (h : Agree R a b) : Agree R' a b := by
  cases h with
  | nowhere => exact .nowhere
  | somewhere hxy => exact .somewhere (hR hxy)

end Attempt.Agree

/-- **The nodes of two shapes match.** `Row` relates what may stand in a
row, and `Focus` what may be in focus. -/
structure Shape.Matches (S : Shape τ ε) (T : Shape υ ε)
    (Row Focus : τ → υ → Prop) : Prop where
  /-- What may stand in a row may be in focus. -/
  focus : ∀ {t u}, Row t u → Focus t u
  /-- What is in focus is a branch in both trees or in neither. -/
  isBranch_eq : ∀ {t u}, Focus t u → T.isBranch u = S.isBranch t
  /-- A branch in focus could stand in a row. -/
  branch : ∀ {t u}, Focus t u → S.isBranch t = true → Row t u
  /-- The children of branches match one by one. -/
  children : ∀ {t u}, Row t u → S.isBranch t = true →
    List.Forall₂ Row (S.children t) (T.children u)
  /-- Matching rows make matching branches. -/
  make : ∀ {t u}, Row t u → S.isBranch t = true →
    ∀ {ts us}, List.Forall₂ Row ts us →
      ∃ t' u', S.make t (.ofList ts) = .ok t'
        ∧ T.make u (.ofList us) = .ok u' ∧ Row t' u'

/-- **Two frames match**: the same index, inside the row, the same mark,
and rows and parents that match. -/
structure Frame.Matches (S : Shape τ ε) (Row : τ → υ → Prop)
    (f : Frame τ) (g : Frame υ) : Prop where
  /-- The siblings match one by one. -/
  siblings : List.Forall₂ Row f.siblings g.siblings
  /-- Both rows are lists. -/
  ordered : f.row.unordered = none ∧ g.row.unordered = none
  /-- The index is the same. -/
  index_eq : g.index = f.index
  /-- It is a place of the row. -/
  index_mem : 0 ≤ f.index ∧ f.index < f.siblings.length
  /-- The recorded parents match. -/
  parent : Row f.parent g.parent
  /-- They are branches. -/
  isBranch : S.isBranch f.parent = true
  /-- The rows have been edited in both or in neither. -/
  changed_eq : g.changed = f.changed

/-- Matching rows have matching entries at every place. -/
theorem exists_getElem?_of_forall₂ {R : τ → υ → Prop} {ts : List τ}
    {us : List υ} (h : List.Forall₂ R ts us) {i : Nat}
    (hi : i < ts.length) :
    ∃ t u, ts[i]? = some t ∧ us[i]? = some u ∧ R t u := by
  have hi' : i < us.length := h.length_eq ▸ hi
  exact ⟨_, _, List.getElem?_eq_getElem hi, List.getElem?_eq_getElem hi',
    h.get hi hi'⟩

namespace Frame.Matches

variable {S : Shape τ ε} {R : τ → υ → Prop} {f : Frame τ} {g : Frame υ}

/-- The index is a number of siblings, the same in both frames. -/
theorem exists_index (h : f.Matches S R g) :
    ∃ k : Nat, f.index = k ∧ g.index = k ∧ k < f.siblings.length := by
  obtain ⟨hpos, hlt⟩ := h.index_mem
  obtain ⟨k, hk⟩ := Int.eq_ofNat_of_zero_le hpos
  exact ⟨k, hk, h.index_eq.trans hk, by omega⟩

theorem lefts (h : f.Matches S R g) : List.Forall₂ R f.lefts g.lefts := by
  obtain ⟨k, hf, hg, -⟩ := h.exists_index
  rw [Frame.lefts_of_index hf, Frame.lefts_of_index hg]
  exact List.forall₂_take k h.siblings

theorem rights (h : f.Matches S R g) :
    List.Forall₂ R f.rights g.rights := by
  obtain ⟨k, hf, hg, -⟩ := h.exists_index
  rw [Frame.rights_of_index hf, Frame.rights_of_index hg]
  exact List.forall₂_drop (k + 1) h.siblings

/-- As many siblings stand before the focus as the index says, and one
less than the row has beside it. -/
theorem length_lefts_rights (h : f.Matches S R g) :
    f.index = f.lefts.length
      ∧ f.siblings.length = f.lefts.length + (f.rights.length + 1) := by
  obtain ⟨k, hf, -, hk⟩ := h.exists_index
  rw [Frame.lefts_of_index hf, Frame.rights_of_index hf, List.length_take,
    List.length_drop, hf]
  omega

/-- Frames match at another place of the row. -/
theorem atIndex (h : f.Matches S R g) {i : Int} (hpos : 0 ≤ i)
    (hlt : i < f.siblings.length) :
    (f.atIndex i).Matches S R (g.atIndex i) :=
  { h with index_eq := rfl, index_mem := ⟨hpos, hlt⟩ }

/-- Frames match after an edit of their rows. -/
theorem edited (h : f.Matches S R g) {ts : List τ} {us : List υ}
    (hrow : List.Forall₂ R ts us) {i : Int} (hpos : 0 ≤ i)
    (hlt : i < ts.length) :
    ((f.withSiblings ts).atIndex i).Matches S R
      ((g.withSiblings us).atIndex i) where
  siblings := hrow
  ordered := ⟨rfl, rfl⟩
  index_eq := rfl
  index_mem := ⟨hpos, hlt⟩
  parent := h.parent
  isBranch := h.isBranch
  changed_eq := rfl

/-- The same at the index that the frames have. -/
theorem withSiblings (h : f.Matches S R g) {ts : List τ} {us : List υ}
    (hrow : List.Forall₂ R ts us) (hlt : f.index < ts.length) :
    (f.withSiblings ts).Matches S R (g.withSiblings us) :=
  { h.edited hrow h.index_mem.1 hlt with index_eq := h.index_eq }

/-- Frames match with matching entries for the focus. -/
theorem withFocus (h : f.Matches S R g) {t : τ} {u : υ} (htu : R t u) :
    (f.withFocus t).Matches S R (g.withFocus u) := by
  refine h.withSiblings (List.rel_append h.lefts (.cons htu h.rights)) ?_
  obtain ⟨hindex, -⟩ := h.length_lefts_rights
  rw [List.length_append, List.length_cons]
  omega

end Frame.Matches

namespace Cursor

/-- Where there is no way up, the cursor stands for what is in focus. -/
theorem root_of_up_eq_none {S : Shape τ ε} {c : Cursor τ}
    (h : c.up S = .ok none) : c.root S = .ok c.focus := by
  rw [root]
  split
  · next h' => rw [h] at h'; cases h'
  · rfl
  · next h' => rw [h] at h'; cases h'

theorem after_of_right {S : Shape τ ε} {c r : Cursor τ}
    (h : c.right S = .ok (some r)) : c.after S = .ok (some r) := by
  rw [after, h]

theorem after_of_up {S : Shape τ ε} {c p : Cursor τ}
    (hr : c.right S = .ok none) (h : c.up S = .ok (some p)) :
    c.after S = p.after S := by
  rw [after, hr]
  simp only
  split
  · next h' => rw [h] at h'; cases h'
  · next h' => rw [h] at h'; cases h'
  · next h' => rw [h] at h'; cases h'; rfl

theorem after_of_up_eq_none {S : Shape τ ε} {c : Cursor τ}
    (hr : c.right S = .ok none) (h : c.up S = .ok none) :
    c.after S = .ok none := by
  rw [after, hr]
  simp only
  split
  · next h' => rw [h] at h'; cases h'
  · rfl
  · next h' => rw [h] at h'; cases h'

theorem lastPlace_of_downLast {S : Shape τ ε} {c d : Cursor τ}
    (h : c.downLast S = some d) : c.lastPlace S = d.lastPlace S := by
  rw [lastPlace]
  split
  · next h' => rw [h] at h'; cases h'
  · next h' => rw [h] at h'; cases h'; rfl

theorem lastPlace_of_downLast_eq_none {S : Shape τ ε} {c : Cursor τ}
    (h : c.downLast S = none) : c.lastPlace S = c := by
  rw [lastPlace]
  split
  · rfl
  · next h' => rw [h] at h'; cases h'

/-- **Two cursors match**: what is in focus does, and the frames do one by
one. -/
structure Matches (S : Shape τ ε) (Row Focus : τ → υ → Prop)
    (c : Cursor τ) (d : Cursor υ) : Prop where
  /-- What is in focus matches. -/
  focus : Focus c.focus d.focus
  /-- The frames match. -/
  path : List.Forall₂ (Frame.Matches S Row) c.path d.path

/-- The path with matching entries for the focus. -/
theorem forall₂_refocus {S : Shape τ ε} {R : τ → υ → Prop}
    {path : List (Frame τ)} {path' : List (Frame υ)}
    (h : List.Forall₂ (Frame.Matches S R) path path') {t : τ} {u : υ}
    (htu : R t u) :
    List.Forall₂ (Frame.Matches S R) (refocus t path)
      (refocus u path') := by
  cases h with
  | nil => exact .nil
  | cons hf hpath => exact .cons (hf.withFocus htu) hpath

namespace Matches

variable {S : Shape τ ε} {T : Shape υ ε} {R Q : τ → υ → Prop}
  {c : Cursor τ} {d : Cursor υ}

theorem agree (h : c.Matches S R Q d) :
    Attempt.Agree (ε := ε) (Matches S R Q) (.ok (some c))
      (.ok (some d)) :=
  .somewhere h

/-- Two rows of children, if there are any. -/
theorem children?_cases (hST : S.Matches T R Q) (h : c.Matches S R Q d) :
    (c.children? S = none ∧ d.children? T = none)
      ∨ ∃ ts us, c.children? S = some ts ∧ d.children? T = some us
          ∧ S.isBranch c.focus = true ∧ R c.focus d.focus
          ∧ List.Forall₂ R ts us := by
  unfold children?
  rw [hST.isBranch_eq h.focus]
  by_cases hb : S.isBranch c.focus = true
  · have hrow := hST.branch h.focus hb
    rw [if_pos hb, if_pos hb]
    exact .inr ⟨_, _, rfl, rfl, hb, hrow, hST.children hrow hb⟩
  · rw [if_neg hb, if_neg hb]
    exact .inl ⟨rfl, rfl⟩

/-! ## Moves between levels -/

/-- The cursor at a child, in a frame that has just been entered. -/
theorem enter (hST : S.Matches T R Q) (h : c.Matches S R Q d)
    (hb : S.isBranch c.focus = true) (hrow : R c.focus d.focus)
    {ts : List τ} {us : List υ} (hts : List.Forall₂ R ts us) {t : τ}
    {u : υ} (htu : R t u) {i : Int} (hpos : 0 ≤ i) (hlt : i < ts.length) :
    Matches S R Q ⟨t, ⟨.ofList ts, i, c.focus, false⟩ :: c.path⟩
      ⟨u, ⟨.ofList us, i, d.focus, false⟩ :: d.path⟩ where
  focus := hST.focus htu
  path := .cons ⟨hts, ⟨rfl, rfl⟩, rfl, ⟨hpos, hlt⟩, hrow, hb, rfl⟩ h.path

theorem down (hST : S.Matches T R Q) (h : c.Matches S R Q d) :
    Attempt.Agree (ε := ε) (Matches S R Q) (.ok (c.down S))
      (.ok (d.down T)) := by
  unfold Cursor.down
  rcases h.children?_cases hST with ⟨hc, hd⟩ | ⟨_, _, hc, hd, hb, hrow, hts⟩
  · rw [hc, hd]
    exact .nowhere
  · rw [hc, hd]
    cases hts with
    | nil => exact .nowhere
    | @cons t u ts us htu hrest =>
      exact .somewhere (h.enter hST hb hrow (.cons htu hrest) htu
        (Int.le_refl 0) (by rw [List.length_cons]; omega))

theorem downLast (hST : S.Matches T R Q) (h : c.Matches S R Q d) :
    Attempt.Agree (ε := ε) (Matches S R Q) (.ok (c.downLast S))
      (.ok (d.downLast T)) := by
  unfold Cursor.downLast
  rcases h.children?_cases hST with ⟨hc, hd⟩ | ⟨ts, us, hc, hd, hb, hrow, hts⟩
  · rw [hc, hd]
    exact .nowhere
  · rw [hc, hd]
    have hlen := hts.length_eq
    by_cases hempty : ts.length = 0
    · obtain rfl : ts = [] := List.length_eq_zero_iff.mp hempty
      obtain rfl : us = [] := List.forall₂_nil_left_iff.mp hts
      exact .nowhere
    · obtain ⟨t, u, ht, hu, htu⟩ := exists_getElem?_of_forall₂ hts
        (i := ts.length - 1) (by omega)
      simp only [List.getLast?_eq_getElem?, ← hlen, ht, hu]
      exact .somewhere (h.enter hST hb hrow hts htu (by omega) (by omega))

/-- **Going up** makes matching parents, or finds them as recorded. -/
theorem up (hST : S.Matches T R Q) (h : c.Matches S R Q d) :
    Attempt.Agree (Matches S R Q) (c.up S) (d.up T) := by
  obtain ⟨t, path⟩ := c
  obtain ⟨u, path'⟩ := d
  unfold Cursor.up
  cases h.path with
  | nil => exact .nowhere
  | @cons f g path path' hf hpath =>
    simp only [hf.changed_eq]
    cases f.changed with
    | false => exact .somewhere ⟨hST.focus hf.parent, hpath⟩
    | true =>
      obtain ⟨p, q, hp, hq, hpq⟩ :=
        hST.make hf.parent hf.isBranch hf.siblings
      have hrow : f.row = .ofList f.siblings := by
        rw [Row.ofList, ← hf.ordered.1]
      have hrow' : g.row = .ofList g.siblings := by
        rw [Row.ofList, ← hf.ordered.2]
      simp only [if_true, hrow, hrow', hp, hq]
      exact .somewhere ⟨hST.focus hpq, forall₂_refocus hpath hpq⟩

/-- **The trees that matching cursors stand for match.** -/
theorem root (hST : S.Matches T R Q) (h : c.Matches S R Q d) :
    ∃ t u, c.root S = .ok t ∧ d.root T = .ok u ∧ Q t u := by
  fun_induction Cursor.root S c generalizing d with
  | case1 c e hc => exact nomatch hc ▸ h.up hST
  | case2 c hc =>
    have hd := (hc ▸ h.up hST).eq_none
    exact ⟨_, _, rfl, root_of_up_eq_none hd, h.focus⟩
  | case3 c p hc _ ih =>
    obtain ⟨q, hd, hpq⟩ := (hc ▸ h.up hST).exists_some
    obtain ⟨t, u, ht, hu, htu⟩ := ih hpq
    exact ⟨t, u, ht, (root_of_up hd).trans hu, htu⟩

/-! ## Moves among siblings -/

/-- A step to a place at which the frames match. -/
theorem toSibling (hST : S.Matches T R Q) {t : τ} {u : υ} {f : Frame τ}
    {g : Frame υ} {i : Int} (hf : (f.atIndex i).Matches S R (g.atIndex i))
    {path : List (Frame τ)} {path' : List (Frame υ)}
    (hpath : List.Forall₂ (Frame.Matches S R) path path') :
    Attempt.Agree (Matches S R Q) (Cursor.toSibling S i ⟨t, f :: path⟩)
      (Cursor.toSibling T i ⟨u, g :: path'⟩) := by
  obtain ⟨k, hk, -, hlt⟩ := hf.exists_index
  obtain rfl : i = k := hk
  obtain ⟨x, y, hx, hy, hxy⟩ := exists_getElem?_of_forall₂ hf.siblings hlt
  have hx' : f.sibling? k = some x := by
    rwa [Frame.sibling?_natCast]
  have hy' : g.sibling? k = some y := by
    rwa [Frame.sibling?_natCast]
  unfold Cursor.toSibling
  simp only [hx', hy']
  exact .somewhere ⟨hST.focus hxy, .cons hf hpath⟩

theorem right (hST : S.Matches T R Q) (h : c.Matches S R Q d) :
    Attempt.Agree (Matches S R Q) (c.right S) (d.right T) := by
  obtain ⟨t, path⟩ := c
  obtain ⟨u, path'⟩ := d
  unfold Cursor.right
  cases h.path with
  | nil => exact .nowhere
  | @cons f g path path' hf hpath =>
    have hmem := hf.index_mem
    simp only [hf.index_eq, ← hf.siblings.length_eq]
    by_cases hend : (f.siblings.length : Int) ≤ f.index + 1
    · rw [if_pos hend, if_pos hend]
      exact .nowhere
    · rw [if_neg hend, if_neg hend]
      exact toSibling hST (hf.atIndex (by omega) (by omega)) hpath

theorem left (hST : S.Matches T R Q) (h : c.Matches S R Q d) :
    Attempt.Agree (Matches S R Q) (c.left S) (d.left T) := by
  obtain ⟨t, path⟩ := c
  obtain ⟨u, path'⟩ := d
  unfold Cursor.left
  cases h.path with
  | nil => exact .nowhere
  | @cons f g path path' hf hpath =>
    have hmem := hf.index_mem
    simp only [hf.index_eq]
    by_cases hfirst : f.index = 0
    · rw [if_pos hfirst, if_pos hfirst]
      exact .nowhere
    · rw [if_neg hfirst, if_neg hfirst]
      exact toSibling hST (hf.atIndex (by omega) (by omega)) hpath

theorem leftmost (hST : S.Matches T R Q) (h : c.Matches S R Q d) :
    Attempt.Agree (Matches S R Q) (c.leftmost S) (d.leftmost T) := by
  obtain ⟨t, path⟩ := c
  obtain ⟨u, path'⟩ := d
  unfold Cursor.leftmost
  cases hpaths : h.path with
  | nil => exact .nowhere
  | @cons f g path path' hf hpath =>
    have hmem := hf.index_mem
    simp only [hf.index_eq]
    by_cases hfirst : f.index = 0
    · rw [if_pos hfirst, if_pos hfirst]
      exact h.agree
    · rw [if_neg hfirst, if_neg hfirst]
      exact toSibling hST (hf.atIndex (by omega) (by omega)) hpath

theorem rightmost (hST : S.Matches T R Q) (h : c.Matches S R Q d) :
    Attempt.Agree (Matches S R Q) (c.rightmost S) (d.rightmost T) := by
  obtain ⟨t, path⟩ := c
  obtain ⟨u, path'⟩ := d
  unfold Cursor.rightmost
  cases hpaths : h.path with
  | nil => exact .nowhere
  | @cons f g path path' hf hpath =>
    have hmem := hf.index_mem
    simp only [hf.index_eq, ← hf.siblings.length_eq]
    by_cases hlast : f.index = (f.siblings.length : Int) - 1
    · rw [if_pos hlast, if_pos hlast]
      exact h.agree
    · rw [if_neg hlast, if_neg hlast]
      exact toSibling hST (hf.atIndex (by omega) (by omega)) hpath

/-! ## Moves in document order -/

/-- Both cursors climb equally far. -/
theorem after (hST : S.Matches T R Q) (h : c.Matches S R Q d) :
    Attempt.Agree (Matches S R Q) (c.after S) (d.after T) := by
  fun_induction Cursor.after S c generalizing d with
  | case1 c e hr => exact nomatch hr ▸ h.right hST
  | case2 c r hr =>
    obtain ⟨q, hd, hrq⟩ := (hr ▸ h.right hST).exists_some
    rw [after_of_right hd]
    exact .somewhere hrq
  | case3 c hr e hu => exact nomatch hu ▸ h.up hST
  | case4 c hr hu =>
    rw [after_of_up_eq_none (hr ▸ h.right hST).eq_none
      (hu ▸ h.up hST).eq_none]
    exact .nowhere
  | case5 c hr p hu _ ih =>
    obtain ⟨q, hd, hpq⟩ := (hu ▸ h.up hST).exists_some
    rw [after_of_up (hr ▸ h.right hST).eq_none hd]
    exact ih hpq

theorem next (hST : S.Matches T R Q) (h : c.Matches S R Q d) :
    Attempt.Agree (Matches S R Q) (c.next S) (d.next T) := by
  have hagree := h.down hST
  unfold Cursor.next
  generalize c.down S = o at hagree
  generalize d.down T = p at hagree
  cases hagree with
  | nowhere => exact h.after hST
  | somewhere hcd => exact .somewhere hcd

/-- Both cursors descend equally far. -/
theorem lastPlace (hST : S.Matches T R Q) (h : c.Matches S R Q d) :
    (c.lastPlace S).Matches S R Q (d.lastPlace T) := by
  fun_induction Cursor.lastPlace S c generalizing d with
  | case1 c hc =>
    have hd := (hc ▸ h.downLast hST).eq_none
    rwa [lastPlace_of_downLast_eq_none (Except.ok.inj hd)]
  | case2 c l hc _ ih =>
    obtain ⟨m, hd, hlm⟩ := (hc ▸ h.downLast hST).exists_some
    rw [lastPlace_of_downLast (Except.ok.inj hd)]
    exact ih hlm

theorem prev (hST : S.Matches T R Q) (h : c.Matches S R Q d) :
    Attempt.Agree (Matches S R Q) (c.prev S) (d.prev T) := by
  have hagree := h.left hST
  unfold Cursor.prev
  generalize c.left S = a at hagree
  generalize d.left T = b at hagree
  cases hagree with
  | nowhere => exact h.up hST
  | somewhere hcd => exact .somewhere (hcd.lastPlace hST)

/-- **A plain step** of matching cursors. -/
theorem step (hST : S.Matches T R Q) (h : c.Matches S R Q d)
    (dir : Direction) :
    Attempt.Agree (Matches S R Q) (dir.step S c) (dir.step T d) := by
  cases dir with
  | down => exact h.down hST
  | up => exact h.up hST
  | left => exact h.left hST
  | right => exact h.right hST
  | leftmost => exact h.leftmost hST
  | rightmost => exact h.rightmost hST
  | next => exact h.next hST
  | prev => exact h.prev hST

/-! ## Edits -/

theorem replace (hST : S.Matches T R Q) (h : c.Matches S R Q d) {t : τ}
    {u : υ} (htu : R t u) : (c.replace t).Matches S R Q (d.replace u) :=
  ⟨hST.focus htu, forall₂_refocus h.path htu⟩

/-- Rows with matching items put in at a place. -/
theorem forall₂_put {ts : List τ} {us : List υ}
    (hts : List.Forall₂ R ts us) {t : τ} {u : υ} (htu : R t u) (i : Nat) :
    List.Forall₂ R (ts.take i ++ t :: ts.drop i)
      (us.take i ++ u :: us.drop i) :=
  List.rel_append (List.forall₂_take i hts)
    (.cons htu (List.forall₂_drop i hts))

theorem insertLeft (h : c.Matches S R Q d) {t : τ} {u : υ} (htu : R t u) :
    Attempt.Agree (ε := ε) (Matches S R Q) (.ok (c.insertLeft t))
      (.ok (d.insertLeft u)) := by
  obtain ⟨x, path⟩ := c
  obtain ⟨y, path'⟩ := d
  unfold Cursor.insertLeft
  cases hpaths : h.path with
  | nil => exact .nowhere
  | @cons f g path path' hf hpath =>
    obtain ⟨k, hk, hk', hlt⟩ := hf.exists_index
    simp only [hk, hk', Frame.before_natCast]
    refine .somewhere ⟨h.focus, .cons (hf.edited
      (forall₂_put hf.siblings htu k) (by omega) ?_) hpath⟩
    rw [List.length_append, List.length_take, List.length_cons,
      List.length_drop]
    omega

theorem insertRight (h : c.Matches S R Q d) {t : τ} {u : υ}
    (htu : R t u) :
    Attempt.Agree (ε := ε) (Matches S R Q) (.ok (c.insertRight t))
      (.ok (d.insertRight u)) := by
  obtain ⟨x, path⟩ := c
  obtain ⟨y, path'⟩ := d
  unfold Cursor.insertRight
  cases hpaths : h.path with
  | nil => exact .nowhere
  | @cons f g path path' hf hpath =>
    obtain ⟨k, hk, hk', hlt⟩ := hf.exists_index
    simp only [hk, hk', ← Int.natCast_succ, Frame.before_natCast]
    refine .somewhere ⟨h.focus, .cons (hf.withSiblings
      (forall₂_put hf.siblings htu (k + 1)) ?_) hpath⟩
    rw [List.length_append, List.length_take, List.length_cons,
      List.length_drop]
    omega

/-- The focus with other children, which match if the children did. -/
theorem withChildren (hST : S.Matches T R Q) (h : c.Matches S R Q d)
    {edit : List τ → List τ} {edit' : List υ → List υ}
    (hedit : ∀ {ts us}, List.Forall₂ R ts us →
      List.Forall₂ R (edit ts) (edit' us)) :
    Attempt.Agree (Matches S R Q) (c.withChildren S edit)
      (d.withChildren T edit') := by
  unfold Cursor.withChildren
  rcases h.children?_cases hST with ⟨hc, hd⟩ | ⟨ts, us, hc, hd, hb, hrow, hts⟩
  · rw [hc, hd]
    exact .nowhere
  · obtain ⟨t, u, ht, hu, htu⟩ := hST.make hrow hb (hedit hts)
    simp only [hc, hd, ht, hu]
    exact .somewhere (h.replace hST htu)

/-- Both cursors go to the sibling before, or to parents made without what
was in focus. -/
theorem remove (hST : S.Matches T R Q) (h : c.Matches S R Q d) :
    Attempt.Agree (Matches S R Q) (c.remove S) (d.remove T) := by
  obtain ⟨x, path⟩ := c
  obtain ⟨y, path'⟩ := d
  unfold Cursor.remove
  cases h.path with
  | nil => exact .nowhere
  | @cons f g path path' hf hpath =>
    have hrow := List.rel_append hf.lefts hf.rights
    simp only [hf.index_eq]
    by_cases hpos : 0 < f.index
    · obtain ⟨hindex, -⟩ := hf.length_lefts_rights
      rw [if_pos hpos, if_pos hpos]
      refine toSibling hST (hf.edited hrow (by omega) ?_) hpath
      rw [List.length_append]
      omega
    · obtain ⟨p, q, hp, hq, hpq⟩ := hST.make hf.parent hf.isBranch hrow
      rw [if_neg hpos, if_neg hpos]
      show Attempt.Agree _
        ((S.make f.parent (.ofList (f.lefts ++ f.rights))).map _)
        ((T.make g.parent (.ofList (g.lefts ++ g.rights))).map _)
      rw [hp, hq]
      exact .somewhere ⟨hST.focus hpq, forall₂_refocus hpath hpq⟩

/-- **One step of matching cursors**, with items that match. -/
theorem outcome {S T : Shape Value Failure} {R Q : Value → Value → Prop}
    {c d : Cursor Value} (hST : S.Matches T R Q) (h : c.Matches S R Q d)
    (p q : Policy) {α : Type} {f g : α → Value} (hfg : ∀ a, R (f a) (g a))
    (st : Step α) :
    Attempt.Agree (Matches S R Q)
      ((Session.mk S p c).outcome (st.map f).action)
      ((Session.mk T q d).outcome (st.map g).action) := by
  cases st with
  | move dir => exact h.step hST dir
  | remove => exact h.remove hST
  | replace a => exact .somewhere (h.replace hST (hfg a))
  | insert side a =>
    cases side with
    | left => exact h.insertLeft (hfg a)
    | right => exact h.insertRight (hfg a)
    | first =>
      exact h.withChildren hST fun hts => .cons (hfg a) hts
    | last =>
      exact h.withChildren hST fun hts =>
        List.rel_append hts (.cons (hfg a) .nil)

end Matches

end Cursor

end FormTree
