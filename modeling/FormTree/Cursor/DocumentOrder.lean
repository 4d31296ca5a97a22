import FormTree.Cursor

/-!
# Document order

The places of a tree in the order in which a document shows them: every
node before its children, and the children from left to right. `next`
goes to the following place and `prev` to the preceding one, across all
levels; the one has no result at the last place of the tree and the other
none at the root.

Both are loops without a counter. Climbing for `next` ends because every
step up leaves a frame, descending for `prev` because every step down goes
to something lighter.
-/

namespace FormTree.Cursor

variable {τ ε : Type}

/-- **The first place after everything in the focus**: the next sibling of
the focus or of the nearest ancestor that has one. -/
def after (S : Shape τ ε) (c : Cursor τ) : Attempt ε (Cursor τ) :=
  match c.right S with
  | .error e => .error e
  | .ok (some r) => .ok (some r)
  | .ok none =>
    match h : c.up S with
    | .error e => .error e
    | .ok none => .ok none
    | .ok (some p) =>
      have := length_path_of_up h
      p.after S
termination_by c.path.length

/-- **The next place** in document order. -/
def next (S : Shape τ ε) (c : Cursor τ) : Attempt ε (Cursor τ) :=
  match c.down S with
  | some d => .ok (some d)
  | none => c.after S

/-- To the last child. -/
def downLast (S : Shape τ ε) (c : Cursor τ) : Option (Cursor τ) :=
  match c.children? S with
  | none => none
  | some ts =>
    ts.getLast?.map fun t =>
      ⟨t, ⟨.ofList ts, (ts.length - 1 : Nat), c.focus, false⟩ :: c.path⟩

/-- The last child is lighter than the node itself. -/
theorem weight_of_downLast {S : Shape τ ε} {c d : Cursor τ}
    (h : c.downLast S = some d) : S.weight d.focus < S.weight c.focus := by
  unfold downLast children? at h
  by_cases hb : S.isBranch c.focus = true
  · have hlt := S.total_children_lt c.focus hb
    rw [if_pos hb] at h
    obtain ⟨t, ht, rfl⟩ := Option.map_eq_some_iff.mp h
    have := le_total S.weight (List.mem_of_getLast? ht)
    show S.weight t < S.weight c.focus
    omega
  · rw [if_neg hb] at h
    cases h

/-- **The last place in the focus**: down to last children as long as
there are any. -/
def lastPlace (S : Shape τ ε) (c : Cursor τ) : Cursor τ :=
  match h : c.downLast S with
  | none => c
  | some d =>
    have := weight_of_downLast h
    d.lastPlace S
termination_by S.weight c.focus

/-- **The previous place** in document order. -/
def prev (S : Shape τ ε) (c : Cursor τ) : Attempt ε (Cursor τ) :=
  match c.left S with
  | .error e => .error e
  | .ok none => c.up S
  | .ok (some l) => .ok (some (l.lastPlace S))

end FormTree.Cursor
