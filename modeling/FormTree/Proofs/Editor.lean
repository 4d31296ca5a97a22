import FormTree.Proofs.Runs
import FormTree.Proofs.Walk

/-!
# The editor without a cursor

There is a simple way to edit a tree: keep the whole of it and the
position of the node to work on. A move changes the position and leaves
the tree alone; an edit puts together the whole tree with one node
replaced. Nothing is recorded, nothing is put off, and whether an
operation is possible can be read off the tree.

`Editor.apply` is that editor for the primitive operations. A cursor
does the same with less work, and this module proves that it does exactly
the same (`Session.perform_agrees_editor`): over any run, what the
cursor stands for – its root and the indices of its frames – is what the
simple editor would have, an operation leads nowhere exactly where it is
undefined there, and a function handed in fails in both or in neither.
-/

namespace FormTree

namespace Node

/-- **The tree with another node at a position**, if the position leads
anywhere. -/
def substitute (m : Form) : Form → List Nat → Option Form
  | _, [] => some m
  | .branch k cs, i :: p =>
    cs[i]?.bind fun c =>
      (substitute m c p).map fun d => .branch k (cs.set i d)
  | _, _ :: _ => none

@[simp] theorem substitute_nil (m n : Form) :
    substitute m n [] = some m := by
  rw [substitute]

theorem substitute_cons (m : Form) (k : Composite) (cs : List Form)
    (i : Nat) (p : List Nat) :
    substitute m (.branch k cs) (i :: p)
      = cs[i]?.bind fun c =>
          (substitute m c p).map fun d => .branch k (cs.set i d) := by
  rw [substitute]

/-- Replacing a node deep down is replacing an ancestor of it. -/
theorem substitute_append (m n : Form) (p q : List Nat) :
    substitute m n (p ++ q)
      = (n.at? p).bind fun a =>
          (substitute m a q).bind fun b => substitute b n p := by
  induction p generalizing n with
  | nil => simp
  | cons i p ih =>
    rw [List.cons_append, at?_cons]
    cases n with
    | branch k cs =>
      rw [children_branch]
      cases hc : cs[i]? with
      | none => rw [substitute_cons, hc]; rfl
      | some c =>
        have hsub : ∀ b r, substitute b (.branch k cs) (i :: r)
            = (substitute b c r).map fun d => .branch k (cs.set i d) := by
          intro b r
          rw [substitute_cons, hc, Option.bind_some]
        simp only [hsub, ih, Option.bind_some, Option.map_bind,
          Function.comp_def]
    | _ => rfl

/-- Replacing something below a branch replaces one of its children. -/
theorem exists_of_substitute_cons {m t u : Form} {i : Nat} {p : List Nat}
    (h : substitute m t (i :: p) = some u) :
    ∃ k cs c d, t = .branch k cs ∧ cs[i]? = some c
      ∧ substitute m c p = some d ∧ u = .branch k (cs.set i d) := by
  cases t with
  | branch k cs =>
    rw [substitute_cons] at h
    obtain ⟨c, hc, h⟩ := Option.bind_eq_some_iff.mp h
    obtain ⟨d, hd, rfl⟩ := Option.map_eq_some_iff.mp h
    exact ⟨k, cs, c, d, rfl, hc, hd, rfl⟩
  | _ => cases h

/-- Replacing a child of a branch, and then something below it. -/
theorem substitute_set (m d : Form) (k : Composite) {cs : List Form}
    {i : Nat} (hi : i < cs.length) (p : List Nat) :
    substitute m (.branch k (cs.set i d)) (i :: p)
      = (substitute m d p).map fun e => .branch k (cs.set i e) := by
  rw [substitute_cons, List.getElem?_set_self hi, Option.bind_some]
  simp only [List.set_set]

/-- The new node is at the position. -/
theorem at?_substitute_self {m t u : Form} {p : List Nat}
    (h : substitute m t p = some u) : u.at? p = some m := by
  induction p generalizing t u with
  | nil =>
    rw [substitute_nil] at h
    rw [at?_nil, Option.some_inj.mp h]
  | cons i p ih =>
    obtain ⟨k, cs, c, d, rfl, hc, hd, rfl⟩ := exists_of_substitute_cons h
    rw [at?_cons, children_branch,
      List.getElem?_set_self (List.getElem?_eq_some_iff.mp hc).1,
      Option.bind_some, ih hd]

/-- The last of two replacements at a position counts. -/
theorem substitute_substitute {m t u : Form} {p : List Nat}
    (h : substitute m t p = some u) (n : Form) :
    substitute n u p = substitute n t p := by
  induction p generalizing t u with
  | nil => rw [substitute_nil, substitute_nil]
  | cons i p ih =>
    obtain ⟨k, cs, c, d, rfl, hc, hd, rfl⟩ := exists_of_substitute_cons h
    rw [substitute_set n d k (List.getElem?_eq_some_iff.mp hc).1, ih hd,
      substitute_cons, hc, Option.bind_some]

/-- A node replaced by itself. -/
theorem substitute_eq_self {m t : Form} {p : List Nat}
    (h : t.at? p = some m) : substitute m t p = some t := by
  induction p generalizing t with
  | nil =>
    rw [at?_nil] at h
    rw [substitute_nil, Option.some_inj.mp h]
  | cons i p ih =>
    rw [at?_cons] at h
    obtain ⟨c, hc, hm⟩ := Option.bind_eq_some_iff.mp h
    cases t with
    | branch k cs =>
      rw [children_branch] at hc
      obtain ⟨hi, rfl⟩ := List.getElem?_eq_some_iff.mp hc
      rw [substitute_cons, hc, Option.bind_some, ih hm, Option.map_some,
        List.set_getElem_self]
    | _ => cases hc

end Node

/-! ## The editor -/

/-- **An editor without a cursor**: the tree, and where to work in it. -/
structure Editor where
  /-- The whole tree. -/
  whole : Value
  /-- The position, from the root down. -/
  place : List Nat

namespace Editor

/-- The node at the position. -/
def node? (E : Editor) : Option Value := E.whole.at? E.place

/-- The children of the node at a position. -/
def childrenAt (E : Editor) (p : List Nat) : List Form :=
  match E.whole.at? p with
  | some (.node n) => n.children
  | _ => []

/-- The position of the parent, and the number of the node there. -/
def parent? (E : Editor) : Option (List Nat × Nat) :=
  E.place.getLast?.map fun i => (E.place.dropLast, i)

/-- The same tree at another position. -/
def goTo (E : Editor) (p : List Nat) : Editor := { E with place := p }

/-- The position that a move leads to. -/
def target (d : Direction) (E : Editor) : Option (List Nat) :=
  match d with
  | .down => if E.childrenAt E.place = [] then none else some (E.place ++ [0])
  | .up => E.parent?.map fun (q, _) => q
  | .left =>
    E.parent?.bind fun (q, i) => if i = 0 then none else some (q ++ [i - 1])
  | .right =>
    E.parent?.bind fun (q, i) =>
      if i + 1 < (E.childrenAt q).length then some (q ++ [i + 1]) else none
  | .leftmost => E.parent?.map fun (q, _) => q ++ [0]
  | .rightmost =>
    E.parent?.map fun (q, _) => q ++ [(E.childrenAt q).length - 1]
  | .next => (E.whole.positions.filter (E.place < ·)).head?
  | .prev => (E.whole.positions.filter (· < E.place)).getLast?

/-- **A move changes the position only.** -/
def move (d : Direction) (E : Editor) : Option Editor :=
  (E.target d).map E.goTo

/-- **The tree with another node at a position.** At the root anything
can be replaced. -/
def substitute (E : Editor) (p : List Nat) (n : Form) :
    Option Editor :=
  match p, E.whole with
  | [], _ => some { E with whole := .node n }
  | p, .node t =>
    (Node.substitute n t p).map fun u => { E with whole := .node u }
  | _, _ => none

/-- In a tree that is there, only positions of it can be replaced. -/
theorem substitute_node (t : Form) (p q : List Nat) (n : Form) :
    (Editor.mk (.node t) q).substitute p n
      = (Node.substitute n t p).map fun u => ⟨.node u, q⟩ := by
  cases p with
  | nil => rw [Node.substitute_nil]; rfl
  | cons i p => rfl

/-- The tree with other children of the branch at a position. -/
def withChildren (E : Editor) (p : List Nat)
    (edit : List Form → List Form) : Option Editor :=
  match E.whole.at? p with
  | some (.node (.branch k cs)) => E.substitute p (.branch k (edit cs))
  | _ => none

/-- Where the work goes on does not matter to an edit elsewhere. -/
theorem withChildren_goTo (E : Editor) (q p : List Nat)
    (edit : List Form → List Form) :
    (E.goTo q).withChildren p edit
      = (E.withChildren p edit).map fun F => F.goTo q := by
  obtain ⟨whole, place⟩ := E
  show (match Value.at? whole p with
    | some (.node (.branch k cs)) => Editor.substitute ⟨whole, q⟩ p _
    | _ => none) = Option.map _ (match Value.at? whole p with
    | some (.node (.branch k cs)) => Editor.substitute ⟨whole, place⟩ p _
    | _ => none)
  split
  · next k cs _ =>
    cases p with
    | nil => rfl
    | cons i p =>
      cases whole with
      | node t =>
        rw [substitute_node, substitute_node, Option.map_map]
        rfl
      | _ => rfl
  · rfl

/-- Puts a node beside the position or into the node there. Putting it to
the left moves the position along. -/
def insert (side : Side) (n : Form) (E : Editor) : Option Editor :=
  match side with
  | .left =>
    E.parent?.bind fun (q, i) =>
      (E.withChildren q fun cs => cs.insertIdx i n).map fun F =>
        F.goTo (q ++ [i + 1])
  | .right =>
    E.parent?.bind fun (q, i) =>
      E.withChildren q fun cs => cs.insertIdx (i + 1) n
  | .first => E.withChildren E.place fun cs => n :: cs
  | .last => E.withChildren E.place fun cs => cs ++ [n]

/-- Takes out the node at the position, which goes to the node before it
or else to the parent. -/
def remove (E : Editor) : Option Editor :=
  E.parent?.bind fun (q, i) =>
    (E.withChildren q fun cs => cs.eraseIdx i).map fun F =>
      F.goTo (if i = 0 then q else q ++ [i - 1])

/-- **A primitive operation of the editor.** -/
def apply (p : Primitive) (E : Editor) : Attempt Failure Editor :=
  match p with
  | .move d => .ok (E.move d)
  | .remove => .ok E.remove
  | .replace n => .ok (E.substitute E.place n)
  | .edit f =>
    match E.node? with
    | none => .ok none
    | some v => (f v).map fun n => E.substitute E.place n
  | .insert side n => .ok (E.insert side n)

end Editor

/-! ## Places in the editor -/

namespace Level

variable (l : Level) (n m : Form)

theorem set_row : (l.row n).set l.lefts.length m = l.row m := by
  rw [row, List.set_append_right _ _ (by simp), List.length_reverse,
    Nat.sub_self]
  rfl

theorem insertIdx_append {xs : List Form} {i : Nat} (h : i = xs.length)
    (ys : List Form) : (xs ++ ys).insertIdx i m = xs ++ m :: ys := by
  subst h
  induction xs with
  | nil => rfl
  | cons x xs ih => exact congrArg (x :: ·) ih

theorem insertIdx_row :
    (l.row n).insertIdx l.lefts.length m
      = l.lefts.reverse ++ m :: n :: l.rights :=
  insertIdx_append m (by rw [List.length_reverse]) _

theorem insertIdx_succ_row :
    (l.row n).insertIdx (l.lefts.length + 1) m
      = l.lefts.reverse ++ n :: m :: l.rights := by
  rw [row, List.append_cons,
    insertIdx_append m (by rw [List.length_append, List.length_reverse]; rfl),
    List.append_assoc]
  rfl

theorem eraseIdx_row :
    (l.row n).eraseIdx l.lefts.length = l.lefts.reverse ++ l.rights := by
  rw [row, List.eraseIdx_append_of_length_le (by simp), List.length_reverse,
    Nat.sub_self]
  rfl

end Level

namespace Place

/-- **The editor at a place.** -/
def editor (z : Place) : Editor := ⟨.node z.whole, z.index⟩

/-- Replacing what is in the gap. -/
theorem substitute_fillAll (levels : List Level) (n m : Form) :
    Node.substitute m (fillAll levels n) (gap levels)
      = some (fillAll levels m) := by
  induction levels generalizing n m with
  | nil => exact Node.substitute_nil m n
  | cons l outer ih =>
    have hat : (fillAll outer (l.fill n)).at? (gap outer)
        = some (l.fill n) := at?_whole ⟨l.fill n, outer⟩
    have hset : Node.substitute m (l.fill n) [l.lefts.length]
        = some (l.fill m) := by
      rw [Level.fill, Node.substitute_cons, l.getElem?_row, Option.bind_some,
        Node.substitute_nil, Option.map_some, l.set_row]
      rfl
    rw [fillAll, gap_cons, Node.substitute_append, hat, Option.bind_some,
      hset, Option.bind_some, ih]
    rfl

theorem editor_node? (z : Place) :
    z.editor.node? = some (.node z.focus) := by
  show Value.at? (.node z.whole) z.index = _
  rw [Value.at?_node, at?_whole]
  rfl

theorem editor_substitute (z : Place) (n : Form) :
    z.editor.substitute z.index n = some (z.replace n).editor := by
  rw [editor, Editor.substitute_node, whole, index, substitute_fillAll]
  rfl

theorem editor_withChildren (z : Place) (edit : List Form → List Form) :
    z.editor.withChildren z.index edit
      = (z.withChildren edit).map editor := by
  have hat : z.editor.whole.at? z.index = some (.node z.focus) :=
    editor_node? z
  unfold Editor.withChildren withChildren
  rw [hat]
  cases hz : z.focus with
  | branch k cs => exact editor_substitute z _
  | _ => rfl

theorem editor_childrenAt (z : Place) :
    z.editor.childrenAt z.index = z.focus.children := by
  have hat : z.editor.whole.at? z.index = some (.node z.focus) :=
    editor_node? z
  rw [Editor.childrenAt, hat]

section Inside

variable (n : Form) (l : Level) (outer : List Level)

/-- What a place has around it, seen from its parent. -/
theorem editor_cons :
    editor ⟨n, l :: outer⟩
      = (editor ⟨l.fill n, outer⟩).goTo (gap outer ++ [l.lefts.length]) := by
  rw [editor, editor, index, gap_cons]
  rfl

theorem editor_parent? :
    (editor ⟨n, l :: outer⟩).parent?
      = some (gap outer, l.lefts.length) := by
  rw [editor_cons]
  simp [Editor.parent?, Editor.goTo]

theorem editor_childrenAt_parent :
    (editor ⟨n, l :: outer⟩).childrenAt (gap outer) = l.row n :=
  editor_childrenAt ⟨l.fill n, outer⟩

/-- An edit of the row of a place is an edit of its parent. -/
theorem editor_withChildren_parent (edit : List Form → List Form) :
    (editor ⟨n, l :: outer⟩).withChildren (gap outer) edit
      = some ⟨.node (fillAll outer (.branch l.kind (edit (l.row n)))),
          gap outer ++ [l.lefts.length]⟩ := by
  have h : (editor ⟨l.fill n, outer⟩).withChildren (gap outer) edit
      = some (editor ⟨.branch l.kind (edit (l.row n)), outer⟩) :=
    editor_withChildren ⟨l.fill n, outer⟩ edit
  rw [editor_cons, Editor.withChildren_goTo, h]
  rfl

end Inside

/-- The place that a sibling has. -/
theorem index_of_sibling? {i : Nat} {n : Form} {l : Level}
    {outer : List Level} (hi : i < (l.row n).length) :
    (sibling? i ⟨n, l :: outer⟩).map index = some (gap outer ++ [i]) := by
  unfold sibling?
  simp only [List.drop_eq_getElem_cons hi, Option.map_some, index, gap_cons,
    List.length_reverse, List.length_take, Nat.min_eq_left (Nat.le_of_lt hi)]

/-- The first child of a place. -/
theorem editor_target_down (n : Form) (levels : List Level) :
    (editor ⟨n, levels⟩).target .down
      = (down ⟨n, levels⟩).map index := by
  have hkids : (editor ⟨n, levels⟩).childrenAt (gap levels)
      = n.children := editor_childrenAt ⟨n, levels⟩
  show (if (editor ⟨n, levels⟩).childrenAt (gap levels) = [] then none
    else some (gap levels ++ [0])) = (down ⟨n, levels⟩).map index
  rw [hkids]
  cases n with
  | branch k cs =>
    cases cs with
    | nil => rfl
    | cons c cs =>
      show some _ = some (gap (⟨k, [], cs⟩ :: levels))
      rw [gap_cons]
      rfl
  | _ => rfl

section Beside

variable (n : Form) (l : Level) (outer : List Level)

theorem editor_target_left :
    (editor ⟨n, l :: outer⟩).target .left
      = (left ⟨n, l :: outer⟩).map index := by
  obtain ⟨k, ls, rs⟩ := l
  unfold Editor.target
  rw [editor_parent?]
  cases ls with
  | nil => rfl
  | cons m ls =>
    show some _ = some (gap (⟨k, ls, n :: rs⟩ :: outer))
    rw [gap_cons]
    rfl

theorem editor_target_right :
    (editor ⟨n, l :: outer⟩).target .right
      = (right ⟨n, l :: outer⟩).map index := by
  unfold Editor.target
  rw [editor_parent?]
  show (if l.lefts.length + 1 < List.length _ then _ else none) = _
  rw [editor_childrenAt_parent]
  by_cases hr : l.lefts.length + 1 < (l.row n).length
  · rw [if_pos hr, right_eq_sibling?, index_of_sibling? hr]
  · -- the row ends at the focus
    rw [if_neg hr]
    obtain ⟨k, ls, rs⟩ := l
    cases rs with
    | nil => rfl
    | cons r rs => simp [Level.row] at hr

end Beside

/-- **A step leads to the position** that the editor moves to. -/
theorem editor_target (z : Place) (d : Direction) :
    z.editor.target d = (z.step d).map index := by
  obtain ⟨n, levels⟩ := z
  cases d with
  | down => exact editor_target_down n levels
  | next =>
    show (List.filter (index ⟨n, levels⟩ < ·)
      (whole ⟨n, levels⟩).positions).head? = (next ⟨n, levels⟩).map index
    rw [← map_index_following, next_eq_head?, List.head?_map]
  | prev =>
    show (List.filter (· < index ⟨n, levels⟩)
      (whole ⟨n, levels⟩).positions).getLast? = (prev ⟨n, levels⟩).map index
    rw [prev_eq_head?, ← List.head?_map, map_index_preceding,
      List.head?_reverse]
  | up =>
    cases levels with
    | nil => rfl
    | cons l outer =>
      unfold Editor.target
      rw [editor_parent?]
      rfl
  | left =>
    cases levels with
    | nil => rfl
    | cons l outer => exact editor_target_left n l outer
  | right =>
    cases levels with
    | nil => rfl
    | cons l outer => exact editor_target_right n l outer
  | leftmost =>
    cases levels with
    | nil => rfl
    | cons l outer =>
      unfold Editor.target
      rw [editor_parent?]
      exact (index_of_sibling? (by simp)).symm
  | rightmost =>
    cases levels with
    | nil => rfl
    | cons l outer =>
      unfold Editor.target
      rw [editor_parent?]
      show some (gap outer ++ [List.length _ - 1]) = _
      rw [editor_childrenAt_parent, Level.length_row, Nat.add_sub_cancel]
      exact (index_of_sibling? (by simp)).symm

/-- **A step from a place is the move of the editor.** -/
theorem editor_move (z : Place) (d : Direction) :
    z.editor.move d = (z.step d).map editor := by
  rw [Editor.move, editor_target, Option.map_map]
  refine Option.map_congr fun y hy => ?_
  show Editor.mk (.node z.whole) y.index = ⟨.node y.whole, y.index⟩
  rw [whole_of_step hy]

theorem editor_insert (z : Place) (side : Side) (m : Form) :
    z.editor.insert side m = (z.insert side m).map editor := by
  cases side with
  | left =>
    obtain ⟨n, _ | ⟨⟨k, ls, rs⟩, outer⟩⟩ := z
    · rfl
    · unfold Editor.insert
      rw [editor_parent?]
      show (Editor.withChildren _ _ _).map _
        = some (editor ⟨n, ⟨k, m :: ls, rs⟩ :: outer⟩)
      rw [editor_withChildren_parent, Level.insertIdx_row, editor_cons,
        Level.fill, Level.row, List.reverse_cons, List.append_assoc]
      rfl
  | right =>
    obtain ⟨n, _ | ⟨⟨k, ls, rs⟩, outer⟩⟩ := z
    · rfl
    · unfold Editor.insert
      rw [editor_parent?]
      show Editor.withChildren _ _ _
        = some (editor ⟨n, ⟨k, ls, m :: rs⟩ :: outer⟩)
      rw [editor_withChildren_parent, Level.insertIdx_succ_row,
        editor_cons]
      rfl
  | first => exact editor_withChildren z _
  | last => exact editor_withChildren z _

theorem editor_remove (z : Place) :
    z.editor.remove = z.remove.map editor := by
  obtain ⟨n, _ | ⟨⟨k, ls, rs⟩, outer⟩⟩ := z
  · rfl
  · unfold Editor.remove
    rw [editor_parent?]
    show (Editor.withChildren _ _ _).map _ = _
    rw [editor_withChildren_parent, Level.eraseIdx_row]
    cases ls with
    | nil => rfl
    | cons m ls =>
      show _ = some (editor ⟨m, ⟨k, ls, rs⟩ :: outer⟩)
      rw [editor_cons, List.reverse_cons, List.append_assoc]
      rfl

/-- **A primitive operation at a place is that of the editor.** -/
theorem editor_apply (z : Place) (p : Primitive) :
    z.editor.apply p = (z.apply p).map (Option.map editor) := by
  cases p with
  | move d => exact congrArg Except.ok (editor_move z d)
  | remove => exact congrArg Except.ok (editor_remove z)
  | replace n => exact congrArg Except.ok (editor_substitute z n)
  | edit f =>
    unfold Editor.apply apply
    simp only [editor_node?]
    cases f (.node z.focus) with
    | error e => rfl
    | ok n => exact congrArg Except.ok (editor_substitute z n)
  | insert side n => exact congrArg Except.ok (editor_insert z side n)

end Place

/-! ## Sessions and the editor -/

namespace Session

/-- **What a session stands for**: the root of its cursor is the whole
tree, and the indices of the frames, from the outermost in, are the
position. -/
structure Shows (s : Session) (E : Editor) : Prop where
  /-- The root can be put together, and is the whole tree. -/
  root_eq : s.root = .ok E.whole
  /-- The indices of the frames are the position. -/
  index_eq : (s.cursor.path.map Frame.index).reverse = E.place.map Int.ofNat

/-- **An action agrees** with an operation of the editor: both fail alike,
or both lead nowhere, or the session afterwards shows the editor
afterwards. -/
def Agrees (a : Attempt Failure Session) (o : Attempt Failure Editor) :
    Prop :=
  match a, o with
  | .error e, .error e' => e = e'
  | .ok none, .ok none => True
  | .ok (some s), .ok (some E) => s.Shows E
  | _, _ => False

/-- A session at a place shows the editor at that place. -/
theorem shows_of_isAt {policy : Policy} {c : Cursor Value} {z : Place}
    (h : c.IsAt z) : (Session.mk .forms policy c).Shows z.editor :=
  ⟨h.root_eq, h.index_eq⟩

/-- What goes like an operation on places agrees with the operation of
the editor. -/
theorem agrees_of_goesLike {s : Session} (hs : s.shape = .forms)
    {a : Action} {o : Attempt Failure Place}
    (h : Cursor.GoesLike (s.outcome a) o) :
    Agrees (s.perform a).result (o.map (Option.map Place.editor)) := by
  show Agrees ((s.outcome a).map _) _
  obtain ⟨shape, policy, c⟩ := s
  obtain rfl : shape = .forms := hs
  cases o with
  | error e =>
    rw [show Session.outcome _ a = .error e from h]
    rfl
  | ok o =>
    cases o with
    | none =>
      rw [show Session.outcome _ a = .ok none from h]
      trivial
    | some z =>
      obtain ⟨d, hd, hat⟩ := h
      rw [hd]
      exact shows_of_isAt hat

/-- Where there is no node yet, the tree is what is there. -/
theorem editor_applyBare {v : Value} (hv : v.isNode = false)
    (p : Primitive) :
    (Editor.mk v []).apply p
      = (Place.applyBare p v).map (Option.map Place.editor) := by
  have hat : Value.at? v [] = some v := Value.at?_nil v
  cases v with
  | node n => cases hv
  | _ =>
    cases p with
    | move d => cases d <;> rfl
    | remove => rfl
    | replace n => rfl
    | edit f =>
      unfold Editor.apply Place.applyBare
      simp only [Editor.node?, Value.at?_nil]
      cases f _ with
      | error e => rfl
      | ok n => rfl
    | insert side n => cases side <;> rfl

/-- **A session does what the editor without a cursor does.** Whatever
primitive operations have led to a session, it shows an editor and has
the node at its position in focus; and every primitive operation agrees
with that of the editor. -/
theorem perform_agrees_editor {policy : Policy} {root : Value}
    {s : Session}
    (h : (Session.start .forms policy root).Reaches Primitive.Only s) :
    ∃ E : Editor, s.Shows E ∧ E.node? = some s.cursor.focus
      ∧ ∀ p : Primitive, Agrees (s.perform p.action).result (E.apply p) := by
  have hshape : s.shape = .forms := h.shape_eq
  have hstands := h.isAt_or_isBare
  obtain ⟨shape, policy, c⟩ := s
  obtain rfl : shape = .forms := hshape
  rcases hstands with ⟨z, hz⟩ | hbare
  · refine ⟨z.editor, shows_of_isAt hz, ?_, fun p => ?_⟩
    · rw [Place.editor_node?]
      exact congrArg some hz.focus_eq.symm
    · rw [Place.editor_apply]
      exact agrees_of_goesLike rfl (hz.primitive policy p)
  · refine ⟨⟨c.focus, []⟩, ⟨hbare.root_eq, ?_⟩, ?_, fun p => ?_⟩
    · show (c.path.map Frame.index).reverse = []
      rw [show c.path = [] from hbare.path_eq]
      rfl
    · exact Value.at?_nil c.focus
    · rw [editor_applyBare hbare.not_node]
      exact agrees_of_goesLike rfl (hbare.primitive policy p)

/-- A session that has gone down into `(1 [2])` twice and put another
number in the place of the `2`: the inner frame is marked as changed and
the outer one, whose row is out of date, is not. -/
theorem perform_agrees_editor_edited :
    ∃ s : Session,
      (Session.start .forms .standard (.node (.branch .list
        [.token (.int 1), .branch .vector [.token (.int 2)]]))).Reaches
          Primitive.Only s
      ∧ s.cursor.path.map Frame.changed = [true, false]
      ∧ ∃ E : Editor, s.Shows E ∧ E.node? = some s.cursor.focus
        ∧ ∀ p : Primitive,
          Agrees (s.perform p.action).result (E.apply p) := by
  have hrun : (Session.start .forms .standard (.node (.branch .list
      [.token (.int 1), .branch .vector [.token (.int 2)]]))).Reaches
        Primitive.Only _ :=
    .step (.step (.step (.step .here ⟨.move .down, rfl⟩ rfl)
      ⟨.move .right, rfl⟩ rfl) ⟨.move .down, rfl⟩ rfl)
      ⟨.replace (.token (.int 3)), rfl⟩ rfl
  exact ⟨_, hrun, rfl, perform_agrees_editor hrun⟩

end Session

end FormTree
