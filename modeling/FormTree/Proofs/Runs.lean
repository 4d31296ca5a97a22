import FormTree.Proofs.Standing

/-!
# Runs of a session

A session reaches another one by actions, one after the other; which
actions are allowed may depend on where the session has got to. An action
that fails or leads nowhere leaves the session where it is, so only those
that lead somewhere count. What every allowed action keeps is kept by the
whole run (`Session.Reaches.invariant`), and the shape and the policy are
always kept.

The **primitive** operations are the plain moves and the edits that put
nodes into the tree as they are. Whatever a run of them does, the cursor
is at a place; or it is still where it started, at something that is no
node at all, because the tree is yet to be filled
(`Session.Reaches.isAt_or_isBare`).
-/

namespace FormTree

namespace Session

/-- **A session reaches another** by allowed actions that lead
somewhere. -/
inductive Reaches (Allowed : Session → Action → Prop) (s : Session) :
    Session → Prop
  /-- Nothing has been done yet. -/
  | here : Reaches Allowed s s
  /-- One more action. -/
  | step {t u : Session} {a : Action} : Reaches Allowed s t →
      Allowed t a → (t.perform a).result = .ok (some u) →
        Reaches Allowed s u

/-- An action leads to the session at the cursor that comes out of it. -/
theorem perform_result_eq_some {s t : Session} {a : Action} :
    (s.perform a).result = .ok (some t)
      ↔ ∃ c, s.outcome a = .ok (some c) ∧ t = s.goTo c := by
  show (s.outcome a).map _ = _ ↔ _
  constructor
  · intro h
    cases ho : s.outcome a with
    | error e => rw [ho] at h; cases h
    | ok o =>
      cases o with
      | none => rw [ho] at h; cases h
      | some c =>
        rw [ho] at h
        injection h with h
        injection h with h
        exact ⟨c, rfl, h.symm⟩
  · rintro ⟨c, hc, rfl⟩
    rw [hc]
    rfl

namespace Reaches

variable {Allowed : Session → Action → Prop} {s t : Session}

/-- **What every allowed action keeps, a run keeps.** -/
theorem invariant {I : Session → Prop} (h : s.Reaches Allowed t)
    (hstep : ∀ {t a c}, I t → Allowed t a → t.outcome a = .ok (some c) →
      I (t.goTo c)) (hs : I s) : I t := by
  induction h with
  | here => exact hs
  | step _ ha hu ih =>
    obtain ⟨c, hc, rfl⟩ := perform_result_eq_some.mp hu
    exact hstep ih ha hc

theorem shape_eq (h : s.Reaches Allowed t) : t.shape = s.shape :=
  h.invariant (I := fun u => u.shape = s.shape) (fun hu _ _ => hu) rfl

theorem policy_eq (h : s.Reaches Allowed t) : t.policy = s.policy :=
  h.invariant (I := fun u => u.policy = s.policy) (fun hu _ _ => hu) rfl

end Reaches

end Session

/-- **The primitive operations**: plain moves, and edits with nodes. -/
inductive Primitive where
  /-- A plain move. -/
  | move (d : Direction)
  /-- Taking out the focus. -/
  | remove
  /-- Replacing the focus by a node. -/
  | replace (n : Form)
  /-- Replacing the focus by the node that a function makes of it. The
  function may fail in its own way. -/
  | edit (f : Value → Except Failure Form)
  /-- Putting a node beside the focus or into it. -/
  | insert (side : Side) (n : Form)

namespace Primitive

/-- A primitive operation as an action. -/
def action : Primitive → Action
  | .move d => .move (.plain d)
  | .remove => .move .remove
  | .replace n => .replace (.node n)
  | .edit f => .replaceWith fun v => (f v).map Value.node
  | .insert side n => .insert side (.node n)

/-- Only primitive operations are allowed. -/
def Only (_ : Session) (a : Action) : Prop := ∃ p : Primitive, a = p.action

end Primitive

namespace Place

/-- **A primitive operation on a place.** -/
def apply (p : Primitive) (z : Place) : Attempt Failure Place :=
  match p with
  | .move d => .ok (z.step d)
  | .remove => .ok z.remove
  | .replace n => .ok (some (z.replace n))
  | .edit f => (f (.node z.focus)).map fun n => some (z.replace n)
  | .insert side n => .ok (z.insert side n)

/-- A primitive operation where there is no node yet. Only replacing leads
anywhere, and what is put there is the tree. -/
def applyBare (p : Primitive) (v : Value) : Attempt Failure Place :=
  match p with
  | .replace n => .ok (some ⟨n, []⟩)
  | .edit f => (f v).map fun n => some ⟨n, []⟩
  | _ => .ok none

end Place

namespace Cursor

/-- **An attempt goes like** one on places: it fails in the same way or
arrives where that leads. -/
def GoesLike (a : Attempt Failure (Cursor Value))
    (o : Attempt Failure Place) : Prop :=
  match o with
  | .error e => a = .error e
  | .ok o => Arrives a o

/-- What comes out is at the place that comes out. -/
theorem GoesLike.isAt {c : Cursor Value} {o : Attempt Failure Place}
    (h : GoesLike (.ok (some c)) o) : ∃ z, o = .ok (some z) ∧ c.IsAt z := by
  cases o with
  | error e => cases h
  | ok o =>
    cases o with
    | none => cases h
    | some z =>
      obtain ⟨d, hd, hat⟩ := h
      cases hd
      exact ⟨z, rfl, hat⟩

/-- **Primitive operations of a cursor go like those on its place.** -/
theorem IsAt.primitive {c : Cursor Value} {z : Place} (h : c.IsAt z)
    (policy : Policy) (p : Primitive) :
    GoesLike ((Session.mk .forms policy c).outcome p.action)
      (z.apply p) := by
  cases p with
  | move d => exact h.step d
  | remove => exact h.remove
  | replace n => exact (h.replace n).arrives
  | edit f =>
    show GoesLike (((f c.focus).map Value.node).map _) ((f _).map _)
    rw [h.focus_eq]
    cases f (.node z.focus) with
    | error e => rfl
    | ok n => exact (h.replace n).arrives
  | insert side n => exact h.insert side n

/-- **A bare cursor** is at something that is no node, with nothing around
it. -/
structure IsBare (c : Cursor Value) : Prop where
  /-- There is nothing around the focus. -/
  path_eq : c.path = []
  /-- The focus is no node. -/
  not_node : c.focus.isNode = false

namespace IsBare

variable {c : Cursor Value}

theorem children?_eq (h : c.IsBare) : c.children? .forms = none := by
  obtain ⟨v, path⟩ := c
  have hv := h.not_node
  cases v with
  | node n => cases hv
  | _ => rfl

/-- There is no way from a bare cursor. -/
theorem step_eq (h : c.IsBare) (d : Direction) :
    d.step .forms c = .ok none := by
  have hright : c.right .forms = .ok none := by
    rw [Cursor.right, h.path_eq]
  have hleft : c.left .forms = .ok none := by
    rw [Cursor.left, h.path_eq]
  have hup : c.up .forms = .ok none := by
    rw [Cursor.up, h.path_eq]
  have hdown : c.down .forms = none := by
    rw [Cursor.down, h.children?_eq]
  cases d with
  | down => exact congrArg Except.ok hdown
  | up => exact hup
  | left => exact hleft
  | right => exact hright
  | leftmost =>
    show c.leftmost .forms = _
    rw [Cursor.leftmost, h.path_eq]
  | rightmost =>
    show c.rightmost .forms = _
    rw [Cursor.rightmost, h.path_eq]
  | next =>
    show c.next .forms = _
    rw [Cursor.next, hdown, Cursor.after, hright]
    simp only
    split
    · next hu => rw [hup] at hu; cases hu
    · rfl
    · next hu => rw [hup] at hu; cases hu
  | prev =>
    show c.prev .forms = _
    rw [Cursor.prev, hleft]
    exact hup

theorem significant_eq (h : c.IsBare) (cfg : Config) (d : Direction) :
    d.significant .forms cfg c = .ok none := by
  rw [Direction.significant, h.step_eq, Attempt.andThen_ok_none]

theorem insert_eq (h : c.IsBare) (side : Side) (v : Value) :
    c.insert .forms side v = .ok none := by
  cases side with
  | left =>
    show Except.ok (c.insertLeft v) = _
    rw [Cursor.insertLeft, h.path_eq]
  | right =>
    show Except.ok (c.insertRight v) = _
    rw [Cursor.insertRight, h.path_eq]
  | first =>
    show c.withChildren .forms _ = _
    rw [Cursor.withChildren, h.children?_eq]
  | last =>
    show c.withChildren .forms _ = _
    rw [Cursor.withChildren, h.children?_eq]

theorem remove_eq (h : c.IsBare) : c.remove .forms = .ok none := by
  rw [Cursor.remove, h.path_eq]

/-- A node put in the place of what is there is the whole tree. -/
theorem replace (h : c.IsBare) (n : Form) :
    (c.replace (.node n)).IsAt ⟨n, []⟩ := by
  refine ⟨rfl, ?_⟩
  show Follows (refocus _ c.path) [] n
  rw [h.path_eq]
  exact .root n

/-- **Primitive operations of a bare cursor** lead nowhere, or to the
whole tree. -/
theorem primitive (h : c.IsBare) (policy : Policy) (p : Primitive) :
    GoesLike ((Session.mk .forms policy c).outcome p.action)
      (Place.applyBare p c.focus) := by
  cases p with
  | move d => exact h.step_eq d
  | remove => exact h.remove_eq
  | replace n => exact (h.replace n).arrives
  | edit f =>
    show GoesLike (((f c.focus).map Value.node).map _) ((f _).map _)
    cases f c.focus with
    | error e => rfl
    | ok n => exact (h.replace n).arrives
  | insert side n => exact h.insert_eq side (.node n)

theorem root_eq (h : c.IsBare) : c.root .forms = .ok c.focus := by
  obtain ⟨v, path⟩ := c
  obtain rfl : path = [] := h.path_eq
  exact root_atRoot .forms v

end IsBare

/-- The cursor at the root of anything is at a place or bare. -/
theorem isAt_or_isBare_atRoot (root : Value) :
    (∃ z, (atRoot root).IsAt z) ∨ (atRoot root).IsBare := by
  cases root with
  | node n => exact .inl ⟨⟨n, []⟩, isAt_atRoot n⟩
  | _ => exact .inr ⟨rfl, rfl⟩

end Cursor

namespace Session.Reaches

variable {policy : Policy} {root : Value} {s : Session}

/-- **In a run of primitive operations the cursor is at a place**, unless
the tree has not been filled yet. -/
theorem isAt_or_isBare
    (h : (Session.start .forms policy root).Reaches Primitive.Only s) :
    (∃ z, s.cursor.IsAt z) ∨ s.cursor.IsBare := by
  suffices hI : s.shape = .forms
      ∧ ((∃ z, s.cursor.IsAt z) ∨ s.cursor.IsBare) from hI.2
  refine h.invariant (I := fun t => t.shape = .forms
    ∧ ((∃ z, t.cursor.IsAt z) ∨ t.cursor.IsBare)) ?_
    ⟨rfl, Cursor.isAt_or_isBare_atRoot root⟩
  rintro ⟨shape, policy, c⟩ a d ⟨rfl, hc⟩ ⟨p, rfl⟩ hd
  refine ⟨rfl, .inl ?_⟩
  have hgo : ∃ o, Cursor.GoesLike (.ok (some d)) o := by
    rw [← hd]
    rcases hc with ⟨z, hz⟩ | hbare
    · exact ⟨_, hz.primitive policy p⟩
    · exact ⟨_, hbare.primitive policy p⟩
  obtain ⟨o, ho⟩ := hgo
  obtain ⟨z, -, hat⟩ := ho.isAt
  exact ⟨z, hat⟩

end Session.Reaches

end FormTree
