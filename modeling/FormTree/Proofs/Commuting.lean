import FormTree.Proofs.Editor
import FormTree.Proofs.Surface
import FormTree.Proofs.Wandering

/-!
# Edits at different places commute

An edit of the focus is not carried out in the tree at once. It is
recorded in the row around the focus, and whoever comes by on the way up
makes the parent anew. When a second edit follows somewhere else, the
first may still be pending in frames above or beside it, or may have been
carried out halfway, depending on the route between the two. None of this
shows in the end (`Session.edits_commute`): two edits at positions of
which neither is above the other can be made in either order and by any
route, with the same tree as the result, and if one order fails so does
the other.

There are two reasons. What an edit of the focus makes depends on the node
in focus alone (`Cursor.IsAt.focusEdit`). And since the two positions part
somewhere on the way down (`Parted`), replacing the node at one leaves
the node at the other alone, and the two replacements commute
(`Node.at?_of_substitute`, `Node.exists_substitute_comm`).
-/

namespace FormTree

/-! ## Positions that part -/

/-- **Two positions part**: on the way down there is a branch where they
turn off to different children. -/
inductive Parted : List Nat → List Nat → Prop
  /-- They part at once. -/
  | turn {i j : Nat} {p q : List Nat} : i ≠ j → Parted (i :: p) (j :: q)
  /-- They go the same way first. -/
  | along {i : Nat} {p q : List Nat} : Parted p q →
      Parted (i :: p) (i :: q)

/-- Positions part unless one of them leads to the other. -/
theorem parted_of_not_prefix {p q : List Nat} (hpq : ¬ p <+: q)
    (hqp : ¬ q <+: p) : Parted p q := by
  induction p generalizing q with
  | nil => exact absurd (List.nil_prefix) hpq
  | cons i p ih =>
    cases q with
    | nil => exact absurd (List.nil_prefix) hqp
    | cons j q =>
      by_cases hij : i = j
      · subst hij
        refine .along (ih ?_ ?_)
        · intro h
          exact hpq (List.cons_prefix_cons.mpr ⟨rfl, h⟩)
        · intro h
          exact hqp (List.cons_prefix_cons.mpr ⟨rfl, h⟩)
      · exact .turn hij

theorem Parted.symm {p q : List Nat} (h : Parted p q) : Parted q p := by
  induction h with
  | turn hij => exact .turn hij.symm
  | along _ ih => exact .along ih

namespace Node

/-- **Replacing a node leaves the nodes at other positions alone.** -/
theorem at?_of_substitute {p q : List Nat} (hpq : Parted p q)
    {m t u : Form} (h : substitute m t p = some u) :
    u.at? q = t.at? q := by
  induction hpq generalizing t u with
  | @turn i j p q hij =>
    obtain ⟨k, cs, c, d, rfl, -, -, rfl⟩ := exists_of_substitute_cons h
    rw [at?_cons, at?_cons, children_branch, children_branch,
      List.getElem?_set_ne hij]
  | @along i p q _ ih =>
    obtain ⟨k, cs, c, d, rfl, hc, hd, rfl⟩ := exists_of_substitute_cons h
    have hi := (List.getElem?_eq_some_iff.mp hc).1
    rw [at?_cons, at?_cons, children_branch, children_branch, hc,
      List.getElem?_set_self hi, Option.bind_some, Option.bind_some, ih hd]

/-- **Replacements at positions that part commute.** -/
theorem exists_substitute_comm {p q : List Nat} (hpq : Parted p q)
    {m n t u w : Form} (hu : substitute m t p = some u)
    (hw : substitute n t q = some w) :
    ∃ x, substitute n u q = some x ∧ substitute m w p = some x := by
  induction hpq generalizing t u w with
  | @turn i j p q hij =>
    obtain ⟨k, cs, c, d, rfl, hc, hd, rfl⟩ := exists_of_substitute_cons hu
    obtain ⟨k', cs', c', e, heq, hc', he, rfl⟩ :=
      exists_of_substitute_cons hw
    cases heq
    refine ⟨.branch k ((cs.set i d).set j e), ?_, ?_⟩
    · rw [substitute_cons, List.getElem?_set_ne hij, hc', Option.bind_some,
        he, Option.map_some]
    · rw [substitute_cons, List.getElem?_set_ne hij.symm, hc,
        Option.bind_some, hd, Option.map_some, List.set_comm _ _ hij.symm]
  | @along i p q _ ih =>
    obtain ⟨k, cs, c, d, rfl, hc, hd, rfl⟩ := exists_of_substitute_cons hu
    obtain ⟨k', cs', c', e, heq, hc', he, rfl⟩ :=
      exists_of_substitute_cons hw
    cases heq
    obtain rfl : c = c' := Option.some_inj.mp (hc.symm.trans hc')
    have hi := (List.getElem?_eq_some_iff.mp hc).1
    obtain ⟨x, hx, hx'⟩ := ih hd he
    refine ⟨.branch k (cs.set i x), ?_, ?_⟩
    · rw [substitute_set n d k hi, hx, Option.map_some]
    · rw [substitute_set m e k hi, hx', Option.map_some]

end Node

/-! ## Edits of the focus -/

/-- The two ends of a row of children. -/
inductive RowEnd where
  | first
  | last
deriving DecidableEq, Repr

namespace RowEnd

/-- The side of the focus on which this end of its row is. -/
def side : RowEnd → Side
  | .first => .first
  | .last => .last

/-- A row with something put at an end. -/
def put {α : Type} (a : α) : RowEnd → List α → List α
  | .first, as => a :: as
  | .last, as => as ++ [a]

/-- The child at an end. -/
def child? : RowEnd → Form → Option Form
  | .first, n => n.children.head?
  | .last, n => n.children.getLast?

/-- **A node with something put into it** at an end. Only a branch has
room, and only for a node. -/
def insert (e : RowEnd) (v : Value) : Form → Attempt Failure Form
  | .branch k cs =>
    (liftStructural (Form.buildComposite k
      (.ofList (e.put v (cs.map Value.node))))).map some
  | _ => .ok none

/-- **A node with something put into it, with spacing.** -/
def place (cfg : Config) (e : RowEnd) (v : Value) (n : Form) :
    Attempt Failure Form :=
  if (e.child? n).any fun m => !cfg.ignores m.kind then
    (e.insert cfg.space n).andThen (e.insert v)
  else e.insert v n

end RowEnd

/-- **The edits of the focus alone**: replacing it by a node, by what a
function makes of it or of its value, or by the form of a value, and
putting something into it. -/
inductive FocusEdit where
  /-- Replacing the focus by a node. -/
  | replace (n : Form)
  /-- Replacing the focus by the node that a function makes of it. -/
  | edit (f : Value → Except Failure Form)
  /-- Putting something into the focus as it is. -/
  | insert (e : RowEnd) (item : Value)
  /-- Putting a node or a value into the focus, with spacing. -/
  | place (e : RowEnd) (item : Value)
  /-- Replacing the focus by the form of a value. -/
  | assign (v : Value) (converter : Option Converter)
  /-- Replacing the focus by the form of what a function makes of its
  value. -/
  | amend (f : Value → Except Failure Value) (converter : Option Converter)
      (occasion : Nat)

namespace FocusEdit

/-- An edit as an action. -/
def action : FocusEdit → Action
  | .replace n => .replace (.node n)
  | .edit f => .replaceWith fun v => (f v).map Value.node
  | .insert e item => .insert e.side item
  | .place e item => .place e.side item
  | .assign v conv => .assign v conv
  | .amend f conv occasion => .amend f conv occasion

/-- Where an edit replaces the focus by the form of a value, the converter
it uses is a literal one. -/
def IsLiteral (policy : Policy) : FocusEdit → Prop
  | .assign _ conv =>
    ∃ separator, conv.getD policy.converter = .literal separator
  | .amend _ conv _ =>
    ∃ separator, conv.getD policy.converter = .literal separator
  | _ => True

/-- What replaces the focus for a value. -/
def assigned (conv : Converter) (v : Value) : Attempt Failure Form :=
  (conv.toNode v).map Value.node?

/-- **What an edit makes of a node.** -/
def makes (policy : Policy) : FocusEdit → Form → Attempt Failure Form
  | .replace m, _ => .ok (some m)
  | .edit f, n => (f (.node n)).map some
  | .insert e item, n => e.insert item n
  | .place e item, n =>
    match policy.itemFor item with
    | .error f => .error f
    | .ok v => e.place policy.config v n
  | .assign v conv, _ => assigned (conv.getD policy.converter) v
  | .amend f conv occasion, n =>
    match (conv.getD policy.converter).toValue (.node n) with
    | .error e => .error e
    | .ok v =>
      match Session.written occasion f v with
      | .error e => .error e
      | .ok w => assigned (conv.getD policy.converter) w

end FocusEdit

/-- **A place with another node** that is made of the present one. -/
def Place.editFocus (f : Form → Attempt Failure Form) (z : Place) :
    Attempt Failure Place :=
  (f z.focus).map (Option.map fun n => z.replace n)

/-- Two edits of the focus, one after the other. -/
theorem Place.editFocus_andThen (f g : Form → Attempt Failure Form)
    (z : Place) :
    (z.editFocus f).andThen (editFocus g)
      = z.editFocus fun n => (f n).andThen g := by
  show Attempt.andThen ((f z.focus).map _) _ = ((f z.focus).andThen g).map _
  cases f z.focus with
  | error e => rfl
  | ok o => cases o <;> rfl

/-- The child at an end of a row is significant if the place there is. -/
theorem Place.any_isSignificant_child? (cfg : Config) (z : Place) :
    z.down.any (isSignificant cfg)
        = (RowEnd.first.child? z.focus).any (fun m => !cfg.ignores m.kind)
      ∧ z.downLast.any (isSignificant cfg)
        = (RowEnd.last.child? z.focus).any fun m => !cfg.ignores m.kind := by
  obtain ⟨n, levels⟩ := z
  constructor
  · obtain _ | _ | _ | ⟨k, _ | ⟨m, ms⟩⟩ := n <;> rfl
  · cases n with
    | branch k cs =>
      unfold downLast RowEnd.child?
      simp only [Node.children_branch, List.getLast?_eq_head?_reverse]
      cases cs.reverse <;> rfl
    | _ => rfl

namespace Cursor

theorem GoesLike.andThen {a : Attempt Failure (Cursor Value)}
    {o : Attempt Failure Place} (h : GoesLike a o)
    {f : Cursor Value → Attempt Failure (Cursor Value)}
    {g : Place → Attempt Failure Place}
    (hf : ∀ {d y}, IsAt d y → GoesLike (f d) (g y)) :
    GoesLike (a.andThen f) (o.andThen g) := by
  cases o with
  | error e =>
    rw [show a = .error e from h]
    rfl
  | ok o =>
    cases o with
    | none =>
      rw [show a = .ok none from h]
      rfl
    | some z =>
      obtain ⟨d, rfl, hat⟩ := h
      exact hf hat

namespace IsAt

variable {c : Cursor Value} {z : Place}

theorem insertInside (h : c.IsAt z) (e : RowEnd) (v : Value) :
    GoesLike (c.insert .forms e.side v) (z.editFocus (e.insert v)) := by
  have hinsert : c.insert .forms e.side v
      = c.withChildren .forms (e.put v) := by
    cases e <;> rfl
  rw [hinsert, Cursor.withChildren, h.children?_eq, Place.editFocus]
  cases hz : z.focus with
  | branch k cs =>
    simp only [h.focus_eq, hz, RowEnd.insert]
    show GoesLike (((liftStructural (Form.buildComposite k
      (.ofList (e.put v (cs.map Value.node))))).map Value.node).map _) _
    cases Form.buildComposite k (.ofList (e.put v (cs.map Value.node))) with
    | error e => rfl
    | ok n => exact (h.replace n).arrives
  | _ => rfl

/-- The child at an end touches what is put there if it is significant. -/
theorem place_eq (h : c.IsAt z) (cfg : Config) (e : RowEnd) (v : Value) :
    c.place .forms cfg e.side v
      = if (e.child? z.focus).any fun m => !cfg.ignores m.kind then
          (c.insert .forms e.side cfg.space).andThen
            fun d => d.insert .forms e.side v
        else c.insert .forms e.side v := by
  obtain ⟨hfirst, hlast⟩ := z.any_isSignificant_child? cfg
  cases e with
  | first =>
    rw [← hfirst, ← h.down.childTouches_eq cfg]
    rfl
  | last =>
    rw [← hlast, ← h.downLast.childTouches_eq cfg]
    rfl

theorem placeInside (h : c.IsAt z) (cfg : Config) (e : RowEnd)
    (v : Value) :
    GoesLike (c.place .forms cfg e.side v)
      (z.editFocus (e.place cfg v)) := by
  rw [h.place_eq cfg e v]
  unfold Place.editFocus RowEnd.place
  split
  · have hgo := (h.insertInside e cfg.space).andThen fun h =>
      h.insertInside e v
    rwa [Place.editFocus_andThen] at hgo
  · exact h.insertInside e v

/-- Replacing the focus through a literal converter. -/
theorem assigned (h : c.IsAt z) {conv : Converter}
    (hconv : ∃ separator, conv = .literal separator) (v : Value) :
    GoesLike ((c.assign conv v).map some)
      (z.editFocus fun _ => FocusEdit.assigned conv v) := by
  obtain ⟨separator, rfl⟩ := hconv
  unfold Cursor.assign Place.editFocus FocusEdit.assigned
  rw [Literal.toNode_eq]
  cases Literal.formFor separator v with
  | error e => rfl
  | ok n => exact (h.replace n).arrives

/-- **What an edit of the focus makes depends on the node in focus
alone.** -/
theorem focusEdit (h : c.IsAt z) {policy : Policy} {e : FocusEdit}
    (he : e.IsLiteral policy) :
    GoesLike ((Session.mk .forms policy c).outcome e.action)
      (z.editFocus (e.makes policy)) := by
  cases e with
  | replace n => exact (h.replace n).arrives
  | edit f =>
    show GoesLike (((f c.focus).map Value.node).map _) _
    rw [h.focus_eq, Place.editFocus, FocusEdit.makes]
    cases f (.node z.focus) with
    | error e => rfl
    | ok n => exact (h.replace n).arrives
  | insert e item => exact h.insertInside e item
  | place e item =>
    show GoesLike (match policy.itemFor item with
      | .error f => .error f
      | .ok v => c.place .forms policy.config e.side v) _
    rw [Place.editFocus, FocusEdit.makes]
    cases policy.itemFor item with
    | error f => rfl
    | ok v => exact h.placeInside policy.config e v
  | assign v conv => exact h.assigned he v
  | amend f conv occasion =>
    show GoesLike ((c.amend (conv.getD policy.converter) _).map some) _
    rw [Cursor.amend, h.focus_eq, Place.editFocus, FocusEdit.makes]
    cases (conv.getD policy.converter).toValue (.node z.focus) with
    | error e => rfl
    | ok v =>
      simp only
      cases Session.written occasion f v with
      | error e => rfl
      | ok w => exact h.assigned he w

end IsAt

end Cursor

/-! ## Two edits in either order -/

namespace Session

/-- **What comes of an action at a position**: by some route of moves the
session gets to the position, and there the action is performed. -/
def PerformsAt (s : Session) (p : List Nat) (a : Action)
    (r : Attempt Failure Session) : Prop :=
  ∃ t, s.Wanders t ∧ t.IsAtPosition p ∧ (t.perform a).result = r

/-- **What comes of two actions**, one after the other at two positions.
If nothing comes of the first, that is what comes of both. -/
inductive PerformsBoth (s : Session) (p : List Nat) (a : Action)
    (q : List Nat) (b : Action) : Attempt Failure Session → Prop
  /-- The first action leads somewhere, and the second follows. -/
  | both {t : Session} {r : Attempt Failure Session} :
      s.PerformsAt p a (.ok (some t)) → t.PerformsAt q b r →
        PerformsBoth s p a q b r
  /-- The first action fails or leads nowhere. -/
  | neither {r : Attempt Failure Session} :
      s.PerformsAt p a r → (∀ t, r ≠ .ok (some t)) →
        PerformsBoth s p a q b r

section Edits

variable {s : Session} {policy : Policy} {z : Place} {p q : List Nat}
  {e e' : FocusEdit} {n n' : Form}

/-- **What comes of an edit at a position** depends on the tree and the
position, whatever the route: the node there is replaced by what the edit
makes of it, if it makes anything. -/
theorem PerformsAt.cases (hs : s.StandsAt policy z)
    (he : e.IsLiteral policy) (hn : z.whole.at? p = some n)
    {r : Attempt Failure Session} (h : s.PerformsAt p e.action r) :
    (∃ m t y, e.makes policy n = .ok (some m) ∧ r = .ok (some t)
        ∧ t.StandsAt policy y
        ∧ Node.substitute m z.whole p = some y.whole)
      ∨ ((∀ m, e.makes policy n ≠ .ok (some m))
        ∧ ∀ t, r ≠ .ok (some t)) := by
  obtain ⟨t, hst, hp, rfl⟩ := h
  obtain ⟨y, ht, hwhole⟩ := hst.standsAt hs
  obtain rfl : y.index = p := ht.isAtPosition_iff.mp hp
  rw [← hwhole] at hn ⊢
  obtain rfl : y.focus = n := Option.some_inj.mp (y.at?_whole.symm.trans hn)
  have hgo : Cursor.GoesLike (t.outcome e.action)
      (y.editFocus (e.makes policy)) := by
    obtain ⟨shape, policy', c⟩ := t
    obtain ⟨rfl, rfl, hat⟩ := ht
    exact hat.focusEdit he
  have hanswer := ht.answers hgo
  generalize (t.perform e.action).result = r at hanswer
  rw [Place.editFocus] at hanswer
  cases hmakes : e.makes policy y.focus with
  | error f =>
    rw [hmakes] at hanswer
    cases hanswer
    exact .inr ⟨nofun, nofun⟩
  | ok o =>
    rw [hmakes] at hanswer
    cases o with
    | none =>
      cases hanswer
      exact .inr ⟨nofun, nofun⟩
    | some m =>
      cases hanswer with
      | somewhere hu =>
        exact .inl ⟨m, _, y.replace m, rfl, rfl, hu,
          Place.substitute_fillAll y.levels y.focus m⟩

/-- An edit can be made at every position. -/
theorem StandsAt.exists_performsAt (hs : s.StandsAt policy z)
    (hp : (z.whole.at? p).isSome = true) (a : Action) :
    ∃ r, s.PerformsAt p a r := by
  obtain ⟨t, y, hst, ht, -, hindex⟩ := hs.exists_wanders_position hp
  exact ⟨_, t, hst, ht.isAtPosition_iff.mpr hindex, rfl⟩

/-- **What comes of two edits at positions that part**: they succeed if
both make something of the nodes that the tree has there, and then the
nodes are replaced one after the other; otherwise they do not. -/
theorem PerformsBoth.cases (hs : s.StandsAt policy z)
    (hpq : Parted p q) (he : e.IsLiteral policy)
    (he' : e'.IsLiteral policy) (hn : z.whole.at? p = some n)
    (hn' : z.whole.at? q = some n') {r : Attempt Failure Session}
    (h : s.PerformsBoth p e.action q e'.action r) :
    (∃ m m' u w t, e.makes policy n = .ok (some m)
        ∧ e'.makes policy n' = .ok (some m')
        ∧ Node.substitute m z.whole p = some u
        ∧ Node.substitute m' u q = some w
        ∧ r = .ok (some t) ∧ t.root = .ok (.node w))
      ∨ ((∀ t, r ≠ .ok (some t))
        ∧ ((∀ m, e.makes policy n ≠ .ok (some m))
          ∨ ∀ m, e'.makes policy n' ≠ .ok (some m))) := by
  cases h with
  | neither hfirst hfails =>
    rcases hfirst.cases hs he hn with ⟨m, t, y, -, ht, -⟩ | ⟨hnone, -⟩
    · exact absurd ht (hfails t)
    · exact .inr ⟨hfails, .inl hnone⟩
  | @both t r hfirst hsecond =>
    rcases hfirst.cases hs he hn with ⟨m, t, y, hm, ht, hty, hu⟩ | ⟨-, hnone⟩
    · cases ht
      -- the node at the other position is still the one of the tree
      have hn' : y.whole.at? q = some n' :=
        (Node.at?_of_substitute hpq hu).trans hn'
      rcases hsecond.cases hty he' hn' with
        ⟨m', t', y', hm', ht', hty', hw⟩ | ⟨hnone, hfails⟩
      · exact .inl ⟨m, m', y.whole, y'.whole, t', hm, hm', hu, hw, ht',
          hty'.root_eq⟩
      · exact .inr ⟨hfails, .inr hnone⟩
    · exact absurd rfl (hnone t)

/-- Two edits can be made at positions that part. -/
theorem StandsAt.exists_performsBoth (hs : s.StandsAt policy z)
    (hpq : Parted p q) (he : e.IsLiteral policy)
    (hn : z.whole.at? p = some n) (hn' : z.whole.at? q = some n')
    (b : Action) : ∃ r, s.PerformsBoth p e.action q b r := by
  obtain ⟨r, hr⟩ := hs.exists_performsAt (by rw [hn]; rfl) e.action
  rcases hr.cases hs he hn with ⟨m, t, y, -, rfl, hty, hu⟩ | ⟨-, hfails⟩
  · have hq : (y.whole.at? q).isSome = true := by
      rw [Node.at?_of_substitute hpq hu, hn']
      rfl
    obtain ⟨r', hr'⟩ := hty.exists_performsAt hq b
    exact ⟨r', .both hr hr'⟩
  · exact ⟨r, .neither hr hfails⟩

end Edits

/-- **Edits at different places commute.** Of two positions of a tree
neither leads to the other. An edit of the focus is made at the one, and
then, after a route of moves, an edit of the focus at the other; or the
other way round. Both can be done, and whatever the routes are, either
both succeed with the same tree as the result, or neither succeeds. -/
theorem edits_commute {policy : Policy} {tree : Form} {p q : List Nat}
    (hp : (tree.at? p).isSome = true) (hq : (tree.at? q).isSome = true)
    (hpq : ¬ p <+: q) (hqp : ¬ q <+: p) {e e' : FocusEdit}
    (he : e.IsLiteral policy) (he' : e'.IsLiteral policy) :
    (∃ r, (start .forms policy (.node tree)).PerformsBoth
        p e.action q e'.action r)
      ∧ (∃ r, (start .forms policy (.node tree)).PerformsBoth
        q e'.action p e.action r)
      ∧ ∀ r r',
        (start .forms policy (.node tree)).PerformsBoth
            p e.action q e'.action r →
          (start .forms policy (.node tree)).PerformsBoth
              q e'.action p e.action r' →
            (∃ t t' w, r = .ok (some t) ∧ r' = .ok (some t')
                ∧ t.root = .ok (.node w) ∧ t'.root = .ok (.node w))
              ∨ (∀ t, r ≠ .ok (some t)) ∧ ∀ t, r' ≠ .ok (some t) := by
  have hparted := parted_of_not_prefix hpq hqp
  have hs := standsAt_start policy tree
  obtain ⟨n, hn⟩ := Option.isSome_iff_exists.mp hp
  obtain ⟨n', hn'⟩ := Option.isSome_iff_exists.mp hq
  refine ⟨hs.exists_performsBoth hparted he hn hn' _,
    hs.exists_performsBoth hparted.symm he' hn' hn _, ?_⟩
  intro r r' hr hr'
  rcases hr.cases hs hparted he he' hn hn' with
    ⟨m, m', u, w, t, hm, hm', hu, hw, rfl, ht⟩ | ⟨hfails, hnone⟩
  · rcases hr'.cases hs hparted.symm he' he hn' hn with
      ⟨l', l, u', w', t', hl', hl, hu', hw', rfl, ht'⟩ | ⟨-, hnone⟩
    · cases hm.symm.trans hl
      cases hm'.symm.trans hl'
      obtain ⟨x, hx, hx'⟩ := Node.exists_substitute_comm hparted hu hu'
      obtain rfl : x = w := Option.some_inj.mp (hx.symm.trans hw)
      obtain rfl : x = w' := Option.some_inj.mp (hx'.symm.trans hw')
      exact .inl ⟨t, t', x, rfl, rfl, ht, ht'⟩
    · rcases hnone with hnone | hnone
      · exact absurd hm' (hnone m')
      · exact absurd hm (hnone m)
  · rcases hr'.cases hs hparted.symm he' he hn' hn with
      ⟨l', l, u', w', t', hl', hl, -⟩ | ⟨hfails', -⟩
    · rcases hnone with hnone | hnone
      · exact absurd hl (hnone l)
      · exact absurd hl' (hnone l')
    · exact .inr ⟨hfails, hfails'⟩

/-- In `(1 [2])` a value is assigned to the `1`, and then one is put into
the vector while the first edit is still pending in the frame around both.
The other way round the tree comes out the same. -/
theorem edits_commute_pending :
    ∃ t, (start .forms .standard (.node (.branch .list
          [.token (.int 1), .whitespace " ",
            .branch .vector [.token (.int 2)]]))).PerformsBoth
        [2] (FocusEdit.place .last (.int 3)).action
        [0] (FocusEdit.assign (.int 5) none).action (.ok (some t))
      ∧ t.root = .ok (.node (.branch .list
          [.token (.int 5), .whitespace " ", .branch .vector
            [.token (.int 2), .whitespace " ", .token (.int 3)]])) := by
  have hp : ((.branch .list [.token (.int 1), .whitespace " ",
      .branch .vector [.token (.int 2)]] : Form).at? [0]).isSome = true :=
    rfl
  have hq : ((.branch .list [.token (.int 1), .whitespace " ",
      .branch .vector [.token (.int 2)]] : Form).at? [2]).isSome = true :=
    rfl
  have he : (FocusEdit.assign (.int 5) none).IsLiteral .standard :=
    ⟨" ", rfl⟩
  have he' : (FocusEdit.place .last (.int 3)).IsLiteral .standard := trivial
  obtain ⟨-, ⟨r, hr⟩, hcommute⟩ :=
    edits_commute hp hq (by decide) (by decide) he he'
  have hforth : ∃ t, (start .forms .standard (.node (.branch .list
        [.token (.int 1), .whitespace " ",
          .branch .vector [.token (.int 2)]]))).PerformsBoth
      [0] (FocusEdit.assign (.int 5) none).action
      [2] (FocusEdit.place .last (.int 3)).action (.ok (some t))
    ∧ t.root = .ok (.node (.branch .list
        [.token (.int 5), .whitespace " ", .branch .vector
          [.token (.int 2), .whitespace " ", .token (.int 3)]])) := by
    refine ⟨_, .both
      ⟨_, .step .here (a := .move (.plain .down)) rfl rfl, ?_, rfl⟩
      ⟨_, .step .here (a := .move (.plain .rightmost)) rfl rfl, ?_, rfl⟩,
      (Cursor.root_of_up rfl).trans (Cursor.root_atRoot .forms _)⟩
    · exact rfl
    · exact rfl
  obtain ⟨t, ht, htree⟩ := hforth
  rcases hcommute _ _ ht hr with ⟨_, t', w, hsome, rfl, hw, hw'⟩ | ⟨hfails, -⟩
  · cases hsome
    exact ⟨t', hr, by rw [hw', ← hw, htree]⟩
  · exact absurd rfl (hfails t)

end Session

end FormTree
