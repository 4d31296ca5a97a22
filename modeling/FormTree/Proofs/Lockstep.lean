import FormTree.Proofs.Formatting
import FormTree.Proofs.Matching

/-!
# Forms and plain collections in lockstep

Forms have kinds, and a branch that is made anew keeps the kind of the old
one. The cursor knows nothing of that: it would go about in nested lists
in just the same way. `Node.plain` forgets the kinds of a form. Every
branch becomes a collection of what becomes of its children, and
everything else stays as it is; this is a matching of shapes
(`Shape.forms_matches_nested`).

So a program of steps on a form, and the same program with plain items on
the plain collection, go in lockstep from the root to the end of the
program (`Session.replies_plain`).
-/

namespace FormTree

namespace Node

mutual
/-- **A form with its kinds forgotten**: a branch becomes a collection of
what becomes of its children, and everything else stays a node. -/
def plain (c : Collection) : Form → Value
  | .token v => .node (.token v)
  | .whitespace s => .node (.whitespace s)
  | .comment s => .node (.comment s)
  | .branch _ cs => .group c (plainRow c cs)
termination_by structural n => n
/-- A row of forms with their kinds forgotten. -/
def plainRow (c : Collection) : List Form → List Value
  | [] => []
  | n :: ns => n.plain c :: plainRow c ns
end

theorem plainRow_eq_map (c : Collection) (ns : List Form) :
    plainRow c ns = ns.map (plain c) := by
  induction ns with
  | nil => rfl
  | cons n ns ih => rw [plainRow, ih, List.map_cons]

theorem plain_branch (c : Collection) (k : Composite) (cs : List Form) :
    (Node.branch k cs).plain c = .group c (cs.map (plain c)) := by
  rw [plain, plainRow_eq_map]

/-- Branches become collections, and nothing else does. -/
theorem isGroup_plain (c : Collection) (n : Form) :
    Shape.isGroup c (n.plain c) = Value.isBranch (.node n) := by
  cases n with
  | branch k cs => exact decide_eq_true rfl
  | _ => rfl

end Node

/-- A value with the kinds of its forms forgotten. What is no node stays
as it is. -/
def Value.plain (c : Collection) : Value → Value
  | .node n => n.plain c
  | v => v

/-- A form in a row, and what it becomes. -/
inductive Value.IsPlain (c : Collection) : Value → Value → Prop
  | node (n : Form) : IsPlain c (.node n) (n.plain c)

/-- What is in focus, and what it becomes: the tree may be empty yet. -/
inductive Value.IsPlainFocus (c : Collection) : Value → Value → Prop
  | node (n : Form) : IsPlainFocus c (.node n) (n.plain c)
  | nil : IsPlainFocus c .nil .nil

namespace Value

/-- Matching rows are a row of nodes and what becomes of them. -/
theorem IsPlain.exists_of_forall₂ {c : Collection} {vs ws : List Value}
    (h : List.Forall₂ (IsPlain c) vs ws) :
    ∃ ns : List Form, vs = ns.map Value.node ∧ ws = ns.map (Node.plain c) := by
  induction h with
  | nil => exact ⟨[], rfl, rfl⟩
  | cons hn _ ih =>
    obtain ⟨n⟩ := hn
    obtain ⟨ns, rfl, rfl⟩ := ih
    exact ⟨n :: ns, rfl, rfl⟩

theorem IsPlain.eq_plain {c : Collection} {v w : Value}
    (h : IsPlain c v w) : w = v.plain c := by
  cases h
  rfl

theorem IsPlainFocus.eq_plain {c : Collection} {v w : Value}
    (h : IsPlainFocus c v w) : w = v.plain c := by
  cases h <;> rfl

/-- A form, or the empty value where there is none yet. -/
def ofForm? : Option Form → Value
  | some n => .node n
  | none => .nil

theorem isPlainFocus_ofForm? (c : Collection) (root : Option Form) :
    IsPlainFocus c (ofForm? root) ((ofForm? root).plain c) := by
  cases root with
  | none => exact .nil
  | some n => exact .node n

end Value

/-- **Forms match the plain collections** that they become. -/
theorem Shape.forms_matches_nested (c : Collection) :
    Shape.forms.Matches (.nested c) (Value.IsPlain c)
      (Value.IsPlainFocus c) where
  focus := by
    rintro _ _ ⟨n⟩
    exact .node n
  isBranch_eq := by
    rintro _ _ (⟨n⟩ | _)
    · exact n.isGroup_plain c
    · rfl
  branch := by
    rintro _ _ (⟨n⟩ | _) hb
    · exact .node n
    · cases hb
  children := by
    rintro _ _ ⟨n⟩ hb
    cases n with
    | branch k cs =>
      show List.Forall₂ _ (cs.map Value.node)
        (Shape.groupItems ((Node.branch k cs).plain c))
      rw [Node.plain_branch, Shape.groupItems, List.forall₂_map_left_iff,
        List.forall₂_map_right_iff]
      exact List.forall₂_same.mpr fun n _ => .node n
    | _ => cases hb
  make := by
    rintro _ _ ⟨n⟩ hb ts us hrow
    cases n with
    | branch k cs =>
      obtain ⟨ns, rfl, rfl⟩ := Value.IsPlain.exists_of_forall₂ hrow
      refine ⟨_, _, Shape.forms_make k cs ns, rfl, ?_⟩
      rw [Row.items_ofList, ← Node.plain_branch c k]
      exact .node _
    | _ => cases hb

namespace Session

/-- **A session over a plain collection mirrors one over a form**: the
focus, the frames one by one and the tree the cursor stands for are what
those of the other become. -/
structure Mirrors (c : Collection) (s t : Session) : Prop where
  /-- What is in focus. -/
  focus : t.cursor.focus = s.cursor.focus.plain c
  /-- The frames, with the same indices and the same marks. -/
  frames : List.Forall₂ (fun f g => g.index = f.index
      ∧ g.changed = f.changed ∧ g.parent = f.parent.plain c
      ∧ g.siblings = f.siblings.map (Value.plain c))
    s.cursor.path t.cursor.path
  /-- The tree. -/
  root : ∃ v, s.root = .ok v ∧ t.root = .ok (v.plain c)

/-- Two sessions over a form and a plain collection, with matching
cursors. -/
structure InStep (c : Collection) (s t : Session) : Prop where
  /-- The one is over forms. -/
  forms : s.shape = .forms
  /-- The other is over collections. -/
  nested : t.shape = .nested c
  /-- The cursors match. -/
  cursors : s.cursor.Matches .forms (Value.IsPlain c)
    (Value.IsPlainFocus c) t.cursor

theorem InStep.mirrors {c : Collection} {s t : Session}
    (h : InStep c s t) : Mirrors c s t := by
  refine ⟨h.cursors.focus.eq_plain, h.cursors.path.imp fun f g hfg => ?_, ?_⟩
  · refine ⟨hfg.index_eq, hfg.changed_eq, hfg.parent.eq_plain, ?_⟩
    obtain ⟨ns, hf, hg⟩ := Value.IsPlain.exists_of_forall₂ hfg.siblings
    rw [hf, hg, List.map_map]
    rfl
  · obtain ⟨v, w, hv, hw, hvw⟩ :=
      h.cursors.root (Shape.forms_matches_nested c)
    refine ⟨v, ?_, ?_⟩
    · rw [root, h.forms, hv]
    · rw [root, h.nested, hw, hvw.eq_plain]

/-- **One step in lockstep.** -/
theorem InStep.reply {c : Collection} {o o' : Option Session}
    (h : Attempt.Agree (ε := Failure) (InStep c) (.ok o) (.ok o'))
    (st : Step Form) :
    Attempt.Agree (InStep c) (reply o (st.map Value.node).action)
      (reply o' (st.map (Node.plain c)).action) := by
  cases h with
  | nowhere => exact .nowhere
  | @somewhere s t hst =>
    obtain ⟨S, p, d⟩ := s
    obtain ⟨T, q, e⟩ := t
    obtain ⟨rfl, rfl, hde⟩ := hst
    have hagree := hde.outcome (Shape.forms_matches_nested c) p q
      (f := Value.node) (g := Node.plain c) Value.IsPlain.node st
    generalize ha : (Session.mk .forms p d).outcome
      (st.map Value.node).action = a at hagree
    generalize hb : (Session.mk (.nested c) q e).outcome
      (st.map (Node.plain c)).action = b at hagree
    rw [reply_of_outcome ha, reply_of_outcome hb]
    cases hagree with
    | nowhere => exact .nowhere
    | somewhere hxy => exact .somewhere ⟨rfl, rfl, hxy⟩

/-- Where replies agree, so do the sessions afterwards. -/
theorem agree_afterwards {R : Session → Session → Prop}
    {o o' : Option Session} {a b : Action}
    (h : Attempt.Agree R (reply o a) (reply o' b)) :
    Attempt.Agree (ε := Failure) R (.ok (afterwards o a))
      (.ok (afterwards o' b)) := by
  generalize ha : reply o a = r at h
  generalize hb : reply o' b = r' at h
  cases h with
  | nowhere =>
    rw [afterwards_of_ok ha, afterwards_of_ok hb]
    exact .nowhere
  | somewhere hxy =>
    rw [afterwards_of_ok ha, afterwards_of_ok hb]
    exact .somewhere hxy

theorem InStep.forall₂_replies {c : Collection} {o o' : Option Session}
    (h : Attempt.Agree (ε := Failure) (InStep c) (.ok o) (.ok o'))
    (steps : List (Step Form)) :
    List.Forall₂ (Attempt.Agree (InStep c))
      (replies o (steps.map fun st => (st.map Value.node).action))
      (replies o' (steps.map fun st => (st.map (Node.plain c)).action)) := by
  induction steps generalizing o o' with
  | nil => exact .nil
  | cons st steps ih =>
    have hreply := InStep.reply h st
    exact .cons hreply (ih (agree_afterwards hreply))

/-- **The cursor does not depend on the sort of tree.** A program of
steps, with nodes as its items, on a form or on an empty tree, and the
same program with what the nodes become on what the form becomes go in
lockstep: no step fails, the same steps lead nowhere, and all others lead
to sessions of which the one mirrors the other. -/
theorem replies_plain (c : Collection) (p q : Policy)
    (root : Option Form) (steps : List (Step Form)) :
    List.Forall₂ (Attempt.Agree (Mirrors c))
      (replies (some (start .forms p (.ofForm? root)))
        (steps.map fun st => (st.map Value.node).action))
      (replies (some (start (.nested c) q ((Value.ofForm? root).plain c)))
        (steps.map fun st => (st.map (Node.plain c)).action)) := by
  have hstart : InStep c (start .forms p (.ofForm? root))
      (start (.nested c) q ((Value.ofForm? root).plain c)) :=
    ⟨rfl, rfl, Value.isPlainFocus_ofForm? c root, .nil⟩
  exact (InStep.forall₂_replies (.somewhere hstart) steps).imp
    fun _ _ h => h.imp InStep.mirrors

end Session

end FormTree
