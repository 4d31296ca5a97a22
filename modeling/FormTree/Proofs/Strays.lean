import FormTree.Proofs.Faults
import FormTree.Proofs.Frames
import FormTree.Proofs.Surface

/-!
# Strays among the siblings

A branch of forms is made of nodes, but what is put into a row is not
looked at: a value that is no node stands among the siblings like any
other, and only making a branch of the row brings it to light. Such a
value is a **stray**. It may be found many steps later and several levels
further up, and the question is whether it can be missed, or whether a
failure can be reported where there is none.

Neither happens. The row of a recorded parent holds nodes only, so a frame
with a stray is marked as changed, and the way up tries to make a branch
of it; and what going up enters into the row outside is a node in the
place of a node. Therefore going up fails exactly when the innermost frame
has a stray, and putting the tree together fails exactly when some frame
on the path has one.

In a run that is supplied with nodes only, and with values as the literal
conversion makes nodes of them, there is never a stray
(`Session.SuppliesNodes`).
-/

namespace FormTree

/-- **An attempt fails structurally exactly on a condition**, and has a
result otherwise. -/
def FailsExactly {α : Type} (x : Except Failure α) (p : Prop) : Prop :=
  (p ∧ ∃ e, x = .error (.structural e)) ∨ (¬ p ∧ ∃ a, x = .ok a)

namespace FailsExactly

variable {α : Type} {x : Except Failure α} {p : Prop}

theorem iff (h : FailsExactly x p) :
    (∃ e, x = .error (.structural e)) ↔ p := by
  rcases h with ⟨hp, he⟩ | ⟨hp, a, ha⟩
  · exact iff_of_true he hp
  · refine iff_of_false ?_ hp
    rintro ⟨e, he⟩
    rw [ha] at he
    cases he

/-- There is no other failure. -/
theorem structural (h : FailsExactly x p) {e : Failure}
    (he : x = .error e) : ∃ e', e = .structural e' := by
  rcases h with ⟨-, e', he'⟩ | ⟨-, a, ha⟩
  · rw [he] at he'
    cases he'
    exact ⟨e', rfl⟩
  · rw [he] at ha
    cases ha

end FailsExactly

/-! ## Making a branch of a row -/

/-- A row of nodes is a list of forms. -/
theorem exists_map_node {vs : List Value}
    (h : ∀ v ∈ vs, v.isNode = true) :
    ∃ ns : List Form, vs = ns.map Value.node := by
  induction vs with
  | nil => exact ⟨[], rfl⟩
  | cons v vs ih =>
    obtain ⟨ns, rfl⟩ := ih fun w hw => h w (.tail v hw)
    cases v with
    | node n => exact ⟨n :: ns, rfl⟩
    | _ => exact absurd (h _ (.head _)) Bool.false_ne_true

/-- A row with a value that is no node is refused. -/
theorem exists_nodesOf_eq_error (k : Composite) {vs : List Value}
    (h : ∃ v ∈ vs, v.isNode = false) :
    ∃ e, nodesOf k vs = .error e := by
  induction vs with
  | nil =>
    obtain ⟨v, hv, -⟩ := h
    cases hv
  | cons v vs ih =>
    cases v with
    | node n =>
      have hrest : ∃ w ∈ vs, w.isNode = false := by
        obtain ⟨w, hw, hstray⟩ := h
        cases hw with
        | head => cases hstray
        | tail _ hw => exact ⟨w, hw, hstray⟩
      obtain ⟨e, he⟩ := ih hrest
      exact ⟨e, by rw [nodesOf, he]; rfl⟩
    | _ => exact ⟨_, rfl⟩

namespace Shape

theorem exists_of_isBranch {v : Value} (h : Shape.forms.isBranch v = true) :
    ∃ k cs, v = .node (.branch k cs) := by
  match v, h with
  | .node (.branch k cs), _ => exact ⟨k, cs, rfl⟩

/-- A branch takes a row of nodes. -/
theorem exists_make_eq_ok {v : Value} (hv : Shape.forms.isBranch v = true)
    {items : List Value} (h : ∀ w ∈ items, w.isNode = true) :
    ∃ n, Shape.forms.make v (.ofList items) = .ok (.node n) := by
  obtain ⟨k, cs, rfl⟩ := exists_of_isBranch hv
  obtain ⟨ns, rfl⟩ := exists_map_node h
  exact ⟨.branch k ns, Shape.forms_make k cs ns⟩

/-- A branch refuses a row with anything else in it. -/
theorem exists_make_eq_error {v : Value}
    (hv : Shape.forms.isBranch v = true) {items : List Value}
    (h : ∃ w ∈ items, w.isNode = false) :
    ∃ e, Shape.forms.make v (.ofList items) = .error (.structural e) := by
  obtain ⟨k, cs, rfl⟩ := exists_of_isBranch hv
  obtain ⟨e, he⟩ := exists_nodesOf_eq_error k h
  refine ⟨e, ?_⟩
  show (liftStructural ((nodesOf k items).map _)).map _ = _
  rw [he]
  rfl

/-- The children of a form are nodes. -/
theorem isNode_of_mem_formChildren {v w : Value}
    (h : w ∈ Shape.formChildren v) : w.isNode = true := by
  cases v with
  | node n =>
    obtain ⟨m, -, rfl⟩ := List.mem_map.mp h
    rfl
  | _ => cases h

end Shape

/-! ## Frames with strays -/

namespace Frame

/-- **A frame has a stray**: one of the siblings is no node. -/
def HasStray (f : Frame Value) : Prop := ∃ v ∈ f.siblings, v.isNode = false

theorem isNode_of_not_hasStray {f : Frame Value} (h : ¬ f.HasStray) :
    ∀ v ∈ f.siblings, v.isNode = true := by
  intro v hv
  by_contra hnot
  exact h ⟨v, hv, Bool.eq_false_iff.mpr hnot⟩

namespace Encloses

variable {f : Frame Value} {v : Value}

/-- **A stray leaves a mark**: a frame that has one is changed. -/
theorem changed_of_hasStray (h : f.Encloses .forms v)
    (hstray : f.HasStray) : f.changed = true := by
  -- an unchanged row has the children of a form in it, which are nodes
  by_contra hc
  obtain ⟨w, hw, hnot⟩ := hstray
  rw [h.eq_of_unchanged (Bool.eq_false_iff.mpr hc)] at hw
  have hnode := Shape.isNode_of_mem_formChildren hw
  rw [hnot] at hnode
  cases hnode

theorem row_eq (h : f.Encloses .forms v) : f.row = .ofList f.siblings := by
  obtain ⟨ls, rs, hrow, -⟩ := h.split
  rw [siblings, hrow]
  rfl

/-- A node in the place of a node makes no difference to strays. -/
theorem hasStray_withFocus (h : f.Encloses .forms v)
    (hv : v.isNode = true) (n : Form) :
    (f.withFocus (.node n)).HasStray ↔ f.HasStray := by
  obtain ⟨ls, rs, hrow, hindex⟩ := h.split
  have hold : f.siblings = ls ++ v :: rs := siblings_eq hrow
  have hnew : (f.withFocus (.node n)).siblings = ls ++ .node n :: rs := by
    show f.lefts ++ .node n :: f.rights = _
    rw [lefts_eq hrow hindex, rights_eq hrow hindex]
  have hsplit : ∀ w : Value, w.isNode = true →
      ((∃ u ∈ ls ++ w :: rs, u.isNode = false)
        ↔ (∃ u ∈ ls, u.isNode = false) ∨ ∃ u ∈ rs, u.isNode = false) := by
    intro w hw
    simp only [List.mem_append, List.mem_cons, or_and_right, exists_or,
      exists_eq_left, hw, Bool.true_eq_false, false_or]
  unfold HasStray
  rw [hold, hnew, hsplit v hv, hsplit (.node n) rfl]

end Encloses

end Frame

namespace Cursor

namespace Enclosed

variable {c : Cursor Value} {f : Frame Value} {path : List (Frame Value)}

theorem exists_hasStray_refocus {v : Value}
    (h : Enclosed .forms path v) (hv : v.isNode = true) (n : Form) :
    (∃ f ∈ Cursor.refocus (.node n) path, f.HasStray)
      ↔ ∃ f ∈ path, f.HasStray := by
  cases h with
  | root => exact Iff.rfl
  | inside hf hpath =>
    show (∃ f ∈ _ :: _, _) ↔ _
    rw [List.exists_mem_cons_iff, List.exists_mem_cons_iff,
      hf.hasStray_withFocus hv]

/-- **Going up from a stray fails.** -/
theorem up_of_hasStray (h : c.IsEnclosed .forms) (hpath : c.path = f :: path)
    (hstray : f.HasStray) :
    ∃ e, c.up .forms = .error (.structural e) := by
  obtain ⟨focus, _⟩ := c
  cases hpath
  cases h with
  | inside hf _ =>
    obtain ⟨e, he⟩ := Shape.exists_make_eq_error hf.isBranch hstray
    refine ⟨e, ?_⟩
    unfold Cursor.up
    simp only [hf.changed_of_hasStray hstray, if_true]
    rw [hf.row_eq, he]
    rfl

/-- **Without a stray beside the focus there is a way up**, and the strays
further out stay where they are. -/
theorem up_of_not_hasStray (h : c.IsEnclosed .forms)
    (hpath : c.path = f :: path) (hstray : ¬ f.HasStray) :
    ∃ p, c.up .forms = .ok (some p)
      ∧ ((∃ g ∈ p.path, g.HasStray) ↔ ∃ g ∈ path, g.HasStray) := by
  obtain ⟨focus, _⟩ := c
  cases hpath
  cases h with
  | inside hf hout =>
    unfold Cursor.up
    cases hc : f.changed with
    | false =>
      exact ⟨⟨f.parent, path⟩, by simp only [hc]; rfl, Iff.rfl⟩
    | true =>
      obtain ⟨n, hn⟩ := Shape.exists_make_eq_ok hf.isBranch
        (Frame.isNode_of_not_hasStray hstray)
      obtain ⟨k, cs, hparent⟩ := Shape.exists_of_isBranch hf.isBranch
      refine ⟨⟨.node n, Cursor.refocus (.node n) path⟩, ?_, ?_⟩
      · simp only [hc, if_true]
        rw [hf.row_eq, hn]
        rfl
      · exact exists_hasStray_refocus hout (by rw [hparent]; rfl) n

/-- **Going up fails exactly if there is a stray beside the focus.** -/
theorem up_failsExactly (h : c.IsEnclosed .forms) :
    FailsExactly (c.up .forms) (∃ f ∈ c.path.head?, f.HasStray) := by
  cases hpath : c.path with
  | nil =>
    refine .inr ⟨fun ⟨f, hf, _⟩ => (nomatch hf), none, ?_⟩
    unfold Cursor.up
    rw [hpath]
  | cons f path =>
    by_cases hstray : f.HasStray
    · exact .inl ⟨⟨f, rfl, hstray⟩, h.up_of_hasStray hpath hstray⟩
    · obtain ⟨p, hp, -⟩ := h.up_of_not_hasStray hpath hstray
      refine .inr ⟨?_, _, hp⟩
      rintro ⟨g, hg, hg'⟩
      cases hg
      exact hstray hg'

/-- **The tree cannot be put together exactly if there is a stray** on the
path. By induction on the way up. -/
theorem root_failsExactly (h : c.IsEnclosed .forms) :
    FailsExactly (c.root .forms) (∃ f ∈ c.path, f.HasStray) := by
  induction hlen : c.path.length using Nat.strongRecOn generalizing c with
  | _ k ih =>
    cases hpath : c.path with
    | nil =>
      refine .inr ⟨fun ⟨f, hf, _⟩ => (nomatch hf), c.focus, ?_⟩
      obtain ⟨focus, _⟩ := c
      cases hpath
      exact root_atRoot .forms focus
    | cons f path =>
      by_cases hstray : f.HasStray
      · obtain ⟨e, he⟩ := h.up_of_hasStray hpath hstray
        refine .inl ⟨⟨f, .head _, hstray⟩, e, ?_⟩
        rw [Cursor.root]
        split
        · next he' => rw [he] at he'; cases he'; rfl
        · next he' => rw [he] at he'; cases he'
        · next he' => rw [he] at he'; cases he'
      · obtain ⟨p, hp, hiff⟩ := h.up_of_not_hasStray hpath hstray
        have henclosed := h.up (E := fun _ => True)
          fun _ _ _ _ => trivial
        rw [hp] at henclosed
        -- the strays of the path are those of the parent's path
        rw [List.exists_mem_cons_iff, or_iff_right hstray, ← hiff,
          root_of_up hp]
        exact ih p.path.length (hlen ▸ length_path_of_up hp) henclosed rfl

end Enclosed

/-! ## Runs that are supplied with nodes -/

/-- **A cursor stands somewhere**: at a place, or at something that is no
node, with nothing around it. -/
def Stands (c : Cursor Value) : Prop := (∃ z, c.IsAt z) ∨ c.IsBare

namespace Stands

variable {E : Failure → Prop} {c : Cursor Value}

theorem of_arrives {a : Attempt Failure (Cursor Value)}
    {o : Option Place} (h : Arrives a o) : a.Within Stands E := by
  cases o with
  | none =>
    obtain rfl : a = .ok none := h
    trivial
  | some z =>
    obtain ⟨c, rfl, hc⟩ := h
    exact .inl ⟨z, hc⟩

theorem replace (h : c.Stands) {v : Value} (hv : v.isNode = true) :
    (c.replace v).Stands := by
  cases v with
  | node n =>
    rcases h with ⟨z, hz⟩ | hbare
    · exact .inl ⟨_, hz.replace n⟩
    · exact .inl ⟨_, hbare.replace n⟩
  | _ => cases hv

/-- **A cursor that stands somewhere stands for a tree.** -/
theorem exists_root (h : c.Stands) : ∃ v, c.root .forms = .ok v := by
  rcases h with ⟨z, hz⟩ | hbare
  · exact ⟨_, hz.root_eq⟩
  · exact ⟨_, hbare.root_eq⟩

end Stands

/-- The operations of a cursor keep it standing as long as nodes are put
into the tree, and none of them fails. -/
theorem keeps_stands (E : Failure → Prop) :
    Keeps .forms (fun v => v.isNode = true) Stands E where
  step d hc := by
    rcases hc with ⟨z, hz⟩ | hbare
    · exact Stands.of_arrives (hz.step d)
    · rw [hbare.step_eq]
      trivial
  remove hc := by
    rcases hc with ⟨z, hz⟩ | hbare
    · exact Stands.of_arrives hz.remove
    · rw [hbare.remove_eq]
      trivial
  insert side v hv hc := by
    rcases hc with ⟨z, hz⟩ | hbare
    · cases v with
      | node n => exact Stands.of_arrives (hz.insert side n)
      | _ => cases hv
    · rw [hbare.insert_eq]
      trivial
  replace hv hc := hc.replace hv

end Cursor

/-- The function that an action is given, if it is given one. -/
def Action.function? : Action → Option (Value → Except Failure Value)
  | .replaceWith f => some f
  | .amend f _ _ => some f
  | _ => none

namespace Session

/-- **An action supplies nodes**: what it puts into the tree as it is, is
a node, and what it converts is converted as a literal. -/
def SuppliesNodes (s : Session) (a : Action) : Prop :=
  match a with
  | .insert _ item => item.isNode = true
  | .replace item => item.isNode = true
  | .replaceWith f => ∀ v, f s.cursor.focus = .ok v → v.isNode = true
  | .assign _ conv => ∃ given : Option Text, conv = given.map .literal
  | .amend _ conv _ => ∃ given : Option Text, conv = given.map .literal
  | _ => True

section Literal

variable {s : Session} {separator : Text} {a : Action}

/-- The literal conversion makes nodes. -/
theorem isNode_of_formFor {v w : Value}
    (h : (Literal.formFor separator v).map Value.node = .ok w) :
    w.isNode = true := by
  obtain ⟨n, -, rfl⟩ := Attempt.exists_of_map_eq_ok h
  rfl

/-- The literal conversion does not fail structurally. -/
theorem not_structural_of_formFor {v : Value} {e : StructureError}
    (h : (Literal.formFor separator v).map Value.node
      = .error (.structural e)) : False := by
  unfold Literal.formFor at h
  cases hform : Literal.toForm separator v with
  | ok n => rw [hform] at h; cases h
  | error e' => rw [hform] at h; cases h

theorem not_structural_of_toValue {v : Value} {e : StructureError}
    (h : (Converter.literal separator).toValue v
      = .error (.structural e)) : False := by
  change Literal.toValue v = _ at h
  unfold Literal.toValue at h
  split at h
  · cases h
  · rcases Literal.formValue_eq_error_cases h with
      ⟨_, ⟨⟩⟩ | ⟨_, -, _, _, -, ⟨⟩⟩
  · cases h

/-- What an action that supplies nodes puts into the tree are nodes. -/
theorem SuppliesNodes.puts (hconv : s.policy.converter = .literal separator)
    (h : s.SuppliesNodes a) : s.Puts (fun v => v.isNode = true) a := by
  have hnode : ∀ given : Option Text, ∀ v w,
      (s.converterOr (given.map .literal)).toNode v = .ok w →
        w.isNode = true := by
    intro given v w hw
    rw [Surface.converterOr_eq hconv, Literal.toNode_eq] at hw
    exact isNode_of_formFor hw
  cases a with
  | insert side item => exact h
  | replace item => exact h
  | replaceWith f => exact h
  | place side item =>
    refine ⟨rfl, fun v hv => ?_⟩
    rw [Literal.itemFor_eq hconv] at hv
    exact isNode_of_formFor hv
  | assign v conv =>
    obtain ⟨given, rfl⟩ := h
    exact hnode given
  | amend f conv occasion =>
    obtain ⟨given, rfl⟩ := h
    exact hnode given
  | _ => trivial

/-- **An action that supplies nodes fails structurally only if the
function it is given does.** -/
theorem SuppliesNodes.exists_of_ownFailure
    (hconv : s.policy.converter = .literal separator)
    (h : s.SuppliesNodes a) {e : StructureError}
    (he : s.OwnFailure a (.structural e)) :
    ∃ f v, a.function? = some f ∧ f v = .error (.structural e) := by
  cases a with
  | place side item =>
    change s.policy.itemFor item = _ at he
    rw [Literal.itemFor_eq hconv] at he
    exact (not_structural_of_formFor he).elim
  | replaceWith f => exact ⟨f, s.cursor.focus, rfl, he⟩
  | assign v conv =>
    obtain ⟨given, rfl⟩ := h
    change (s.converterOr _).toNode v = _ at he
    rw [Surface.converterOr_eq hconv, Literal.toNode_eq] at he
    exact (not_structural_of_formFor he).elim
  | amend f conv occasion =>
    obtain ⟨given, rfl⟩ := h
    rcases he with hvalue | ⟨v, hv⟩ | ⟨v, hnode⟩
    · rw [Surface.converterOr_eq hconv] at hvalue
      exact (not_structural_of_toValue hvalue).elim
    · exact ⟨f, v, rfl, hv⟩
    · rw [Surface.converterOr_eq hconv, Literal.toNode_eq] at hnode
      exact (not_structural_of_formFor hnode).elim
  | _ => exact he.elim

end Literal

/-- **In a run that is supplied with nodes the cursor stands somewhere.** -/
theorem Reaches.stands {Allowed : Session → Action → Prop}
    {policy : Policy} {separator : Text} {root : Value} {s : Session}
    (h : (Session.start .forms policy root).Reaches Allowed s)
    (hconv : policy.converter = .literal separator)
    (hnodes : ∀ t a, Allowed t a → t.SuppliesNodes a) :
    s.cursor.Stands := by
  suffices hI : (s.shape = .forms ∧ s.policy = policy) ∧ s.cursor.Stands
    from hI.2
  refine h.invariant (I := fun t => (t.shape = .forms ∧ t.policy = policy)
    ∧ t.cursor.Stands) ?_
    ⟨⟨rfl, rfl⟩, Cursor.isAt_or_isBare_atRoot root⟩
  rintro ⟨shape, policy, c⟩ a d ⟨⟨rfl, rfl⟩, hc⟩ ha hd
  refine ⟨⟨rfl, rfl⟩, ?_⟩
  have hkept := (Cursor.keeps_stands fun _ => True).outcome
    (s := ⟨.forms, policy, c⟩) hc ((hnodes _ a ha).puts hconv)
    fun _ _ => trivial
  rw [hd] at hkept
  exact hkept

/-- What an action fails with is what its outcome fails with. -/
theorem perform_result_eq_error {s : Session} {a : Action} {e : Failure} :
    (s.perform a).result = .error e ↔ s.outcome a = .error e := by
  show (s.outcome a).map _ = _ ↔ _
  cases s.outcome a with
  | error e' => exact ⟨fun h => by cases h; rfl, fun h => by cases h; rfl⟩
  | ok o => exact ⟨fun h => (nomatch h), fun h => (nomatch h)⟩

/-- An action fails on the same condition as its outcome. -/
theorem perform_failsExactly {s : Session} {a : Action} {p : Prop}
    (h : FailsExactly (s.outcome a) p) :
    FailsExactly (s.perform a).result p := by
  rcases h with ⟨hp, e, he⟩ | ⟨hp, o, ho⟩
  · exact .inl ⟨hp, e, perform_result_eq_error.mpr he⟩
  · refine .inr ⟨hp, o.map s.goTo, ?_⟩
    show (s.outcome a).map _ = _
    rw [ho]
    rfl

/-- **Structural failures surface exactly when they must.** Wherever a
session has got to, by whatever actions and with whatever put into the
tree: the tree cannot be put together exactly if some frame on the path
has a stray, and there is no going up exactly if the innermost frame has
one. Both fail in no other way. And in a run that is supplied with nodes
the tree can always be put together, and an action fails structurally only
if the function it is given does. -/
theorem structural_failure_iff {Allowed : Session → Action → Prop}
    {policy : Policy} {root : Value} {s : Session}
    (h : (Session.start .forms policy root).Reaches Allowed s) :
    ((∃ e, s.root = .error (.structural e))
        ↔ ∃ f ∈ s.cursor.path, f.HasStray)
      ∧ ((∃ e, (s.perform (.move (.plain .up))).result
            = .error (.structural e))
          ↔ ∃ f ∈ s.cursor.path.head?, f.HasStray)
      ∧ (∀ e, s.root = .error e
          ∨ (s.perform (.move (.plain .up))).result = .error e →
        ∃ e', e = .structural e')
      ∧ ∀ separator, policy.converter = .literal separator →
        (∀ t a, Allowed t a → t.SuppliesNodes a) →
          (∃ v, s.root = .ok v)
            ∧ ∀ a e, s.SuppliesNodes a →
              (s.perform a).result = .error (.structural e) →
                ∃ f v, a.function? = some f
                  ∧ f v = .error (.structural e) := by
  have hshape : s.shape = .forms := h.shape_eq
  have hpolicy : s.policy = policy := h.policy_eq
  have henclosed := h.isEnclosed
  obtain ⟨shape, policy', c⟩ := s
  obtain rfl : shape = .forms := hshape
  obtain rfl : policy' = policy := hpolicy
  have hroot := henclosed.root_failsExactly
  have hup := perform_failsExactly (s := ⟨.forms, policy', c⟩)
    (a := .move (.plain .up)) henclosed.up_failsExactly
  refine ⟨hroot.iff, hup.iff, ?_, fun separator hconv hnodes => ⟨?_, ?_⟩⟩
  · rintro e (he | he)
    · exact hroot.structural he
    · exact hup.structural he
  · exact (h.stands hconv hnodes).exists_root
  · intro a e ha he
    have hwithin := (Cursor.keeps_stands
      (Session.OwnFailure ⟨.forms, policy', c⟩ a)).outcome
        (h.stands hconv hnodes) (ha.puts hconv) fun _ => id
    rw [perform_result_eq_error.mp he] at hwithin
    exact ha.exists_of_ownFailure hconv hwithin

/-- In `([2])` a number that is no node is put beside the vector, and the
cursor goes down: there is a way up, but not to the root. In another run
the conversion makes a node of a list, and the root is there. -/
theorem structural_failure_iff_inserted :
    (∃ s : Session,
      (Session.start .forms .standard (.node (.branch .list
        [.branch .vector [.token (.int 2)]]))).Reaches (fun _ _ => True) s
      ∧ (∃ f ∈ s.cursor.path, f.HasStray)
      ∧ (∃ e, s.root = .error (.structural e))
      ∧ ¬ ∃ e, (s.perform (.move (.plain .up))).result
          = .error (.structural e))
    ∧ ∃ s : Session,
      (Session.start .forms .standard (.node (.branch .list
        [.token (.int 2)]))).Reaches SuppliesNodes s
      ∧ s.cursor.path.map Frame.changed = [true]
      ∧ ∃ v, s.root = .ok v := by
  have hstray : (Session.start .forms .standard (.node (.branch .list
      [.branch .vector [.token (.int 2)]]))).Reaches (fun _ _ => True) _ :=
    .step (.step (.step .here (a := .move (.plain .down)) trivial rfl)
      (a := .insert .left (.int 5)) trivial rfl)
      (a := .move (.plain .down)) trivial rfl
  have hnodes : (Session.start .forms .standard (.node (.branch .list
      [.token (.int 2)]))).Reaches SuppliesNodes _ :=
    .step (.step .here (a := .move (.plain .down)) trivial rfl)
      (a := .place .right (.list [.int 3, .int 4])) trivial rfl
  refine ⟨⟨_, hstray, ?_, ?_, ?_⟩, _, hnodes, rfl,
    ((structural_failure_iff hnodes).2.2.2 _ rfl fun _ _ h => h).1⟩
  · exact ⟨_, .tail _ (.head _), .int 5, .head _, rfl⟩
  · rw [(structural_failure_iff hstray).1]
    exact ⟨_, .tail _ (.head _), .int 5, .head _, rfl⟩
  · rw [(structural_failure_iff hstray).2.1]
    rintro ⟨f, hf, v, hv, hnot⟩
    cases hf
    cases hv with
    | head => cases hnot
    | tail _ hv => cases hv

end Session

end FormTree
