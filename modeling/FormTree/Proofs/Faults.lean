import FormTree.Proofs.Likeness
import FormTree.Proofs.Positions

/-!
# What goes wrong in reading a form

Reading a form can fail for three reasons. Formatting has no value; a set
or a map may not be one, for which the branch is to blame; or something
that has to be hashed for it has a hash function that fails in a way of
its own. The first two are failed conversions. The third is not, and it
comes through as it is.

A hash function that can do this comes in with a token. What the branches
are read as is hashed member by member or refused, so whatever fails when
a value read from a tree is hashed fails in a token of the tree
(`Literal.exists_token_of_formValue`). Therefore a tree whose tokens hold
nothing of the sort fails by a failed conversion or not at all
(`Literal.exists_conversion_of_formValue`).
-/

namespace FormTree

/-- Whether a fault says that the object is not hashable. -/
def HashFault.isRefusal : HashFault → Bool
  | .refused _ => true
  | .raised _ _ => false

namespace Value

/-- **Whether hashing a value has a result or is refused**, and does not
fail in any other way. -/
def hashesOrRefuses (v : Value) : Bool :=
  v.hashFault?.all HashFault.isRefusal

/-- **Hashing a value raises a failure** of its own. -/
def Raises (v : Value) (e : Failure) : Prop :=
  ∃ className message, v.hashFault? = some (.raised className message)
    ∧ e = .raised className message

theorem not_raises {v : Value} (h : v.hashesOrRefuses = true)
    {e : Failure} : ¬ v.Raises e := by
  rintro ⟨className, message, hfault, -⟩
  rw [hashesOrRefuses, hfault] at h
  cases h

end Value

namespace Literal

section Collecting

variable {ε α β : Type} {f : α → Except ε β} {as : List α} {bs : List β}

/-- What is collected corresponds to what it is collected from. -/
theorem collect_map_eq_ok_iff :
    collect (as.map f) = .ok bs
      ↔ List.Forall₂ (fun a b => f a = .ok b) as bs := by
  induction as generalizing bs with
  | nil =>
    rw [List.forall₂_nil_left_iff]
    exact ⟨fun h => by cases h; rfl, fun h => by rw [h]; rfl⟩
  | cons a as ih =>
    rw [List.map_cons, List.forall₂_cons_left_iff]
    constructor
    · intro h
      cases ha : f a with
      | error e => rw [ha] at h; cases h
      | ok b =>
        rw [ha] at h
        obtain ⟨bs, hbs, rfl⟩ := Attempt.exists_of_map_eq_ok h
        exact ⟨b, bs, rfl, ih.mp hbs, rfl⟩
    · rintro ⟨b, bs, ha, hbs, rfl⟩
      rw [ha]
      show (collect _).map _ = _
      rw [ih.mpr hbs]
      rfl

/-- A failure to collect is the failure of something to be collected. -/
theorem exists_of_collect_eq_error {e : ε}
    (h : collect (as.map f) = .error e) : ∃ a ∈ as, f a = .error e := by
  induction as with
  | nil => cases h
  | cons a as ih =>
    rw [List.map_cons] at h
    cases ha : f a with
    | error e' =>
      rw [ha] at h
      cases h
      exact ⟨a, .head _, ha⟩
    | ok b =>
      rw [ha] at h
      change (collect _).map _ = _ at h
      cases hbs : collect (as.map f) with
      | error e' =>
        rw [hbs] at h
        cases h
        obtain ⟨a', ha', he⟩ := ih hbs
        exact ⟨a', .tail _ ha', he⟩
      | ok bs => rw [hbs] at h; cases h

end Collecting

/-! ## Rows -/

/-- The forms among the children of a branch. -/
def formsOf (cs : List Form) : List Form :=
  cs.filter fun n => !n.isFormatting

theorem mem_of_mem_formsOf {cs : List Form} {n : Form}
    (h : n ∈ formsOf cs) : n ∈ cs := (List.mem_filter.mp h).1

/-- The values of a row are those of its forms. -/
theorem formValues_eq_collect (cs : List Form) :
    formValues cs = collect ((formsOf cs).map formValue) := by
  induction cs with
  | nil => rfl
  | cons n ns ih =>
    rw [formValues]
    by_cases hn : n.isFormatting = true
    · rw [if_pos hn, ih, formsOf, formsOf,
        List.filter_cons_of_neg (by simp [hn])]
    · rw [if_neg hn, ih, formsOf, formsOf,
        List.filter_cons_of_pos (by simp [hn]), List.map_cons]
      cases formValue n with
      | error e => rfl
      | ok v => rfl

/-- The values of a row correspond to its forms. -/
theorem formValues_eq_ok_iff {cs : List Form} {items : List Value} :
    formValues cs = .ok items
      ↔ List.Forall₂ (fun n v => formValue n = .ok v) (formsOf cs) items := by
  rw [formValues_eq_collect, collect_map_eq_ok_iff]

/-- A row that cannot be read has a form that cannot. -/
theorem exists_of_formValues_eq_error {cs : List Form} {e : Failure}
    (h : formValues cs = .error e) : ∃ c ∈ cs, formValue c = .error e := by
  rw [formValues_eq_collect] at h
  obtain ⟨c, hc, he⟩ := exists_of_collect_eq_error h
  exact ⟨c, mem_of_mem_formsOf hc, he⟩

/-- What is read from a row is read from a form in it. -/
theorem exists_of_mem_formValues {cs : List Form} {items : List Value}
    (h : formValues cs = .ok items) {v : Value} (hv : v ∈ items) :
    ∃ c ∈ cs, formValue c = .ok v := by
  obtain ⟨c, hc, hcv⟩ := exists_mem_of_forall₂_right
    (formValues_eq_ok_iff.mp h) hv
  exact ⟨c, mem_of_mem_formsOf hc, hcv⟩

/-! ## Failures -/

/-- **What is looked up** in making a branch of the given kind: the members
of a set and the keys of a map. -/
def lookedUp {α : Type} (k : Composite) (items : List α) : List α :=
  match k with
  | .set => items
  | .map => (pairs items).map Prod.fst
  | _ => []

theorem fst_mem_of_mem_pairs {α : Type} {e : α × α} :
    ∀ {as : List α}, e ∈ pairs as → e.1 ∈ as
  | a :: b :: rest, h => by
    rcases List.mem_cons.mp h with rfl | h
    · exact .head _
    · exact .tail _ (.tail _ (fst_mem_of_mem_pairs h))

theorem mem_of_mem_lookedUp {α : Type} {k : Composite} {items : List α}
    {a : α} (h : a ∈ lookedUp k items) : a ∈ items := by
  cases k with
  | list => cases h
  | vector => cases h
  | set => exact h
  | map =>
    obtain ⟨e, he, rfl⟩ := List.mem_map.mp h
    exact fst_mem_of_mem_pairs he

/-- What goes wrong in making a set of values goes wrong in hashing one of
them. -/
theorem exists_of_members_eq_error {vs : List Value} {fault : HashFault}
    (h : Value.members vs = .error fault) :
    ∃ v ∈ vs, v.hashFault? = some fault := by
  unfold Value.members at h
  split at h
  · next hfault =>
    cases h
    exact List.exists_of_findSome?_eq_some hfault
  · cases h

/-- A fault in hashing one of some values is blamed on the branch, unless
it is raised by the value. -/
theorem failure_cases {self : Form} {vs : List Value} {fault : HashFault}
    {blame : String → ConversionError}
    (hblame : ∀ reason, (blame reason).value = .node self)
    (h : Value.members vs = .error fault) :
    (∃ cause, fault.failure blame = .conversion cause
        ∧ cause.value = .node self)
      ∨ ∃ v ∈ vs, v.Raises (fault.failure blame) := by
  obtain ⟨v, hv, hfault⟩ := exists_of_members_eq_error h
  cases fault with
  | refused reason => exact .inl ⟨blame reason, rfl, hblame reason⟩
  | raised className message =>
    exact .inr ⟨v, hv, className, message, hfault, rfl⟩

/-- **Why a branch has no value** though its forms have: the conversion
fails and the branch is to blame, or something that is looked up for it
raises a failure of its own. -/
theorem branchValue_eq_error_cases {self : Form} {k : Composite}
    {items : List Value} {e : Failure}
    (h : branchValue self k items = .error e) :
    (∃ cause, e = .conversion cause ∧ cause.value = .node self)
      ∨ ∃ v ∈ lookedUp k items, v.Raises e := by
  cases k with
  | list => cases h
  | vector => cases h
  | set =>
    change setValue self items = _ at h
    unfold setValue at h
    split at h
    · next hfault =>
      cases h
      exact failure_cases (fun _ => rfl) hfault
    · split at h
      · cases h
      · cases h
        exact .inl ⟨_, rfl, rfl⟩
  | map =>
    change mapValue self items = _ at h
    unfold mapValue at h
    simp only at h
    split at h
    · split at h
      · next hfault =>
        cases h
        exact failure_cases (fun _ => rfl) hfault
      · split at h
        · cases h
        · cases h
          exact .inl ⟨_, rfl, rfl⟩
    · cases h
      exact .inl ⟨_, rfl, rfl⟩

/-- The value of a branch raises what one of its values raises. -/
theorem exists_of_branchValue_raises {self : Form} {k : Composite}
    {items : List Value} {v : Value} {e : Failure}
    (h : branchValue self k items = .ok v) (hv : v.Raises e) :
    ∃ w ∈ items, w.Raises e := by
  obtain ⟨className, message, hfault, he⟩ := hv
  cases k with
  | list =>
    cases h
    change Value.hashFaultIn? items = _ at hfault
    rw [Value.hashFaultIn?_eq_findSome?] at hfault
    obtain ⟨w, hw, hfault⟩ := List.exists_of_findSome?_eq_some hfault
    exact ⟨w, hw, className, message, hfault, he⟩
  | vector =>
    cases h
    cases hfault
  | set =>
    change setValue self items = _ at h
    unfold setValue at h
    split at h
    · cases h
    · split at h
      · cases h
        cases hfault
      · cases h
  | map =>
    change mapValue self items = _ at h
    unfold mapValue at h
    simp only at h
    split at h
    · split at h
      · cases h
      · split at h
        · cases h
          cases hfault
        · cases h
    · cases h

/-- **What is raised in hashing the value of a tree is raised by a token**
of the tree. -/
theorem exists_token_of_formValue {n : Form} {v : Value} {e : Failure}
    (h : formValue n = .ok v) (hv : v.Raises e) :
    ∃ u ∈ n.tokens, u.Raises e := by
  induction n using Node.induction generalizing v with
  | token u =>
    cases h
    exact ⟨_, .head _, hv⟩
  | whitespace s => cases h
  | comment s => cases h
  | branch k cs ih =>
    rw [formValue] at h
    split at h
    · next items hitems =>
      obtain ⟨w, hw, hraises⟩ := exists_of_branchValue_raises h hv
      obtain ⟨c, hc, hcw⟩ := exists_of_mem_formValues hitems hw
      obtain ⟨u, hu, hraises⟩ := ih c hc hcw hraises
      exact ⟨u, Node.mem_tokens_branch.mpr ⟨c, hc, hu⟩, hraises⟩
    · cases h

/-- **Why a tree cannot be read**: the conversion fails, or a token raises
a failure of its own. -/
theorem formValue_eq_error_cases {n : Form} {e : Failure}
    (h : formValue n = .error e) :
    (∃ cause, e = .conversion cause) ∨ ∃ u ∈ n.tokens, u.Raises e := by
  induction n using Node.induction with
  | token v => cases h
  | whitespace s =>
    cases h
    exact .inl ⟨_, rfl⟩
  | comment s =>
    cases h
    exact .inl ⟨_, rfl⟩
  | branch k cs ih =>
    have hin : (∃ c ∈ cs, ∃ u ∈ c.tokens, u.Raises e) →
        ∃ u ∈ (Node.branch k cs).tokens, u.Raises e := by
      rintro ⟨c, hc, u, hu, hraises⟩
      exact ⟨u, Node.mem_tokens_branch.mpr ⟨c, hc, hu⟩, hraises⟩
    rw [formValue] at h
    split at h
    · next items hitems =>
      rcases branchValue_eq_error_cases h with
        ⟨cause, rfl, -⟩ | ⟨v, hv, hraises⟩
      · exact .inl ⟨cause, rfl⟩
      · obtain ⟨c, hc, hcv⟩ :=
          exists_of_mem_formValues hitems (mem_of_mem_lookedUp hv)
        exact .inr (hin ⟨c, hc, exists_token_of_formValue hcv hraises⟩)
    · next e' hrow =>
      cases h
      obtain ⟨c, hc, he⟩ := exists_of_formValues_eq_error hrow
      exact (ih c hc he).imp_right fun hu => hin ⟨c, hc, hu⟩

/-- **A tree whose tokens raise nothing** fails by a failed conversion. -/
theorem exists_conversion_of_formValue {n : Form}
    (hn : ∀ v ∈ n.tokens, v.hashesOrRefuses = true) {e : Failure}
    (h : formValue n = .error e) : ∃ cause, e = .conversion cause := by
  refine (formValue_eq_error_cases h).resolve_right ?_
  rintro ⟨u, hu, hraises⟩
  exact Value.not_raises (hn u hu) hraises

end Literal

end FormTree
