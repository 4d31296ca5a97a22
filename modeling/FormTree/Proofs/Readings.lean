import FormTree.Proofs.Rewriting

/-!
# Reading a tree, and what is to blame when it cannot be read

The value of a form is made of the values of the forms in it, and it is
made from the inside out. Two sorts of branches can stand in the way. The
forms of a set have to be as many different members, and those of a map
have to be pairs with as many different keys; a branch that fails in this
is **bad** (`Literal.isBad`). Nothing else can go wrong, except that
formatting itself has no value.

Whether a branch is bad is a matter of the values of its forms. A member
has to be hashable, and two of them must not coincide: they must neither
be equal nor be one and the same indefinite result. The second is not
contained in the first, as that result is not equal to itself, and yet a
set counts it once (`Literal.set_refuses_repeated_indefinite`).

A tree is read from left to right, every branch after the branches in it.
So the failure to read a tree blames the first bad branch in that order,
and a tree without bad branches is read form by form, losing none of them
(`Literal.toValue_blames_first_bad`). What a token holds may be anything.
There is only this to be allowed for, that a hash function can do more
than refuse: what it raises itself may come out instead of a failed
conversion.
-/

namespace FormTree

/-! ## Values that coincide -/

namespace Scalar

/-- Whether two scalars are one and the same indefinite result. -/
def isSameResult (a b : Scalar) : Bool :=
  match a.indefinite?, b.indefinite? with
  | some i, some j => decide (i.origin = j.origin)
  | _, _ => false

/-- Scalars are equal as members when they are equal or the same
indefinite result. -/
theorem eqv_true_eq (a b : Scalar) :
    a.eqv true b = (a.eqv false b || a.isSameResult b) := by
  unfold eqv isSameResult
  cases ha : a.number? with
  | some p =>
    rw [indefinite?_of_number? ha]
    cases b.number? <;> exact (Bool.or_false _).symm
  | none =>
    cases hb : b.number? with
    | some q =>
      rw [indefinite?_of_number? hb]
      cases a.indefinite? <;> rfl
    | none => cases a.indefinite? <;> cases b.indefinite? <;> simp

end Scalar

namespace Value

mutual
/-- **Whether two values are one and the same indefinite result**, on its
own or in its token. -/
def isSameResult : Value → Value → Bool
  | .foreign _ (some v), w => v.isSameResult w
  | .scalar a, w =>
    match w.comparand with
    | .scalar b => a.isSameResult b
    | _ => false
  | .node m, w =>
    match w.comparand with
    | .node n => isSameToken m n
    | _ => false
  | _, _ => false
termination_by structural v => v
/-- Whether two nodes are one and the same token around an indefinite
result. -/
def isSameToken : Form → Form → Bool
  | .token a, .token b =>
    a.sameType b && decide (a.place? = b.place?) && a.isSameResult b
  | _, _ => false
end

/-- **Whether two values coincide**, so that a set would count them once:
they are equal, or they are the same indefinite result. -/
def coincides (v w : Value) : Bool := v.equal w || v.isSameResult w

/-- **Members are compared by coincidence.** -/
theorem eqv_true_eq (v w : Value) : v.eqv true w = v.coincides w := by
  -- the comparison depends on being one of members only in scalars and,
  -- through what they hold, in tokens
  cases v with
  | scalar a =>
    show _ = (_ || _)
    rw [eqv, equal, eqv, isSameResult]
    cases w.comparand with
    | scalar b => exact a.eqv_true_eq b
    | _ => rfl
  | foreign o other =>
    cases other with
    | none => exact (Bool.or_false _).symm
    | some v => exact eqv_true_eq v w
  | node m =>
    show _ = (_ || _)
    rw [eqv, equal, eqv, isSameResult]
    cases w.comparand with
    | node n =>
      cases m with
      | token a =>
        cases n with
        | token b =>
          show (_ && _ && a.eqv true b)
            = ((_ && _ && a.eqv false b) || (_ && _ && a.isSameResult b))
          rw [eqv_true_eq a b, coincides, equal, Bool.and_or_distrib_left]
        | _ => rfl
      | whitespace s => cases n <;> exact (Bool.or_false _).symm
      | comment s => cases n <;> exact (Bool.or_false _).symm
      | branch k cs => cases n <;> exact (Bool.or_false _).symm
    | _ => rfl
  | bytes bs => exact (Bool.or_false _).symm
  | group c items => exact (Bool.or_false _).symm
  | dict guise entries => exact (Bool.or_false _).symm
termination_by sizeOf v

/-- **Whether values cannot be the members of a set**, all of them: one is
not hashable, or two coincide. -/
def clash (vs : List Value) : Bool :=
  vs.any (fun v => v.hashFault?.isSome)
    || !decide (vs.Pairwise fun v w => v.coincides w = false)

theorem clash_eq_not_isMemberRow (vs : List Value) :
    clash vs = !isMemberRow vs := by
  simp [clash, isMemberRow, eqv_true_eq, Bool.not_and,
    List.not_all_eq_any_not]

end Value

/-! ## Bad branches -/

namespace Node

variable {α : Type}

mutual
/-- **The branches of a tree**, every one of them after the branches in
it. -/
def branches : Node α → List (Node α)
  | .branch k cs => branchesIn cs ++ [.branch k cs]
  | _ => []
termination_by structural n => n
/-- The branches of a row of trees. -/
def branchesIn : List (Node α) → List (Node α)
  | [] => []
  | n :: ns => n.branches ++ branchesIn ns
end

/-- There are no branches in formatting. -/
theorem branches_of_isFormatting {n : Node α} (h : n.isFormatting = true) :
    n.branches = [] := by
  cases n with
  | branch k cs => cases h
  | _ => rfl

end Node

namespace Literal

/-- The values of forms, where they have one. -/
def readings (ns : List Form) : List Value :=
  ns.filterMap fun n => (formValue n).toOption

/-- The values that are looked up for a branch: the members of a set and
the keys of a map. -/
def lookups : Form → List Value
  | .branch k cs => readings (lookedUp k (formsOf cs))
  | _ => []

/-- **Whether a branch is bad**: a set whose members clash, or a map with
an odd number of forms or with keys that clash. -/
def isBad : Form → Bool
  | .branch k cs =>
    decide (k = .map ∧ (formsOf cs).length % 2 = 1)
      || Value.clash (lookups (.branch k cs))
  | _ => false

/-- **A form reads as a value**, form by form: a token as what it holds, a
list or a vector as the values of its forms in order, a set as a member
for every form, and a map as an entry for every two forms, in order. -/
inductive Reads : Form → Value → Prop
  | token (v : Value) : Reads (.token v) v
  | list {cs : List Form} {vs : List Value} :
      List.Forall₂ Reads (formsOf cs) vs →
        Reads (.branch .list cs) (.tuple vs)
  | vector {cs : List Form} {vs : List Value} :
      List.Forall₂ Reads (formsOf cs) vs →
        Reads (.branch .vector cs) (.list vs)
  | set {cs : List Form} {vs : List Value} :
      List.Forall₂ Reads (formsOf cs) vs →
        Reads (.branch .set cs) (.group .frozenset vs)
  | map {cs : List Form} {es : List (Value × Value)} :
      List.Forall₂ Reads (formsOf cs) (inTurn es) →
        Reads (.branch .map cs) (.dict none es)

/-- Forms that all have a value read as those values. -/
theorem readings_eq {ns : List Form} {vs : List Value}
    (h : List.Forall₂ (fun n v => formValue n = .ok v) ns vs) :
    readings ns = vs := by
  induction h with
  | nil => rfl
  | @cons n v ns vs hn _ ih =>
    rw [readings, List.filterMap_cons]
    simp only [hn]
    exact congrArg (v :: ·) ih

/-- Every other one of corresponding items corresponds. -/
theorem forall₂_pairs {α β : Type} {R : α → β → Prop} :
    ∀ {as : List α} {bs : List β}, List.Forall₂ R as bs →
      List.Forall₂ R ((pairs as).map Prod.fst) ((pairs bs).map Prod.fst)
  | [], _, .nil => .nil
  | [_], _, .cons _ .nil => .nil
  | _ :: _ :: _, _, .cons ha (.cons _ h) => .cons ha (forall₂_pairs h)

/-- What is looked up in corresponding rows corresponds. -/
theorem forall₂_lookedUp {α β : Type} {R : α → β → Prop} {as : List α}
    {bs : List β} (k : Composite) (h : List.Forall₂ R as bs) :
    List.Forall₂ R (lookedUp k as) (lookedUp k bs) := by
  cases k with
  | list => exact .nil
  | vector => exact .nil
  | set => exact h
  | map => exact forall₂_pairs h

section Branch

variable {k : Composite} {cs : List Form} {vs : List Value}

/-- What is looked up for a branch is among the values of its forms, if
these all have one. -/
theorem lookups_eq
    (h : List.Forall₂ (fun n v => formValue n = .ok v) (formsOf cs) vs) :
    lookups (.branch k cs) = lookedUp k vs :=
  readings_eq (forall₂_lookedUp k h)

/-- **A branch whose forms have values has one** exactly if it is not
bad. -/
theorem exists_branchValue_iff_not_isBad
    (h : List.Forall₂ (fun n v => formValue n = .ok v) (formsOf cs) vs) :
    (∃ v, branchValue (.branch k cs) k vs = .ok v)
      ↔ isBad (.branch k cs) = false := by
  rw [isBad, lookups_eq h, h.length_eq, Value.clash_eq_not_isMemberRow,
    Bool.or_eq_false_iff, decide_eq_false_iff_not, Bool.not_eq_false']
  cases k with
  | list => exact iff_of_true ⟨_, rfl⟩ ⟨fun h => (nomatch h.1), rfl⟩
  | vector => exact iff_of_true ⟨_, rfl⟩ ⟨fun h => (nomatch h.1), rfl⟩
  | set =>
    show (∃ v, setValue _ vs = .ok v) ↔ _ ∧ Value.isMemberRow vs = true
    simp [setValue_eq_ok_iff]
  | map =>
    show (∃ v, mapValue _ vs = .ok v)
      ↔ _ ∧ Value.isMemberRow ((pairs vs).map Prod.fst) = true
    constructor
    · rintro ⟨v, hv⟩
      obtain ⟨es, rfl, hes, -⟩ := mapValue_eq_ok_iff.mp hv
      rw [pairs_inTurn, length_inTurn]
      exact ⟨by omega, hes⟩
    · rintro ⟨hodd, hes⟩
      have heven : vs.length % 2 ≠ 1 := fun h => hodd ⟨rfl, h⟩
      exact ⟨_, mapValue_eq_ok_iff.mpr
        ⟨pairs vs, (inTurn_pairs vs (by omega)).symm, hes, rfl⟩⟩

/-- If it has one, that is made of the values of its forms. -/
theorem reads_of_branchValue {self : Form} {v : Value}
    (hrow : List.Forall₂ Reads (formsOf cs) vs)
    (hv : branchValue self k vs = .ok v) : Reads (.branch k cs) v := by
  cases k with
  | list =>
    cases hv
    exact .list hrow
  | vector =>
    cases hv
    exact .vector hrow
  | set =>
    obtain ⟨-, rfl⟩ := setValue_eq_ok_iff.mp hv
    exact .set hrow
  | map =>
    obtain ⟨es, rfl, -, rfl⟩ := mapValue_eq_ok_iff.mp hv
    exact .map hrow

end Branch

/-! ## Reading -/

/-- **A failure is due to a branch**: the conversion fails and the branch
is to blame, or the hash function of something that is looked up for it
raises the failure. -/
def FailsAt (b : Form) (e : Failure) : Prop :=
  (∃ cause, e = .conversion cause ∧ cause.value = .node b)
    ∨ ∃ v ∈ lookups b, v.Raises e

/-- **A reading past branches**: with no bad one among them it has a
result, and else it fails due to the first bad one. -/
def ReadsPast {α : Type} (bs : List Form) (R : α → Prop)
    (r : Except Failure α) : Prop :=
  (bs.find? isBad = none ∧ ∃ a, r = .ok a ∧ R a)
    ∨ ∃ b e, bs.find? isBad = some b ∧ r = .error e ∧ FailsAt b e

/-- One reading after another: the second comes to its branches only if
the first has a result. -/
theorem ReadsPast.andThen {α β : Type} {bs ds : List Form} {R : α → Prop}
    {S : β → Prop} {r : Except Failure α} {r' : Except Failure β}
    (h : ReadsPast bs R r) (herror : ∀ e, r = .error e → r' = .error e)
    (hok : ∀ a, r = .ok a → R a → ReadsPast ds S r') :
    ReadsPast (bs ++ ds) S r' := by
  unfold ReadsPast
  rw [List.find?_append]
  rcases h with ⟨hnone, a, ha, hR⟩ | ⟨b, e, hb, he, hfails⟩
  · rw [hnone, Option.none_or]
    exact hok a ha hR
  · rw [hb, Option.some_or]
    exact .inr ⟨b, e, rfl, herror e he, hfails⟩

/-- **A row is read form by form**, if every form of it is read. -/
theorem readsPast_formValues {cs : List Form}
    (h : ∀ c ∈ cs, c.isFormatting = false →
      ReadsPast c.branches (Reads c) (formValue c)) :
    ReadsPast (Node.branchesIn cs) (List.Forall₂ Reads (formsOf cs))
      (formValues cs) := by
  induction cs with
  | nil => exact .inl ⟨rfl, [], rfl, .nil⟩
  | cons c cs ih =>
    have hrest := ih fun d hd => h d (.tail c hd)
    rw [Node.branchesIn, formValues]
    by_cases hc : c.isFormatting = true
    · rw [if_pos hc, Node.branches_of_isFormatting hc, List.nil_append,
        formsOf, List.filter_cons_of_neg (by simp [hc])]
      exact hrest
    · rw [if_neg hc]
      refine (h c (.head _) (Bool.eq_false_iff.mpr hc)).andThen
        (fun e he => by rw [he]) fun v hv hreads => ?_
      have hforms : formsOf (c :: cs) = c :: formsOf cs :=
        List.filter_cons_of_pos (by simp [hc])
      rw [hv, hforms]
      rcases hrest with ⟨hnone, vs, hvs, hrow⟩ | ⟨b, e, hb, he, hfails⟩
      · refine .inl ⟨hnone, v :: vs, ?_, .cons hreads hrow⟩
        rw [hvs]
        rfl
      · refine .inr ⟨b, e, hb, ?_, hfails⟩
        rw [he]
        rfl

/-- **Every form is read past the branches in it.** -/
theorem readsPast_formValue {n : Form} (hn : n.isFormatting = false) :
    ReadsPast n.branches (Reads n) (formValue n) := by
  induction n using Node.induction with
  | token v => exact .inl ⟨rfl, v, rfl, .token v⟩
  | whitespace s => cases hn
  | comment s => cases hn
  | branch k cs ih =>
    rw [Node.branches, formValue]
    -- the branch itself comes after the branches in it
    refine (readsPast_formValues ih).andThen (fun e he => by rw [he])
      fun vs hvs hrow => ?_
    rw [hvs]
    have hvalues := formValues_eq_ok_iff.mp hvs
    have hiff := exists_branchValue_iff_not_isBad (k := k) hvalues
    cases hbad : isBad (.branch k cs) with
    | false =>
      obtain ⟨v, hv⟩ := hiff.mpr hbad
      refine .inl ⟨?_, v, hv, reads_of_branchValue hrow hv⟩
      rw [List.find?_singleton, hbad, if_neg Bool.false_ne_true]
    | true =>
      cases hv : branchValue (.branch k cs) k vs with
      | ok v =>
        rw [hiff.mp ⟨v, hv⟩] at hbad
        cases hbad
      | error e =>
        refine .inr ⟨.branch k cs, e, ?_, hv, ?_⟩
        · rw [List.find?_singleton, hbad, if_pos rfl]
        · rw [FailsAt, lookups_eq hvalues]
          exact branchValue_eq_error_cases hv

/-- **A tree is read form by form, or its first bad branch is to blame.**
Reading a node fails exactly if the node is formatting or there is a bad
branch in it. For formatting the conversion fails and it is to blame
itself. Else the failure is due to the bad branch that is the first to
have been read to its end: the conversion fails and the branch is to
blame, unless the failure is raised by the hash function of one of its
members or keys. If reading does not fail, every form of the tree has its
part in the value. -/
theorem toValue_blames_first_bad (separator : Text) (n : Form) :
    ((∃ e, (Converter.literal separator).toValue (.node n) = .error e)
        ↔ n.isFormatting = true ∨ ∃ b ∈ n.branches, isBad b = true)
      ∧ (∀ e, (Converter.literal separator).toValue (.node n) = .error e →
        (n.isFormatting = true →
            ∃ cause, e = .conversion cause ∧ cause.value = .node n)
          ∧ (n.isFormatting = false →
            ∃ b, n.branches.find? isBad = some b ∧ FailsAt b e))
      ∧ ∀ v, (Converter.literal separator).toValue (.node n) = .ok v →
        Reads n v := by
  show ((∃ e, formValue n = .error e) ↔ _)
    ∧ (∀ e, formValue n = .error e → _) ∧ ∀ v, formValue n = .ok v → _
  by_cases hn : n.isFormatting = true
  · have herror :
        formValue n = .error (.conversion (.noHostValue (.node n))) := by
      cases n with
      | whitespace s => rfl
      | comment s => rfl
      | _ => cases hn
    rw [herror]
    refine ⟨iff_of_true ⟨_, rfl⟩ (.inl hn), ?_, fun v hv => (nomatch hv)⟩
    rintro e ⟨⟩
    exact ⟨fun _ => ⟨_, rfl, rfl⟩, fun hnot => absurd hn (by simp [hnot])⟩
  · rw [Bool.not_eq_true] at hn
    rcases readsPast_formValue hn with
      ⟨hnone, v, hv, hreads⟩ | ⟨b, e, hb, herror, hfails⟩
    · rw [hv]
      refine ⟨iff_of_false (fun ⟨e, he⟩ => (nomatch he)) ?_,
        fun e he => (nomatch he), ?_⟩
      · rintro (hformat | ⟨b, hmem, hbad⟩)
        · rw [hn] at hformat
          cases hformat
        · exact List.find?_eq_none.mp hnone b hmem hbad
      · rintro v ⟨⟩
        exact hreads
    · rw [herror]
      refine ⟨iff_of_true ⟨_, rfl⟩ (.inr ⟨b, List.mem_of_find?_eq_some hb,
        List.find?_some hb⟩), ?_, fun v hv => (nomatch hv)⟩
      rintro e ⟨⟩
      exact ⟨fun hformat => absurd hformat (by simp [hn]),
        fun _ => ⟨b, hb, hfails⟩⟩

/-- **A set refuses an indefinite result that is written twice**, although
every member is hashable and no two of them are equal. -/
theorem set_refuses_repeated_indefinite :
    ∃ (n : Form) (v : Value) (e : Failure),
      n = .branch .set [.token v, .whitespace " ", .token v]
      ∧ n.branches = [n] ∧ readings (formsOf n.children) = [v, v]
      ∧ v.hashFault? = none ∧ v.equal v = false
      ∧ (Converter.literal " ").toValue (.node n) = .error e :=
  ⟨_, .scalar (.float (.nan ⟨0, []⟩)), _, rfl, rfl, rfl, rfl, rfl, rfl⟩

end Literal

end FormTree
