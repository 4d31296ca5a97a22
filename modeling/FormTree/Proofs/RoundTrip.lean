import FormTree.Proofs.Faults
import FormTree.Proofs.Guises
import FormTree.Proofs.Skeleton

/-!
# Values as forms and back

The two directions of the literal conversion follow different rules. On
the way in the members of a set are sorted, a dictionary becomes a row of
forms with keys and values taking turns, and separators are put between
the forms. On the way back formatting is left out, forms are paired, and a
set or a dictionary is refused if it would come out smaller than it is
written or if something in it cannot be looked up.

None of these refusals ever concerns a form that was made from a value.
The members are sorted, but a row that makes a set does so in any order,
because equality is symmetric; and what comes back is alike member by
member, so it is unequal where the members were (`Literal.exists_value`).
What is lost is the class of a container that is an instance of a derived
one: its form is that of a plain container, and so is its value
(`Literal.class_lost_in_form`).

Whether there is a form at all is decided by what a value holds: it has
one exactly if everything in it is a scalar or a container, and otherwise
the failure names something in it that is neither
(`Literal.exists_form_iff`, `Literal.exists_of_toForm_eq_error`).
-/

namespace FormTree

namespace Value

/-! ## Rows that make sets -/

/-- What is like the members of a set makes a set. -/
theorem isMemberRow_of_like {xs ys : List Value}
    (hlike : List.Forall₂ Like xs ys)
    (hcanonical : ∀ y ∈ ys, y.isCanonical = true)
    (h : isMemberRow xs = true) : isMemberRow ys = true := by
  obtain ⟨hhash, hpair⟩ := isMemberRow_iff.mp h
  refine isMemberRow_iff.mpr ⟨fun y hy => ?_, ?_⟩
  · obtain ⟨x, hx, hxy⟩ := exists_mem_of_forall₂_right hlike hy
    exact hxy.hashFault? (hcanonical y hy) (hhash x hx)
  · refine pairwise_of_forall₂ hlike hpair ?_
    intro x x' y y' _ _ hxy hxy' hne
    refine Bool.eq_false_iff.mpr fun heq => ?_
    rw [hxy.eqv_of_eqv hxy' heq] at hne
    cases hne

/-- What is like the keys of a dictionary makes a set as well. -/
theorem isMemberRow_keys {ds es : List (Value × Value)}
    (hlike : List.Forall₂ (fun d e => d.1.Like e.1) ds es)
    (hcanonical : ∀ e ∈ es, e.1.isCanonical = true)
    (h : isMemberRow (ds.map Prod.fst) = true) :
    isMemberRow (es.map Prod.fst) = true := by
  refine isMemberRow_of_like ?_ ?_ h
  · rw [List.forall₂_map_left_iff, List.forall₂_map_right_iff]
    exact hlike
  · intro k hk
    obtain ⟨e, he, rfl⟩ := List.mem_map.mp hk
    exact hcanonical e he

/-- The members of a set make it in any order. -/
theorem isMemberRow_of_perm {xs ys : List Value}
    (hbuild : ∀ x ∈ xs, x.isBuildable = true) (hperm : xs.Perm ys)
    (h : isMemberRow xs = true) : isMemberRow ys = true := by
  obtain ⟨hhash, hpair⟩ := isMemberRow_iff.mp h
  refine isMemberRow_iff.mpr
    ⟨fun y hy => hhash y (hperm.mem_iff.mpr hy), ?_⟩
  have hboth : xs.Pairwise fun x x' =>
      x.eqv true x' = false ∧ x'.eqv true x = false := by
    refine hpair.imp_of_mem fun {x x'} hx hx' hne => ⟨hne, ?_⟩
    refine Bool.eq_false_iff.mpr fun heq => ?_
    rw [eqv_symm (hbuild x' hx') (hbuild x hx) heq] at hne
    cases hne
  exact ((hperm.pairwise_iff fun h => h.symm).mp hboth).imp And.left

/-- Values are kept as they come if none of them is equal to an earlier
one. -/
theorem foldl_addMember (ms : List Value) {vs : List Value}
    (hms : ∀ m ∈ ms, ∀ v ∈ vs, m.eqv true v = false)
    (hvs : vs.Pairwise fun v w => v.eqv true w = false) :
    vs.foldl addMember ms = ms ++ vs := by
  induction vs generalizing ms with
  | nil => exact (List.append_nil ms).symm
  | cons v vs ih =>
    obtain ⟨hv, hvs⟩ := List.pairwise_cons.mp hvs
    have hnot : ¬ v.isAmong ms = true := by
      intro hmem
      obtain ⟨m, hm, heq⟩ := List.any_eq_true.mp hmem
      rw [hms m hm v (.head _)] at heq
      cases heq
    have hadd : ∀ m ∈ ms ++ [v], ∀ w ∈ vs, m.eqv true w = false := by
      intro m hm w hw
      rcases List.mem_append.mp hm with hm | hm
      · exact hms m hm w (.tail _ hw)
      · rw [List.mem_singleton.mp hm]
        exact hv w hw
    rw [List.foldl_cons, addMember, if_neg hnot, ih _ hadd hvs,
      List.append_assoc, List.singleton_append]

/-- Values that are pairwise unequal are all distinct. -/
theorem distinct_eq_self {vs : List Value}
    (h : vs.Pairwise fun v w => v.eqv true w = false) :
    distinct vs = vs := by
  refine foldl_addMember [] (fun m hm => ?_) h
  cases hm

/-- The distinct values are at most as many as the values. -/
theorem length_foldl_addMember_le (ms vs : List Value) :
    (vs.foldl addMember ms).length ≤ ms.length + vs.length := by
  induction vs generalizing ms with
  | nil => exact Nat.le_refl _
  | cons v vs ih =>
    have hadd : (addMember ms v).length ≤ ms.length + 1 := by
      unfold addMember
      split
      · exact Nat.le_succ _
      · exact Nat.le_of_eq List.length_append
    have hrest := ih (addMember ms v)
    rw [List.foldl_cons, List.length_cons]
    omega

/-- **If none is lost, none is equal to an earlier one.** -/
theorem pairwise_of_length_foldl (ms : List Value) {vs : List Value}
    (h : (vs.foldl addMember ms).length = ms.length + vs.length) :
    (∀ m ∈ ms, ∀ v ∈ vs, m.eqv true v = false)
      ∧ vs.Pairwise fun v w => v.eqv true w = false := by
  induction vs generalizing ms with
  | nil => exact ⟨fun _ _ _ hv => (nomatch hv), .nil⟩
  | cons v vs ih =>
    rw [List.foldl_cons, List.length_cons, addMember] at h
    by_cases hv : v.isAmong ms = true
    · -- a value that is dropped leaves too few
      rw [if_pos hv] at h
      have hle := length_foldl_addMember_le ms vs
      omega
    · rw [if_neg hv] at h
      have hlen : (ms ++ [v]).length = ms.length + 1 := List.length_append
      obtain ⟨hms, hvs⟩ := ih (ms ++ [v]) (by omega)
      refine ⟨fun m hm w hw => ?_, .cons (fun w hw => ?_) hvs⟩
      · cases hw with
        | head =>
          refine Bool.eq_false_iff.mpr fun heq => hv ?_
          exact List.any_eq_true.mpr ⟨m, hm, heq⟩
        | tail _ hw => exact hms m (List.mem_append_left _ hm) w hw
      · exact hms v (List.mem_append_right _ (.head _)) w hw

/-- **The rows that make sets** are those of which nothing is lost in
making one. -/
theorem isMemberRow_iff_members {vs : List Value} :
    isMemberRow vs = true
      ↔ ∃ ms, members vs = .ok ms ∧ ms.length = vs.length := by
  rw [isMemberRow_iff, members, ← List.findSome?_eq_none_iff]
  cases vs.findSome? hashFault? with
  | some fault => simp
  | none =>
    simp only [true_and, Except.ok.injEq, exists_eq_left']
    refine ⟨fun hpair => by rw [distinct_eq_self hpair], fun hlen => ?_⟩
    refine (pairwise_of_length_foldl [] ?_).2
    rw [List.length_nil, Nat.zero_add]
    exact hlen

/-- Such a row is the row of the members. -/
theorem members_of_isMemberRow {vs : List Value}
    (h : isMemberRow vs = true) : members vs = .ok vs := by
  obtain ⟨hhash, hpair⟩ := isMemberRow_iff.mp h
  rw [members, List.findSome?_eq_none_iff.mpr hhash,
    distinct_eq_self hpair]

end Value

namespace Literal

/-! ## The values of branches -/

/-- **A set form has a value** exactly if its forms make a set. -/
theorem setValue_eq_ok_iff {self : Form} {items : List Value} {v : Value} :
    setValue self items = .ok v
      ↔ Value.isMemberRow items = true ∧ v = .group .frozenset items := by
  constructor
  · intro h
    unfold setValue at h
    split at h
    · cases h
    · next ms hms =>
      split at h
      · next hlen =>
        have hrow := Value.isMemberRow_iff_members.mpr ⟨ms, hms, hlen⟩
        rw [Value.members_of_isMemberRow hrow] at hms
        cases hms
        cases h
        exact ⟨hrow, rfl⟩
      · cases h
  · rintro ⟨hrow, rfl⟩
    rw [setValue, Value.members_of_isMemberRow hrow]
    exact if_pos rfl

/-- Keys and values taking turns. -/
def inTurn {α : Type} (entries : List (α × α)) : List α :=
  entries.flatMap fun e => [e.1, e.2]

theorem pairs_inTurn {α : Type} (entries : List (α × α)) :
    pairs (inTurn entries) = entries := by
  induction entries with
  | nil => rfl
  | cons e es ih =>
    show e :: pairs (inTurn es) = _
    rw [ih]

theorem length_inTurn {α : Type} (entries : List (α × α)) :
    (inTurn entries).length = 2 * entries.length := by
  induction entries with
  | nil => rfl
  | cons e es ih =>
    show (inTurn es).length + 2 = _
    rw [ih, List.length_cons]
    omega

/-- A row of even length is one of keys and values taking turns. -/
theorem inTurn_pairs {α : Type} :
    (items : List α) → items.length % 2 = 0 → inTurn (pairs items) = items
  | [], _ => rfl
  | [_], h => by cases h
  | a :: b :: rest, h => by
    have hrest : rest.length % 2 = 0 := by
      rw [List.length_cons, List.length_cons] at h
      omega
    show a :: b :: inTurn (pairs rest) = _
    rw [inTurn_pairs rest hrest]

/-- **A map form has a value** exactly if keys and values take turns and
the keys make a set. -/
theorem mapValue_eq_ok_iff {self : Form} {items : List Value} {v : Value} :
    mapValue self items = .ok v
      ↔ ∃ entries, items = inTurn entries
        ∧ Value.isMemberRow (entries.map Prod.fst) = true
        ∧ v = .dict none entries := by
  constructor
  · intro h
    unfold mapValue at h
    split at h
    · next heven =>
      simp only at h
      split at h
      · cases h
      · next ks hks =>
        split at h
        · next hlen =>
          cases h
          refine ⟨pairs items, (inTurn_pairs items heven).symm, ?_, rfl⟩
          refine Value.isMemberRow_iff_members.mpr ⟨ks, hks, ?_⟩
          rw [hlen, List.length_map]
        · cases h
    · cases h
  · rintro ⟨entries, rfl, hrow, rfl⟩
    rw [mapValue, if_pos (by rw [length_inTurn]; omega)]
    simp only [pairs_inTurn, Value.members_of_isMemberRow hrow,
      List.length_map, if_true]

/-! ## Forms in the order of the tree -/

/-- Sets of either sort become set forms. -/
theorem kindOf_of_not_isOrdered {c : Collection}
    (h : c.isOrdered = false) : kindOf c = .set := by
  unfold kindOf
  cases hc : c.base with
  | tuple => rw [Collection.isOrdered, hc] at h; cases h
  | list => rw [Collection.isOrdered, hc] at h; cases h
  | set => rfl
  | frozenset => rfl

/-- The members of a collection in the order of the tree. -/
def inOrder (c : Collection) (items : List Value) : List Value :=
  arranged c (items.map fun v => (v, v))

theorem inOrder_of_isOrdered {c : Collection} (h : c.isOrdered = true)
    (items : List Value) : inOrder c items = items := by
  rw [inOrder, arranged, if_pos h, List.map_map]
  exact List.map_id items

/-- Nothing is lost in putting members in order. -/
theorem inOrder_perm (c : Collection) (items : List Value) :
    (inOrder c items).Perm items := by
  by_cases hc : c.isOrdered = true
  · rw [inOrder_of_isOrdered hc]
  · have hperm := (List.mergeSort_perm
      (items.map fun v => (v.memberKey, v))
      fun p q => p.1.le q.1).map Prod.snd
    rw [List.map_map] at hperm
    rw [inOrder, arranged, if_neg hc, List.map_map]
    exact hperm.trans (by rw [show Prod.snd ∘ _ = id from rfl, List.map_id])

theorem toForm_group (separator : Text) (c : Collection)
    (items : List Value) :
    toForm separator (.group c items)
      = (collect ((inOrder c items).map (toForm separator))).map fun ns =>
        .branch (kindOf c) (Node.spaced separator ns) := by
  rw [toForm, toForms_eq_map, inOrder, arranged_map, List.map_map]
  rfl

theorem toForm_dict (separator : Text) (guise : Option Guise)
    (entries : List (Value × Value)) :
    toForm separator (.dict guise entries)
      = (collect ((inTurn entries).map (toForm separator))).map fun ns =>
        .branch .map (Node.spaced separator ns) := by
  have hforms : entryForms separator entries
      = (inTurn entries).map (toForm separator) := by
    induction entries with
    | nil => rfl
    | cons e es ih =>
      obtain ⟨k, v⟩ := e
      rw [entryForms, ih]
      rfl
  rw [toForm, hforms]

end Literal

namespace Value

/-! ## What has a form -/

/-- **What a value holds**: the value itself, and everything reached
through collections and dictionaries. -/
inductive Holds : Value → Value → Prop
  /-- The value itself. -/
  | self (v : Value) : Holds v v
  /-- What a member holds. -/
  | member {c : Collection} {items : List Value} {v u : Value} :
      v ∈ items → Holds v u → Holds (.group c items) u
  /-- What a key holds. -/
  | key {guise : Option Guise} {entries : List (Value × Value)}
      {e : Value × Value} {u : Value} :
      e ∈ entries → Holds e.1 u → Holds (.dict guise entries) u
  /-- What the value of a key holds. -/
  | value {guise : Option Guise} {entries : List (Value × Value)}
      {e : Value × Value} {u : Value} :
      e ∈ entries → Holds e.2 u → Holds (.dict guise entries) u

section Holds

variable {P : Value → Prop}

theorem forall_holds_scalar {s : Scalar} :
    (∀ u, (scalar s).Holds u → P u) ↔ P (.scalar s) := by
  refine ⟨fun h => h _ (.self _), fun h u hu => ?_⟩
  cases hu
  exact h

/-- What holds of everything in a collection holds of it and of everything
in its members. -/
theorem forall_holds_group {c : Collection} {items : List Value} :
    (∀ u, (group c items).Holds u → P u)
      ↔ P (.group c items) ∧ ∀ v ∈ items, ∀ u, v.Holds u → P u := by
  constructor
  · exact fun h => ⟨h _ (.self _), fun v hv u hu => h u (.member hv hu)⟩
  · rintro ⟨hself, hitems⟩ u hu
    cases hu with
    | self => exact hself
    | member hv hu => exact hitems _ hv u hu

/-- What holds of everything in a dictionary holds of it and of everything
in its keys and values. -/
theorem forall_holds_dict {guise : Option Guise}
    {entries : List (Value × Value)} :
    (∀ u, (dict guise entries).Holds u → P u)
      ↔ P (.dict guise entries) ∧ ∀ e ∈ entries,
        (∀ u, e.1.Holds u → P u) ∧ ∀ u, e.2.Holds u → P u := by
  constructor
  · exact fun h => ⟨h _ (.self _), fun e he =>
      ⟨fun u hu => h u (.key he hu), fun u hu => h u (.value he hu)⟩⟩
  · rintro ⟨hself, hentries⟩ u hu
    cases hu with
    | self => exact hself
    | key he hu => exact (hentries _ he).1 u hu
    | value he hu => exact (hentries _ he).2 u hu

end Holds

/-- **A literal value** is a scalar or a container, of a built-in class or
of one derived from it. -/
def isLiteral : Value → Bool
  | .scalar _ => true
  | .group _ _ => true
  | .dict _ _ => true
  | _ => false

end Value

namespace Literal

variable {separator : Text} {v : Value} {n : Form}

theorem mem_inTurn {α : Type} {entries : List (α × α)} {a : α} :
    a ∈ inTurn entries ↔ ∃ e ∈ entries, a = e.1 ∨ a = e.2 := by
  simp [inTurn]

theorem forall_mem_inTurn {α : Type} {P : α → Prop}
    {entries : List (α × α)} :
    (∀ a ∈ inTurn entries, P a) ↔ ∀ e ∈ entries, P e.1 ∧ P e.2 := by
  constructor
  · intro h e he
    exact ⟨h _ (mem_inTurn.mpr ⟨e, he, .inl rfl⟩),
      h _ (mem_inTurn.mpr ⟨e, he, .inr rfl⟩)⟩
  · intro h a ha
    obtain ⟨e, he, rfl | rfl⟩ := mem_inTurn.mp ha
    · exact (h e he).1
    · exact (h e he).2

/-- What a branch is made of corresponds to the values it is made from. -/
theorem exists_of_map_collect {k : Composite} {vs : List Value}
    (h : (collect (vs.map (toForm separator))).map
        (fun ns => Node.branch k (Node.spaced separator ns)) = .ok n) :
    ∃ ns, n = .branch k (Node.spaced separator ns)
      ∧ List.Forall₂ (fun v m => toForm separator v = .ok m) vs ns := by
  obtain ⟨ns, hns, rfl⟩ := Attempt.exists_of_map_eq_ok h
  exact ⟨ns, rfl, collect_map_eq_ok_iff.mp hns⟩

/-- **A value with a form holds literal values only.** -/
theorem isLiteral_of_toForm (hv : v.isNodeFree = true)
    (h : toForm separator v = .ok n) :
    ∀ u, v.Holds u → u.isLiteral = true := by
  induction v using Value.induction generalizing n with
  | scalar s => exact Value.forall_holds_scalar.mpr rfl
  | bytes bs => cases h
  | foreign o other => cases h
  | node m => cases hv
  | group c items ih =>
    rw [toForm_group] at h
    obtain ⟨ns, -, hns⟩ := exists_of_map_collect h
    refine Value.forall_holds_group.mpr ⟨rfl, fun w hw => ?_⟩
    obtain ⟨m, -, hm⟩ := exists_mem_of_forall₂ hns
      ((inOrder_perm c items).mem_iff.mpr hw)
    exact ih w hw (Value.areNodeFree_iff.mp hv w hw) hm
  | dict guise entries ih =>
    rw [toForm_dict] at h
    obtain ⟨ns, -, hns⟩ := exists_of_map_collect h
    have hforms : ∀ w ∈ inTurn entries, ∃ m, toForm separator w = .ok m :=
      fun w hw => (exists_mem_of_forall₂ hns hw).imp fun _ h => h.2
    refine Value.forall_holds_dict.mpr ⟨rfl, fun e he => ?_⟩
    have hfree := Value.entriesNodeFree_iff.mp hv e he
    obtain ⟨⟨m, hm⟩, m', hm'⟩ := forall_mem_inTurn.mp hforms e he
    exact ⟨(ih e he).1 hfree.1 hm, (ih e he).2 hfree.2 hm'⟩

/-- **A value without a form holds something that is to blame.** -/
theorem exists_of_toForm_eq_error {e : ConversionError}
    (h : toForm separator v = .error e) :
    ∃ u, v.Holds u ∧ u.isLiteral = false ∧ e = .noTreeForm u := by
  have hmap : ∀ {k : Composite} {vs : List Value},
      (collect (vs.map (toForm separator))).map
          (fun ns => Node.branch k (Node.spaced separator ns)) = .error e →
        ∃ v ∈ vs, toForm separator v = .error e := by
    intro k vs hvs
    cases hc : collect (vs.map (toForm separator)) with
    | error e' =>
      rw [hc] at hvs
      cases hvs
      exact exists_of_collect_eq_error hc
    | ok ns => rw [hc] at hvs; cases hvs
  induction v using Value.induction with
  | scalar s => cases h
  | bytes bs =>
    cases h
    exact ⟨_, .self _, rfl, rfl⟩
  | foreign o other =>
    cases h
    exact ⟨_, .self _, rfl, rfl⟩
  | node m => cases h
  | group c items ih =>
    rw [toForm_group] at h
    obtain ⟨w, hw, he⟩ := hmap h
    have hmem := (inOrder_perm c items).mem_iff.mp hw
    obtain ⟨u, hu, hblame⟩ := ih w hmem he
    exact ⟨u, .member hmem hu, hblame⟩
  | dict guise entries ih =>
    rw [toForm_dict] at h
    obtain ⟨w, hw, he⟩ := hmap h
    obtain ⟨d, hd, rfl | rfl⟩ := mem_inTurn.mp hw
    · obtain ⟨u, hu, hblame⟩ := (ih d hd).1 he
      exact ⟨u, .key hd hu, hblame⟩
    · obtain ⟨u, hu, hblame⟩ := (ih d hd).2 he
      exact ⟨u, .value hd hu, hblame⟩

/-- **A value has a form exactly if everything in it is literal.** -/
theorem exists_form_iff (hv : v.isNodeFree = true) :
    (∃ n, toForm separator v = .ok n)
      ↔ ∀ u, v.Holds u → u.isLiteral = true := by
  refine ⟨fun ⟨n, hn⟩ => isLiteral_of_toForm hv hn, fun h => ?_⟩
  cases hform : toForm separator v with
  | ok n => exact ⟨n, rfl⟩
  | error e =>
    obtain ⟨u, hu, hnot, -⟩ := exists_of_toForm_eq_error hform
    rw [h u hu] at hnot
    cases hnot

/-! ## The way back -/

/-- Forms set side by side are the forms of the row. -/
theorem formsOf_spaced {ns : List Form}
    (h : ∀ n ∈ ns, n.isFormatting = false) :
    formsOf (Node.spaced separator ns) = ns := by
  unfold formsOf
  induction ns with
  | nil => rfl
  | cons n ns ih =>
    have hn : (!n.isFormatting) = true := by rw [h n (.head _)]; rfl
    have hns := ih fun m hm => h m (.tail _ hm)
    cases ns with
    | nil => exact List.filter_cons_of_pos hn
    | cons m ns =>
      rw [Node.spaced_cons_cons, List.filter_cons_of_pos (by exact hn),
        List.filter_cons_of_neg (by exact Bool.false_ne_true), hns]

/-- What is made of a value is no formatting. -/
theorem isFormatting_of_toForm (hv : v.isNodeFree = true)
    (h : toForm separator v = .ok n) : n.isFormatting = false :=
  toForm_induction (P := fun n => n.isFormatting = false) (fun _ => rfl)
    (fun _ _ _ => rfl) hv h

/-- **The values of the forms of a row come back** as soon as each of them
does. -/
theorem exists_formValues {vs : List Value} {ns : List Form}
    (hfree : ∀ v ∈ vs, v.isNodeFree = true)
    (hns : List.Forall₂ (fun v m => toForm separator v = .ok m) vs ns)
    (hback : ∀ v ∈ vs, ∀ m, toForm separator v = .ok m →
      ∃ w, formValue m = .ok w ∧ v.stripped.Like w ∧ w.isCanonical = true) :
    ∃ ws, formValues (Node.spaced separator ns) = .ok ws
      ∧ List.Forall₂ (fun v w => v.stripped.Like w) vs ws
      ∧ ∀ w ∈ ws, w.isCanonical = true := by
  have hforms : ∀ m ∈ ns, m.isFormatting = false := by
    intro m hm
    obtain ⟨v, hv, hform⟩ := exists_mem_of_forall₂_right hns hm
    exact isFormatting_of_toForm (hfree v hv) hform
  rw [formValues_eq_collect, formsOf_spaced hforms]
  simp only [collect_map_eq_ok_iff]
  clear hforms hfree
  induction hns with
  | nil => exact ⟨[], .nil, .nil, fun w hw => (nomatch hw)⟩
  | @cons v m vs ns hm _ ih =>
    obtain ⟨w, hw, hlike, hcanonical⟩ := hback v (.head _) m hm
    obtain ⟨ws, hws, hlikes, hcanonicals⟩ :=
      ih fun v hv => hback v (.tail _ hv)
    exact ⟨w :: ws, .cons hw hws, .cons hlike hlikes,
      List.forall_mem_cons.mpr ⟨hcanonical, hcanonicals⟩⟩

theorem exists_of_forall₂_inTurn {α β : Type} {R : α → β → Prop}
    {ds : List (α × α)} {bs : List β}
    (h : List.Forall₂ R (inTurn ds) bs) :
    ∃ es, bs = inTurn es ∧ List.Forall₂ (fun d e => R d.1 e.1) ds es
      ∧ List.Forall₂ (fun d e => R d.2 e.2) ds es := by
  induction ds generalizing bs with
  | nil =>
    cases h
    exact ⟨[], rfl, .nil, .nil⟩
  | cons d ds ih =>
    obtain ⟨k, v⟩ := d
    cases h with
    | @cons _ k' _ bs hk h =>
      cases h with
      | @cons _ v' _ bs hv h =>
        obtain ⟨es, rfl, hkeys, hvalues⟩ := ih h
        exact ⟨(k', v') :: es, rfl, .cons hk hkeys, .cons hv hvalues⟩

/-- The value of a list or a vector is the row of the values of its
forms. -/
theorem branchValue_of_isOrdered {c : Collection} (hc : c.isOrdered = true)
    (self : Form) (items : List Value) :
    branchValue self (kindOf c) items = .ok (.group c.stripped items) := by
  obtain ⟨base, guise⟩ := c
  cases base with
  | tuple => rfl
  | list => rfl
  | set => cases hc
  | frozenset => cases hc

/-- **A collection comes back** from the values of its members. The sorted
members of a set make it as well as the members do. -/
theorem exists_groupValue {self : Form} {c : Collection}
    {items ws : List Value}
    (hbuild : (Value.group c items).isBuildable = true)
    (hlike : List.Forall₂ (fun v w => v.stripped.Like w)
      (inOrder c items) ws)
    (hcanonical : ∀ w ∈ ws, w.isCanonical = true) :
    ∃ w, branchValue self (kindOf c) ws = .ok w
      ∧ (Value.group c items).stripped.Like w ∧ w.isCanonical = true := by
  rw [Value.stripped_group]
  by_cases hc : c.isOrdered = true
  · rw [inOrder_of_isOrdered hc, ← List.forall₂_map_left_iff] at hlike
    refine ⟨.group c.stripped ws, branchValue_of_isOrdered hc self ws,
      .ordered hc hlike, Value.isCanonical_group.mpr ⟨?_, hcanonical⟩⟩
    refine Collection.isCanonical_iff.mpr ⟨rfl, fun hset => ?_⟩
    change c.base = .set at hset
    rw [Collection.isOrdered, hset] at hc
    cases hc
  · rw [Bool.not_eq_true] at hc
    obtain ⟨hbuilds, hrow⟩ := Value.isBuildable_group.mp hbuild
    have hperm := (inOrder_perm c items).symm
    have hsorted : Value.isMemberRow (inOrder c items) = true :=
      Value.isMemberRow_of_perm hbuilds hperm (hrow hc)
    rw [← List.forall₂_map_left_iff] at hlike
    have hmembers : Value.isMemberRow ws = true :=
      Value.isMemberRow_of_like hlike hcanonical
        (Value.isMemberRow_stripped hsorted)
    obtain ⟨zs, hzs, hzw⟩ := List.perm_comp_forall₂
      (hperm.map Value.stripped) hlike
    rw [kindOf_of_not_isOrdered hc]
    exact ⟨.group .frozenset ws, setValue_eq_ok_iff.mpr ⟨hmembers, rfl⟩,
      .unordered hc rfl rfl hzs hzw,
      Value.isCanonical_group.mpr ⟨by decide, hcanonical⟩⟩

/-- **A dictionary comes back** from the values of its keys and values. -/
theorem exists_dictValue {self : Form} {guise : Option Guise}
    {entries : List (Value × Value)} {ws : List Value}
    (hbuild : (Value.dict guise entries).isBuildable = true)
    (hlike : List.Forall₂ (fun v w => v.stripped.Like w)
      (inTurn entries) ws)
    (hcanonical : ∀ w ∈ ws, w.isCanonical = true) :
    ∃ w, branchValue self .map ws = .ok w
      ∧ (Value.dict guise entries).stripped.Like w
      ∧ w.isCanonical = true := by
  obtain ⟨es, rfl, hkeys, hvalues⟩ := exists_of_forall₂_inTurn hlike
  have hcanonicals := forall_mem_inTurn.mp hcanonical
  have hstripped := Value.isMemberRow_stripped
    (Value.isBuildable_dict.mp hbuild).2
  have hlikes : List.Forall₂ Value.Like
      ((entries.map Prod.fst).map Value.stripped) (es.map Prod.fst) := by
    rw [List.map_map, List.forall₂_map_left_iff,
      List.forall₂_map_right_iff]
    exact hkeys
  have hmembers : Value.isMemberRow (es.map Prod.fst) = true :=
    Value.isMemberRow_of_like hlikes
      (List.forall_mem_map.mpr fun e he => (hcanonicals e he).1) hstripped
  rw [Value.stripped_dict]
  refine ⟨.dict none es, mapValue_eq_ok_iff.mpr ⟨es, rfl, hmembers, rfl⟩,
    .dict ?_ ?_, Value.isCanonical_dict.mpr ⟨rfl, hcanonicals⟩⟩
  · rw [List.forall₂_map_left_iff]
    exact hkeys
  · rw [List.forall₂_map_left_iff]
    exact hvalues

/-- **What is made of a value gives the value back**, with its sets frozen
and without the guises of its containers. -/
theorem exists_value (hfree : v.isNodeFree = true)
    (hv : v.isBuildable = true) (h : toForm separator v = .ok n) :
    ∃ w, formValue n = .ok w ∧ v.stripped.Like w
      ∧ w.isCanonical = true := by
  induction v using Value.induction generalizing n with
  | scalar s =>
    cases h
    exact ⟨.scalar s, rfl, .scalar rfl, rfl⟩
  | bytes bs => cases h
  | foreign o other => cases h
  | node m => cases hfree
  | group c items ih =>
    have hfrees := Value.areNodeFree_iff.mp hfree
    have hbuilds := (Value.isBuildable_group.mp hv).1
    have hitem : ∀ {x}, x ∈ inOrder c items → x ∈ items :=
      fun hx => (inOrder_perm c items).mem_iff.mp hx
    rw [toForm_group] at h
    obtain ⟨ns, rfl, hns⟩ := exists_of_map_collect h
    obtain ⟨ws, hws, hlike, hcanonical⟩ := exists_formValues
      (fun x hx => hfrees x (hitem hx)) hns fun x hx m =>
        ih x (hitem hx) (hfrees x (hitem hx)) (hbuilds x (hitem hx))
    rw [formValue, hws]
    exact exists_groupValue hv hlike hcanonical
  | dict guise entries ih =>
    have hfrees := Value.entriesNodeFree_iff.mp hfree
    have hbuilds := (Value.isBuildable_dict.mp hv).1
    have hentries : ∀ v ∈ inTurn entries, v.isNodeFree = true :=
      forall_mem_inTurn.mpr hfrees
    rw [toForm_dict] at h
    obtain ⟨ns, rfl, hns⟩ := exists_of_map_collect h
    obtain ⟨ws, hws, hlike, hcanonical⟩ := exists_formValues hentries hns
      (forall_mem_inTurn.mpr fun e he =>
        ⟨fun m => (ih e he).1 (hfrees e he).1 (hbuilds e he).1,
          fun m => (ih e he).2 (hfrees e he).2 (hbuilds e he).2⟩)
    rw [formValue, hws]
    exact exists_dictValue hv hlike hcanonical

/-- **Values survive the conversion to forms and back**, except for the
classes of their containers. For every value that can be built and has no
nodes in it, and for every separator: there is a form exactly if the value
holds nothing but scalars and containers, instances of derived classes
among them, and otherwise the failure names something in it that is
neither; and a form that is there has a value again, which is canonical
and like the first, stripped of the guises of its containers. -/
theorem toValue_toForm (separator : Text) {v : Value}
    (hfree : v.isNodeFree = true) (hv : v.isBuildable = true) :
    ((∃ n, toForm separator v = .ok n)
        ↔ ∀ u, v.Holds u → u.isLiteral = true)
      ∧ (∀ e, toForm separator v = .error e →
        v.Holds e.value ∧ e.value.isLiteral = false
          ∧ e = .noTreeForm e.value)
      ∧ ∀ n, toForm separator v = .ok n →
        ∃ w, toValue (.node n) = .ok w ∧ v.stripped.Like w
          ∧ w.isCanonical = true := by
  refine ⟨exists_form_iff hfree, fun e he => ?_, fun n hn =>
    exists_value hfree hv hn⟩
  obtain ⟨u, hu, hnot, rfl⟩ := exists_of_toForm_eq_error he
  exact ⟨hu, hnot, rfl⟩

/-- A dictionary whose key is a named tuple with a frozen set and an
indefinite result in it, and whose value is a list with a set of texts,
one of them of a derived class. -/
theorem toValue_toForm_nested :
    ∃ v : Value, v = .dict none
        [(.group ⟨.tuple, some ⟨"Key", "Key(…)"⟩⟩
          [.group .frozenset [.int 2, .int 1],
            .scalar (.float (.nan ⟨0, []⟩))],
          .list [.group .set [.scalar (.derived ⟨"Name", "'b'"⟩
            (.text "b")), .text "a"], .nil])]
      ∧ v.isNodeFree = true ∧ v.isBuildable = true
      ∧ ∃ n w, toForm " " v = .ok n ∧ toValue (.node n) = .ok w
        ∧ v.stripped.Like w ∧ w.isCanonical = true := by
  refine ⟨_, rfl, rfl, by decide, ?_⟩
  obtain ⟨hform, -, hback⟩ := toValue_toForm " " (v := .dict none
    [(.group ⟨.tuple, some ⟨"Key", "Key(…)"⟩⟩
      [.group .frozenset [.int 2, .int 1],
        .scalar (.float (.nan ⟨0, []⟩))],
      .list [.group .set [.scalar (.derived ⟨"Name", "'b'"⟩
        (.text "b")), .text "a"], .nil])]) rfl (by decide)
  obtain ⟨n, hn⟩ := hform.mpr (by
    simp [Value.forall_holds_scalar, Value.forall_holds_group,
      Value.forall_holds_dict, Value.isLiteral])
  obtain ⟨w, hw⟩ := hback n hn
  exact ⟨n, w, hn, hw⟩

/-- **A named tuple comes back as a tuple.** It has a form, as tuples have,
and its value is equal to it, but not of its type. -/
theorem class_lost_in_form :
    ∃ (v w : Value) (n : Form),
      v = .group ⟨.tuple, some ⟨"Pt", "Pt(x=1, y=2)"⟩⟩ [.int 1, .int 2]
      ∧ v.isNodeFree = true ∧ v.isBuildable = true
      ∧ toForm " " v = .ok n ∧ toValue (.node n) = .ok w
      ∧ w = .tuple [.int 1, .int 2] ∧ v.equal w = true
      ∧ v.sameType w = false ∧ v.typeName = "Pt" ∧ w.typeName = "tuple" :=
  ⟨_, _, _, rfl, rfl, rfl, rfl, rfl, rfl, by decide, by decide, rfl, rfl⟩

end Literal

end FormTree
