import FormTree.Proofs.Editor
import FormTree.Proofs.RoundTrip
import FormTree.Proofs.Strays

/-!
# Rewriting a form as it is

An edit takes the value of a form, lets a function work on it and puts the
form of the result in the place of the old one. With a function that
changes nothing one would expect to get the same tree, but a form is not
its value: comments and white space go, separators come in, and the
members of sets are sorted. What stays is the skeleton, up to the order in
sets (`Node.Like`), and the meaning: the tree around the form has a value
exactly if it had one before, and the value is alike
(`Session.amend_identity`). Truth values that equal numbers, members that
cannot be looked up and the like, anywhere in the form or around it, make
no difference, because values that are alike cannot be told apart by
comparing.

One thing cannot be had. A token with an indefinite result in it equals no
other token, so a rewritten one is not equal to the old one
(`Session.amend_identity_indefinite`); it holds the same indefinite
result, at a place of its own, and that is what likeness says.

The forms considered are those whose tokens hold scalars
(`Node.holdsScalars`), as all forms do that are read from a text.
-/

namespace FormTree

namespace Value

/-! ## Values read from forms -/

/-- Like values hold literal values only. -/
theorem Like.isLiteral {v w : Value} (h : v.Like w) :
    ∀ u, v.Holds u → u.isLiteral = true := by
  induction v using Value.induction generalizing w with
  | scalar s => exact forall_holds_scalar.mpr rfl
  | group c xs ih =>
    refine forall_holds_group.mpr ⟨rfl, fun x hx => ?_⟩
    cases h with
    | ordered _ hxy =>
      obtain ⟨y, -, hlike⟩ := exists_mem_of_forall₂ hxy hx
      exact ih x hx hlike
    | unordered _ _ _ hxz =>
      obtain ⟨z, -, hlike⟩ := exists_mem_of_forall₂ hxz hx
      exact ih x hx hlike
  | dict guise ds ih =>
    refine forall_holds_dict.mpr ⟨rfl, fun d hd => ?_⟩
    cases h with
    | dict hkeys hvalues =>
      obtain ⟨e, -, hkey⟩ := exists_mem_of_forall₂ hkeys hd
      obtain ⟨e', -, hvalue⟩ := exists_mem_of_forall₂ hvalues hd
      exact ⟨(ih d hd).1 hkey, (ih d hd).2 hvalue⟩
  | _ => cases h

/-- A value that holds literal values only has no nodes in it. -/
theorem isNodeFree_of_isLiteral {v : Value}
    (h : ∀ u, v.Holds u → u.isLiteral = true) : v.isNodeFree = true := by
  induction v using Value.induction with
  | group c items ih =>
    refine areNodeFree_iff.mpr fun v hv => ?_
    exact ih v hv ((forall_holds_group.mp h).2 v hv)
  | dict guise entries ih =>
    refine entriesNodeFree_iff.mpr fun e he => ?_
    have hentry := (forall_holds_dict.mp h).2 e he
    exact ⟨(ih e he).1 hentry.1, (ih e he).2 hentry.2⟩
  | node n => cases h _ (.self _)
  | _ => rfl

/-- **Writing a value anew keeps it alike.** -/
theorem like_placed {v : Value} (h : ∀ u, v.Holds u → u.isLiteral = true)
    (place : List Nat) : v.Like (v.placed place) := by
  induction v using Value.induction generalizing place with
  | scalar s => exact .scalar (s.placed_placed place []).symm
  | group c items ih =>
    have hitems : ∀ i, List.Forall₂ Like items
        (placedItems place i items) := by
      have hmembers := (forall_holds_group.mp h).2
      clear h
      induction items with
      | nil => exact fun _ => .nil
      | cons v vs ihs =>
        intro i
        refine .cons (ih v (.head _) (hmembers v (.head _)) _) ?_
        exact ihs (fun w hw => ih w (.tail _ hw))
          (fun w hw => hmembers w (.tail _ hw)) (i + 1)
    cases hc : c.isOrdered with
    | true => exact .ordered hc (hitems 0)
    | false => exact .unordered hc hc rfl (hitems 0) (.refl _)
  | dict guise entries ih =>
    have hentries : ∀ i, List.Forall₂
        (fun d e : Value × Value => d.1.Like e.1 ∧ d.2.Like e.2) entries
        (placedEntries place i entries) := by
      have hheld := (forall_holds_dict.mp h).2
      clear h
      induction entries with
      | nil => exact fun _ => .nil
      | cons e es ihs =>
        intro i
        have hhead := ih e (.head _)
        have hlit := hheld e (.head _)
        refine .cons ⟨hhead.1 hlit.1 _, hhead.2 hlit.2 _⟩ ?_
        exact ihs (fun e he => ih e (.tail _ he))
          (fun e he => hheld e (.tail _ he)) (i + 2)
    exact .dict ((hentries 0).imp fun _ _ => And.left)
      ((hentries 0).imp fun _ _ => And.right)
  | bytes bs => cases h _ (.self _)
  | foreign o other => cases h _ (.self _)
  | node n => cases h _ (.self _)

/-- Writing a value anew keeps it canonical. -/
theorem isCanonical_placed (place : List Nat) (v : Value) :
    (v.placed place).isCanonical = v.isCanonical := by
  induction v using Value.induction generalizing place with
  | group c items ih =>
    rw [placed, isCanonical, isCanonical]
    refine congrArg _ ?_
    generalize 0 = i
    induction items generalizing i with
    | nil => rfl
    | cons v vs ihs =>
      rw [placedItems, areCanonical, areCanonical, ih v List.mem_cons_self,
        ihs fun w hw => ih w (List.mem_cons_of_mem v hw)]
  | dict guise entries ih =>
    rw [placed, isCanonical, isCanonical]
    refine congrArg _ ?_
    generalize 0 = i
    induction entries generalizing i with
    | nil => rfl
    | cons e es ihs =>
      obtain ⟨k, v⟩ := e
      rw [placedEntries, entriesCanonical, entriesCanonical,
        (ih (k, v) List.mem_cons_self).1, (ih (k, v) List.mem_cons_self).2,
        ihs fun w hw => ih w (List.mem_cons_of_mem _ hw)]
  | _ => rfl

/-- **A readable value**: one that forms with scalars in their tokens can
have. -/
structure Readable (v : Value) : Prop where
  /-- It holds scalars and containers only. -/
  isLiteral : ∀ u, v.Holds u → u.isLiteral = true
  /-- It can be built. -/
  isBuildable : v.isBuildable = true
  /-- Its containers have no guise, and its sets are frozen. -/
  isCanonical : v.isCanonical = true

namespace Readable

theorem isNodeFree {v : Value} (h : v.Readable) : v.isNodeFree = true :=
  isNodeFree_of_isLiteral h.isLiteral

/-- A collection of readable values is readable, a set as long as they
make one. -/
theorem group {c : Collection} {items : List Value}
    (h : ∀ v ∈ items, v.Readable) (hc : c.isCanonical = true)
    (hrow : c.isOrdered = false → isMemberRow items = true) :
    (group c items).Readable where
  isLiteral := forall_holds_group.mpr ⟨rfl, fun v hv => (h v hv).isLiteral⟩
  isBuildable :=
    isBuildable_group.mpr ⟨fun v hv => (h v hv).isBuildable, hrow⟩
  isCanonical := isCanonical_group.mpr ⟨hc, fun v hv => (h v hv).isCanonical⟩

/-- A dictionary of readable values is readable as long as the keys make a
set. -/
theorem dict {entries : List (Value × Value)}
    (h : ∀ e ∈ entries, e.1.Readable ∧ e.2.Readable)
    (hrow : isMemberRow (entries.map Prod.fst) = true) :
    (dict none entries).Readable where
  isLiteral := forall_holds_dict.mpr
    ⟨rfl, fun e he => ⟨(h e he).1.isLiteral, (h e he).2.isLiteral⟩⟩
  isBuildable := isBuildable_dict.mpr
    ⟨fun e he => ⟨(h e he).1.isBuildable, (h e he).2.isBuildable⟩, hrow⟩
  isCanonical := isCanonical_dict.mpr ⟨rfl, fun e he =>
    ⟨(h e he).1.isCanonical, (h e he).2.isCanonical⟩⟩

theorem members {c : Collection} {items : List Value}
    (h : (Value.group c items).Readable) : ∀ v ∈ items, v.Readable :=
  fun v hv => ⟨(forall_holds_group.mp h.isLiteral).2 v hv,
    (isBuildable_group.mp h.isBuildable).1 v hv,
    (isCanonical_group.mp h.isCanonical).2 v hv⟩

theorem entries {guise : Option Guise} {entries : List (Value × Value)}
    (h : (Value.dict guise entries).Readable) :
    ∀ e ∈ entries, e.1.Readable ∧ e.2.Readable := by
  intro e he
  have hlit := (forall_holds_dict.mp h.isLiteral).2 e he
  have hbuild := (isBuildable_dict.mp h.isBuildable).1 e he
  have hcanonical := (isCanonical_dict.mp h.isCanonical).2 e he
  exact ⟨⟨hlit.1, hbuild.1, hcanonical.1⟩, ⟨hlit.2, hbuild.2, hcanonical.2⟩⟩

/-- **What is like a readable value is readable**, if it is frozen. -/
theorem of_like {v w : Value} (h : v.Readable) (hlike : v.Like w)
    (hw : w.isCanonical = true) : w.Readable := by
  induction v using Value.induction generalizing w with
  | scalar s =>
    cases hlike
    exact ⟨forall_holds_scalar.mpr rfl, rfl, rfl⟩
  | group c xs ih =>
    have hxs := h.members
    have hrow := (isBuildable_group.mp h.isBuildable).2
    cases hlike with
    | ordered hc hxy =>
      obtain ⟨hset, hcanonical⟩ := isCanonical_group.mp hw
      refine .group (fun y hy => ?_) hset fun hc' => ?_
      · obtain ⟨x, hx, hlike⟩ := exists_mem_of_forall₂_right hxy hy
        exact ih x hx (hxs x hx) hlike (hcanonical y hy)
      · rw [hc] at hc'
        cases hc'
    | @unordered _ d _ ys zs hc hd _ hxz hperm =>
      obtain ⟨hset, hcanonical⟩ := isCanonical_group.mp hw
      have hzs : ∀ z ∈ zs, z.Readable := by
        intro z hz
        obtain ⟨x, hx, hlike⟩ := exists_mem_of_forall₂_right hxz hz
        exact ih x hx (hxs x hx) hlike (hcanonical z (hperm.mem_iff.mp hz))
      refine .group (fun y hy => hzs y (hperm.mem_iff.mpr hy)) hset
        fun _ => ?_
      refine isMemberRow_of_perm (fun z hz => (hzs z hz).isBuildable)
        hperm ?_
      exact isMemberRow_of_like hxz (fun z hz => (hzs z hz).isCanonical)
        (hrow hc)
  | dict guise ds ih =>
    have hds := h.entries
    have hrow := (isBuildable_dict.mp h.isBuildable).2
    cases hlike with
    | @dict _ _ es hkeys hvalues =>
      obtain ⟨rfl, hcanonicals⟩ := isCanonical_dict.mp hw
      have hes : ∀ e ∈ es, e.1.Readable ∧ e.2.Readable := by
        intro e he
        have hcanonical := hcanonicals e he
        obtain ⟨d, hd, hkey⟩ := exists_mem_of_forall₂_right hkeys he
        obtain ⟨d', hd', hvalue⟩ := exists_mem_of_forall₂_right hvalues he
        exact ⟨(ih d hd).1 (hds d hd).1 hkey hcanonical.1,
          (ih d' hd').2 (hds d' hd').2 hvalue hcanonical.2⟩
      exact .dict hes (isMemberRow_keys hkeys
        (fun e he => (hes e he).1.isCanonical) hrow)
  | _ => cases hlike

/-- A readable value is like itself. -/
theorem like_self {v : Value} (h : v.Readable) : v.Like v :=
  (like_placed h.isLiteral []).trans (like_placed h.isLiteral []).symm

theorem placed {v : Value} (h : v.Readable) (place : List Nat) :
    (v.placed place).Readable :=
  h.of_like (like_placed h.isLiteral place)
    (by rw [isCanonical_placed]; exact h.isCanonical)

end Readable

/-- **Like values are equal**, unless they are an indefinite result, which
is equal to nothing. -/
theorem Like.equal {v w : Value} (h : v.Like w) (hv : v.place? = none) :
    v.equal w = true := by
  have heqv := h.eqv
  cases h with
  | @scalar s t hst =>
    have hs : s.indefinite? = none := Option.map_eq_none_iff.mp hv
    obtain ⟨_, ⟨⟩, heqv⟩ := eqv_scalar.mp heqv
    refine eqv_scalar.mpr ⟨t, rfl, ?_⟩
    rw [Scalar.eqv, hs] at heqv ⊢
    revert heqv
    cases s.number? <;> cases t.number? <;> cases t.indefinite? <;> exact id
  | ordered hc hxy => exact (eqv_ordered hc).mpr ((eqv_ordered hc).mp heqv)
  | unordered hc hd hcd hxz hperm =>
    exact (eqv_unordered hc).mpr ((eqv_unordered hc).mp heqv)
  | dict hkeys hvalues => exact eqv_dict.mpr (eqv_dict.mp heqv)

end Value

namespace Node

/-! ## Forms with scalars in their tokens -/

mutual
/-- **Whether all tokens of a tree hold scalars.** -/
def holdsScalars : Form → Bool
  | .token (.scalar _) => true
  | .token _ => false
  | .branch _ cs => allHoldScalars cs
  | _ => true
termination_by structural n => n
/-- Whether all tokens of a row of trees hold scalars. -/
def allHoldScalars : List Form → Bool
  | [] => true
  | n :: ns => holdsScalars n && allHoldScalars ns
end

theorem holdsScalars_branch {k : Composite} {cs : List Form} :
    holdsScalars (.branch k cs) = true
      ↔ ∀ c ∈ cs, holdsScalars c = true := by
  rw [holdsScalars]
  induction cs with
  | nil => simp [allHoldScalars]
  | cons c cs ih => simp [allHoldScalars, ih]

theorem exists_of_holdsScalars_token {v : Value}
    (h : holdsScalars (.token v) = true) : ∃ s, v = .scalar s := by
  cases v with
  | scalar s => exact ⟨s, rfl⟩
  | _ => cases h

theorem exists_of_mem_tokens {n : Form} (h : n.holdsScalars = true)
    {v : Value} (hv : v ∈ n.tokens) : ∃ s, v = .scalar s := by
  induction n using Node.induction with
  | token w =>
    obtain rfl : v = w := List.mem_singleton.mp hv
    exact exists_of_holdsScalars_token h
  | whitespace s => cases hv
  | comment s => cases hv
  | branch k cs ih =>
    obtain ⟨c, hc, hv⟩ := mem_tokens_branch.mp hv
    exact ih c hc (holdsScalars_branch.mp h c hc) hv

/-- **Two forms are alike**: the same branches around the same scalars in
the same order, where only sets have no order and an indefinite result is
the same in every place. -/
inductive Like : Form → Form → Prop
  /-- The same scalar, wherever it stands. -/
  | token {s t : Scalar} : s.placed [] = t.placed [] →
      Like (.token (.scalar s)) (.token (.scalar t))
  /-- Like children in the same order. -/
  | branch (k : Composite) {cs ds : List Form} :
      List.Forall₂ Like cs ds → Like (.branch k cs) (.branch k ds)
  /-- Like members in any order. -/
  | set {cs ds es : List Form} : List.Forall₂ Like cs es → es.Perm ds →
      Like (.branch .set cs) (.branch .set ds)

end Node

namespace Level

/-- All tokens around a node and in it hold scalars if they do in the tree
around it. -/
theorem holdsScalars_fill {l : Level} {n : Form} :
    Node.holdsScalars (l.fill n) = true
      ↔ (∀ m ∈ l.lefts.reverse ++ l.rights, Node.holdsScalars m = true)
        ∧ Node.holdsScalars n = true := by
  rw [fill, Node.holdsScalars_branch, row]
  simp only [List.forall_mem_append, List.forall_mem_cons]
  constructor
  · rintro ⟨hl, hn, hr⟩
    exact ⟨⟨hl, hr⟩, hn⟩
  · rintro ⟨⟨hl, hr⟩, hn⟩
    exact ⟨hl, hn, hr⟩

end Level

namespace Literal

/-- A branch has a value if its children have, and these make one. -/
theorem formValue_branch_eq_ok_iff {k : Composite} {cs : List Form}
    {v : Value} :
    formValue (.branch k cs) = .ok v
      ↔ ∃ items, List.Forall₂ (fun n v => formValue n = .ok v)
          (formsOf cs) items
        ∧ branchValue (.branch k cs) k items = .ok v := by
  rw [formValue]
  constructor
  · intro h
    split at h
    · next items hitems => exact ⟨items, formValues_eq_ok_iff.mp hitems, h⟩
    · cases h
  · rintro ⟨items, hitems, h⟩
    rw [formValues_eq_ok_iff.mpr hitems]
    exact h

/-- What has a value is no formatting. -/
theorem isFormatting_of_formValue {n : Form} {v : Value}
    (h : formValue n = .ok v) : n.isFormatting = false := by
  cases n with
  | token v => rfl
  | branch k cs => rfl
  | whitespace s => cases h
  | comment s => cases h

/-- The value of a branch of readable values is readable. -/
theorem readable_branchValue {self : Form} {k : Composite}
    {items : List Value} {v : Value} (hitems : ∀ w ∈ items, w.Readable)
    (h : branchValue self k items = .ok v) : v.Readable := by
  cases k with
  | list =>
    cases h
    exact .group hitems (by decide) fun hc => by cases hc
  | vector =>
    cases h
    exact .group hitems (by decide) fun hc => by cases hc
  | set =>
    obtain ⟨hrow, rfl⟩ := setValue_eq_ok_iff.mp h
    exact .group hitems (by decide) fun _ => hrow
  | map =>
    obtain ⟨entries, rfl, hrow, rfl⟩ := mapValue_eq_ok_iff.mp h
    exact .dict (forall_mem_inTurn.mp hitems) hrow

/-- **The value of a form with scalars in its tokens is readable.** -/
theorem readable_formValue {n : Form} {v : Value}
    (hn : n.holdsScalars = true) (h : formValue n = .ok v) :
    v.Readable := by
  induction n using Node.induction generalizing v with
  | token w =>
    obtain ⟨s, rfl⟩ := Node.exists_of_holdsScalars_token hn
    cases h
    exact ⟨Value.forall_holds_scalar.mpr rfl, rfl, rfl⟩
  | whitespace s => cases h
  | comment s => cases h
  | branch k cs ih =>
    obtain ⟨items, hitems, hvalue⟩ := formValue_branch_eq_ok_iff.mp h
    refine readable_branchValue (fun w hw => ?_) hvalue
    obtain ⟨c, hc, hcw⟩ := exists_mem_of_forall₂_right hitems hw
    have hmem := mem_of_mem_formsOf hc
    exact ih c hmem (Node.holdsScalars_branch.mp hn c hmem) hcw

/-- What is made of a value has scalars in its tokens. -/
theorem holdsScalars_of_toForm {separator : Text} {v : Value} {n : Form}
    (hv : v.isNodeFree = true) (h : toForm separator v = .ok n) :
    n.holdsScalars = true := by
  refine toForm_induction (P := fun n => n.holdsScalars = true)
    (fun _ => rfl) (fun k ns hns => ?_) hv h
  refine Node.holdsScalars_branch.mpr fun m hm => ?_
  rcases Node.mem_spaced hm with hm | rfl
  · exact hns m hm
  · rfl

/-! ## The skeleton stays -/

theorem skeletons_eq_map (cs : List Form) :
    Node.skeletons cs = (formsOf cs).map Node.skeleton := by
  rw [Node.skeletons_eq, List.filter_map]
  refine congrArg (List.map _) (List.filter_congr fun n _ => ?_)
  exact congrArg _ n.isFormatting_skeleton

theorem forall₂_inTurn {α β : Type} {R : α → β → Prop}
    {ds : List (α × α)} {es : List (β × β)}
    (hkeys : List.Forall₂ (fun d e => R d.1 e.1) ds es)
    (hvalues : List.Forall₂ (fun d e => R d.2 e.2) ds es) :
    List.Forall₂ R (inTurn ds) (inTurn es) := by
  induction hkeys with
  | nil => exact .nil
  | cons hkey _ ih =>
    cases hvalues with
    | cons hvalue hvalues => exact .cons hkey (.cons hvalue (ih hvalues))

/-- Forms set side by side have the skeletons of the forms. -/
theorem skeletons_spaced_eq_map {separator : Text} {vs : List Value}
    {ns : List Form} (hfree : ∀ v ∈ vs, v.isNodeFree = true)
    (hns : List.Forall₂ (fun v m => toForm separator v = .ok m) vs ns) :
    Node.skeletons (Node.spaced separator ns) = ns.map Node.skeleton := by
  rw [skeletons_eq_map, formsOf_spaced]
  intro m hm
  obtain ⟨v, hv, hform⟩ := exists_mem_of_forall₂_right hns hm
  exact isFormatting_of_toForm (hfree v hv) hform

/-- **The skeletons of a row and of what is made of its values anew are
alike** as soon as this holds of every form in it: the forms, their
values, the values that are like these and the forms of those correspond
one to one. -/
theorem forall₂_skeletons {separator : Text} {cs ns : List Form}
    {xs ys : List Value}
    (h : ∀ c ∈ cs, ∀ x y m, formValue c = .ok x → x.Like y →
      toForm separator y = .ok m → c.skeleton.Like m.skeleton)
    (hxs : List.Forall₂ (fun n v => formValue n = .ok v) (formsOf cs) xs)
    (hlike : List.Forall₂ Value.Like xs ys)
    (hns : List.Forall₂ (fun y m => toForm separator y = .ok m) ys ns) :
    List.Forall₂ Node.Like (Node.skeletons cs) (ns.map Node.skeleton) := by
  rw [skeletons_eq_map, List.forall₂_map_left_iff,
    List.forall₂_map_right_iff]
  have hreads := forall₂_comp hxs hlike
    (T := fun c y => ∃ x, formValue c = .ok x ∧ x.Like y)
    fun _ _ x _ hx hxy => ⟨x, hx, hxy⟩
  refine forall₂_comp hreads hns fun c hc y m hy hform => ?_
  obtain ⟨x, hx, hxy⟩ := hy
  exact h c (mem_of_mem_formsOf hc) x y m hx hxy hform

/-- **The skeleton of a form and of what is made of its value anew are
alike.** -/
theorem skeleton_like {separator : Text} {n m : Form} {v w : Value}
    (hn : n.holdsScalars = true) (hv : formValue n = .ok v)
    (hvw : v.Like w) (hm : toForm separator w = .ok m) :
    n.skeleton.Like m.skeleton := by
  induction n using Node.induction generalizing v w m with
  | token u =>
    obtain ⟨s, rfl⟩ := Node.exists_of_holdsScalars_token hn
    cases hv
    cases hvw with
    | scalar hst =>
      cases hm
      exact .token hst
  | whitespace s => cases hv
  | comment s => cases hv
  | branch k cs ih =>
    obtain ⟨items, hitems, hvalue⟩ := formValue_branch_eq_ok_iff.mp hv
    have hcs : ∀ c ∈ cs, ∀ x y m, formValue c = .ok x → x.Like y →
        toForm separator y = .ok m → c.skeleton.Like m.skeleton :=
      fun c hc x y m => ih c hc (Node.holdsScalars_branch.mp hn c hc)
    have hfree : w.isNodeFree = true :=
      Value.isNodeFree_of_isLiteral hvw.symm.isLiteral
    have hordered : ∀ {c : Collection}, c.isOrdered = true →
        v = .group c items → kindOf c = k →
          (Node.branch k cs).skeleton.Like m.skeleton := by
      rintro c hc rfl rfl
      cases hvw with
      | ordered _ hlike =>
        rw [toForm_group, inOrder_of_isOrdered hc] at hm
        obtain ⟨ns, rfl, hns⟩ := exists_of_map_collect hm
        rw [Node.skeleton_branch, Node.skeleton_branch,
          skeletons_spaced_eq_map (Value.areNodeFree_iff.mp hfree) hns]
        exact .branch _ (forall₂_skeletons hcs hitems hlike hns)
      | unordered hc' => rw [hc] at hc'; cases hc'
    cases k with
    | list =>
      cases hvalue
      exact hordered rfl rfl rfl
    | vector =>
      cases hvalue
      exact hordered rfl rfl rfl
    | set =>
      obtain ⟨-, rfl⟩ := setValue_eq_ok_iff.mp hvalue
      cases hvw with
      | ordered hc => cases hc
      | @unordered _ d _ ys zs _ hd _ hlike hperm =>
        have hsorted := inOrder_perm d ys
        rw [toForm_group] at hm
        obtain ⟨ns, rfl, hns⟩ := exists_of_map_collect hm
        rw [kindOf_of_not_isOrdered hd, Node.skeleton_branch,
          Node.skeleton_branch, skeletons_spaced_eq_map (fun y hy =>
            Value.areNodeFree_iff.mp hfree y (hsorted.mem_iff.mp hy)) hns]
        -- the sorted members in the order of the old form
        obtain ⟨ms, hms, hmn⟩ := List.perm_comp_forall₂
          (hperm.trans hsorted.symm) hns
        exact .set (forall₂_skeletons hcs hitems hlike hms) (hmn.map _)
    | map =>
      obtain ⟨entries, rfl, -, rfl⟩ := mapValue_eq_ok_iff.mp hvalue
      cases hvw with
      | dict hkeys hvalues =>
        rw [toForm_dict] at hm
        obtain ⟨ns, rfl, hns⟩ := exists_of_map_collect hm
        rw [Node.skeleton_branch, Node.skeleton_branch,
          skeletons_spaced_eq_map (forall_mem_inTurn.mpr
            (Value.entriesNodeFree_iff.mp hfree)) hns]
        exact .branch _ (forall₂_skeletons hcs hitems
          (forall₂_inTurn hkeys hvalues) hns)

/-! ## The meaning stays -/

/-- **A form reads at least as** another: where that has a value, this has
one that is alike. -/
def ReadsAs (m n : Form) : Prop :=
  ∀ v, formValue n = .ok v → ∃ w, formValue m = .ok w ∧ v.Like w

theorem readsAs_self {n : Form} (hn : n.holdsScalars = true) :
    ReadsAs n n :=
  fun v hv => ⟨v, hv, (readable_formValue hn hv).like_self⟩

/-- Rows of forms that read as others have values like theirs. -/
theorem exists_row_of_readsAs {ns ms : List Form} {xs : List Value}
    (hreads : List.Forall₂ (fun n m => ReadsAs m n) ns ms)
    (hxs : List.Forall₂ (fun n v => formValue n = .ok v) ns xs) :
    ∃ ys, List.Forall₂ (fun n v => formValue n = .ok v) ms ys
      ∧ List.Forall₂ Value.Like xs ys := by
  induction hreads generalizing xs with
  | nil =>
    cases hxs
    exact ⟨[], .nil, .nil⟩
  | @cons n m ns ms hread _ ih =>
    cases hxs with
    | cons hx hxs =>
      obtain ⟨y, hy, hxy⟩ := hread _ hx
      obtain ⟨ys, hys, hlike⟩ := ih hxs
      exact ⟨y :: ys, .cons hy hys, .cons hxy hlike⟩

/-- Like rows make like branches. -/
theorem exists_branchValue {self other : Form} {k : Composite}
    {xs ys : List Value} {v : Value}
    (hys : ∀ y ∈ ys, y.isCanonical = true)
    (hlike : List.Forall₂ Value.Like xs ys)
    (h : branchValue self k xs = .ok v) :
    ∃ w, branchValue other k ys = .ok w ∧ v.Like w := by
  cases k with
  | list =>
    cases h
    exact ⟨.tuple ys, rfl, .ordered rfl hlike⟩
  | vector =>
    cases h
    exact ⟨.list ys, rfl, .ordered rfl hlike⟩
  | set =>
    obtain ⟨hrow, rfl⟩ := setValue_eq_ok_iff.mp h
    have hrow' := Value.isMemberRow_of_like hlike hys hrow
    exact ⟨_, setValue_eq_ok_iff.mpr ⟨hrow', rfl⟩,
      .unordered rfl rfl rfl hlike (.refl _)⟩
  | map =>
    obtain ⟨ds, rfl, hrow, rfl⟩ := mapValue_eq_ok_iff.mp h
    obtain ⟨es, rfl, hkeys, hvalues⟩ := exists_of_forall₂_inTurn hlike
    have hrow' := Value.isMemberRow_keys hkeys
      (fun e he => (forall_mem_inTurn.mp hys e he).1) hrow
    exact ⟨_, mapValue_eq_ok_iff.mpr ⟨es, rfl, hrow', rfl⟩,
      .dict hkeys hvalues⟩

theorem formsOf_row (l : Level) {n : Form}
    (hn : n.isFormatting = false) :
    formsOf (l.row n) = formsOf l.lefts.reverse ++ n :: formsOf l.rights := by
  rw [formsOf, Level.row, List.filter_append,
    List.filter_cons_of_pos (by rw [hn]; rfl)]
  rfl

/-- The values of a row of forms with scalars in their tokens are
readable. -/
theorem readable_of_mem {k : Composite} {cs : List Form}
    {xs : List Value} (hcs : Node.holdsScalars (.branch k cs) = true)
    (hxs : List.Forall₂ (fun n v => formValue n = .ok v)
      (formsOf cs) xs) : ∀ x ∈ xs, x.Readable := by
  intro x hx
  obtain ⟨c, hc, hcx⟩ := exists_mem_of_forall₂_right hxs hx
  exact readable_formValue
    (Node.holdsScalars_branch.mp hcs c (mem_of_mem_formsOf hc)) hcx

/-- **What reads as a form reads so in its place**: the branch around it
reads as the branch around the form. -/
theorem ReadsAs.fill {m n : Form} (h : ReadsAs m n) {l : Level}
    (hm : m.isFormatting = false) (hn : n.isFormatting = false)
    (hfill : Node.holdsScalars (l.fill n) = true)
    (hfill' : Node.holdsScalars (l.fill m) = true) :
    ReadsAs (l.fill m) (l.fill n) := by
  -- the siblings read as themselves
  have haround : ∀ {cs : List Form},
      (∀ c ∈ cs, c ∈ l.lefts.reverse ++ l.rights) →
      List.Forall₂ (fun n m => ReadsAs m n) (formsOf cs) (formsOf cs) := by
    intro cs hcs
    refine List.forall₂_same.mpr fun c hc => readsAs_self ?_
    exact (Level.holdsScalars_fill.mp hfill).1 c
      (hcs c (mem_of_mem_formsOf hc))
  have hrow : List.Forall₂ (fun n m => ReadsAs m n)
      (formsOf (l.row n)) (formsOf (l.row m)) := by
    rw [formsOf_row l hn, formsOf_row l hm]
    refine List.rel_append (haround fun c hc => ?_)
      (.cons h (haround fun c hc => ?_))
    · exact List.mem_append_left _ hc
    · exact List.mem_append_right _ hc
  intro v hv
  obtain ⟨xs, hxs, hvalue⟩ := formValue_branch_eq_ok_iff.mp hv
  obtain ⟨ys, hys, hlike⟩ := exists_row_of_readsAs hrow hxs
  obtain ⟨w, hw, hvw⟩ := exists_branchValue
    (fun y hy => (readable_of_mem hfill' hys y hy).isCanonical) hlike hvalue
  exact ⟨w, formValue_branch_eq_ok_iff.mpr ⟨ys, hys, hw⟩, hvw⟩

/-- All tokens at a place and around it hold scalars. -/
theorem holdsScalars_of_fillAll {levels : List Level} {n : Form}
    (h : Node.holdsScalars (Place.fillAll levels n) = true) :
    n.holdsScalars = true := by
  induction levels generalizing n with
  | nil => exact h
  | cons l outer ih => exact (Level.holdsScalars_fill.mp (ih h)).2

/-- A tree still has scalars in its tokens when another form with scalars
is put into it. -/
theorem holdsScalars_fillAll {levels : List Level} {n m : Form}
    (h : Node.holdsScalars (Place.fillAll levels n) = true)
    (hm : m.holdsScalars = true) :
    Node.holdsScalars (Place.fillAll levels m) = true := by
  induction levels generalizing n m with
  | nil => exact hm
  | cons l outer ih =>
    refine ih h (Level.holdsScalars_fill.mpr ⟨?_, hm⟩)
    exact (Level.holdsScalars_fill.mp (holdsScalars_of_fillAll h)).1

/-- **What reads as a form reads so in any tree around it.** -/
theorem ReadsAs.fillAll {m n : Form} (h : ReadsAs m n)
    {levels : List Level} (hm : m.isFormatting = false)
    (hn : n.isFormatting = false)
    (hfill : Node.holdsScalars (Place.fillAll levels n) = true)
    (hfill' : Node.holdsScalars (Place.fillAll levels m) = true) :
    ReadsAs (Place.fillAll levels m) (Place.fillAll levels n) := by
  induction levels generalizing m n with
  | nil => exact h
  | cons l outer ih =>
    exact ih (h.fill hm hn (holdsScalars_of_fillAll hfill)
      (holdsScalars_of_fillAll hfill')) rfl rfl hfill hfill'

/-- Scalars raise nothing when they are hashed, so a form with scalars in
its tokens fails to be read by a failed conversion only. -/
theorem exists_conversion_of_holdsScalars {n : Form}
    (hn : n.holdsScalars = true) {e : Failure}
    (h : formValue n = .error e) : ∃ cause, e = .conversion cause := by
  refine exists_conversion_of_formValue (fun v hv => ?_) h
  obtain ⟨s, rfl⟩ := Node.exists_of_mem_tokens hn hv
  rfl

/-- **Two conversions come to the same**: both fail as conversions do, or
both give a value and the values are alike, and equal unless they are an
indefinite result. -/
inductive SameOutcome :
    Except Failure Value → Except Failure Value → Prop
  /-- Both give a value. -/
  | value {v w : Value} : v.Like w →
      (v.place? = none → v.equal w = true) →
      SameOutcome (.ok v) (.ok w)
  /-- Both fail. -/
  | failure {e e' : ConversionError} :
      SameOutcome (.error (.conversion e)) (.error (.conversion e'))

theorem ReadsAs.sameOutcome {m n : Form} (h : ReadsAs m n)
    (h' : ReadsAs n m) (hm : m.holdsScalars = true)
    (hn : n.holdsScalars = true) :
    SameOutcome (formValue n) (formValue m) := by
  cases hfn : formValue n with
  | ok v =>
    obtain ⟨w, hw, hvw⟩ := h v hfn
    rw [hw]
    exact .value hvw hvw.equal
  | error e =>
    cases hfm : formValue m with
    | error e' =>
      obtain ⟨cause, rfl⟩ := exists_conversion_of_holdsScalars hn hfn
      obtain ⟨cause', rfl⟩ := exists_conversion_of_holdsScalars hm hfm
      exact .failure
    | ok w =>
      obtain ⟨v, hv, -⟩ := h' w hfm
      rw [hfn] at hv
      cases hv

/-- **A form is rewritten** as another: this has the same skeleton, up to
the order in sets, and reads as the form does. -/
structure Rewrites (n m : Form) : Prop where
  /-- The skeletons are alike. -/
  like : n.skeleton.Like m.skeleton
  /-- The tokens of the new form hold scalars. -/
  holdsScalars : m.holdsScalars = true
  /-- The new form is no formatting. -/
  isFormatting : m.isFormatting = false
  /-- It reads as the old one. -/
  readsAs : ReadsAs m n
  /-- The old one reads as the new one. -/
  readsAs' : ReadsAs n m

/-- **A form is rewritten when its value is written anew**, and that is
always possible. -/
theorem exists_rewriting {n : Form} {v : Value}
    (hn : n.holdsScalars = true) (hv : formValue n = .ok v)
    (separator : Text) (place : List Nat) :
    ∃ m, toForm separator (v.placed place) = .ok m ∧ Rewrites n m := by
  have hread := readable_formValue hn hv
  have hplaced := hread.placed place
  have hlike := Value.like_placed hread.isLiteral place
  obtain ⟨m, hm⟩ := (exists_form_iff hplaced.isNodeFree).mpr
    hplaced.isLiteral
  obtain ⟨w, hw, hvw, -⟩ := exists_value hplaced.isNodeFree
    hplaced.isBuildable hm
  rw [Value.stripped_of_isCanonical hplaced.isCanonical] at hvw
  refine ⟨m, hm, skeleton_like hn hv hlike hm,
    holdsScalars_of_toForm hplaced.isNodeFree hm,
    isFormatting_of_formValue hw, fun u hu => ?_, fun u hu => ?_⟩
  · rw [hv] at hu
    cases hu
    exact ⟨w, hw, hlike.trans hvw⟩
  · rw [hw] at hu
    cases hu
    exact ⟨v, hv, (hlike.trans hvw).symm⟩

end Literal

/-- **Amending a place by what is there already** replaces its node by one
with a like skeleton, and the tree has a value as before. -/
theorem Place.exists_amend_ok {z : Place}
    (hz : z.whole.holdsScalars = true) {v : Value}
    (hv : Literal.formValue z.focus = .ok v) (separator : Text)
    (occasion : Nat) :
    ∃ n, z.amend separator (Session.written occasion .ok)
        = .ok (some (z.replace n))
      ∧ z.focus.skeleton.Like n.skeleton
      ∧ Literal.SameOutcome (Literal.formValue z.whole)
        (Literal.formValue (z.replace n).whole) := by
  obtain ⟨n, hn, hrewrites⟩ := Literal.exists_rewriting
    (Literal.holdsScalars_of_fillAll hz) hv separator [occasion]
  have hamend : z.amend separator (Session.written occasion .ok)
      = .ok (some (z.replace n)) := by
    rw [amend, hv]
    show (Literal.formFor separator (v.placed [occasion])).map _ = _
    rw [Literal.formFor, hn]
    rfl
  have hform := Literal.isFormatting_of_formValue hv
  have hafter := Literal.holdsScalars_fillAll hz hrewrites.holdsScalars
  refine ⟨n, hamend, hrewrites.like,
    Literal.ReadsAs.sameOutcome ?_ ?_ hafter hz⟩
  · exact hrewrites.readsAs.fillAll hrewrites.isFormatting hform hz hafter
  · exact hrewrites.readsAs'.fillAll hform hrewrites.isFormatting hafter hz

namespace Session

/-- The value of the focus is the value of the form at the place. -/
theorem value_of_isAt {policy : Policy} {separator : Text}
    (hconv : policy.converter = .literal separator) {c : Cursor Value}
    {z : Place} (h : c.IsAt z) (given : Option Text) :
    (Session.mk .forms policy c).value (given.map .literal)
      = Literal.formValue z.focus := by
  rw [Session.value, Surface.converterOr_eq hconv]
  show (Converter.literal _).toValue c.focus = _
  rw [h.focus_eq]
  rfl

/-- **Rewriting a form as it is preserves the meaning of the tree.** In a
session over a tree with scalars in its tokens, wherever it has got to: if
the focus has no value, the edit fails with the failure to read it. If it
has one, the edit succeeds; it stays at its position, only the node there
is replaced, and the skeleton of that is like the one before. And the
whole tree has a value exactly if it had one before, and one that is
alike. -/
theorem amend_identity {policy : Policy} {separator : Text}
    (hconv : policy.converter = .literal separator) {root : Value}
    {s : Session}
    (h : (Session.start .forms policy root).Reaches SuppliesNodes s)
    {t : Form} (hroot : s.root = .ok (.node t))
    (ht : t.holdsScalars = true) (given : Option Text) (occasion : Nat) :
    (∀ e, s.value (given.map .literal) = .error e →
      (∃ cause, e = .conversion cause)
        ∧ (s.perform (.amend .ok (given.map .literal) occasion)).result
          = .error e)
    ∧ ∀ v, s.value (given.map .literal) = .ok v →
      ∃ s' p n n' t', (s.perform
          (.amend .ok (given.map .literal) occasion)).result = .ok (some s')
        ∧ s.Shows ⟨.node t, p⟩ ∧ s.cursor.focus = .node n
        ∧ s'.Shows ⟨.node t', p⟩ ∧ s'.cursor.focus = .node n'
        ∧ Node.substitute n' t p = some t'
        ∧ n.skeleton.Like n'.skeleton
        ∧ Literal.SameOutcome (Literal.formValue t)
          (Literal.formValue t') := by
  have hshape : s.shape = .forms := h.shape_eq
  have hpolicy : s.policy = policy := h.policy_eq
  have hstands := h.stands hconv fun _ _ ha => ha
  obtain ⟨shape, policy', c⟩ := s
  obtain rfl : shape = .forms := hshape
  obtain rfl : policy' = policy := hpolicy
  obtain ⟨z, hz⟩ : ∃ z, c.IsAt z := by
    refine hstands.resolve_right fun hbare => ?_
    have hnode := hbare.not_node
    rw [Except.ok.inj (hbare.root_eq.symm.trans hroot)] at hnode
    cases hnode
  obtain rfl : z.whole = t :=
    Value.node.inj (Except.ok.inj (hz.root_eq.symm.trans hroot))
  have hvalue := value_of_isAt hconv hz given
  have hgo := hz.surface hconv (.amend .ok given occasion)
  rw [Place.surface] at hgo
  cases hfocus : Literal.formValue z.focus with
  | error e =>
    -- reading the focus is the first stage of the edit, and it fails there
    rw [Place.amend, hfocus] at hgo
    rw [hfocus] at hvalue
    refine ⟨fun e he => ?_, fun v hv => ?_⟩
    · rw [hvalue] at he
      cases he
      exact ⟨Literal.exists_conversion_of_holdsScalars
        (Literal.holdsScalars_of_fillAll ht) hfocus,
        perform_result_eq_error.mpr hgo⟩
    · rw [hvalue] at hv
      cases hv
  | ok v =>
    obtain ⟨n, hamend, hlike, hsame⟩ := Place.exists_amend_ok ht hfocus
      (given.getD separator) occasion
    rw [hamend] at hgo
    rw [hfocus] at hvalue
    obtain ⟨d, hd, hat⟩ := hgo
    refine ⟨fun e he => ?_, fun w _ => ?_⟩
    · rw [hvalue] at he
      cases he
    · exact ⟨⟨.forms, policy', d⟩, z.index, z.focus, n,
        (z.replace n).whole, perform_result_eq_some.mpr ⟨d, hd, rfl⟩,
        shows_of_isAt hz, hz.focus_eq, shows_of_isAt hat, hat.focus_eq,
        Place.substitute_fillAll z.levels z.focus n, hlike, hsame⟩

/-- In `(1 #{"b" ;c "a"})` the set is rewritten: its comment goes and its
members are sorted. -/
theorem amend_identity_set :
    ∃ (t : Form) (s : Session), t = .branch .list [.token (.int 1),
        .branch .set [.token (.text "b"), .comment ";c",
          .token (.text "a")]]
      ∧ (Session.start .forms .standard (.node t)).Reaches SuppliesNodes s
      ∧ s.cursor.path.map Frame.index = [1]
      ∧ ∃ s' p n n' t', (s.perform (.amend .ok none 0)).result
            = .ok (some s')
          ∧ s.Shows ⟨.node t, p⟩ ∧ s.cursor.focus = .node n
          ∧ s'.Shows ⟨.node t', p⟩ ∧ s'.cursor.focus = .node n'
          ∧ Node.substitute n' t p = some t'
          ∧ n.skeleton.Like n'.skeleton
          ∧ Literal.SameOutcome (Literal.formValue t)
            (Literal.formValue t') := by
  have hrun : (Session.start .forms .standard (.node (.branch .list
      [.token (.int 1), .branch .set [.token (.text "b"), .comment ";c",
        .token (.text "a")]]))).Reaches SuppliesNodes _ :=
    .step (.step .here (a := .move (.plain .down)) trivial rfl)
      (a := .move (.plain .right)) trivial rfl
  refine ⟨_, _, rfl, hrun, rfl,
    (amend_identity rfl hrun ?_ rfl none 0).2 _ rfl⟩
  exact (Cursor.root_of_up rfl).trans (Cursor.root_atRoot .forms _)

/-- **A token with an indefinite result is not equal to the rewritten
one**, although there is no formatting in it and no order. Its value is
not equal to the value after rewriting either. -/
theorem amend_identity_indefinite :
    ∃ (s s' : Session) (n n' : Form) (v v' : Value),
      s = Session.start .forms .standard
        (.node (.token (.scalar (.float (.nan ⟨0, []⟩)))))
      ∧ s.value none = .ok v
      ∧ (s.perform (.amend .ok none 1)).result = .ok (some s')
      ∧ s.cursor.focus = .node n ∧ s'.cursor.focus = .node n'
      ∧ n.skeleton = n ∧ n'.skeleton = n'
      ∧ (Value.node n).equal (.node n') = false
      ∧ s'.value none = .ok v' ∧ v.equal v' = false :=
  ⟨_, _, _, _, _, _, rfl, rfl, rfl, rfl, rfl, rfl, rfl, rfl, rfl, rfl⟩

end Session

end FormTree
