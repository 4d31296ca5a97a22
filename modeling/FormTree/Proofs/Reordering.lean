import FormTree.Proofs.KeyOrder
import FormTree.Proofs.Rewriting

/-!
# Forms and the order of sets

A set is stored in some order, and two sets with the same members may
differ in it. A value is **reordered** when the sets in it are stored in
another order, at any depth: in collections, dictionaries and the tokens
of nodes (`Value.Reordered`). Its form should stay what it is.

The members of a set are sorted by their keys, so the form depends on the
order as far as the keys do. The key of a set is made of the keys of its
members. But the key of anything else is its printed form, and that shows
the sets inside in the order in which they are stored. If a tuple with a
set in it is a member of a set, the order of the inner set decides where
the tuple stands (`Literal.form_depends_on_order`). And members that have
the same key, as any two indefinite results do, stay as they are stored.

The order has no other way in. A value is **settled** when in each of its
sets the keys of the members differ and do not show an order
(`Value.isSettled`), and then its form is the same however it is reordered
(`Literal.toForm_of_reordered`). Whether there is a form at all never
depends on the order.
-/

namespace FormTree

/-! ## Rows that correspond -/

section Rows

variable {α β γ : Type} {R : α → β → Prop} {xs : List α} {ys : List β}

theorem map_eq_of_forall₂ {f : α → γ} {g : β → γ}
    (h : List.Forall₂ R xs ys) (hfg : ∀ x ∈ xs, ∀ y, R x y → f x = g y) :
    xs.map f = ys.map g := by
  rw [← List.forall₂_eq_eq_eq, List.forall₂_map_left_iff,
    List.forall₂_map_right_iff]
  exact forall₂_imp_of_mem h fun x hx y _ => hfg x hx y

theorem eq_of_forall₂ {R : α → α → Prop} {ys : List α}
    (h : List.Forall₂ R xs ys) (hR : ∀ x ∈ xs, ∀ y, R x y → x = y) :
    xs = ys := by
  simpa using map_eq_of_forall₂ (f := id) (g := id) h hR

theorem forall_mem_iff_of_forall₂ {P : α → Prop} {Q : β → Prop}
    (h : List.Forall₂ R xs ys) (hPQ : ∀ x ∈ xs, ∀ y, R x y → (P x ↔ Q y)) :
    (∀ x ∈ xs, P x) ↔ ∀ y ∈ ys, Q y := by
  constructor
  · intro hP y hy
    obtain ⟨x, hx, hxy⟩ := exists_mem_of_forall₂_right h hy
    exact (hPQ x hx y hxy).mp (hP x hx)
  · intro hQ x hx
    obtain ⟨y, hy, hxy⟩ := exists_mem_of_forall₂ h hx
    exact (hPQ x hx y hxy).mpr (hQ y hy)

theorem eq_of_perm_of_length_le {ys : List α} (h : xs.Perm ys)
    (hlen : xs.length ≤ 1) : xs = ys := by
  match xs, hlen with
  | [], _ => exact h.symm.eq_nil.symm
  | [x], _ => exact List.singleton_perm.mp h

end Rows

namespace Node.Corresponds

variable {α : Type} {R : α → α → Prop} {m n : Node α}

/-- A tree corresponds to itself alone, if all its literals are related to
themselves alone. -/
theorem eq_of (hmn : m.Corresponds R n)
    (h : ∀ v ∈ m.tokens, ∀ w, R v w → v = w) : m = n := by
  induction m using Node.induction generalizing n with
  | token v =>
    cases hmn with
    | token hvw => rw [h v (.head _) _ hvw]
  | whitespace t => cases hmn; rfl
  | comment t => cases hmn; rfl
  | branch k cs ih =>
    cases hmn with
    | @branch _ _ ds hrow =>
      rw [eq_of_forall₂ hrow fun c hc _ hcd => ih c hc hcd
        fun v hv => h v (mem_tokens_branch.mpr ⟨c, hc, hv⟩)]

end Node.Corresponds

namespace Value

/-! ## Values that the order does not show in -/

mutual
/-- **Whether there is nothing to reorder in a value**: no set of two or
more members. -/
def isRigid : Value → Bool
  | .group c items =>
    (c.isOrdered || decide (items.length ≤ 1)) && areRigid items
  | .dict _ entries => entriesRigid entries
  | .node n => isRigidNode n
  | _ => true
termination_by structural v => v
/-- Whether there is nothing to reorder in a row of values. -/
def areRigid : List Value → Bool
  | [] => true
  | v :: vs => v.isRigid && areRigid vs
/-- Whether there is nothing to reorder in the entries. -/
def entriesRigid : List (Value × Value) → Bool
  | [] => true
  | (k, v) :: es => k.isRigid && v.isRigid && entriesRigid es
/-- Whether there is nothing to reorder in the tokens of a tree. -/
def isRigidNode : Form → Bool
  | .token v => v.isRigid
  | .branch _ cs => areRigidNodes cs
  | _ => true
/-- Whether there is nothing to reorder in the tokens of a row of trees. -/
def areRigidNodes : List Form → Bool
  | [] => true
  | n :: ns => isRigidNode n && areRigidNodes ns
end

theorem areRigid_iff {vs : List Value} :
    areRigid vs = true ↔ ∀ v ∈ vs, v.isRigid = true := by
  induction vs with
  | nil => simp [areRigid]
  | cons v vs ih => simp [areRigid, ih]

theorem entriesRigid_iff {es : List (Value × Value)} :
    entriesRigid es = true
      ↔ ∀ e ∈ es, e.1.isRigid = true ∧ e.2.isRigid = true := by
  induction es with
  | nil => simp [entriesRigid]
  | cons e es ih =>
    obtain ⟨k, v⟩ := e
    simp [entriesRigid, ih]

theorem isRigidNode_iff {n : Form} :
    isRigidNode n = true ↔ ∀ v ∈ n.tokens, v.isRigid = true := by
  refine Node.iff_forall_tokens (Q := fun n => isRigidNode n = true)
    (fun v => Iff.rfl) (fun t => rfl) (fun t => rfl) (fun k cs => ?_) n
  show areRigidNodes cs = true ↔ ∀ c ∈ cs, isRigidNode c = true
  induction cs with
  | nil => simp [areRigidNodes]
  | cons c cs ih => simp [areRigidNodes, ih]

/-! ## Reordered values -/

end Value

/-- **A guise goes over into another**: the class stays, and if it is
fixed, so does the printed form. -/
def Guise.GoesOver (fixed : Bool) (g h : Option Guise) : Prop :=
  g.map Guise.className = h.map Guise.className ∧ (fixed = true → g = h)

theorem Guise.GoesOver.refl (fixed : Bool) (g : Option Guise) :
    Guise.GoesOver fixed g g := ⟨rfl, fun _ => rfl⟩

namespace Value

/-- **A value is reordered**: the sets in it are stored in another order,
and all else stays. What an instance of a derived class prints may show
the order of the sets in it, and may change with it. -/
inductive Reordered : Value → Value → Prop
  | scalar (s : Scalar) : Reordered (.scalar s) (.scalar s)
  | bytes (bs : List UInt8) : Reordered (.bytes bs) (.bytes bs)
  | foreign (o : Foreign) (other : Option Value) :
      Reordered (.foreign o other) (.foreign o other)
  /-- What is in order is reordered member by member. -/
  | ordered {b : Collection.Base} {g h : Option Guise}
      {xs ys : List Value} :
      b.isOrdered = true → Guise.GoesOver (group ⟨b, g⟩ xs).isRigid g h →
        List.Forall₂ Reordered xs ys →
          Reordered (.group ⟨b, g⟩ xs) (.group ⟨b, h⟩ ys)
  /-- The members of a set are reordered and change places. -/
  | unordered {b : Collection.Base} {g h : Option Guise}
      {xs ys zs : List Value} :
      b.isOrdered = false → Guise.GoesOver (group ⟨b, g⟩ xs).isRigid g h →
        List.Forall₂ Reordered xs zs → zs.Perm ys →
          Reordered (.group ⟨b, g⟩ xs) (.group ⟨b, h⟩ ys)
  /-- The keys and values of a dictionary keep their places. -/
  | dict {g h : Option Guise} {ds es : List (Value × Value)} :
      Guise.GoesOver (dict g ds).isRigid g h →
        List.Forall₂ Reordered (Literal.inTurn ds) (Literal.inTurn es) →
          Reordered (.dict g ds) (.dict h es)
  /-- A node keeps its shape, and its literals are reordered. -/
  | node {m n : Form} :
      m.Corresponds Reordered n → Reordered (.node m) (.node n)

theorem Reordered.refl (v : Value) : v.Reordered v := by
  induction v using Value.induction with
  | scalar s => exact .scalar s
  | bytes bs => exact .bytes bs
  | foreign o other => exact .foreign o other
  | group c items ih =>
    have hitems := List.forall₂_same.mpr ih
    cases hc : c.base.isOrdered with
    | true => exact .ordered hc (.refl _ _) hitems
    | false => exact .unordered hc (.refl _ _) hitems (.refl _)
  | dict guise entries ih =>
    exact .dict (.refl _ _)
      (List.forall₂_same.mpr (Literal.forall_mem_inTurn.mpr ih))
  | node n ih => exact .node (.refl_of ih)

/-- **A value with nothing to reorder in it stays the same.** -/
theorem Reordered.eq_of_isRigid {v w : Value} (h : v.Reordered w)
    (hv : v.isRigid = true) : v = w := by
  induction v using Value.induction generalizing w with
  | scalar s => cases h; rfl
  | bytes bs => cases h; rfl
  | foreign o other => cases h; rfl
  | group c xs ih =>
    have hrigid := hv
    rw [isRigid, Bool.and_eq_true, areRigid_iff] at hrigid
    have hxs : ∀ x ∈ xs, ∀ y, x.Reordered y → x = y :=
      fun x hx _ h => ih x hx h (hrigid.2 x hx)
    cases h with
    | ordered hb hguise hxy =>
      rw [hguise.2 hv, eq_of_forall₂ hxy hxs]
    | unordered hb hguise hxz hperm =>
      obtain rfl := eq_of_forall₂ hxz hxs
      have hlen : xs.length ≤ 1 := by
        simpa [Collection.isOrdered, hb] using hrigid.1
      rw [hguise.2 hv, eq_of_perm_of_length_le hperm hlen]
  | dict guise ds ih =>
    have hds := entriesRigid_iff.mp hv
    cases h with
    | dict hguise hde =>
      have heq := eq_of_forall₂ hde
        (Literal.forall_mem_inTurn.mpr fun d hd =>
          ⟨fun _ h => (ih d hd).1 h (hds d hd).1,
            fun _ h => (ih d hd).2 h (hds d hd).2⟩)
      rw [hguise.2 hv, ← Literal.pairs_inTurn ds, heq,
        Literal.pairs_inTurn]
  | node n ih =>
    have hn := isRigidNode_iff.mp hv
    cases h with
    | node hnm => rw [hnm.eq_of fun v hv _ h => ih v hv h (hn v hv)]

/-! ## Keys that the order does not show in -/

mutual
/-- **A steady value** keeps its key when it is reordered: it is a set of
steady values, or there is nothing to reorder in it. -/
def isSteady : Value → Bool
  | .group c items =>
    if c.isOrdered then areRigid items else areSteady items
  | v => v.isRigid
termination_by structural v => v
/-- Whether all values of a row are steady. -/
def areSteady : List Value → Bool
  | [] => true
  | v :: vs => v.isSteady && areSteady vs
end

theorem areSteady_iff {vs : List Value} :
    areSteady vs = true ↔ ∀ v ∈ vs, v.isSteady = true := by
  induction vs with
  | nil => simp [areSteady]
  | cons v vs ih => simp [areSteady, ih]

theorem memberKey_unordered {c : Collection} (h : c.isOrdered = false)
    (items : List Value) :
    (group c items).memberKey = .members c.typeName
      ((items.map memberKey).mergeSort MemberKey.le) := by
  rw [← memberKeys_eq_map, memberKey, if_neg (by rw [h]; decide)]

/-- **A steady value keeps its key.** -/
theorem Reordered.memberKey_eq {v w : Value} (h : v.Reordered w)
    (hv : v.isSteady = true) : v.memberKey = w.memberKey := by
  induction v using Value.induction generalizing w with
  | group c xs ih =>
    rw [isSteady] at hv
    cases h with
    | @ordered b g _ _ _ hb hguise hxy =>
      rw [Collection.isOrdered, if_pos hb] at hv
      have hrigid : (group ⟨b, g⟩ xs).isRigid = true := by
        rw [isRigid, Collection.isOrdered, hb, hv]
        rfl
      rw [(Reordered.ordered hb hguise hxy).eq_of_isRigid hrigid]
    | @unordered b g h _ ys zs hb hguise hxz hperm =>
      rw [if_neg (by rw [Collection.isOrdered, hb]; decide),
        areSteady_iff] at hv
      have hkeys : xs.map memberKey = zs.map memberKey :=
        map_eq_of_forall₂ hxz fun x hx _ h => ih x hx h (hv x hx)
      have hname : Collection.typeName ⟨b, g⟩ = Collection.typeName ⟨b, h⟩ :=
        congrArg (·.getD b.typeName) hguise.1
      rw [memberKey_unordered (c := ⟨b, g⟩) hb,
        memberKey_unordered (c := ⟨b, h⟩) hb, hname, hkeys,
        MemberKey.mergeSort_eq_of_perm (hperm.map memberKey)]
  | scalar s => rw [h.eq_of_isRigid hv]
  | bytes bs => rw [h.eq_of_isRigid hv]
  | foreign o other => rw [h.eq_of_isRigid hv]
  | dict guise entries => rw [h.eq_of_isRigid hv]
  | node n => rw [h.eq_of_isRigid hv]

/-- Whether no two values of a row have the same key. -/
def keysDiffer (items : List Value) : Bool :=
  decide (items.Pairwise fun v w =>
    v.memberKey.order w.memberKey ≠ .eq)

theorem nodup_of_keysDiffer {items : List Value}
    (h : keysDiffer items = true) : (items.map memberKey).Nodup := by
  rw [List.Nodup, List.pairwise_map]
  refine (of_decide_eq_true h).imp fun hne heq => hne ?_
  rw [heq, MemberKey.order_self]

mutual
/-- **A settled value**: in each of its sets the members are steady and no
two of them have the same key. A single member needs no key. -/
def isSettled : Value → Bool
  | .group c items =>
    (c.isOrdered || decide (items.length ≤ 1)
      || areSteady items && keysDiffer items) && areSettled items
  | .dict _ entries => entriesSettled entries
  | _ => true
termination_by structural v => v
/-- Whether all values of a row are settled. -/
def areSettled : List Value → Bool
  | [] => true
  | v :: vs => v.isSettled && areSettled vs
/-- Whether all keys and values are settled. -/
def entriesSettled : List (Value × Value) → Bool
  | [] => true
  | (k, v) :: es => k.isSettled && v.isSettled && entriesSettled es
end

theorem isSettled_group {c : Collection} {items : List Value} :
    (group c items).isSettled = true
      ↔ (c.isOrdered = true ∨ items.length ≤ 1
          ∨ areSteady items = true ∧ keysDiffer items = true)
        ∧ ∀ v ∈ items, v.isSettled = true := by
  have hall : areSettled items = true
      ↔ ∀ v ∈ items, v.isSettled = true := by
    induction items with
    | nil => simp [areSettled]
    | cons v vs ih => simp [areSettled, ih]
  rw [isSettled, Bool.and_eq_true, hall]
  simp [or_assoc]

theorem isSettled_dict {guise : Option Guise}
    {entries : List (Value × Value)} :
    (dict guise entries).isSettled = true
      ↔ ∀ v ∈ Literal.inTurn entries, v.isSettled = true := by
  rw [Literal.forall_mem_inTurn, isSettled]
  induction entries with
  | nil => simp [entriesSettled]
  | cons e es ih =>
    obtain ⟨k, v⟩ := e
    simp [entriesSettled, ih]

end Value

namespace Literal

/-! ## Rows in the order of the tree -/

theorem inOrder_unordered {c : Collection} (h : c.isOrdered = false)
    (items : List Value) :
    inOrder c items = ((items.map fun v => (v.memberKey, v)).mergeSort
      fun p q => p.1.le q.1).map Prod.snd := by
  rw [inOrder, arranged, if_neg (by rw [h]; decide), List.map_map]
  rfl

/-- **Steady members with different keys come in the same order**, however
they are stored. -/
theorem forall₂_inOrder_of_isSteady {c d : Collection}
    {xs ys zs : List Value} (hc : c.isOrdered = false)
    (hd : d.isOrdered = false)
    (hxz : List.Forall₂ Value.Reordered xs zs) (hperm : zs.Perm ys)
    (hsteady : ∀ x ∈ xs, x.isSteady = true)
    (hkeys : Value.keysDiffer xs = true) :
    List.Forall₂ Value.Reordered (inOrder c xs) (inOrder d ys) := by
  have hsame : List.Forall₂ (fun p q => p.1 = q.1 ∧ p.2.Reordered q.2)
      (xs.map fun v => (v.memberKey, v))
      (zs.map fun v => (v.memberKey, v)) := by
    rw [List.forall₂_map_left_iff, List.forall₂_map_right_iff]
    exact forall₂_imp_of_mem hxz fun x hx _ _ h =>
      ⟨h.memberKey_eq (hsteady x hx), h⟩
  have hnodup : ((zs.map fun v => (v.memberKey, v)).map
      Prod.fst).Nodup := by
    rw [List.map_map]
    show (zs.map Value.memberKey).Nodup
    rw [← map_eq_of_forall₂ hxz fun x hx _ h =>
      h.memberKey_eq (hsteady x hx)]
    exact Value.nodup_of_keysDiffer hkeys
  rw [inOrder_unordered hc, inOrder_unordered hd,
    ← MemberKey.mergeSort_fst_eq_of_perm
      (hperm.map fun v => (v.memberKey, v)) hnodup,
    List.forall₂_map_left_iff, List.forall₂_map_right_iff]
  exact MemberKey.forall₂_mergeSort_fst hsame

/-- **The members of a settled collection come in the same order.** -/
theorem forall₂_inOrder {c d : Collection} {xs ys : List Value}
    (h : (Value.group c xs).Reordered (.group d ys))
    (hxs : (Value.group c xs).isSettled = true) :
    List.Forall₂ Value.Reordered (inOrder c xs) (inOrder d ys) := by
  have hcases := (Value.isSettled_group.mp hxs).1
  cases h with
  | @ordered b g h _ _ hb _ hxy =>
    rw [inOrder_of_isOrdered (c := ⟨b, g⟩) hb,
      inOrder_of_isOrdered (c := ⟨b, h⟩) hb]
    exact hxy
  | @unordered b g h _ _ _ hb _ hxz hperm =>
    rcases hcases with hb' | hlen | ⟨hsteady, hkeys⟩
    · rw [Collection.isOrdered, hb] at hb'
      cases hb'
    · -- one member is in order wherever it stands
      have hlen' := hlen
      rw [hxz.length_eq] at hlen'
      have hxs := (inOrder_perm ⟨b, g⟩ xs).symm
      have hys := hperm.trans (inOrder_perm ⟨b, h⟩ ys).symm
      rw [← eq_of_perm_of_length_le hys hlen',
        ← eq_of_perm_of_length_le hxs hlen]
      exact hxz
    · exact forall₂_inOrder_of_isSteady hb hb hxz hperm
        (Value.areSteady_iff.mp hsteady) hkeys

/-- In the form of a set of two the smaller key comes first. -/
theorem toForm_pair {separator : Text} {c : Collection} {v w : Value}
    {n m : Form} (hc : c.isOrdered = false)
    (hn : toForm separator v = .ok n) (hm : toForm separator w = .ok m) :
    toForm separator (.group c [v, w])
      = .ok (.branch .set (if v.memberKey.le w.memberKey = true
        then [n, .whitespace separator, m]
        else [m, .whitespace separator, n])) := by
  have hsorted : inOrder c [v, w]
      = if v.memberKey.le w.memberKey = true then [v, w] else [w, v] := by
    rw [inOrder_unordered hc]
    by_cases hle : v.memberKey.le w.memberKey = true <;>
      simp [List.mergeSort, List.MergeSort.Internal.splitInTwo, hle]
  rw [toForm_group, hsorted, kindOf_of_not_isOrdered hc]
  split
  · simp only [List.map_cons, List.map_nil, hn, hm]
    rfl
  · simp only [List.map_cons, List.map_nil, hn, hm]
    rfl

/-! ## The forms of reordered values -/

section Forms

variable {separator : Text} {v w : Value} {n m : Form}

/-- A branch can be made of a row of values exactly if each of them has a
form. -/
theorem exists_map_collect_iff {k : Composite} {vs : List Value} :
    (∃ n, (collect (vs.map (toForm separator))).map
        (fun ns => Node.branch k (Node.spaced separator ns)) = .ok n)
      ↔ ∀ v ∈ vs, ∃ n, toForm separator v = .ok n := by
  constructor
  · rintro ⟨n, h⟩ v hv
    obtain ⟨ns, -, hns⟩ := exists_of_map_collect h
    obtain ⟨m, -, hm⟩ := exists_mem_of_forall₂ hns hv
    exact ⟨m, hm⟩
  · intro h
    cases hc : collect (vs.map (toForm separator)) with
    | ok ns => exact ⟨_, rfl⟩
    | error e =>
      obtain ⟨v, hv, he⟩ := exists_of_collect_eq_error hc
      obtain ⟨n, hn⟩ := h v hv
      rw [hn] at he
      cases he

theorem exists_form_group {c : Collection} {items : List Value} :
    (∃ n, toForm separator (.group c items) = .ok n)
      ↔ ∀ v ∈ items, ∃ n, toForm separator v = .ok n := by
  rw [toForm_group, exists_map_collect_iff]
  exact forall_congr' fun v =>
    imp_congr_left (inOrder_perm c items).mem_iff

theorem exists_form_dict {guise : Option Guise}
    {entries : List (Value × Value)} :
    (∃ n, toForm separator (.dict guise entries) = .ok n)
      ↔ ∀ v ∈ inTurn entries, ∃ n, toForm separator v = .ok n := by
  rw [toForm_dict, exists_map_collect_iff]

/-- **Whether there is a form does not depend on the order.** -/
theorem exists_form_of_reordered (h : v.Reordered w) :
    (∃ n, toForm separator v = .ok n)
      ↔ ∃ m, toForm separator w = .ok m := by
  induction v using Value.induction generalizing w with
  | scalar s => cases h; rfl
  | bytes bs => cases h; rfl
  | foreign o other => cases h; rfl
  | node n =>
    cases h
    exact ⟨fun _ => ⟨_, rfl⟩, fun _ => ⟨_, rfl⟩⟩
  | group c xs ih =>
    cases h with
    | ordered _ _ hxy =>
      rw [exists_form_group, exists_form_group]
      exact forall_mem_iff_of_forall₂ hxy fun x hx _ h => ih x hx h
    | unordered _ _ hxz hperm =>
      rw [exists_form_group, exists_form_group,
        forall_mem_iff_of_forall₂ hxz fun x hx _ h => ih x hx h]
      exact forall_congr' fun z => imp_congr_left hperm.mem_iff
  | dict guise ds ih =>
    cases h with
    | dict _ hde =>
      rw [exists_form_dict, exists_form_dict]
      refine forall_mem_iff_of_forall₂ hde ?_
      exact forall_mem_inTurn.mpr fun d hd =>
        ⟨fun _ h => (ih d hd).1 h, fun _ h => (ih d hd).2 h⟩

theorem corresponds_spaced {R : Value → Value → Prop} {ns ms : List Form}
    (h : List.Forall₂ (Node.Corresponds R) ns ms) :
    List.Forall₂ (Node.Corresponds R) (Node.spaced separator ns)
      (Node.spaced separator ms) := by
  induction h with
  | nil => exact .nil
  | @cons n m ns ms hnm hrest ih =>
    cases hrest with
    | nil => exact .cons hnm .nil
    | cons hnm' hrest =>
      rw [Node.spaced_cons_cons, Node.spaced_cons_cons]
      exact .cons hnm (.cons (.whitespace separator) ih)

/-- Rows whose forms correspond make branches that correspond. -/
theorem corresponds_of_map_collect {k : Composite} {xs ys : List Value}
    (hxy : List.Forall₂ Value.Reordered xs ys)
    (hforms : ∀ x ∈ xs, ∀ {y n m}, x.Reordered y →
      toForm separator x = .ok n → toForm separator y = .ok m →
      n.Corresponds Value.Reordered m)
    (hn : (collect (xs.map (toForm separator))).map
      (fun ns => Node.branch k (Node.spaced separator ns)) = .ok n)
    (hm : (collect (ys.map (toForm separator))).map
      (fun ns => Node.branch k (Node.spaced separator ns)) = .ok m) :
    n.Corresponds Value.Reordered m := by
  obtain ⟨ns, rfl, hns⟩ := exists_of_map_collect hn
  obtain ⟨ms, rfl, hms⟩ := exists_of_map_collect hm
  refine .branch k (corresponds_spaced ?_)
  have hnx : List.Forall₂
      (fun n x => x ∈ xs ∧ toForm separator x = .ok n) ns xs :=
    forall₂_imp_of_mem hns.flip fun n _ x hx h => ⟨hx, h⟩
  have hny : List.Forall₂ (fun n y => ∀ m, toForm separator y = .ok m →
      n.Corresponds Value.Reordered m) ns ys :=
    forall₂_comp hnx hxy fun n _ x y hx h m => hforms x hx.1 h hx.2
  exact forall₂_comp hny hms fun n _ y m h hm => h m hm

/-- **Settled values have corresponding forms** in every order. -/
theorem corresponds_of_reordered (h : v.Reordered w)
    (hv : v.isSettled = true) (hn : toForm separator v = .ok n)
    (hm : toForm separator w = .ok m) :
    n.Corresponds Value.Reordered m := by
  induction v using Value.induction generalizing w n m with
  | scalar s =>
    cases h
    cases hn
    cases hm
    exact .token (.scalar s)
  | bytes bs => cases hn
  | foreign o other => cases hn
  | node n =>
    cases h with
    | node hnm =>
      cases hn
      cases hm
      exact hnm
  | group c xs ih =>
    have hxs := (Value.isSettled_group.mp hv).2
    have hitems : ∀ x ∈ inOrder c xs, ∀ {y n m}, x.Reordered y →
        toForm separator x = .ok n → toForm separator y = .ok m →
        n.Corresponds Value.Reordered m := by
      intro x hx y n m h
      rw [(inOrder_perm c xs).mem_iff] at hx
      exact ih x hx h (hxs x hx)
    obtain ⟨d, ys, hkind, rfl⟩ :
        ∃ d ys, kindOf d = kindOf c ∧ w = .group d ys := by
      cases h with
      | @ordered b _ h => exact ⟨⟨b, h⟩, _, rfl, rfl⟩
      | @unordered b _ h => exact ⟨⟨b, h⟩, _, rfl, rfl⟩
    rw [toForm_group] at hn hm
    rw [hkind] at hm
    exact corresponds_of_map_collect (forall₂_inOrder h hv) hitems hn hm
  | dict guise ds ih =>
    have hds := Value.isSettled_dict.mp hv
    cases h with
    | dict _ hde =>
      rw [toForm_dict] at hn hm
      refine corresponds_of_map_collect hde (fun x hx => ?_) hn hm
      obtain ⟨d, hd, rfl | rfl⟩ := mem_inTurn.mp hx
      · exact fun h => (ih d hd).1 h (hds _ hx)
      · exact fun h => (ih d hd).2 h (hds _ hx)

/-- The tokens of a form have nothing to reorder in them, if they do not
come in from outside. -/
theorem isRigid_of_toForm (hv : v.isNodeFree = true)
    (h : toForm separator v = .ok n) : ∀ u ∈ n.tokens, u.isRigid = true := by
  refine toForm_induction
    (P := fun n => ∀ u ∈ n.tokens, u.isRigid = true)
    (fun s u hu => ?_) (fun k ns hns u hu => ?_) hv h
  · rw [List.mem_singleton.mp hu]
    rfl
  · obtain ⟨c, hc, hu⟩ := Node.mem_tokens_branch.mp hu
    rcases Node.mem_spaced hc with hc | rfl
    · exact hns c hc u hu
    · cases hu

end Forms

/-- **The form of a value does not depend on the order of its sets.**
There is a form in every order or in none. If the value is settled, the
form is the same in every order, up to the order of the sets in the tokens
of nodes that were there before; without such nodes it is the same
form. -/
theorem toForm_of_reordered (separator : Text) {v w : Value}
    (h : v.Reordered w) :
    ((∃ n, toForm separator v = .ok n)
        ↔ ∃ m, toForm separator w = .ok m)
      ∧ (v.isSettled = true → ∀ n m, toForm separator v = .ok n →
        toForm separator w = .ok m →
          n.Corresponds Value.Reordered m
            ∧ (v.isNodeFree = true → n = m)) := by
  refine ⟨exists_form_of_reordered h, fun hv n m hn hm => ?_⟩
  have hnm := corresponds_of_reordered h hv hn hm
  refine ⟨hnm, fun hfree => hnm.eq_of fun u hu _ hur => ?_⟩
  exact hur.eq_of_isRigid (isRigid_of_toForm hfree hn u hu)

/-- A set with a frozen set in it, both stored the other way round. -/
theorem toForm_of_reordered_nested :
    ∃ n, toForm " " (.group .set
        [.group .frozenset [.int 1, .int 2], .int 3]) = .ok n
      ∧ toForm " " (.group .set
        [.int 3, .group .frozenset [.int 2, .int 1]]) = .ok n := by
  have hinner : (Value.group .frozenset [.int 1, .int 2]).Reordered
      (.group .frozenset [.int 2, .int 1]) :=
    .unordered rfl (.refl _ _) (.cons (.refl _) (.cons (.refl _) .nil))
      (.swap _ _ _)
  have h : (Value.group .set
        [.group .frozenset [.int 1, .int 2], .int 3]).Reordered
      (.group .set [.int 3, .group .frozenset [.int 2, .int 1]]) :=
    .unordered rfl (.refl _ _) (.cons hinner (.cons (.refl _) .nil))
      (.swap _ _ _)
  have hsame := toForm_of_reordered " " h
  obtain ⟨n, hn⟩ : ∃ n, toForm " " (.group .set
      [.group .frozenset [.int 1, .int 2], .int 3]) = .ok n :=
    ⟨_, toForm_pair rfl (toForm_pair rfl rfl rfl) rfl⟩
  obtain ⟨m, hm⟩ := hsame.1.mp ⟨n, hn⟩
  obtain rfl := (hsame.2 (by decide) n m hn hm).2 rfl
  exact ⟨n, hn, hm⟩

/-- **Printed sets let the order in.** Two tuples with a frozen set each
are sorted by how these are printed: if one of them is turned round, the
tuples change places. -/
theorem form_depends_on_order :
    ∃ v w n m, v.isBuildable = true ∧ v.Reordered w
      ∧ toForm " " v = .ok n ∧ toForm " " w = .ok m
      ∧ (Value.node n).equal (.node m) = false := by
  have hinner : (Value.tuple [.group .frozenset [.int 1, .int 9]]).Reordered
      (.tuple [.group .frozenset [.int 9, .int 1]]) :=
    .ordered rfl (.refl _ _) (.cons (.unordered rfl (.refl _ _)
      (.cons (.refl _) (.cons (.refl _) .nil)) (.swap _ _ _)) .nil)
  have htuple : ∀ a b : Int,
      toForm " " (.tuple [.group .frozenset [.int a, .int b]])
        = .ok (.branch .list [.branch .set
          (if (Value.int a).memberKey.le (Value.int b).memberKey = true
            then [.token (.int a), .whitespace " ", .token (.int b)]
            else [.token (.int b), .whitespace " ", .token (.int a)])]) := by
    intro a b
    rw [toForm_group, inOrder_of_isOrdered rfl, List.map_singleton,
      toForm_pair rfl rfl rfl]
    rfl
  refine ⟨_, _, _, _, ?_, .unordered (b := .set) rfl
      (.refl _ none) (.cons hinner (.cons (.refl _) .nil)) (.refl _),
    toForm_pair rfl (htuple 1 9) (htuple 5 6),
    toForm_pair rfl (htuple 9 1) (htuple 5 6), ?_⟩
  · decide
  · decide

end Literal

end FormTree
