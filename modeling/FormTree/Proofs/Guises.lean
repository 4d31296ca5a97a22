import FormTree.Proofs.Likeness

/-!
# Values without their guises

A tree has one form for tuples and none for the classes derived from them,
so what is read from it is a tuple, whatever was written. The same goes
for the other collections and for dictionaries. What can come back of a
value is what it is when its containers are **stripped** of their guises
(`Value.stripped`); scalars are held by their tokens and keep theirs. The
values that do come back are **canonical**: their containers have no
guise, and their sets are frozen (`Value.isCanonical`).

Giving up the guises loses nothing that comparing or hashing could tell. A
value is equal to the stripped one, on either side, and that one is
hashable if the value is. Hence the members of a set still make one when
they are stripped (`Value.isMemberRow_stripped`).
-/

namespace FormTree

namespace Collection

/-- A sort of collections stripped of its guise. -/
def stripped (c : Collection) : Collection := ⟨c.base, none⟩

/-- Whether a collection has no guise and is not a set that may change. -/
def isCanonical (c : Collection) : Bool :=
  c.guise.isNone && decide (c.base ≠ .set)

theorem isCanonical_iff {c : Collection} :
    c.isCanonical = true ↔ c.guise = none ∧ c.base ≠ .set := by
  rw [isCanonical, Bool.and_eq_true, decide_eq_true_iff,
    Option.isNone_iff_eq_none]

end Collection

namespace Value

/-! ## Stripped values -/

mutual
/-- **A value stripped of the guises of its containers.** -/
def stripped : Value → Value
  | .group c items => .group c.stripped (strippedItems items)
  | .dict _ entries => .dict none (strippedEntries entries)
  | v => v
termination_by structural v => v
/-- A row of values stripped of their guises. -/
def strippedItems : List Value → List Value
  | [] => []
  | v :: vs => v.stripped :: strippedItems vs
/-- The entries of a dictionary stripped of their guises. -/
def strippedEntries : List (Value × Value) → List (Value × Value)
  | [] => []
  | (k, v) :: es => (k.stripped, v.stripped) :: strippedEntries es
end

theorem stripped_group (c : Collection) (items : List Value) :
    (group c items).stripped = .group c.stripped (items.map stripped) := by
  have hitems : strippedItems items = items.map stripped := by
    induction items with
    | nil => rfl
    | cons v vs ih => rw [strippedItems, ih, List.map_cons]
  rw [stripped, hitems]

theorem stripped_dict (guise : Option Guise)
    (entries : List (Value × Value)) :
    (dict guise entries).stripped
      = .dict none (entries.map fun e => (e.1.stripped, e.2.stripped)) := by
  have hentries : strippedEntries entries
      = entries.map fun e => (e.1.stripped, e.2.stripped) := by
    induction entries with
    | nil => rfl
    | cons e es ih =>
      obtain ⟨k, v⟩ := e
      rw [strippedEntries, ih, List.map_cons]
  rw [stripped, hentries]

/-- **A value is equal to the stripped one**, on either side. -/
theorem eqv_stripped (v : Value) :
    v.eqv true v.stripped = true ∧ v.stripped.eqv true v = true := by
  induction v using Value.induction with
  | group c items ih =>
    rw [stripped_group]
    cases hc : c.isOrdered with
    | true =>
      refine ⟨(eqv_ordered hc).mpr ⟨_, _, rfl, rfl, ?_⟩,
        (eqv_ordered (c := c.stripped) hc).mpr ⟨_, _, rfl, rfl, ?_⟩⟩
      · rw [List.forall₂_map_right_iff]
        exact List.forall₂_same.mpr fun v hv => (ih v hv).1
      · rw [List.forall₂_map_left_iff]
        exact List.forall₂_same.mpr fun v hv => (ih v hv).2
    | false =>
      refine ⟨(eqv_unordered hc).mpr
          ⟨_, _, rfl, hc, List.length_map _ |>.symm, fun v hv => ?_⟩,
        (eqv_unordered (c := c.stripped) hc).mpr
          ⟨_, _, rfl, hc, List.length_map _,
            List.forall_mem_map.mpr fun v hv => ?_⟩⟩
      · exact ⟨v.stripped, List.mem_map_of_mem hv, (ih v hv).1⟩
      · exact ⟨v, hv, (ih v hv).2⟩
  | dict guise entries ih =>
    rw [stripped_dict]
    refine ⟨eqv_dict.mpr
        ⟨_, _, rfl, List.length_map _ |>.symm, fun e he => ?_⟩,
      eqv_dict.mpr ⟨_, _, rfl, List.length_map _,
        List.forall_mem_map.mpr fun e he => ?_⟩⟩
    · exact ⟨_, List.mem_map_of_mem he, (ih e he).1.1, (ih e he).2.1⟩
    · exact ⟨e, he, (ih e he).1.2, (ih e he).2.2⟩
  | _ => exact ⟨eqv_refl _, eqv_refl _⟩

theorem hashFault?_tuple {c : Collection} (hc : c.base = .tuple)
    {items : List Value} :
    (group c items).hashFault? = none
      ↔ ∀ v ∈ items, v.hashFault? = none := by
  rw [hashFault?, hc, hashFaultIn?_eq_findSome?,
    List.findSome?_eq_none_iff]

/-- **A hashable value is hashable when it is stripped.** -/
theorem hashFault?_stripped {v : Value} (h : v.hashFault? = none) :
    v.stripped.hashFault? = none := by
  induction v using Value.induction with
  | group c items ih =>
    rw [stripped_group]
    cases hc : c.base with
    | tuple =>
      rw [hashFault?_tuple (c := c.stripped) hc]
      refine List.forall_mem_map.mpr fun v hv => ?_
      exact ih v hv ((hashFault?_tuple hc).mp h v hv)
    | frozenset => rw [hashFault?, Collection.stripped, hc]
    | list => rw [hashFault?, hc] at h; cases h
    | set => rw [hashFault?, hc] at h; cases h
  | dict guise entries => cases h
  | _ => exact h

/-- **The members of a set make one when they are stripped.** -/
theorem isMemberRow_stripped {xs : List Value} (h : isMemberRow xs = true) :
    isMemberRow (xs.map stripped) = true := by
  obtain ⟨hhash, hpair⟩ := isMemberRow_iff.mp h
  refine isMemberRow_iff.mpr ⟨List.forall_mem_map.mpr fun x hx =>
    hashFault?_stripped (hhash x hx), List.pairwise_map.mpr ?_⟩
  refine hpair.imp fun {x x'} hne => Bool.eq_false_iff.mpr fun heq => ?_
  -- what is equal now was equal before
  have hback := eqv_trans (eqv_stripped x).1
    (eqv_trans heq (eqv_stripped x').2)
  rw [hne] at hback
  cases hback

/-! ## Canonical values -/

mutual
/-- **A canonical value**: its containers have no guise, and its sets are
frozen. -/
def isCanonical : Value → Bool
  | .group c items => c.isCanonical && areCanonical items
  | .dict guise entries => guise.isNone && entriesCanonical entries
  | _ => true
termination_by structural v => v
/-- Whether every value of a row is canonical. -/
def areCanonical : List Value → Bool
  | [] => true
  | v :: vs => v.isCanonical && areCanonical vs
/-- Whether the keys and values of all entries are canonical. -/
def entriesCanonical : List (Value × Value) → Bool
  | [] => true
  | (k, v) :: es => k.isCanonical && v.isCanonical && entriesCanonical es
end

theorem isCanonical_group {c : Collection} {items : List Value} :
    (group c items).isCanonical = true
      ↔ c.isCanonical = true ∧ ∀ v ∈ items, v.isCanonical = true := by
  have hall : areCanonical items = true
      ↔ ∀ v ∈ items, v.isCanonical = true := by
    induction items with
    | nil => simp [areCanonical]
    | cons v vs ih => simp [areCanonical, ih]
  rw [isCanonical, Bool.and_eq_true, hall]

theorem isCanonical_dict {guise : Option Guise}
    {entries : List (Value × Value)} :
    (dict guise entries).isCanonical = true
      ↔ guise = none ∧ ∀ e ∈ entries,
        e.1.isCanonical = true ∧ e.2.isCanonical = true := by
  have hall : entriesCanonical entries = true
      ↔ ∀ e ∈ entries, e.1.isCanonical = true
        ∧ e.2.isCanonical = true := by
    induction entries with
    | nil => simp [entriesCanonical]
    | cons e es ih =>
      obtain ⟨k, v⟩ := e
      simp [entriesCanonical, ih]
  rw [isCanonical, Bool.and_eq_true, Option.isNone_iff_eq_none, hall]

/-- There is nothing to strip a canonical value of. -/
theorem stripped_of_isCanonical {v : Value} (h : v.isCanonical = true) :
    v.stripped = v := by
  induction v using Value.induction with
  | group c items ih =>
    obtain ⟨hc, hitems⟩ := isCanonical_group.mp h
    obtain ⟨base, guise⟩ := c
    obtain rfl := (Collection.isCanonical_iff.mp hc).1
    rw [stripped_group,
      List.map_congr_left fun v hv => ih v hv (hitems v hv), List.map_id']
    rfl
  | dict guise entries ih =>
    obtain ⟨rfl, hentries⟩ := isCanonical_dict.mp h
    have hmap : entries.map (fun e => (e.1.stripped, e.2.stripped))
        = entries.map id := List.map_congr_left fun e he => by
      rw [(ih e he).1 (hentries e he).1, (ih e he).2 (hentries e he).2]
      rfl
    rw [stripped_dict, hmap, List.map_id]
  | _ => rfl

/-- **What is like a hashable value is hashable**, as long as it is
canonical. -/
theorem Like.hashFault? {v w : Value} (h : v.Like w)
    (hw : w.isCanonical = true) (hv : v.hashFault? = none) :
    w.hashFault? = none := by
  induction v using Value.induction generalizing w with
  | group c xs ih =>
    cases h with
    | ordered hc hxy =>
      obtain ⟨-, hcanonical⟩ := isCanonical_group.mp hw
      cases hbase : c.base with
      | tuple =>
        rw [hashFault?_tuple hbase] at hv ⊢
        intro y hy
        obtain ⟨x, hx, hlike⟩ := exists_mem_of_forall₂_right hxy hy
        exact ih x hx hlike (hcanonical y hy) (hv x hx)
      | list => rw [Value.hashFault?, hbase] at hv; cases hv
      | set => rw [Collection.isOrdered, hbase] at hc; cases hc
      | frozenset => rw [Collection.isOrdered, hbase] at hc; cases hc
    | @unordered _ d _ _ _ _ hd =>
      have hset := (Collection.isCanonical_iff.mp
        (isCanonical_group.mp hw).1).2
      cases hbase : d.base with
      | frozenset => rw [Value.hashFault?, hbase]
      | set => exact absurd hbase hset
      | tuple => rw [Collection.isOrdered, hbase] at hd; cases hd
      | list => rw [Collection.isOrdered, hbase] at hd; cases hd
  | scalar s =>
    cases h with
    | scalar => rfl
  | dict guise ds => cases hv
  | _ => cases h

end Value

end FormTree
