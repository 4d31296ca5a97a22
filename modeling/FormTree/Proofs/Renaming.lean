import FormTree.Proofs.Surface

/-!
# Renaming in a loop

To rename a literal throughout a tree one searches for it, replaces it,
and goes on searching from there until nothing is found. The loop walks
through a tree that it is changing: the frames around the cursor are out
of date by then, the search tests the place that has just been replaced
once more, and it is not obvious that the rounds come to an end, nor that
none of the earlier replacements is lost.

They are not. What lies ahead of a place does not depend on the token at
the place, so a round leaves the rest of the walk as it was, and the
occurrences ahead become one fewer. At the beginning all occurrences of
the tree are ahead; each round takes one off both numbers, and when none
is ahead there is none in the tree. That the tree is then the renamed one
follows because replacing an occurrence does not change what renaming the
tree gives.
-/

namespace FormTree

namespace Node

variable {α : Type}

/-! ## The nodes of a tree -/

mutual
/-- **All nodes of a tree** in document order, the root first. -/
def nodes : Node α → List (Node α)
  | .branch k cs => .branch k cs :: nodesIn cs
  | n => [n]
termination_by structural n => n
/-- All nodes of a row of trees. -/
def nodesIn : List (Node α) → List (Node α)
  | [] => []
  | n :: ns => n.nodes ++ nodesIn ns
end

/-- The nodes of a tree are the root and those below it. -/
theorem nodes_eq_cons (n : Node α) : n.nodes = n :: nodesIn n.children := by
  cases n <;> rfl

theorem nodesIn_append (ns ms : List (Node α)) :
    nodesIn (ns ++ ms) = nodesIn ns ++ nodesIn ms := by
  induction ns with
  | nil => rfl
  | cons n ns ih =>
    rw [List.cons_append, nodesIn, nodesIn, ih, List.append_assoc]

theorem mem_nodesIn {ns : List (Node α)} {m n : Node α} (hn : n ∈ ns)
    (hm : m ∈ n.nodes) : m ∈ nodesIn ns := by
  induction ns with
  | nil => cases hn
  | cons n' ns ih =>
    rw [nodesIn, List.mem_append]
    cases hn with
    | head => exact .inl hm
    | tail _ hn => exact .inr (ih hn)

mutual
/-- **A tree with other tokens**: a function is applied to what every
token holds, and all else stays. -/
def mapTokens (f : α → α) : Node α → Node α
  | .token v => .token (f v)
  | .branch k cs => .branch k (mapTokensIn f cs)
  | n => n
termination_by structural n => n
/-- The same for every tree of a row. -/
def mapTokensIn (f : α → α) : List (Node α) → List (Node α)
  | [] => []
  | n :: ns => n.mapTokens f :: mapTokensIn f ns
end

theorem mapTokensIn_eq (f : α → α) (ns : List (Node α)) :
    mapTokensIn f ns = ns.map (mapTokens f) := by
  induction ns with
  | nil => rfl
  | cons n ns ih => rw [mapTokensIn, ih, List.map_cons]

/-- A function that changes nothing in the tokens of a tree does not
change the tree. -/
theorem mapTokens_eq_self {f : α → α} {n : Node α}
    (h : ∀ v, .token v ∈ n.nodes → f v = v) : n.mapTokens f = n := by
  induction n using Node.induction with
  | token v => rw [mapTokens, h v (.head _)]
  | branch k cs ih =>
    rw [mapTokens, mapTokensIn_eq]
    refine congrArg (branch k) ((List.map_congr_left ?_).trans cs.map_id)
    intro c hc
    exact ih c hc fun v hv => h v (.tail _ (mem_nodesIn hc hv))
  | _ => rfl

end Node

namespace Place

/-! ## The nodes ahead of a place -/

/-- The places in a row are at the nodes of the row, as soon as this holds
inside every child. -/
theorem map_focus_insideRow {k : Composite} {outer : List Level}
    {lefts ns : List Form}
    (h : ∀ n ∈ ns, ∀ levels, (inside levels n).map focus
      = Node.nodesIn n.children) :
    (insideRow k outer lefts ns).map focus = Node.nodesIn ns := by
  induction ns generalizing lefts with
  | nil => rfl
  | cons n ns ih =>
    have hhead := h n List.mem_cons_self (⟨k, lefts, ns⟩ :: outer)
    have htail : (insideRow k outer (n :: lefts) ns).map focus
        = Node.nodesIn ns := ih fun m hm => h m (List.mem_cons_of_mem n hm)
    rw [insideRow, List.map_cons, List.map_append, hhead, htail,
      Node.nodesIn, Node.nodes_eq_cons, List.cons_append]

/-- **The places inside a node are at the nodes below it.** -/
theorem map_focus_inside (levels : List Level) (n : Form) :
    (inside levels n).map focus = Node.nodesIn n.children := by
  induction n using Node.induction generalizing levels with
  | branch k cs ih =>
    exact map_focus_insideRow fun n hn levels => ih n hn levels
  | _ => rfl

/-- **What comes after everything in a node does not depend on the
node**: it is what stands to the right of it at every level. -/
theorem map_focus_beyond (levels : List Level) (n : Form) :
    (beyond levels n).map focus
      = levels.flatMap fun l => Node.nodesIn l.rights := by
  induction levels generalizing n with
  | nil => rfl
  | cons l outer ih =>
    rw [beyond, List.map_append, ih, List.flatMap_cons,
      map_focus_insideRow fun m _ levels => map_focus_inside levels m]

/-- A place further on has ahead of it what comes after it on the way. -/
theorem following_of_append {z y : Place} {as bs : List Place}
    (h : z :: z.following = as ++ y :: bs) : bs = y.following := by
  have hz : Exhausts (stepping .next) z (z :: z.following) :=
    exhausts_next z
  rw [h] at hz
  have heq := hz.of_append.unique (exhausts_next y)
  injection heq

/-! ## Occurrences -/

/-- Whether a node is a token with a literal in it. -/
def occurs (old : Value) (n : Form) : Bool := (Wanted.literal old).passes n

theorem occurs_token (old v : Value) :
    occurs old (.token v) = v.sameLiteral old := rfl

theorem occurs_branch (old : Value) (k : Composite) (cs : List Form) :
    occurs old (.branch k cs) = false := rfl

theorem exists_of_occurs {old : Value} {n : Form}
    (h : occurs old n = true) :
    ∃ v, n = .token v ∧ v.sameLiteral old = true := by
  cases n with
  | token v => exact ⟨v, rfl, h⟩
  | _ => cases h

/-- **The number of occurrences of a literal** in a tree. -/
def occurrences (old : Value) (t : Form) : Nat :=
  t.nodes.countP (occurs old)

theorem occurrences_token (old v : Value) :
    occurrences old (.token v) = if v.sameLiteral old then 1 else 0 := by
  rw [occurrences, Node.nodes_eq_cons, List.countP_cons, occurs_token]
  exact Nat.zero_add _

/-- The number of occurrences at a place and ahead of it. -/
def occurrencesFrom (old : Value) (z : Place) : Nat :=
  ((z :: z.following).map focus).countP (occurs old)

theorem occurrencesFrom_root (old : Value) (t : Form) :
    occurrencesFrom old ⟨t, []⟩ = occurrences old t := by
  have hwalk : (⟨t, []⟩ :: following ⟨t, []⟩ : List Place).map focus
      = t.nodes := by
    rw [following, beyond, List.append_nil, List.map_cons,
      map_focus_inside, ← Node.nodes_eq_cons]
  rw [occurrencesFrom, hwalk]
  rfl

/-- What is ahead of a token stays the same when the token is replaced. -/
theorem occurrencesFrom_token (old v : Value) (levels : List Level) :
    occurrencesFrom old ⟨.token v, levels⟩
      = ((levels.flatMap fun l => Node.nodesIn l.rights).countP (occurs old)
        + if v.sameLiteral old then 1 else 0) := by
  have hahead : (following ⟨.token v, levels⟩).map focus
      = levels.flatMap fun l => Node.nodesIn l.rights :=
    map_focus_beyond levels (.token v)
  rw [occurrencesFrom, List.map_cons, hahead, List.countP_cons,
    occurs_token]

/-- The number of occurrences of a tree changes as it does at a place of
the tree. -/
theorem occurrences_fillAll (old : Value) (levels : List Level)
    (n m : Form) :
    occurrences old (fillAll levels n) + occurrences old m
      = occurrences old (fillAll levels m) + occurrences old n := by
  induction levels generalizing n m with
  | nil =>
    rw [fillAll, fillAll]
    exact Nat.add_comm _ _
  | cons l outer ih =>
    have hfill : ∀ n, occurrences old (l.fill n)
        = (Node.nodesIn l.lefts.reverse).countP (occurs old)
          + (occurrences old n
            + (Node.nodesIn l.rights).countP (occurs old)) := by
      intro n
      rw [occurrences, Level.fill, Node.nodes, List.countP_cons,
        occurs_branch, Level.row, Node.nodesIn_append, Node.nodesIn,
        List.countP_append, List.countP_append]
      rfl
    have hn := hfill n
    have hm := hfill m
    have houter := ih (l.fill n) (l.fill m)
    rw [fillAll, fillAll]
    omega

/-! ## One round -/

/-- **A search for a literal ends at the next occurrence.** Tokens are
significant, so none of them is passed over. -/
theorem search_literal_eq (cfg : Config) (old : Value) (z : Place) :
    z.search cfg (.literal old) .next
      = (z :: z.following).find? fun y => occurs old y.focus := by
  have hsig : ∀ y : Place,
      (y.isSignificant cfg && occurs old y.focus) = occurs old y.focus := by
    intro y
    cases hy : occurs old y.focus with
    | false => exact Bool.and_false _
    | true =>
      obtain ⟨v, hv, -⟩ := exists_of_occurs hy
      rw [isSignificant, hv]
      rfl
  show List.find? _ (z :: z.following.filter (isSignificant cfg)) = _
  rw [List.find?_cons, List.find?_cons, List.find?_filter]
  have hrest : (fun y => decide (y.isSignificant cfg = true
        ∧ occurs old y.focus = true))
      = fun y : Place => occurs old y.focus := by
    funext y
    rw [Bool.decide_and, Bool.decide_eq_true, Bool.decide_eq_true, hsig]
  rw [← hrest]
  rfl

/-- Where nothing is found nothing is ahead. -/
theorem occurrencesFrom_of_search_eq_none {cfg : Config} {old : Value}
    {z : Place} (h : z.search cfg (.literal old) .next = none) :
    occurrencesFrom old z = 0 := by
  rw [search_literal_eq, List.find?_eq_none] at h
  rw [occurrencesFrom, List.countP_map, List.countP_eq_zero]
  exact h

/-- **Where an occurrence is found it is the first one ahead.** -/
theorem exists_of_search_literal {cfg : Config} {old : Value}
    {z y : Place} (h : z.search cfg (.literal old) .next = some y) :
    y.whole = z.whole ∧ occurrencesFrom old y = occurrencesFrom old z
      ∧ ∃ v, y.focus = .token v ∧ v.sameLiteral old = true := by
  have hwhole := (search_cases rfl h).1
  rw [search_literal_eq, List.find?_eq_some_iff_append] at h
  obtain ⟨hy, as, bs, heq, hskipped⟩ := h
  obtain rfl := following_of_append heq
  refine ⟨hwhole, ?_, exists_of_occurs hy⟩
  have hnone : (as.map focus).countP (occurs old) = 0 := by
    rw [List.countP_map, List.countP_eq_zero]
    intro a ha hoccurs
    have hnot := hskipped a ha
    rw [show occurs old a.focus = true from hoccurs] at hnot
    cases hnot
  unfold occurrencesFrom
  rw [heq, List.map_append, List.countP_append, hnone, Nat.zero_add]

end Place

/-- **What a token holds after renaming.** -/
def Literal.renamed (old new v : Value) : Value :=
  if v.sameLiteral old then new else v

namespace Place

/-- Renaming a tree does not depend on whether an occurrence in it has
been renamed already. -/
theorem mapTokens_fillAll (f : Value → Value) (levels : List Level)
    {n m : Form} (h : n.mapTokens f = m.mapTokens f) :
    (fillAll levels n).mapTokens f = (fillAll levels m).mapTokens f := by
  induction levels generalizing n m with
  | nil => exact h
  | cons l outer ih =>
    refine ih ?_
    rw [Level.fill, Level.fill, Node.mapTokens, Node.mapTokens,
      Node.mapTokensIn_eq, Node.mapTokensIn_eq, Level.row, Level.row,
      List.map_append, List.map_append, List.map_cons, List.map_cons, h]

/-- A tree without an occurrence stays the same when it is renamed. -/
theorem mapTokens_of_occurrences_eq_zero {old : Value} (new : Value)
    {t : Form} (h : occurrences old t = 0) :
    t.mapTokens (Literal.renamed old new) = t := by
  refine Node.mapTokens_eq_self fun v hv => ?_
  rw [occurrences, List.countP_eq_zero] at h
  exact if_neg (h _ hv)

/-- **One round takes one occurrence off**, those ahead and those of the
tree alike, and does not change what renaming the tree gives. -/
theorem replace_occurrence {old new : Value}
    (hnew : new.sameLiteral old = false) {y : Place} {v : Value}
    (hy : y.focus = .token v) (hv : v.sameLiteral old = true) :
    occurrencesFrom old (y.replace (.token new)) + 1 = occurrencesFrom old y
      ∧ occurrences old (y.replace (.token new)).whole + 1
        = occurrences old y.whole
      ∧ (y.replace (.token new)).whole.mapTokens (Literal.renamed old new)
        = y.whole.mapTokens (Literal.renamed old new) := by
  obtain ⟨n, levels⟩ := y
  obtain rfl : n = .token v := hy
  refine ⟨?_, ?_, ?_⟩
  · rw [replace, occurrencesFrom_token, occurrencesFrom_token, hnew, hv]
    rfl
  · have hfill := occurrences_fillAll old levels (.token new) (.token v)
    rw [occurrences_token, occurrences_token, hnew, hv] at hfill
    exact hfill
  · refine mapTokens_fillAll _ levels ?_
    have hrenamed : ∀ w, w = new ∨ w = v →
        Literal.renamed old new w = new := by
      rintro w (rfl | rfl)
      · exact if_neg (by rw [hnew]; exact Bool.false_ne_true)
      · exact if_pos hv
    show Node.token (Literal.renamed old new new)
      = .token (Literal.renamed old new v)
    rw [hrenamed new (.inl rfl), hrenamed v (.inr rfl)]

end Place

namespace Session

/-- **One round of renaming**: to the next occurrence, which is then
replaced. -/
def renameNext (old new : Value) (s : Session) : Attempt Failure Session :=
  Attempt.andThen (s.perform (.findLiteral old (.significant .next))).result
    fun t => (t.perform (.assign new none)).result

section Rounds

variable {policy : Policy} {separator : Text} {old : Value} {new : Scalar}
  {c : Cursor Value} {z : Place}

/-- A round finds nothing exactly where the search on places does, and
else replaces what that finds. -/
theorem renameNext_eq (hconv : policy.converter = .literal separator)
    (old : Value) (new : Scalar) (h : c.IsAt z) :
    match z.search policy.config (.literal old) .next with
    | none => renameNext old (.scalar new) ⟨.forms, policy, c⟩ = .ok none
    | some y => ∃ d, d.IsAt (y.replace (.token (.scalar new)))
        ∧ renameNext old (.scalar new) ⟨.forms, policy, c⟩
          = .ok (some ⟨.forms, policy, d⟩) := by
  have hsearch := h.search policy.config (.literal old) (d := .next) rfl
  cases hz : z.search policy.config (.literal old) .next with
  | none =>
    rw [hz] at hsearch
    have hfind : (Session.mk .forms policy c).outcome
        (.findLiteral old (.significant .next)) = .ok none := hsearch
    show renameNext _ _ _ = _
    unfold renameNext perform
    rw [hfind]
    rfl
  | some y =>
    rw [hz] at hsearch
    obtain ⟨d, hd, hat⟩ := hsearch
    have hfind : (Session.mk .forms policy c).outcome
        (.findLiteral old (.significant .next)) = .ok (some d) := hd
    refine ⟨d.replace (.node (.token (.scalar new))), hat.replace _, ?_⟩
    unfold renameNext perform
    rw [hfind]
    show Except.map _ (((converterOr ⟨.forms, policy, d⟩ none).toNode
      (.scalar new)).map _ |>.map _) = _
    rw [show converterOr ⟨.forms, policy, d⟩ none = _ from hconv]
    rfl

/-- **Rounds from a place on**, by induction on the number of occurrences
ahead, which has to be that of the whole tree. -/
theorem exists_rounds (hconv : policy.converter = .literal separator)
    (hnew : (Value.scalar new).sameLiteral old = false) (h : c.IsAt z)
    (hall : Place.occurrencesFrom old z = Place.occurrences old z.whole) :
    ∃ us last, Exhausts (renameNext old (.scalar new))
        ⟨.forms, policy, c⟩ (⟨.forms, policy, c⟩ :: us)
      ∧ us.length = Place.occurrences old z.whole
      ∧ (⟨.forms, policy, c⟩ :: us : List Session).getLast? = some last
      ∧ last.root = .ok (.node
          (z.whole.mapTokens (Literal.renamed old (.scalar new)))) := by
  induction hk : Place.occurrences old z.whole generalizing c z with
  | zero =>
    have hround := renameNext_eq hconv old new h
    cases hz : z.search policy.config (.literal old) .next with
    | none =>
      rw [hz] at hround
      refine ⟨[], _, .stop hround, rfl, rfl, ?_⟩
      rw [Place.mapTokens_of_occurrences_eq_zero _ hk]
      exact h.root_eq
    | some y =>
      -- what is found would be an occurrence of the tree
      obtain ⟨-, hfrom, v, hy, hv⟩ := Place.exists_of_search_literal hz
      have hreplace := (Place.replace_occurrence hnew hy hv).1
      omega
  | succ k ih =>
    have hround := renameNext_eq hconv old new h
    cases hz : z.search policy.config (.literal old) .next with
    | none =>
      -- the tree has an occurrence, so there is one ahead
      have hnone := Place.occurrencesFrom_of_search_eq_none hz
      omega
    | some y =>
      rw [hz] at hround
      obtain ⟨d, hat, hd⟩ := hround
      obtain ⟨hwhole, hfrom, v, hy, hv⟩ := Place.exists_of_search_literal hz
      obtain ⟨hahead, htree, hmap⟩ := Place.replace_occurrence hnew hy hv
      rw [hwhole] at htree hmap
      obtain ⟨us, last, hus, hlen, hlast, hroot⟩ :=
        ih hat (by omega) (by omega)
      refine ⟨_ :: us, last, .go hd hus, congrArg Nat.succ hlen, hlast, ?_⟩
      rw [hroot, hmap]

end Rounds

/-- **Renaming in a loop renames every occurrence and stops.** The rounds
from the root on are as many as the tree has tokens with the literal in
them; after these there is nothing left to find, and the tree the last
session stands for is the first one with exactly those tokens replaced. -/
theorem exists_renaming {policy : Policy} {separator : Text}
    (hconv : policy.converter = .literal separator) (t : Form)
    (old : Value) {new : Scalar}
    (hnew : (Value.scalar new).sameLiteral old = false) :
    ∃ us last, Exhausts (renameNext old (.scalar new))
        (Session.start .forms policy (.node t))
        (Session.start .forms policy (.node t) :: us)
      ∧ us.length = t.nodes.countP ((Wanted.literal old).passes)
      ∧ (Session.start .forms policy (.node t) :: us).getLast? = some last
      ∧ last.root = .ok (.node (t.mapTokens fun v =>
          if v.sameLiteral old then .scalar new else v)) :=
  exists_rounds hconv hnew (Cursor.isAt_atRoot t)
    (Place.occurrencesFrom_root old t)

/-- A list with the name `a` at its beginning, inside a vector, in a
comment and at its end: three rounds rename the tokens and leave the
comment. -/
theorem exists_renaming_nested :
    (Value.text "b").sameLiteral (.text "a") = false
    ∧ ∃ us last, Exhausts (renameNext (.text "a") (.text "b"))
        (Session.start .forms .standard (.node (.branch .list
          [.token (.text "a"), .whitespace " ",
            .branch .vector [.token (.int 1), .token (.text "a")],
            .comment ";a", .token (.text "a")])))
        (Session.start .forms .standard (.node (.branch .list
          [.token (.text "a"), .whitespace " ",
            .branch .vector [.token (.int 1), .token (.text "a")],
            .comment ";a", .token (.text "a")])) :: us)
      ∧ us.length = 3
      ∧ us.getLast? = some last
      ∧ last.root = .ok (.node (.branch .list
          [.token (.text "b"), .whitespace " ",
            .branch .vector [.token (.int 1), .token (.text "b")],
            .comment ";a", .token (.text "b")])) := by
  have hnew : (Value.text "b").sameLiteral (.text "a") = false := by decide
  refine ⟨hnew, ?_⟩
  have hconv : Policy.standard.converter = .literal " " := rfl
  obtain ⟨us, last, hus, hlen, hlast, hroot⟩ := exists_renaming hconv
    (.branch .list
      [.token (.text "a"), .whitespace " ",
        .branch .vector [.token (.int 1), .token (.text "a")],
        .comment ";a", .token (.text "a")]) (.text "a") hnew
  refine ⟨us, last, hus, hlen, ?_, hroot⟩
  cases us with
  | nil => cases hlen
  | cons u us => exact hlast

end Session

end FormTree
