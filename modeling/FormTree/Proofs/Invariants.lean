import FormTree.Proofs.Forms
import FormTree.Proofs.Runs

/-!
# What every action keeps

The actions of a session are many, but each of them is put together from a
few operations of the cursor: a plain step, taking out the focus, putting
something beside the focus or into it, and replacing the focus. Whatever
else an action does is deciding which of these to do, repeating one, or
converting what it has been given.

So a property of cursors that these few operations keep is kept by every
action (`Cursor.Keeps.outcome`), and a failure of an action is one of
theirs, or comes from a conversion or a function that the action was given
(`Session.OwnFailure`). Both are said at once: an attempt is **within**
bounds when its result has the property and its failure is of the sort
allowed.

A plain step in its turn is put together from going into the children,
going up and going to a sibling. What these parts keep, every plain step
keeps (`Cursor.KeptByParts.step`).
-/

namespace FormTree

namespace Attempt

variable {ε α β : Type} {I : α → Prop} {J : β → Prop} {E : ε → Prop}

/-- **An attempt is within bounds**: what it leads to has a property, and
what it fails with is of a sort. -/
def Within (I : α → Prop) (E : ε → Prop) : Attempt ε α → Prop
  | .ok (some x) => I x
  | .ok none => True
  | .error e => E e

namespace Within

/-- One attempt after another. -/
theorem andThen {a : Attempt ε α} (h : a.Within I E)
    {f : α → Attempt ε β} (hf : ∀ x, I x → (f x).Within J E) :
    (a.andThen f).Within J E := by
  match a, h with
  | .ok (some x), h => exact hf x h
  | .ok none, _ => trivial
  | .error e, h => exact h

/-- The same for attempts that do not fail. -/
theorem bind {o : Option α} (h : Within I E (.ok o)) {f : α → Option β}
    (hf : ∀ x, I x → Within J E (.ok (f x))) :
    Within J E (.ok (o.bind f)) := by
  cases o with
  | none => trivial
  | some x => exact hf x h

/-- A result that is sure to be there. -/
theorem map_some {x : Except ε α} {f : α → β}
    (hf : ∀ a, x = .ok a → J (f a)) (hx : ∀ e, x = .error e → E e) :
    Within J E (x.map fun a => some (f a)) := by
  cases x with
  | error e => exact hx e rfl
  | ok a => exact hf a rfl

end Within

end Attempt

namespace Cursor

/-- **Repeating a move while something is to be skipped** stays within
the bounds of the move. -/
theorem within_skipOf {τ ε : Type} {I : Cursor τ → Prop} {E : ε → Prop}
    {move : Mover τ ε} (hmove : ∀ c, I c → (move c).Within I E)
    (toSkip : Cursor τ → Bool) (steps : Nat) {c : Cursor τ} (hc : I c) :
    (skipOf move toSkip steps c).Within I E := by
  induction steps generalizing c with
  | zero =>
    rw [skipOf]
    cases toSkip c with
    | true => trivial
    | false => exact hc
  | succ steps ih =>
    rw [skipOf]
    cases toSkip c with
    | true => exact (hmove c hc).andThen fun d hd => ih hd
    | false => exact hc

/-- **What the parts of a plain step keep**: every step is put together
from going into the children, going up and going to a sibling. -/
structure KeptByParts {τ ε : Type} (S : Shape τ ε) (I : Cursor τ → Prop) :
    Prop where
  /-- Going to the first child keeps it. -/
  down : ∀ {c d}, I c → c.down S = some d → I d
  /-- Going to the last child keeps it. -/
  downLast : ∀ {c d}, I c → c.downLast S = some d → I d
  /-- Going up keeps it. -/
  up : ∀ {c d}, I c → c.up S = .ok (some d) → I d
  /-- Going to a sibling keeps it. -/
  toSibling : ∀ {c d i}, I c → c.toSibling S i = .ok (some d) → I d

namespace KeptByParts

variable {τ ε : Type} {S : Shape τ ε} {I : Cursor τ → Prop}
  {c d : Cursor τ}

theorem right (h : KeptByParts S I) (hc : I c)
    (hd : c.right S = .ok (some d)) : I d := by
  unfold Cursor.right at hd
  split at hd
  · cases hd
  · split at hd
    · cases hd
    · exact h.toSibling hc hd

theorem left (h : KeptByParts S I) (hc : I c)
    (hd : c.left S = .ok (some d)) : I d := by
  unfold Cursor.left at hd
  split at hd
  · cases hd
  · split at hd
    · cases hd
    · exact h.toSibling hc hd

theorem leftmost (h : KeptByParts S I) (hc : I c)
    (hd : c.leftmost S = .ok (some d)) : I d := by
  unfold Cursor.leftmost at hd
  split at hd
  · cases hd
  · split at hd
    · cases hd
      exact hc
    · exact h.toSibling hc hd

theorem rightmost (h : KeptByParts S I) (hc : I c)
    (hd : c.rightmost S = .ok (some d)) : I d := by
  unfold Cursor.rightmost at hd
  split at hd
  · cases hd
  · simp only at hd
    split at hd
    · cases hd
      exact hc
    · exact h.toSibling hc hd

theorem after (h : KeptByParts S I) (hc : I c)
    (hd : c.after S = .ok (some d)) : I d := by
  fun_induction Cursor.after S c with
  | case1 c e hr => cases hd
  | case2 c r hr =>
    cases hd
    exact h.right hc hr
  | case3 c hr e hu => cases hd
  | case4 c hr hu => cases hd
  | case5 c hr p hu _ ih => exact ih (h.up hc hu) hd

theorem lastPlace (h : KeptByParts S I) (hc : I c) :
    I (c.lastPlace S) := by
  fun_induction Cursor.lastPlace S c with
  | case1 c hd => exact hc
  | case2 c d hd _ ih => exact ih (h.downLast hc hd)

/-- **What its parts keep, a plain step keeps.** -/
theorem step (h : KeptByParts S I) (hc : I c) {dir : Direction}
    (hd : dir.step S c = .ok (some d)) : I d := by
  cases dir with
  | down => exact h.down hc (Except.ok.inj hd)
  | up => exact h.up hc hd
  | left => exact h.left hc hd
  | right => exact h.right hc hd
  | leftmost => exact h.leftmost hc hd
  | rightmost => exact h.rightmost hc hd
  | next =>
    change c.next S = _ at hd
    unfold Cursor.next at hd
    split at hd
    · next e he =>
      cases hd
      exact h.down hc he
    · exact h.after hc hd
  | prev =>
    change c.prev S = _ at hd
    unfold Cursor.prev at hd
    split at hd
    · cases hd
    · exact h.up hc hd
    · next l hl =>
      cases hd
      exact h.lastPlace (h.left hc hl)

/-- The same as a bound, with any failure allowed. -/
theorem within_step (h : KeptByParts S I) (dir : Direction) (hc : I c) :
    (dir.step S c).Within I fun _ => True := by
  cases hd : dir.step S c with
  | error e => trivial
  | ok o =>
    cases o with
    | none => trivial
    | some d => exact h.step hc hd

end KeptByParts

section Steps

variable {S : Shape Value Failure} {I : Cursor Value → Prop}
  {E : Failure → Prop} {c : Cursor Value}
  (hstep : ∀ {c} (d : Direction), I c → (d.step S c).Within I E)

include hstep

theorem within_toSignificant (cfg : Config) (d : Direction) (hc : I c) :
    (c.toSignificant S cfg d).Within I E :=
  within_skipOf (fun _ => hstep d) _ _ hc

theorem within_significant (cfg : Config) (d : Direction) (hc : I c) :
    (d.significant S cfg c).Within I E :=
  (hstep d hc).andThen fun _ he =>
    within_toSignificant hstep cfg d.onward he

theorem within_findSibling (cfg : Config) (k : Kind) (d : Direction)
    (hc : I c) : (c.findSibling S cfg k d).Within I E :=
  (within_significant hstep cfg d hc).andThen fun _ he =>
    within_skipOf (fun _ => within_significant hstep cfg d) _ _ he

/-- **What plain steps keep, every move keeps**, as long as it takes
nothing out. -/
theorem within_run (cfg : Config) {m : Move} (hm : m ≠ .remove)
    (hc : I c) : (m.run S cfg c).Within I E := by
  cases m with
  | plain d => exact hstep d hc
  | significant d => exact within_significant hstep cfg d hc
  | settle d => exact within_toSignificant hstep cfg d hc
  | remove => exact absurd rfl hm

end Steps

/-- **What the operations of a cursor keep**: they lead from cursors with
a property to cursors with the property, as long as what they put into the
tree is of a sort, and fail only in an allowed way. -/
structure Keeps (S : Shape Value Failure) (P : Value → Prop)
    (I : Cursor Value → Prop) (E : Failure → Prop) : Prop where
  /-- Every plain step keeps the property. -/
  step : ∀ {c} (d : Direction), I c → (d.step S c).Within I E
  /-- Taking out the focus keeps it. -/
  remove : ∀ {c}, I c → (c.remove S).Within I E
  /-- Putting something into the tree keeps it. -/
  insert : ∀ {c} (side : Side) {v}, P v → I c →
    (c.insert S side v).Within I E
  /-- Replacing the focus keeps it. -/
  replace : ∀ {c v}, P v → I c → I (c.replace v)

namespace Keeps

variable {S : Shape Value Failure} {P : Value → Prop}
  {I : Cursor Value → Prop} {E : Failure → Prop} {c : Cursor Value}

/-- **Every move keeps the property.** -/
theorem run (h : Keeps S P I E) (cfg : Config) (m : Move) (hc : I c) :
    (m.run S cfg c).Within I E := by
  by_cases hm : m = .remove
  · subst hm
    exact h.remove hc
  · exact within_run h.step cfg hm hc

theorem skip (h : Keeps S P I E) (cfg : Config) (m : Move)
    (toSkip : Cursor Value → Bool) (hc : I c) :
    (c.skip S (m.run S cfg) toSkip).Within I E :=
  within_skipOf (fun _ => h.run cfg m) toSkip _ hc

theorem spacedRight (h : Keeps S P I E) {cfg : Config} (hcfg : P cfg.space)
    {v : Value} (hv : P v) (o : Option (Cursor Value)) (hc : I c) :
    Attempt.Within I E (.ok (c.spacedRight cfg v o)) := by
  rw [Cursor.spacedRight]
  refine Attempt.Within.bind (Attempt.Within.bind (I := I) ?_
    fun _ hd => h.insert .right hv hd) fun _ hd => h.insert .right hcfg hd
  cases touches cfg o with
  | true => exact h.insert .right hcfg hc
  | false => exact hc

theorem spacedLeft (h : Keeps S P I E) {cfg : Config} (hcfg : P cfg.space)
    {v : Value} (hv : P v) (o : Option (Cursor Value)) (hc : I c) :
    Attempt.Within I E (.ok (c.spacedLeft cfg v o)) := by
  rw [Cursor.spacedLeft]
  refine Attempt.Within.bind (Attempt.Within.bind (I := I) ?_
    fun _ hd => h.insert .left hv hd) fun _ hd => h.insert .left hcfg hd
  cases touches cfg o with
  | true => exact h.insert .left hcfg hc
  | false => exact hc

/-- An insertion that looks at a neighbour first fails only if the step to
the neighbour does. -/
theorem beside (h : Keeps S P I E) (d : Direction)
    {f : Option (Cursor Value) → Option (Cursor Value)}
    (hf : ∀ o, Attempt.Within I E (.ok (f o))) (hc : I c) :
    Attempt.Within I E ((d.step S c).map f) := by
  have hstep := h.step d hc
  cases ho : d.step S c with
  | error e =>
    rw [ho] at hstep
    exact hstep
  | ok o => exact hf o

/-- **Insertion with spacing keeps the property.** -/
theorem place (h : Keeps S P I E) {cfg : Config} (hcfg : P cfg.space)
    (side : Side) {v : Value} (hv : P v) (hc : I c) :
    (c.place S cfg side v).Within I E := by
  cases side with
  | left =>
    show (c.placeLeft S cfg v).Within I E
    rw [placeLeft]
    cases c.focus.isNil with
    | true => exact h.replace hv hc
    | false => exact h.beside .left (h.spacedLeft hcfg hv · hc) hc
  | right =>
    show (c.placeRight S cfg v).Within I E
    rw [placeRight]
    cases c.focus.isNil with
    | true => exact h.replace hv hc
    | false => exact h.beside .right (h.spacedRight hcfg hv · hc) hc
  | first =>
    show (c.placeFirst S cfg v).Within I E
    rw [placeFirst]
    cases childTouches cfg (c.down S) with
    | true =>
      exact (h.insert .first hcfg hc).andThen fun _ hd =>
        h.insert .first hv hd
    | false => exact h.insert .first hv hc
  | last =>
    show (c.placeLast S cfg v).Within I E
    rw [placeLast]
    cases childTouches cfg (c.downLast S) with
    | true =>
      exact (h.insert .last hcfg hc).andThen fun _ hd =>
        h.insert .last hv hd
    | false => exact h.insert .last hv hc

end Keeps

end Cursor

namespace Session

/-- **What an action puts into the tree** is of a sort: what it was given
as it is, what a conversion makes of it, and the white space around it. -/
def Puts (P : Value → Prop) (s : Session) (a : Action) : Prop :=
  match a with
  | .insert _ item => P item
  | .place _ item =>
    P s.policy.config.space ∧ ∀ v, s.policy.itemFor item = .ok v → P v
  | .replace item => P item
  | .replaceWith f => ∀ v, f s.cursor.focus = .ok v → P v
  | .assign _ conv =>
    ∀ v w, (s.converterOr conv).toNode v = .ok w → P w
  | .amend _ conv _ =>
    ∀ v w, (s.converterOr conv).toNode v = .ok w → P w
  | _ => True

/-- **The failures that an action brings with it**: those of a conversion
and those of a function it was given. -/
def OwnFailure (s : Session) (a : Action) (e : Failure) : Prop :=
  match a with
  | .place _ item => s.policy.itemFor item = .error e
  | .replaceWith f => f s.cursor.focus = .error e
  | .assign v conv => (s.converterOr conv).toNode v = .error e
  | .amend f conv _ =>
    (s.converterOr conv).toValue s.cursor.focus = .error e
      ∨ (∃ v, f v = .error e)
      ∨ ∃ v, (s.converterOr conv).toNode v = .error e
  | _ => False

/-- A failed edit has failed in one of its three stages. -/
theorem ownFailure_of_amend {s : Session}
    {f : Value → Except Failure Value} {conv : Option Converter}
    {occasion : Nat} {e : Failure}
    (h : s.cursor.amend (s.converterOr conv) (written occasion f)
      = .error e) : s.OwnFailure (.amend f conv occasion) e := by
  unfold Cursor.amend at h
  split at h
  · next e' hvalue =>
    cases h
    exact .inl hvalue
  · next v _ =>
    unfold written at h
    cases hf : f v with
    | error e' =>
      rw [hf] at h
      cases h
      exact .inr (.inl ⟨v, hf⟩)
    | ok w =>
      rw [hf] at h
      refine .inr (.inr ⟨w.placed [occasion], ?_⟩)
      change (Except.map _ ((s.converterOr conv).toNode _)) = _ at h
      cases hn : (s.converterOr conv).toNode (w.placed [occasion]) with
      | error e' => rw [hn] at h; cases h; rfl
      | ok n => rw [hn] at h; cases h

/-- An edit that succeeds replaces the focus by what the conversion has
made. -/
theorem exists_of_amend {conv : Converter}
    {f : Value → Except Failure Value} {c d : Cursor Value}
    (h : c.amend conv f = .ok d) :
    ∃ v n, conv.toNode v = .ok n ∧ d = c.replace n := by
  unfold Cursor.amend at h
  split at h
  · cases h
  · split at h
    · cases h
    · next w _ =>
      obtain ⟨n, hn, rfl⟩ := Attempt.exists_of_map_eq_ok h
      exact ⟨w, n, hn, rfl⟩

end Session

/-- **What the operations of a cursor keep, every action keeps**, and it
fails only as they do or in a way of its own. -/
theorem Cursor.Keeps.outcome {P : Value → Prop} {I : Cursor Value → Prop}
    {E : Failure → Prop} {s : Session} {a : Action}
    (h : Keeps s.shape P I E) (hs : I s.cursor) (hP : s.Puts P a)
    (hE : ∀ e, s.OwnFailure a e → E e) : (s.outcome a).Within I E := by
  have hfind : ∀ test m,
      (s.cursor.find s.shape s.policy.config test m).Within I E :=
    fun test m => h.skip s.policy.config m _ hs
  cases a with
  | move m => exact h.run s.policy.config m hs
  | skip m test => exact h.skip s.policy.config m test hs
  | skipInsignificant m => exact h.skip s.policy.config m _ hs
  | find test m => exact hfind test m
  | findKind k m => exact hfind _ m
  | findNext k => exact within_findSibling h.step s.policy.config k .right hs
  | findPrevious k => exact within_findSibling h.step s.policy.config k .left hs
  | findToken test m => exact hfind _ m
  | findLiteral v m => exact hfind _ m
  | insert side item => exact h.insert side hP hs
  | place side item =>
    unfold Session.outcome
    cases hitem : s.policy.itemFor item with
    | error e =>
      simp only [hitem]
      exact hE e hitem
    | ok v =>
      simp only [hitem]
      exact h.place hP.1 side (hP.2 v hitem) hs
  | replace item => exact h.replace hP hs
  | replaceWith f =>
    exact .map_some (fun v hv => h.replace (hP v hv) hs) hE
  | assign v conv =>
    show Attempt.Within I E (((s.converterOr conv).toNode v).map _ |>.map _)
    cases hn : (s.converterOr conv).toNode v with
    | error e => exact hE e hn
    | ok n => exact h.replace (hP v n hn) hs
  | amend f conv occasion =>
    refine .map_some (f := id) (fun d hd => ?_) fun e he =>
      hE e (Session.ownFailure_of_amend he)
    obtain ⟨v, n, hn, rfl⟩ := Session.exists_of_amend hd
    exact h.replace (hP v n hn) hs

end FormTree
