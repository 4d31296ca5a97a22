import FormTree.Proofs.Skeleton

/-!
# Formatting makes no difference

Two sessions over trees with the same skeleton cannot be told apart
through the surface, as long as comments are passed over: whatever the
program, each of its steps leads nowhere in both, or fails in both with
the same words, or leads in both to the same outline of the tree, that is
to the same skeleton with the cursor at the same position in it
(`Session.replies_same`). The trees may be formatted in different ways,
and the sessions may have different separators, which also go into what is
inserted.

What is put into the tree must not be formatting itself. For a function
that an edit is made with this is asked of the values it is really given;
they are the same in both sessions.
-/

namespace FormTree

/-- Whether a value is a piece of formatting. -/
def Value.isFormatting : Value → Bool
  | .node n => n.isFormatting
  | _ => false

/-- **Whether a value is content**: anything but a piece of
formatting. -/
def Value.isContent (v : Value) : Bool := !v.isFormatting

/-- Writing a value anew does not make formatting of it. -/
@[simp] theorem Value.isContent_placed (place : List Nat) (v : Value) :
    (v.placed place).isContent = v.isContent := by
  cases v <;> rfl

/-- **Two failures say the same**: failed conversions have the same
wording, and everything else is the same failure. -/
def Failure.SaysSame : Failure → Failure → Prop
  | .conversion e, .conversion e' => e.message = e'.message
  | e, e' => e = e'

theorem Failure.SaysSame.refl (e : Failure) : e.SaysSame e := by
  cases e <;> rfl

theorem Failure.saysSame_of_wording {e e' : Failure}
    (h : e.wording = e'.wording) : e.SaysSame e' := by
  cases e with
  | conversion cause =>
    cases e' with
    | conversion cause' => exact Sum.inl.inj h
    | _ => cases h
  | _ =>
    cases e' with
    | conversion cause' => cases h
    | _ => exact Sum.inr.inj h

/-! ## One step on places -/

namespace Literal

/-- With any two separators a value has forms with the same skeleton, or
fails in the same way. -/
theorem formFor_cases (separator other : Text) (v : Value) :
    (∃ n m, formFor separator v = .ok n ∧ formFor other v = .ok m
      ∧ n.skeleton = m.skeleton)
    ∨ ∃ e, formFor separator v = .error e ∧ formFor other v = .error e := by
  have h := skeleton_toForm separator other v
  unfold formFor
  cases hn : toForm separator v with
  | ok n =>
    cases hm : toForm other v with
    | ok m =>
      rw [hn, hm] at h
      injection h with h
      exact .inl ⟨n, m, rfl, rfl, h⟩
    | error e' => rw [hn, hm] at h; cases h
  | error e =>
    cases hm : toForm other v with
    | ok m => rw [hn, hm] at h; cases h
    | error e' =>
      rw [hn, hm] at h
      injection h with h
      exact .inr ⟨.conversion e, rfl, by rw [h]⟩

/-- The form of content is a form. -/
theorem isFormatting_formFor {separator : Text} {v : Value} {n : Form}
    (hv : v.isContent = true) (h : formFor separator v = .ok n) :
    n.isFormatting = false := by
  have hform := toForm_of_formFor h
  cases v with
  | scalar s => cases hform; rfl
  | bytes bs => cases hform
  | foreign o other => cases hform
  | group c items =>
    obtain ⟨ns, rfl, -⟩ := exists_of_map_spaced hform
    rfl
  | dict guise entries =>
    obtain ⟨ns, rfl, -⟩ := exists_of_map_spaced hform
    rfl
  | node m =>
    cases hform
    simpa [Value.isContent, Value.isFormatting] using hv

end Literal

namespace Place

/-- **Two attempts on places are alike**: both fail with the same words,
or both lead nowhere, or both lead to places with the same skeleton. -/
inductive Alike : Attempt Failure Place → Attempt Failure Place → Prop
  | fail {e e' : Failure} : e.SaysSame e' → Alike (.error e) (.error e')
  | nowhere : Alike (.ok none) (.ok none)
  | somewhere {z y : Place} : z.skeleton = y.skeleton →
      Alike (.ok (some z)) (.ok (some y))

theorem Alike.of_map_eq {o p : Option Place}
    (h : o.map skeleton = p.map skeleton) : Alike (.ok o) (.ok p) := by
  cases o with
  | none =>
    cases p with
    | none => exact .nowhere
    | some y => cases h
  | some z =>
    cases p with
    | none => cases h
    | some y => exact .somewhere (Option.some_inj.mp h)

variable {cfg other : Config} {separator otherSeparator : Text}
  {z y : Place}

theorem holdsForm_of_skeleton (h : z.skeleton = y.skeleton)
    (hz : z.holdsForm = true) : y.holdsForm = true := by
  have hfocus : z.focus.skeleton = y.focus.skeleton :=
    congrArg Place.focus h
  rwa [holdsForm, ← Node.isFormatting_skeleton, ← hfocus,
    Node.isFormatting_skeleton]

theorem skeleton_replace (n : Form) (z : Place) :
    (z.replace n).skeleton = z.skeleton.replace n.skeleton := rfl

/-- Assigning a value to places with the same skeleton. -/
theorem assign_alike (h : z.skeleton = y.skeleton) (v : Value) :
    Alike (z.assign separator v) (y.assign otherSeparator v) := by
  unfold assign
  rcases Literal.formFor_cases separator otherSeparator v with
    ⟨n, m, hn, hm, hnm⟩ | ⟨e, hn, hm⟩
  · rw [hn, hm]
    refine .somewhere ?_
    rw [skeleton_replace, skeleton_replace, h, hnm]
  · rw [hn, hm]
    exact .fail (.refl e)

/-- An edit made with a function is given the same value, or there is
none for the same reason. -/
theorem amend_alike (h : z.skeleton = y.skeleton)
    (f : Value → Except Failure Value) :
    Alike (z.amend separator f) (y.amend otherSeparator f) := by
  have hvalue : (Literal.formValue z.focus).mapError Failure.wording
      = (Literal.formValue y.focus).mapError Failure.wording := by
    have hfocus : z.focus.skeleton = y.focus.skeleton :=
      congrArg Place.focus h
    rw [Literal.formValue_skeleton, hfocus, ← Literal.formValue_skeleton]
  unfold amend
  rcases Literal.cases_of_mapError_eq hvalue with
    ⟨v, hv, hw⟩ | ⟨e, e', hv, hw, he⟩
  · rw [hv, hw]
    simp only
    cases f v with
    | error e => exact .fail (.refl e)
    | ok w => exact assign_alike h w
  · rw [hv, hw]
    exact .fail (Failure.saysSame_of_wording he)

/-- **An operation of the surface on places with the same skeleton** goes
alike. -/
theorem surface_alike (hcfg : cfg.skipComments = true)
    (hother : other.skipComments = true) (hz : z.holdsForm = true)
    (h : z.skeleton = y.skeleton) {op : Surface} {c : Cursor Value}
    (hop : op.Supplies Value.isContent c) :
    Alike (z.surface cfg separator op)
      (y.surface other otherSeparator op) := by
  have hy := holdsForm_of_skeleton h hz
  cases op with
  | move d =>
    refine .of_map_eq ?_
    rw [skeleton_significant hcfg hz, skeleton_significant hother hy, h]
  | search w d hd =>
    refine .of_map_eq ?_
    rw [skeleton_search hcfg hz, skeleton_search hother hy, h]
  | findNext k =>
    refine .of_map_eq ?_
    rw [skeleton_findSibling hcfg hz, skeleton_findSibling hother hy, h]
  | findPrevious k =>
    refine .of_map_eq ?_
    rw [skeleton_findSibling hcfg hz, skeleton_findSibling hother hy, h]
  | place side item =>
    unfold surface
    rcases Literal.formFor_cases separator otherSeparator item with
      ⟨n, m, hn, hm, hnm⟩ | ⟨e, hn, hm⟩
    · simp only [hn, hm]
      refine .of_map_eq ?_
      rw [skeleton_place cfg (Literal.isFormatting_formFor hop hn),
        skeleton_place other (Literal.isFormatting_formFor hop hm), h, hnm]
    · simp only [hn, hm]
      exact .fail (.refl e)
  | assign v given =>
    cases given with
    | none => exact assign_alike h v
    | some _ => exact assign_alike h v
  | amend f given occasion =>
    cases given with
    | none => exact amend_alike h _
    | some _ => exact amend_alike h _

/-- Putting something beside or into a node leaves it a form. -/
theorem holdsForm_of_place (h : z.holdsForm = true) {side : Side}
    {n : Form} {x : Place} (hx : z.place cfg side n = some x) :
    x.holdsForm = true := by
  obtain ⟨m, levels⟩ := z
  cases side with
  | left =>
    cases levels with
    | nil => cases hx
    | cons l outer => cases hx; exact h
  | right =>
    cases levels with
    | nil => cases hx
    | cons l outer => cases hx; exact h
  | first =>
    cases m with
    | branch k cs => cases hx; rfl
    | _ => cases hx
  | last =>
    cases m with
    | branch k cs => cases hx; rfl
    | _ => cases hx

/-- **The surface leads from forms to forms.** -/
theorem holdsForm_of_surface (hcfg : cfg.skipComments = true)
    (hz : z.holdsForm = true) {op : Surface} {c : Cursor Value}
    (hc : c.IsAt z) (hop : op.Supplies Value.isContent c) {x : Place}
    (hx : z.surface cfg separator op = .ok (some x)) :
    x.holdsForm = true := by
  rcases surface_cases Value.isContent_placed hc hop hx with
    ⟨-, rfl | hsig⟩ | ⟨side, item, n, -, -, hplace⟩
      | ⟨used, v, n, hv, hn, rfl⟩
  · exact hz
  · rwa [← isSignificant_eq hcfg]
  · exact holdsForm_of_place hz hplace
  · show (!n.isFormatting) = true
    rw [Literal.isFormatting_formFor hv hn]
    rfl

end Place

/-! ## Outlines -/

/-- **The outline of a document**: its skeleton, and a position in it. -/
structure Outline where
  /-- The skeleton of the tree. -/
  whole : Form
  /-- The position, where forms alone are counted. -/
  position : List Nat

/-- The position of a cursor, where forms alone are counted: how many of
them stand before the focus and before each of its ancestors, from the
outermost in. -/
def Cursor.formIndex (c : Cursor Value) : List Nat :=
  (c.path.map fun f => (f.lefts.filter Value.isContent).length).reverse

/-- **A session has an outline**: the skeleton of its root is that of the
outline, its cursor is at the position there, and the node in focus has
the skeleton that the outline has at that position. -/
structure Session.HasOutline (s : Session) (o : Outline) : Prop where
  /-- The skeleton of the root. -/
  root : ∃ t, s.root = .ok (.node t) ∧ t.skeleton = o.whole
  /-- The position of the cursor. -/
  position : s.cursor.formIndex = o.position
  /-- The skeleton of the focus. -/
  focus : ∃ n, s.cursor.focus = .node n
    ∧ o.whole.at? o.position = some n.skeleton

/-- The outline of a place. -/
def Place.outline (z : Place) : Outline :=
  ⟨z.skeleton.whole, z.skeleton.index⟩

namespace Cursor

/-- Forms are counted alike in a frame and in its level. -/
theorem length_filter_lefts {f : Frame Value} {l : Level} {n : Form}
    {old : List Form} (h : f.Records l n old) :
    (f.lefts.filter Value.isContent).length
      = l.skeleton.lefts.length := by
  show _ = (Node.skeletons l.lefts).length
  rw [h.lefts_eq, List.filter_map, List.length_map,
    List.filter_reverse, List.length_reverse, Node.skeletons_eq,
    List.filter_map, List.length_map]
  refine congrArg (fun p => (l.lefts.filter p).length) ?_
  funext m
  show (!m.isFormatting) = !m.skeleton.isFormatting
  rw [Node.isFormatting_skeleton]

/-- The position of a cursor is that of the skeleton of its place. -/
theorem IsAt.formIndex_eq {c : Cursor Value} {z : Place} (h : c.IsAt z) :
    c.formIndex = z.skeleton.index := by
  rw [formIndex, Place.index, Place.gap]
  congr 1
  obtain ⟨focus, path⟩ := c
  obtain ⟨n, levels⟩ := z
  have hfollows : Follows path levels n := h.follows
  clear h
  induction hfollows with
  | root n => rfl
  | inside hf _ ih => exact congrArg₂ List.cons (length_filter_lefts hf) ih

end Cursor

namespace Session

/-- A session at a place that holds a form has the outline of the
place. -/
theorem hasOutline_of_isAt {policy : Policy} {c : Cursor Value} {z : Place}
    (h : c.IsAt z) (hz : z.holdsForm = true) :
    (Session.mk .forms policy c).HasOutline z.outline where
  root := ⟨z.whole, h.root_eq, (Place.whole_skeleton hz).symm⟩
  position := h.formIndex_eq
  focus := ⟨z.focus, h.focus_eq, z.skeleton.at?_whole⟩

/-! ## Programs -/

/-- **What comes of an action** where there may be no session any more.
Where there is none, nothing comes of it. -/
def reply (o : Option Session) (a : Action) : Attempt Failure Session :=
  match o with
  | none => .ok none
  | some s => (s.perform a).result

/-- The session after an action. One that fails leaves it as it was, one
that leads nowhere leaves none. -/
def afterwards (o : Option Session) (a : Action) : Option Session :=
  match reply o a with
  | .ok t => t
  | .error _ => o

theorem reply_of_outcome {s : Session} {a : Action}
    {r : Attempt Failure (Cursor Value)} (h : s.outcome a = r) :
    reply (some s) a = r.map fun c => c.map s.goTo := by
  rw [← h]
  rfl

theorem afterwards_of_ok {o t : Option Session} {a : Action}
    (h : reply o a = .ok t) : afterwards o a = t := by
  rw [afterwards, h]

theorem afterwards_of_error {o : Option Session} {a : Action}
    {e : Failure} (h : reply o a = .error e) : afterwards o a = o := by
  rw [afterwards, h]

/-- **What comes of a program**, step by step. -/
def replies : Option Session → List Action →
    List (Attempt Failure Session)
  | _, [] => []
  | o, a :: as => reply o a :: replies (afterwards o a) as

/-- Everything that a program of the surface supplies, where it gets to,
passes a test. -/
inductive ProgramSupplies (P : Value → Bool) :
    Option Session → List Surface → Prop
  /-- The program is over. -/
  | nil {o : Option Session} : ProgramSupplies P o []
  /-- One operation, if there is a session to perform it, and the rest of
  the program. -/
  | cons {o : Option Session} {op : Surface} {ops : List Surface} :
      (∀ s, o = some s → op.Supplies P s.cursor) →
        ProgramSupplies P (afterwards o op.action) ops →
          ProgramSupplies P o (op :: ops)

/-- **Two replies are the same** when formatting is overlooked: both lead
nowhere, or both fail with the same words, or both lead to sessions with
the same outline. -/
def SameReply (a b : Attempt Failure Session) : Prop :=
  match a, b with
  | .ok none, .ok none => True
  | .ok (some s), .ok (some t) => ∃ o, s.HasOutline o ∧ t.HasOutline o
  | .error e, .error e' => e.SaysSame e'
  | _, _ => False

/-- Two sessions are twins, each with its own policy, if their cursors are
at places with the same skeleton; or there is none of either. -/
def Twins (p q : Policy) (o o' : Option Session) : Prop :=
  match o, o' with
  | none, none => True
  | some s, some t => ∃ c d z y, s = ⟨.forms, p, c⟩ ∧ t = ⟨.forms, q, d⟩
    ∧ c.IsAt z ∧ d.IsAt y ∧ z.holdsForm = true ∧ z.skeleton = y.skeleton
  | _, _ => False

section TwoRuns

variable {p q : Policy} {separator other : Text}
  (hp : p.converter = .literal separator)
  (hq : q.converter = .literal other)
  (hpc : p.config.skipComments = true)
  (hqc : q.config.skipComments = true)

include hp hq hpc hqc

/-- **One step of twins**: the replies are the same, and they stay
twins. -/
theorem Twins.step {o o' : Option Session} (h : Twins p q o o')
    {op : Surface}
    (hop : ∀ s, o = some s → op.Supplies Value.isContent s.cursor) :
    SameReply (reply o op.action) (reply o' op.action)
      ∧ Twins p q (afterwards o op.action) (afterwards o' op.action) := by
  cases o with
  | none =>
    cases o' with
    | none => exact ⟨trivial, trivial⟩
    | some t => cases h
  | some s =>
    cases o' with
    | none => cases h
    | some t =>
      obtain ⟨c, d, z, y, rfl, rfl, hc, hd, hz, hzy⟩ := h
      have hsupplies := hop _ rfl
      have halike : Place.Alike (z.surface p.config separator op)
          (y.surface q.config other op) :=
        Place.surface_alike hpc hqc hz hzy hsupplies
      have hleft := hc.surface hp op
      have hright := hd.surface hq op
      -- both go like the operation on places, and that goes alike
      generalize hx : z.surface p.config separator op = a at halike hleft
      generalize y.surface q.config other op = b at halike hright
      cases halike with
      | fail he =>
        have hr := reply_of_outcome hleft
        have hr' := reply_of_outcome hright
        rw [afterwards_of_error hr, afterwards_of_error hr', hr, hr']
        exact ⟨he, c, d, z, y, rfl, rfl, hc, hd, hz, hzy⟩
      | nowhere =>
        have hr := reply_of_outcome hleft
        have hr' := reply_of_outcome hright
        rw [afterwards_of_ok hr, afterwards_of_ok hr', hr, hr']
        exact ⟨trivial, trivial⟩
      | @somewhere x w hxw =>
        obtain ⟨c', hc', hat⟩ := hleft
        obtain ⟨d', hd', hat'⟩ := hright
        have hr := reply_of_outcome hc'
        have hr' := reply_of_outcome hd'
        have hform := Place.holdsForm_of_surface hpc hz hc hsupplies hx
        have hform' := Place.holdsForm_of_skeleton hxw hform
        have houtline : x.outline = w.outline := by
          rw [Place.outline, hxw]
          rfl
        rw [afterwards_of_ok hr, afterwards_of_ok hr', hr, hr']
        refine ⟨⟨x.outline, hasOutline_of_isAt hat hform, ?_⟩,
          c', d', x, w, rfl, rfl, hat, hat', hform, hxw⟩
        rw [houtline]
        exact hasOutline_of_isAt hat' hform'

/-- A program on twins: its replies are the same, step by step. -/
theorem Twins.forall₂_replies {o o' : Option Session} (h : Twins p q o o')
    {ops : List Surface}
    (hops : ProgramSupplies Value.isContent o ops) :
    List.Forall₂ SameReply (replies o (ops.map Surface.action))
      (replies o' (ops.map Surface.action)) := by
  induction ops generalizing o o' with
  | nil => exact .nil
  | cons op ops ih =>
    obtain _ | ⟨hop, hrest⟩ := hops
    obtain ⟨hreply, htwins⟩ := h.step hp hq hpc hqc hop
    exact .cons hreply (ih htwins hrest)

/-- **Formatting makes no difference.** A program of the surface gets the
same replies, step by step, on any two trees with the same skeleton,
whatever separators the sessions have, as long as comments are passed over
and nothing is supplied but content. -/
theorem replies_same {t u : Form} (ht : t.isFormatting = false)
    (htu : t.skeleton = u.skeleton) {ops : List Surface}
    (hops : ProgramSupplies Value.isContent
      (some (start .forms p (.node t))) ops) :
    List.Forall₂ SameReply
      (replies (some (start .forms p (.node t))) (ops.map Surface.action))
      (replies (some (start .forms q (.node u)))
        (ops.map Surface.action)) := by
  have hform : (Place.mk t []).holdsForm = true := by
    rw [Place.holdsForm, ht]
    rfl
  have hskeleton : (Place.mk t []).skeleton = (Place.mk u []).skeleton := by
    rw [Place.skeleton, htu]
    rfl
  have htwins : Twins p q (some (start .forms p (.node t)))
      (some (start .forms q (.node u))) :=
    ⟨_, _, _, _, rfl, rfl, Cursor.isAt_atRoot t, Cursor.isAt_atRoot u,
      hform, hskeleton⟩
  exact htwins.forall₂_replies hp hq hpc hqc hops

end TwoRuns

/-- The same program on `(1 2)` and on the same form with comments and
line breaks: down to the `1`, a vector put after it, on to the `2`, that
wrapped into a list, and in the end something that has no form. -/
theorem replies_same_respaced :
    List.Forall₂ SameReply
      (replies (some (start .forms .standard (.node (.branch .list
          [.token (.int 1), .whitespace " ", .token (.int 2)]))))
        ([.move .down, .place .right (.list [.int 3, .int 4]),
          .search (.literal (.int 2)) .next rfl,
          .amend (fun v => .ok (.tuple [v])) none 0,
          .assign (.bytes []) none].map Surface.action))
      (replies (some (start .forms
          (.choose (some ⟨"\n", true, by decide⟩) none)
          (.node (.branch .list
            [.comment "; one", .whitespace "\n", .token (.int 1),
              .comment "; two", .whitespace "\n", .token (.int 2),
              .whitespace "\n"]))))
        ([.move .down, .place .right (.list [.int 3, .int 4]),
          .search (.literal (.int 2)) .next rfl,
          .amend (fun v => .ok (.tuple [v])) none 0,
          .assign (.bytes []) none].map Surface.action)) := by
  have hp : Policy.standard.converter = .literal " " := rfl
  have hq : (Policy.choose (some ⟨"\n", true, by decide⟩) none).converter
      = .literal "\n" := rfl
  refine replies_same hp hq rfl rfl ?_ ?_ ?_
  · rfl
  · rfl
  · refine .cons (fun _ _ => trivial) (.cons (fun _ _ => rfl)
      (.cons (fun _ _ => trivial) (.cons ?_ (.cons (fun _ _ => rfl) .nil))))
    intro s _ v w _ hw
    cases hw
    rfl

end Session

end FormTree
