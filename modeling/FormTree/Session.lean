import FormTree.Search
import FormTree.Spacing
import FormTree.Value.Placed

/-!
# Sessions

A session is a cursor together with what it was opened with: the shape of
its tree and its policy. An action is one thing to do in a session, and
`Session.perform` does it. The result is the session afterwards, if the
action leads anywhere, together with the notes taken on the way. An edit
beside the root is ignored and noted, and a conversion that fails is noted
before the failure is passed on.

The shape and the policy are those the session was opened with, whatever
is done in it.
-/

namespace FormTree

/-- **A session**: a cursor, the shape of its tree and its policy. -/
structure Session where
  /-- The shape of the tree. -/
  shape : Shape Value Failure
  /-- The policy. -/
  policy : Policy
  /-- The cursor. -/
  cursor : Cursor Value

/-- The places relative to the focus where an item can be put. -/
inductive Side where
  /-- Beside the focus, before it. -/
  | left
  /-- Beside the focus, after it. -/
  | right
  /-- Inside the focus, before everything. -/
  | first
  /-- Inside the focus, after everything. -/
  | last
deriving DecidableEq, Repr

/-- **What can be done in a session.** -/
inductive Action where
  /-- Make a move. -/
  | move (m : Move)
  /-- Repeat a move while a test holds. -/
  | skip (m : Move) (test : Cursor Value → Bool)
  /-- Repeat a move while the focus is insignificant. -/
  | skipInsignificant (m : Move)
  /-- Repeat a move until a test holds. -/
  | find (test : Cursor Value → Bool) (m : Move)
  /-- Repeat a move until the focus is of a kind. -/
  | findKind (k : Kind) (m : Move)
  /-- To the next sibling of a kind. -/
  | findNext (k : Kind)
  /-- To the previous sibling of a kind. -/
  | findPrevious (k : Kind)
  /-- Repeat a move until the focus is a token that passes a test. -/
  | findToken (test : Value → Bool) (m : Move)
  /-- Repeat a move until the focus is a token holding a literal. -/
  | findLiteral (v : Value) (m : Move)
  /-- Put something into the tree as it is. -/
  | insert (side : Side) (item : Value)
  /-- Put a node or a value into the tree, with spacing. -/
  | place (side : Side) (item : Value)
  /-- Replace the focus as it is. -/
  | replace (item : Value)
  /-- Replace the focus by what a function makes of it. -/
  | replaceWith (f : Value → Except Failure Value)
  /-- Replace the focus by the form of a value. -/
  | assign (v : Value) (converter : Option Converter)
  /-- Replace the focus by the form of what a function makes of its
  value. The number of the occasion tells what is written on it from what
  is written on others. -/
  | amend (f : Value → Except Failure Value) (converter : Option Converter)
      (occasion : Nat)

/-- The edits there is no room for at the root. -/
inductive RootEdit where
  | insertLeft
  | insertRight
  | remove
deriving DecidableEq, Repr

namespace RootEdit

/-- The name of an edit in notes. -/
def name : RootEdit → String
  | .insertLeft => "insert_left"
  | .insertRight => "insert_right"
  | .remove => "remove"

end RootEdit

/-- **A note** taken while something is done. -/
inductive Note where
  /-- Nothing can be put beside the root, and it cannot be taken out. -/
  | ignoredAtRoot (edit : RootEdit)
  /-- A value has no form. -/
  | cannotAssign (value : Value) (cause : ConversionError)
  /-- The focus has no value. -/
  | cannotAmend (focus : Value) (cause : ConversionError)

namespace Note

/-- The wording of a note. -/
def message : Note → String
  | .ignoredAtRoot edit => edit.name ++ " at root location ignored"
  | .cannotAssign value cause =>
    "Cannot replace node with " ++ value.printed ++ ": " ++ cause.message
  | .cannotAmend focus cause =>
    "Cannot edit node " ++ focus.printed ++ ": " ++ cause.message

end Note

namespace Cursor

/-- **Replaces the focus by the form of a value.** -/
def assign (conv : Converter) (v : Value) (c : Cursor Value) :
    Except Failure (Cursor Value) :=
  (conv.toNode v).map fun n => c.replace n

/-- **Replaces the focus by the form of what a function makes of its
value.** -/
def amend (conv : Converter) (f : Value → Except Failure Value)
    (c : Cursor Value) : Except Failure (Cursor Value) :=
  match conv.toValue c.focus with
  | .error e => .error e
  | .ok v =>
    match f v with
    | .error e => .error e
    | .ok w => c.assign conv w

/-- The note on assigning a value: taken when it has no form. -/
def assignNotes (conv : Converter) (v : Value) : List Note :=
  match conv.toNode v with
  | .error (.conversion e) => [.cannotAssign v e]
  | _ => []

/-- The note on amending the focus: taken when it has no value, or when
what is made of it has no form. -/
def amendNotes (conv : Converter) (f : Value → Except Failure Value)
    (c : Cursor Value) : List Note :=
  match conv.toValue c.focus with
  | .error (.conversion e) => [.cannotAmend c.focus e]
  | .error _ => []
  | .ok v =>
    match f v with
    | .error _ => []
    | .ok w => assignNotes conv w

/-- Puts something into the tree as it is. -/
def insert (S : Shape Value Failure) (side : Side) (item : Value)
    (c : Cursor Value) : Attempt Failure (Cursor Value) :=
  match side with
  | .left => .ok (c.insertLeft item)
  | .right => .ok (c.insertRight item)
  | .first => c.insertChild S item
  | .last => c.appendChild S item

/-- Puts a node into the tree, with spacing. -/
def place (S : Shape Value Failure) (cfg : Config) (side : Side)
    (item : Value) (c : Cursor Value) :
    Attempt Failure (Cursor Value) :=
  match side with
  | .left => c.placeLeft S cfg item
  | .right => c.placeRight S cfg item
  | .first => c.placeFirst S cfg item
  | .last => c.placeLast S cfg item

end Cursor

namespace Side

/-- The notes on putting something on a side that the root does not
have. -/
def rootNotes : Side → List Note
  | .left => [.ignoredAtRoot .insertLeft]
  | .right => [.ignoredAtRoot .insertRight]
  | _ => []

end Side

namespace Move

/-- The notes taken when a move leads nowhere. -/
def notes : Move → List Note
  | .remove => [.ignoredAtRoot .remove]
  | _ => []

end Move

namespace Session

/-- A session over a new tree. -/
def start (shape : Shape Value Failure) (policy : Policy)
    (root : Value) : Session :=
  ⟨shape, policy, .atRoot root⟩

/-- The session at another place. -/
def goTo (s : Session) (c : Cursor Value) : Session :=
  { s with cursor := c }

/-- The converter to use, when one may have been given. -/
def converterOr (s : Session) (given : Option Converter) : Converter :=
  given.getD s.policy.converter

/-- Makes a move. -/
def move (s : Session) (m : Move) (c : Cursor Value) :
    Attempt Failure (Cursor Value) :=
  m.run s.shape s.policy.config c

/-- The root of the tree. -/
def root (s : Session) : Except Failure Value :=
  s.cursor.root s.shape

/-- The value of the focus. -/
def value (s : Session) (converter : Option Converter) :
    Except Failure Value :=
  (s.converterOr converter).toValue s.cursor.focus

/-- What a function makes of a value, written anew on an occasion. -/
def written (occasion : Nat) (f : Value → Except Failure Value)
    (v : Value) : Except Failure Value :=
  (f v).map (Value.placed [occasion])

/-- **The cursor after an action.** -/
def outcome (s : Session) (a : Action) : Attempt Failure (Cursor Value) :=
  let S := s.shape
  let cfg := s.policy.config
  let c := s.cursor
  match a with
  | .move m => s.move m c
  | .skip m test => c.skip S (s.move m) test
  | .skipInsignificant m =>
    c.skip S (s.move m) (Cursor.isInsignificant cfg)
  | .find test m => c.find S cfg test m
  | .findKind k m => c.findKind S cfg k m
  | .findNext k => c.findNext S cfg k
  | .findPrevious k => c.findPrevious S cfg k
  | .findToken test m => c.findToken S cfg test m
  | .findLiteral v m => c.findLiteral S cfg v m
  | .insert side item => c.insert S side item
  | .place side item =>
    match s.policy.itemFor item with
    | .error e => .error e
    | .ok node => c.place S cfg side node
  | .replace item => .ok (some (c.replace item))
  | .replaceWith f => (f c.focus).map fun v => some (c.replace v)
  | .assign v conv => (c.assign (s.converterOr conv) v).map some
  | .amend f conv occasion =>
    (c.amend (s.converterOr conv) (written occasion f)).map some

/-- The notes of an action that leads nowhere. -/
def nowhereNotes (a : Action) : List Note :=
  match a with
  | .move m => m.notes
  | .skip m _ => m.notes
  | .skipInsignificant m => m.notes
  | .find _ m => m.notes
  | .findKind _ m => m.notes
  | .findToken _ m => m.notes
  | .findLiteral _ m => m.notes
  | .insert side _ => side.rootNotes
  | .place side _ => side.rootNotes
  | _ => []

/-- **The notes taken during an action.** -/
def notes (s : Session) (a : Action) : List Note :=
  match a with
  | .assign v conv => Cursor.assignNotes (s.converterOr conv) v
  | .amend f conv occasion =>
    s.cursor.amendNotes (s.converterOr conv) (written occasion f)
  | a =>
    match s.outcome a with
    | .ok none => nowhereNotes a
    | _ => []

/-- The shape and the policy stay with the session. -/
@[simp] theorem shape_goTo (s : Session) (c : Cursor Value) :
    (s.goTo c).shape = s.shape := rfl

@[simp] theorem policy_goTo (s : Session) (c : Cursor Value) :
    (s.goTo c).policy = s.policy := rfl

/-- **What an action leads to**: the session afterwards, if the action
leads anywhere, with the notes taken. -/
structure Reply where
  /-- The session afterwards. -/
  result : Attempt Failure Session
  /-- The notes. -/
  notes : List Note

/-- **Does something in a session.** -/
def perform (s : Session) (a : Action) : Reply where
  result := (s.outcome a).map fun c => c.map s.goTo
  notes := s.notes a

/-- **The places of a repeated move**, with the notes taken at its end. -/
def trail (s : Session) (m : Move) :
    Except Failure (List (Cursor Value)) × List Note :=
  match s.cursor.trail s.shape (s.move m) with
  | .ok places => (.ok places, m.notes)
  | .error e => (.error e, [])

end Session

end FormTree
