import FormTree.Json.Token

/-!
# Reading JSON

A text is read token by token, keeping a stack of the arrays and objects
that are open. At every point it is known what may come next, and whatever
else comes makes the text unreadable. Two more things do: a whole number
with too many digits, and arrays and objects inside each other beyond a
certain depth. The first fault of a text, from its start, is the one
reported.
-/

namespace FormTree.Json

/-- **Why a text cannot be read.** -/
inductive Fault where
  /-- It is not JSON. -/
  | malformed
  /-- A whole number is too long. -/
  | numeralTooLong (cause : Numeral.TooLong)
  /-- An array, or else an object, is inside too many others. -/
  | tooDeep (array : Bool)
deriving DecidableEq, Repr

/-- How many arrays and objects may be open at a time. -/
def maxDepth : Nat := 989

/-- An array or object that is still open. -/
inductive Open where
  /-- An array with the items read so far, the last one first. -/
  | array (items : List Json)
  /-- An object with the members read so far and the key whose value is
  being read. -/
  | object (members : List (Text × Json)) (key : Option Text)

/-- What may come next. -/
inductive Expected where
  /-- A value or, directly after the bracket, the end of the array. -/
  | value (orClose : Bool)
  /-- A key or, directly after the bracket, the end of the object. -/
  | key (orClose : Bool)
  /-- The colon after a key. -/
  | colon
  /-- The comma after a part, or the end of what it is part of. -/
  | separator
  /-- Nothing: the text is complete. -/
  | nothing (result : Json)

/-- Where reading stands: what is open, innermost first, and what may come
next. -/
structure Reading where
  /-- The open arrays and objects. -/
  stack : List Open
  /-- What may come next. -/
  expected : Expected

namespace Reading

/-- A value is complete. -/
def complete (j : Json) : List Open → Except Fault Reading
  | [] => .ok ⟨[], .nothing j⟩
  | .array items :: outer => .ok ⟨.array (j :: items) :: outer, .separator⟩
  | .object members (some key) :: outer =>
    .ok ⟨.object (put key j members) none :: outer, .separator⟩
  | .object _ none :: _ => .error .malformed

/-- A number is complete, if it can be read. -/
def number (n : Numeral) (stack : List Open) : Except Fault Reading :=
  if n.isWhole then
    match n.readInt with
    | .ok i => complete (.int i) stack
    | .error cause => .error (.numeralTooLong cause)
  else complete (.float n.toBinary64) stack

/-- An array begins, if there is room for it. -/
def openArray (stack : List Open) : Except Fault Reading :=
  if stack.length < maxDepth then .ok ⟨.array [] :: stack, .value true⟩
  else .error (.tooDeep true)

/-- An object begins, if there is room for it. -/
def openObject (stack : List Open) : Except Fault Reading :=
  if stack.length < maxDepth then
    .ok ⟨.object [] none :: stack, .key true⟩
  else .error (.tooDeep false)

/-- **Reads one token.** -/
def token (r : Reading) (t : Token) : Except Fault Reading :=
  match r.expected, t, r.stack with
  | .value _, .text t, stack => complete (.string t) stack
  | .value _, .word j, stack => complete j stack
  | .value _, .numeral n, stack => number n stack
  | .value _, .openArray, stack => openArray stack
  | .value _, .openObject, stack => openObject stack
  | .value true, .closeArray, .array items :: outer =>
    complete (.array items.reverse) outer
  | .key _, .text key, .object members _ :: outer =>
    .ok ⟨.object members (some key) :: outer, .colon⟩
  | .key true, .closeObject, .object members _ :: outer =>
    complete (.object members) outer
  | .colon, .colon, stack => .ok ⟨stack, .value false⟩
  | .separator, .comma, .array items :: outer =>
    .ok ⟨.array items :: outer, .value false⟩
  | .separator, .closeArray, .array items :: outer =>
    complete (.array items.reverse) outer
  | .separator, .comma, .object members key :: outer =>
    .ok ⟨.object members key :: outer, .key false⟩
  | .separator, .closeObject, .object members _ :: outer =>
    complete (.object members) outer
  | _, _, _ => .error .malformed

/-- The end of the text, which may come when the value is complete. -/
def finish (r : Reading) : Except Fault Json :=
  match r.expected with
  | .nothing j => .ok j
  | _ => .error .malformed

/-- **Reads the rest of a text.** -/
def run (r : Reading) (cs : List Char) : Except Fault Json :=
  match hs : cs.dropWhile isSpace with
  | [] => r.finish
  | c :: rest =>
    match ht : Token.first? c rest with
    | none => .error .malformed
    | some (t, after) =>
      have : after.length < cs.length := by
        have h1 := Token.length_of_first? ht
        have h2 := (List.dropWhile_sublist (l := cs) isSpace).length_le
        rw [hs] at h2
        omega
      match r.token t with
      | .error fault => .error fault
      | .ok r => r.run after
termination_by cs.length

end Reading

/-- **The value that a text denotes**, or the first fault in it. -/
def ofText (s : String) : Except Fault Json :=
  Reading.run ⟨[], .value false⟩ s.toList

end FormTree.Json
