import FormTree.Moves

/-!
# Searching along a move

A search repeats a move until the focus is what is looked for. The place
it starts from is tested first, significant or not; which places come
after that is up to the move.
-/

namespace FormTree.Cursor

variable {ε : Type}

/-- The kind of the focus, if it is a node. -/
def tag (c : Cursor Value) : Option Kind := c.focus.kind?

/-- **What the focus holds**: the value of a token, the text of
formatting, and nothing otherwise. -/
def held (c : Cursor Value) : Value :=
  match c.focus with
  | .node (.token v) => v
  | .node (.whitespace s) => .text s
  | .node (.comment s) => .text s
  | _ => .nil

/-- Whether the focus is a token whose value passes a test. -/
def isTokenWith (test : Value → Bool) (c : Cursor Value) : Bool :=
  decide (c.tag = some .token) && test c.held

/-- **The first place along a move that passes a test.** -/
def find (S : Shape Value ε) (cfg : Config) (test : Cursor Value → Bool)
    (m : Move) (c : Cursor Value) : Attempt ε (Cursor Value) :=
  c.skip S (m.run S cfg) fun d => !test d

/-- The first node of a kind. -/
def findKind (S : Shape Value ε) (cfg : Config) (k : Kind) (m : Move)
    (c : Cursor Value) : Attempt ε (Cursor Value) :=
  c.find S cfg (fun d => decide (d.tag = some k)) m

/-- The nearest significant sibling of a kind on one side, the focus left
out. -/
def findSibling (S : Shape Value ε) (cfg : Config) (k : Kind)
    (d : Direction) (c : Cursor Value) : Attempt ε (Cursor Value) :=
  (d.significant S cfg c).andThen (findKind S cfg k (.significant d))

/-- The next significant sibling of a kind. -/
def findNext (S : Shape Value ε) (cfg : Config) (k : Kind) :
    Cursor Value → Attempt ε (Cursor Value) :=
  findSibling S cfg k .right

/-- The previous significant sibling of a kind. -/
def findPrevious (S : Shape Value ε) (cfg : Config) (k : Kind) :
    Cursor Value → Attempt ε (Cursor Value) :=
  findSibling S cfg k .left

/-- The first token whose value passes a test. -/
def findToken (S : Shape Value ε) (cfg : Config) (test : Value → Bool)
    (m : Move) (c : Cursor Value) : Attempt ε (Cursor Value) :=
  c.find S cfg (isTokenWith test) m

/-- **The first token that holds a literal.** -/
def findLiteral (S : Shape Value ε) (cfg : Config) (v : Value) (m : Move)
    (c : Cursor Value) : Attempt ε (Cursor Value) :=
  c.findToken S cfg (fun w => w.sameLiteral v) m

end FormTree.Cursor
