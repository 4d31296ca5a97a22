import FormTree.Cursor

/-!
# Trails

A move repeated from a place leaves a trail: the places it visits until it
leads nowhere. Skipping follows a trail to the first place that is not to
be skipped.

A trail of moves that always get somewhere new cannot be longer than there
are places. `reach` bounds their number from what the cursor holds, and
the repetitions below are given that many steps.
-/

namespace FormTree

/-- A move, which may fail and may lead nowhere. -/
abbrev Cursor.Mover (τ ε : Type) := Cursor τ → Attempt ε (Cursor τ)

namespace Cursor

variable {τ ε : Type}

/-- The places in one frame: the parent, and everything in the row. A
place in the row has two numbers, one from the front and one from the
end. -/
def frameReach (S : Shape τ ε) (f : Frame τ) : Nat :=
  S.weight f.parent + 2 * total S.weight f.siblings

/-- **A bound for the number of places** that can be visited from a
cursor. An ancestor made anew on the way up can be walked again, so
everything is counted once for every level. -/
def reach (S : Shape τ ε) (c : Cursor τ) : Nat :=
  (c.path.length + 1) * (S.weight c.focus + total (frameReach S) c.path)

/-- The trail of a move, of at most `steps` moves. -/
def trailOf (move : Mover τ ε) :
    (steps : Nat) → Cursor τ → Except ε (List (Cursor τ))
  | 0, c => .ok [c]
  | steps + 1, c =>
    match move c with
    | .error e => .error e
    | .ok none => .ok [c]
    | .ok (some d) => (trailOf move steps d).map (c :: ·)

/-- **The trail of a move** from a cursor on. -/
def trail (S : Shape τ ε) (move : Mover τ ε) (c : Cursor τ) :
    Except ε (List (Cursor τ)) :=
  trailOf move (c.reach S) c

/-- The first place of a trail that is not to be skipped, after at most
`steps` moves. -/
def skipOf (move : Mover τ ε) (toSkip : Cursor τ → Bool) :
    (steps : Nat) → Cursor τ → Attempt ε (Cursor τ)
  | 0, c => .ok (if toSkip c then none else some c)
  | steps + 1, c =>
    if toSkip c then (move c).andThen (skipOf move toSkip steps)
    else .ok (some c)

/-- **Repeats a move while a place is to be skipped**, starting with the
place of the cursor itself. -/
def skip (S : Shape τ ε) (move : Mover τ ε) (toSkip : Cursor τ → Bool)
    (c : Cursor τ) : Attempt ε (Cursor τ) :=
  skipOf move toSkip (c.reach S) c

end Cursor

end FormTree
