import FormTree.Value

/-!
# Equality of values

Two values are equal when they denote the same thing, which is coarser
than being written alike: a truth value, a whole number, a double and a
ratio are equal when their exact values are, sets are equal when they have
the same members, dictionaries when they have the same entries.

An instance of a derived class is compared as what it is derived from. Of
the scalars only symbols and keywords belong to their classes, which may
be derived ones, and equal those of the same class alone. An object of an
unknown class is compared as the value that it stands for (`comparand`),
on whichever side it is.

There is one number that equals nothing, the indefinite result, and it is
the reason for the flag `asMember` below. Compared on its own it differs
even from itself; but a collection compares its members by *being the
same or being equal*, and there the same indefinite result is one member.

Tokens are stricter than plain values: as literals, `true` and `1` are
different forms, so two tokens are equal when the types of what they hold
agree as well (`sameLiteral`). The strictness concerns the value held and
not what is inside it. And a token is the same as itself only: two tokens
around one indefinite result are two tokens, so there the place counts in
which the result stands.
-/

namespace FormTree

namespace Scalar

/-- The exact value of a numeric scalar. The truth values count as one and
zero. -/
def number? : Scalar → Option Rat
  | .bool b => some (if b then 1 else 0)
  | .int n => some (mkRat n 1)
  | .float x => x.value?
  | .ratio q => some q
  | .derived _ base => base.number?
  | _ => none

/-- The indefinite result that a scalar is, if it is one. -/
def indefinite? : Scalar → Option Indefinite
  | .float (.nan result) => some result
  | .derived _ base => base.indefinite?
  | _ => none

/-- Whether a scalar is a symbol or a keyword. -/
def isName : Scalar → Bool
  | .symbol _ => true
  | .keyword _ => true
  | _ => false

/-- What a scalar is compared by that is no number: what it is an instance
of, and for a name of a derived class the class as well. -/
def content : Scalar → Scalar
  | .derived guise base =>
    if base.plain.isName then
      .derived { guise with printed := "" } base.plain
    else base.plain
  | s => s

/-- **Equality of scalars**: by exact value among the numbers, and by
content otherwise. -/
def eqv (asMember : Bool) (a b : Scalar) : Bool :=
  match a.number?, b.number? with
  | some p, some q => decide (p = q)
  | none, none =>
    match a.indefinite?, b.indefinite? with
    | some i, some j => asMember && decide (i.origin = j.origin)
    | none, none => decide (a.content = b.content)
    | _, _ => false
  | _, _ => false

end Scalar

namespace Value

/-- **What a value is compared as**: an object that stands for a value as
that value, and anything else as itself. -/
def comparand : Value → Value
  | .foreign _ (some v) => v.comparand
  | v => v

/-- The place of what is compared as an indefinite result; nothing else
has one. -/
def place? (v : Value) : Option (List Nat) :=
  match v.comparand with
  | .scalar s => s.indefinite?.map Indefinite.place
  | _ => none

mutual
/-- **Equality of values**, on their own or as members of something. -/
def eqv (asMember : Bool) : Value → Value → Bool
  | .foreign _ (some v), w => v.eqv asMember w
  | .foreign o none, w =>
    match w.comparand with
    | .foreign p _ => decide (o.mark = p.mark)
    | _ => false
  | .scalar a, w =>
    match w.comparand with
    | .scalar b => a.eqv asMember b
    | _ => false
  | .bytes a, w =>
    match w.comparand with
    | .bytes b => decide (a = b)
    | _ => false
  | .group c xs, w =>
    match w.comparand with
    | .group d ys =>
      if c.isOrdered then decide (c.base = d.base) && eqvRow xs ys
      else !d.isOrdered && decide (xs.length = ys.length)
        && (eqvTo xs).all fun p => ys.any p
    | _ => false
  | .dict _ xs, w =>
    match w.comparand with
    | .dict _ ys =>
      decide (xs.length = ys.length)
        && (eqvToEntry xs).all fun p => ys.any p
    | _ => false
  | .node m, w =>
    match w.comparand with
    | .node n => eqvNode asMember m n
    | _ => false
termination_by structural v => v
/-- Rows that agree place by place. -/
def eqvRow : List Value → List Value → Bool
  | [], [] => true
  | x :: xs, y :: ys => x.eqv true y && eqvRow xs ys
  | _, _ => false
/-- For every member, the test of being equal to it. -/
def eqvTo : List Value → List (Value → Bool)
  | [] => []
  | x :: xs => (fun y => x.eqv true y) :: eqvTo xs
/-- For every entry, the test of having the same key and the same
value. -/
def eqvToEntry : List (Value × Value) → List (Value × Value → Bool)
  | [] => []
  | (k, v) :: es =>
    (fun e => k.eqv true e.1 && v.eqv true e.2) :: eqvToEntry es
/-- Equality of nodes: tokens as literals, formatting by its text,
branches by kind and children. -/
def eqvNode (asMember : Bool) : Form → Form → Bool
  | .token a, .token b =>
    a.sameType b && decide (a.place? = b.place?) && a.eqv asMember b
  | .whitespace s, .whitespace t => decide (s = t)
  | .comment s, .comment t => decide (s = t)
  | .branch c xs, .branch d ys => decide (c = d) && eqvNodes xs ys
  | _, _ => false
/-- Children that agree place by place. -/
def eqvNodes : List Form → List Form → Bool
  | [], [] => true
  | x :: xs, y :: ys => eqvNode true x y && eqvNodes xs ys
  | _, _ => false
end

/-- **Plain equality** of two values. -/
def equal (a b : Value) : Bool := a.eqv false b

/-- **Equality of literals**: of one type, and equal. -/
def sameLiteral (a b : Value) : Bool := a.sameType b && a.equal b

/-- **A value is compared with what the other one is compared as.** -/
theorem eqv_of_comparand_eq (m : Bool) {w w' : Value}
    (h : w.comparand = w'.comparand) : ∀ v : Value, v.eqv m w = v.eqv m w'
  | .foreign _ (some v) => eqv_of_comparand_eq m h v
  | .foreign o none => by rw [eqv, eqv, h]
  | .scalar s => by rw [eqv, eqv, h]
  | .bytes bs => by rw [eqv, eqv, h]
  | .group c items => by rw [eqv, eqv, h]
  | .dict guise entries => by rw [eqv, eqv, h]
  | .node n => by rw [eqv, eqv, h]

/-- The tests of a row are the comparisons with its members. -/
theorem eqvTo_eq_map (xs : List Value) :
    eqvTo xs = xs.map fun x y => x.eqv true y := by
  induction xs with
  | nil => simp [eqvTo]
  | cons x xs ih => simp [eqvTo, ih]

/-- The tests of a dictionary are the comparisons with its entries. -/
theorem eqvToEntry_eq_map (es : List (Value × Value)) :
    eqvToEntry es
      = es.map fun d e => d.1.eqv true e.1 && d.2.eqv true e.2 := by
  induction es with
  | nil => simp [eqvToEntry]
  | cons e es ih => simp [eqvToEntry, ih]

end Value

end FormTree
