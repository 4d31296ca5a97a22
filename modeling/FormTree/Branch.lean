import FormTree.Failure
import FormTree.Row

/-!
# Building branches

Inside the tree the children of a branch are nodes by their type. From
outside they arrive as a row of arbitrary values, in a collection that may
not even have an order. `Form.build` checks what arrives and either builds
the branch or says what is wrong: first the kind, then the order, then the
children one by one.

The kind may be asked for by a plain name as well, which is good enough as
long as nothing is wrong with the children (`Form.buildNamed`).
-/

namespace FormTree

/-- The characters of a text, each as a text; what is no text has none. -/
def Scalar.characters (s : Scalar) : List Text :=
  match s.plain with
  | .text t => t.points.map fun n => ⟨[n]⟩
  | _ => []

namespace Row

/-- **A value as a row.** Tuples and lists have an order; a text counts as
its characters, a dictionary as its keys, and what is no collection has no
items. -/
def ofValue (v : Value) : Row Value :=
  match v with
  | .group c items =>
    ⟨items, if c.isOrdered then none else some v.typeName⟩
  | .dict _ entries => ⟨entries.map Prod.fst, some v.typeName⟩
  | .scalar s => ⟨s.characters.map .text, some v.typeName⟩
  | .bytes bs => ⟨bs.map fun b => .int b.toNat, some v.typeName⟩
  | _ => ⟨[], some v.typeName⟩

end Row

/-- The nodes of a list of values, or the first value that is none. -/
def nodesOf (kind : Composite) :
    List Value → Except StructureError (List Form)
  | [] => .ok []
  | .node n :: vs => (nodesOf kind vs).map (n :: ·)
  | v :: _ => .error (.childNotNode kind v)

/-- Nodes pass unchanged. -/
theorem nodesOf_map_node (kind : Composite) (ns : List Form) :
    nodesOf kind (ns.map Value.node) = .ok ns := by
  induction ns with
  | nil => rfl
  | cons n ns ih => simp [nodesOf, ih, Except.map]

namespace Form

/-- Builds a branch of a composite kind from a row of children. -/
def buildComposite (kind : Composite) (row : Row Value) :
    Except StructureError Form :=
  match row.unordered with
  | some typeName => .error (.unorderedChildren kind typeName)
  | none => (nodesOf kind row.items).map (.branch kind)

/-- **Builds a branch** of the kind asked for from a row of children. -/
def build (kind : Kind) (row : Row Value) : Except StructureError Form :=
  match kind.composite? with
  | none => .error (.notComposite (.kind kind))
  | some kind => buildComposite kind row

/-- **Builds a branch** of the kind that has a name. What is wrong with
the children is told in terms of the kind, and a name alone is none. -/
def buildNamed (name : Text) (row : Row Value) :
    Except NamingError Form :=
  match (name.string?.bind Kind.ofName?).bind Kind.composite? with
  | none => .error (.structural (.notComposite (.name name)))
  | some kind =>
    match buildComposite kind row with
    | .ok n => .ok n
    | .error _ => .error .nameOnly

/-- **Gives a branch other children**, keeping its kind. -/
def rebuild (v : Value) (row : Row Value) : Except StructureError Form :=
  match v with
  | .node (.branch kind _) => buildComposite kind row
  | v => .error (.notRebuildable v)

/-- A branch takes any list of nodes as its children. -/
theorem rebuild_branch (kind : Composite) (old new : List Form) :
    rebuild (.node (.branch kind old)) (.ofList (new.map Value.node))
      = .ok (.branch kind new) := by
  simp [rebuild, buildComposite, nodesOf_map_node, Except.map]

end Form

end FormTree
