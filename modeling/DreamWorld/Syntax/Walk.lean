import DreamWorld.Syntax.Node

/-!
# Walking syntax trees

A visitor is handed every node of a tree.  For each one it decides what to do
with its own state and whether to go on to the node's children, which it does by
running the traversal that comes with the node.  The file gives the walk and
three visitors: one that collects names, one that traces every visit, and one
that counts visits.
-/

namespace DreamWorld.Syntax

universe u

/-- What a visitor does at a node: it receives the node, the traversal of the
node's children, and its state. -/
abbrev Visitor (σ : Type u) : Type u :=
  Node → (σ → σ) → σ → σ

/-- Hands a node to a visitor, along with the traversal that hands it the node's
children in order. -/
def Visitor.walk {σ : Type u} (visitor : Visitor σ) (node : Node) (state : σ) : σ :=
  visitor node
    (fun state => node.children.attach.foldl (fun state child => visitor.walk child.1 state) state)
    state
termination_by sizeOf node
decreasing_by exact Node.sizeOf_lt_of_mem_children child.2

/-! ## Collecting names -/

/-- The names that occur in a tree, in the order of the walk. -/
structure Names where
  identifiers : Array String := #[]
  paths : Array String := #[]
  procs : Array String := #[]

/-- Collects proc names, path texts and identifier names.  Every other node is
only walked through, and a path has no children to walk to. -/
def Names.visitor : Visitor Names
  | .procDefinition definition, descend, names =>
      descend { names with procs := names.procs.push definition.name }
  | .path path, _, names => { names with paths := names.paths.push path.toText }
  | .expr (.identifier name), descend, names =>
      descend { names with identifiers := names.identifiers.push name }
  | _, descend, names => descend names

/-- The names that occur in a tree. -/
def Node.names (node : Node) : Names :=
  Names.visitor.walk node {}

/-! ## Tracing visits -/

/-- One visit of a walk: how deep it is, and the kind and label of the node. -/
structure Visit where
  depth : Nat
  kind : NodeKind
  label : String
deriving DecidableEq

/-- The line of a visit in a trace. -/
def Visit.toText (visit : Visit) : String :=
  Nat.repr visit.depth ++ " " ++ visit.kind.name ++ ":" ++ visit.label

/-- The visits so far, and the depth of the next one. -/
structure Trace where
  depth : Nat := 0
  visits : Array Visit := #[]

/-- Records every visit.  Nodes of the kinds in `stops` are recorded without
going to their children. -/
def Trace.visitor (stops : List NodeKind) : Visitor Trace := fun node descend trace =>
  let recorded :=
    { trace with visits := trace.visits.push ⟨trace.depth, node.kind, node.label⟩ }
  if stops.contains node.kind then recorded
  else
    let walked := descend { recorded with depth := recorded.depth + 1 }
    { walked with depth := trace.depth }

/-- The visits of a tree, in order. -/
def Node.trace (stops : List NodeKind) (node : Node) : List Visit :=
  ((Trace.visitor stops).walk node {}).visits.toList

/-! ## Counting visits -/

/-- How many visits of a trace are of a kind. -/
def countOf (visits : List Visit) (kind : NodeKind) : Nat :=
  visits.countP (·.kind == kind)

/-- The kinds that a trace visits, with the number of visits of each. -/
def counts (visits : List Visit) : List (NodeKind × Nat) :=
  (NodeKind.all.map fun kind => (kind, countOf visits kind)).filter fun entry => 0 < entry.2

/-- The greatest depth of a trace. -/
def maxDepth (visits : List Visit) : Nat :=
  visits.foldl (fun deepest visit => max deepest visit.depth) 0

end DreamWorld.Syntax
