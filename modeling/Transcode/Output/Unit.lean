import Transcode.Graph.Containment

/-!
# Units and their order

A unit is a construct that the output declares at the top level: one that nothing contains, or whose
container cannot hold a declaration of its kind. A unit comes after the units that its supertypes
belong to; among those that can come next the earliest created one does. The order is found by
counting for each unit how many others it waits for, as units come out of a queue of those that wait
for none (Kahn's algorithm).
-/

namespace Transcode.Output

/-- Whether a construct is written inside the construct that contains it. -/
def hosts : NodeKind → NodeKind → Bool
  | .classType, child =>
    child = .field || child = .method || child = .constructor || child = .accessor ||
      child = .classType
  | .interfaceType, child => child = .field || child = .method || child = .accessor
  | .field, _ => false
  | _, child => child.isLoop

/-- Whether a construct is written at the top level. -/
def isUnit (graph : CodeGraph) (node : Node) : Bool :=
  match graph.parent? node.id with
  | none => true
  | some parent => !hosts parent.kind node.kind

/-- The constructs written at the top level, in order of creation. -/
def units (graph : CodeGraph) : List Node := graph.nodes.filter (isUnit graph)

/-- The innermost unit around a node, looked for at the node and at most `fuel` containers. -/
def unitWithin (graph : CodeGraph) : Nat → Node → Option Node
  | 0, _ => none
  | fuel + 1, node =>
    if isUnit graph node then some node
    else (graph.parent? node.id).bind (unitWithin graph fuel)

/-- The unit that the node with an id belongs to. -/
def unitOf? (graph : CodeGraph) (id : String) : Option String :=
  ((graph.node? id).bind (unitWithin graph (graph.nodeCount + 1))).map (·.id)

/-- A unit needs another to come first. -/
structure Requirement where
  unit : String
  base : String
  deriving DecidableEq, Repr

/-- What an edge requires of the order of units. -/
def requirementOf? (graph : CodeGraph) (edge : Edge) : Option Requirement :=
  if edge.kind.isHeritage then
    match unitOf? graph edge.source, unitOf? graph edge.target with
    | some unit, some base => if unit = base then none else some ⟨unit, base⟩
    | _, _ => none
  else none

/-- What a graph requires of the order of its units. -/
def requirements (graph : CodeGraph) : List Requirement :=
  graph.edges.filterMap (requirementOf? graph)

/-! ### The order -/

/-- The units that need a given one to come first. -/
def dependents (required : List Requirement) (all : List Node) (base : String) : List Node :=
  all.filter fun unit => required.contains ⟨unit.id, base⟩

/-- How many units a unit needs to come first, each counted once. -/
def needCount (required : List Requirement) (unit : String) : Nat :=
  (required.eraseDups.filter (·.unit = unit)).length

/-- The units that can come next, the earliest created first, and how many others each of the units
still waits for. -/
structure Queue where
  ready : List Node
  waits : Dict Nat

namespace Queue

/-- Puts a unit before the first one that was created later. -/
def enter (unit : Node) : List Node → List Node
  | [] => [unit]
  | head :: rest => if unit.seq < head.seq then unit :: head :: rest else head :: enter unit rest

/-- The queue before any unit is out: ready is what needs nothing. -/
def start (required : List Requirement) (all : List Node) : Queue where
  ready := all.filter fun unit => needCount required unit.id = 0
  waits := .ofList (all.map fun unit => (unit.id, needCount required unit.id))

/-- How many others a unit still waits for. -/
def waitsOf (waits : Dict Nat) (unit : Node) : Nat := (waits.get? unit.id).getD 0

/-- The queue when a unit waits for one less. If that was the last one, the unit is ready. -/
def release (queue : Queue) (unit : Node) : Queue :=
  let left := waitsOf queue.waits unit - 1
  { ready := if left = 0 then enter unit queue.ready else queue.ready
    waits := queue.waits.insert unit.id left }

/-- What comes out of a queue one by one, each unit releasing those that need it, until none is
ready or `fuel` of them are out; and what the others wait for then. -/
def drain (needing : String → List Node) : Nat → Queue → List Node × Dict Nat
  | 0, queue => ([], queue.waits)
  | fuel + 1, queue =>
    match queue.ready with
    | [] => ([], queue.waits)
    | next :: rest =>
      let (others, waits) :=
        drain needing fuel ((needing next.id).foldl release { queue with ready := rest })
      (next :: others, waits)

end Queue

/-- The units of a graph in the order of the output. If some never get ready, there is a cycle,
which is reported with the earliest created of them. -/
def orderedUnits (graph : CodeGraph) : Except Failure (List Node) :=
  let all := units graph
  let required := requirements graph
  let (ordered, waits) :=
    Queue.drain (dependents required all) all.length (.start required all)
  if ordered.length < all.length then
    .error (.cyclic (((all.find? (0 < Queue.waitsOf waits ·)).map (·.id)).getD ""))
  else .ok ordered

end Transcode.Output
