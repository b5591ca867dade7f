import Transcode.Dict
import Transcode.Error
import Transcode.Graph.Kind

/-!
# Code graphs

A graph of typed nodes and edges with text attributes. Nodes and edges are known by their ids and
kept in the order of their sequence numbers, which is the order in which everything is listed. A
node that was replaced is remembered with what replaced it, and so is which rule made which node.

Ids are made from counters that skip ids in use. An operation that fails may have used up an id or a
sequence number, so it gives back a graph as well as a fault.
-/

namespace Transcode

/-- A construct in a graph. -/
structure Node where
  id : String
  kind : NodeKind
  label : String
  attributes : Attributes
  seq : Nat
  deriving DecidableEq, Repr

namespace Node

/-- The text at an attribute. -/
def get? (node : Node) (key : String) : Option String := node.attributes.get? key

/-- The text at an attribute, empty if there is none. -/
def textAt (node : Node) (key : String) : String := node.attributes.textAt key

end Node

/-- A relation between the nodes with two ids. -/
structure Edge where
  id : String
  kind : EdgeKind
  source : String
  target : String
  attributes : Attributes
  seq : Nat
  deriving DecidableEq, Repr

/-- The rule `rule` made the node `node`. -/
structure Provenance where
  node : String
  rule : String
  deriving DecidableEq, Repr

/-- A graph with the counters for its next ids and sequence numbers. -/
structure CodeGraph where
  nodes : List Node := []
  edges : List Edge := []
  nextSeq : Nat := 0
  nextEdgeSeq : Nat := 0
  nextNodeId : Nat := 0
  nextEdgeId : Nat := 0
  namespaceText : String := ""
  history : List Provenance := []
  forwarding : Dict String := ∅
  deriving Repr, Inhabited

/-- The first number from a start whose name is not taken, among at most `fuel + 1` numbers. -/
def firstFree (name : Nat → String) (taken : List String) : Nat → Nat → Nat
  | 0, number => number
  | fuel + 1, number =>
    if taken.contains (name number) then firstFree name taken fuel (number + 1) else number

namespace CodeGraph

/-- The graph without nodes whose ids start with a given text. -/
def withNamespace (namespaceText : String) : CodeGraph := { namespaceText }

/-- The number of nodes. -/
def nodeCount (graph : CodeGraph) : Nat := graph.nodes.length

/-- The number of edges. -/
def edgeCount (graph : CodeGraph) : Nat := graph.edges.length

/-! ### Looking up -/

/-- The node with an id. -/
def node? (graph : CodeGraph) (id : String) : Option Node := graph.nodes.find? (·.id = id)

/-- Whether a node has an id. -/
def hasNode (graph : CodeGraph) (id : String) : Bool := graph.nodes.any (·.id = id)

/-- The edge with an id. -/
def edge? (graph : CodeGraph) (id : String) : Option Edge := graph.edges.find? (·.id = id)

/-- Whether an edge has an id. -/
def hasEdge (graph : CodeGraph) (id : String) : Bool := graph.edges.any (·.id = id)

/-- The nodes of a kind. -/
def nodesOf (graph : CodeGraph) (kind : NodeKind) : List Node := graph.nodes.filter (·.kind = kind)

/-- The edges that start at a node. -/
def outgoing (graph : CodeGraph) (id : String) : List Edge := graph.edges.filter (·.source = id)

/-- The edges that end at a node. -/
def incoming (graph : CodeGraph) (id : String) : List Edge := graph.edges.filter (·.target = id)

/-- The edges of a kind that start at a node. -/
def outgoingOf (graph : CodeGraph) (kind : EdgeKind) (id : String) : List Edge :=
  (graph.outgoing id).filter (·.kind = kind)

/-- The edges of a kind that end at a node. -/
def incomingOf (graph : CodeGraph) (kind : EdgeKind) (id : String) : List Edge :=
  (graph.incoming id).filter (·.kind = kind)

/-- The nodes at the ends of the edges of a kind that start at a node, in the order of the edges. -/
def successors (graph : CodeGraph) (kind : EdgeKind) (id : String) : List Node :=
  (graph.outgoingOf kind id).filterMap (graph.node? ·.target)

/-- The nodes at the starts of the edges of a kind that end at a node, in the order of the edges. -/
def predecessors (graph : CodeGraph) (kind : EdgeKind) (id : String) : List Node :=
  (graph.incomingOf kind id).filterMap (graph.node? ·.source)

/-- The nodes that a node contains, in the order of their sequence. -/
def children (graph : CodeGraph) (id : String) : List Node :=
  (graph.successors .contains id).mergeSort (·.seq ≤ ·.seq)

/-- The node that contains a node; of several, that of the first edge. -/
def parent? (graph : CodeGraph) (id : String) : Option Node :=
  (graph.incomingOf .contains id).head?.bind (graph.node? ·.source)

/-! ### Changing -/

/-- The graph with one more node. -/
def pushNode (graph : CodeGraph) (id : String) (kind : NodeKind) (label : String)
    (attributes : Attributes) : CodeGraph :=
  { graph with
    nodes := graph.nodes ++ [⟨id, kind, label, attributes, graph.nextSeq⟩]
    nextSeq := graph.nextSeq + 1 }

/-- The id with a number. -/
def nodeName (graph : CodeGraph) (number : Nat) : String :=
  graph.namespaceText ++ "n" ++ toString number

/-- The edge id with a number. -/
def edgeName (graph : CodeGraph) (number : Nat) : String :=
  graph.namespaceText ++ "e" ++ toString number

/-- The number of the next node id that is not in use. -/
def freshNode (graph : CodeGraph) : Nat :=
  firstFree graph.nodeName (graph.nodes.map (·.id)) graph.nodes.length graph.nextNodeId

/-- The number of the next edge id that is not in use. -/
def freshEdge (graph : CodeGraph) : Nat :=
  firstFree graph.edgeName (graph.edges.map (·.id)) graph.edges.length graph.nextEdgeId

/-- Adds a node under a fresh id. -/
def addNode (graph : CodeGraph) (kind : NodeKind) (label : String) (attributes : Attributes) :
    String × CodeGraph :=
  let number := graph.freshNode
  (graph.nodeName number,
    { graph with nextNodeId := number + 1 }.pushNode (graph.nodeName number) kind label attributes)

/-- Adds a node under a given id, which must not be in use. -/
def addNodeWithId (graph : CodeGraph) (id : String) (kind : NodeKind) (label : String)
    (attributes : Attributes) : Except GraphFault CodeGraph :=
  if graph.hasNode id then .error (.duplicateNode id)
  else .ok (graph.pushNode id kind label attributes)

/-- Puts an edge before the first with a higher sequence number. -/
def insertBySeq (edge : Edge) : List Edge → List Edge
  | [] => [edge]
  | head :: rest =>
    if edge.seq < head.seq then edge :: head :: rest else head :: insertBySeq edge rest

/-- Adds an edge at its place in the sequence. Its id must not be in use and its ends must be
nodes. -/
def insertEdge (graph : CodeGraph) (edge : Edge) : Except GraphFault CodeGraph :=
  if graph.hasEdge edge.id then .error (.duplicateEdge edge.id)
  else if !graph.hasNode edge.source || !graph.hasNode edge.target then
    .error (.missingEndpoint edge.id edge.source edge.target)
  else .ok { graph with
    edges := insertBySeq edge graph.edges
    nextEdgeSeq := max graph.nextEdgeSeq (edge.seq + 1) }

/-- Adds an edge under a given id at the end of the sequence. The sequence number is used up in any
case. -/
def addEdgeWithId (graph : CodeGraph) (id source target : String) (kind : EdgeKind)
    (attributes : Attributes) : Except GraphFault Unit × CodeGraph :=
  let counted := { graph with nextEdgeSeq := graph.nextEdgeSeq + 1 }
  match counted.insertEdge ⟨id, kind, source, target, attributes, graph.nextEdgeSeq⟩ with
  | .ok graph => (.ok (), graph)
  | .error fault => (.error fault, counted)

/-- Adds an edge under a fresh id at the end of the sequence. The id and the sequence number are
used up in any case. -/
def addEdge (graph : CodeGraph) (source target : String) (kind : EdgeKind)
    (attributes : Attributes) : Except GraphFault String × CodeGraph :=
  let number := graph.freshEdge
  let id := graph.edgeName number
  let (outcome, graph) :=
    { graph with nextEdgeId := number + 1 }.addEdgeWithId id source target kind attributes
  (outcome.map fun _ => id, graph)

/-- The graph without a node and the edges at it. -/
def removeNode (graph : CodeGraph) (id : String) : CodeGraph :=
  { graph with
    nodes := graph.nodes.filter (·.id ≠ id)
    edges := graph.edges.filter fun edge => edge.source ≠ id && edge.target ≠ id }

/-- The graph without an edge. -/
def removeEdge (graph : CodeGraph) (id : String) : CodeGraph :=
  { graph with edges := graph.edges.filter (·.id ≠ id) }

/-- The graph with a text put at an attribute of a node. -/
def setAttribute (graph : CodeGraph) (id key value : String) : CodeGraph :=
  { graph with
    nodes := graph.nodes.map fun node =>
      if node.id = id then { node with attributes := node.attributes.insert key value } else node }

/-- The graph with one more entry in its history. -/
def record (graph : CodeGraph) (node rule : String) : CodeGraph :=
  { graph with history := graph.history ++ [⟨node, rule⟩] }

/-- The graph that remembers that one node replaced another. -/
def forward (graph : CodeGraph) (old new : String) : CodeGraph :=
  { graph with forwarding := graph.forwarding.insert old new }

end CodeGraph

end Transcode
