import Transcode.Graph.Basic
import Transcode.Json.Decode
import Transcode.Json.Reader

/-!
# Graphs as data

`GraphData` is what a graph shows: its nodes and edges in order and its history, without sequence
numbers, counters and forwarding. Loading data gives every node and edge its place as its sequence
number, and lets the next fresh ids start at the numbers of nodes and edges.
-/

namespace Transcode

/-- A problem that leaves a usable result. -/
inductive Warning where
  /-- The bound on passes was reached with embeddings left. -/
  | nonTermination (iterations pending : Nat)
  deriving DecidableEq, Repr

namespace Warning

/-- The wording of a warning. -/
def display : Warning → String
  | .nonTermination iterations pending =>
    "no fixpoint after " ++ toString iterations ++ " iterations (" ++ toString pending ++
      " matches still pending)"

/-- A warning as data. -/
def toJson : Warning → Json
  | .nonTermination iterations pending =>
    .object [("type", .text "nonTermination"), ("iterations", .natural iterations),
      ("pending", .natural pending)]

/-- Reads the name of the only warning there is. -/
def tagDecoder : Decoder Unit
  | .text "nonTermination" => .ok ()
  | _ => .error .shape

/-- Reads a warning, which stands two levels deep. Its name tells what its other parts mean, so all
of them are read before it is known which are asked for. -/
def decoder : Decoder Warning :=
  .readable (Json.maxDepth - 2) <| Field.decoder ["type", "iterations", "pending"]
    ((fun _ iterations pending => .nonTermination iterations pending)
      <$> .required "type" tagDecoder <*> .required "iterations" Decoder.natural
      <*> .required "pending" Decoder.natural)

end Warning

/-- A node as data shows it. -/
structure NodeData where
  id : String
  label : String
  kind : NodeKind
  attributes : Attributes
  deriving DecidableEq, Repr

/-- An edge as data shows it. -/
structure EdgeData where
  id : String
  source : String
  target : String
  kind : EdgeKind
  attributes : Attributes
  deriving DecidableEq, Repr

/-- What a graph shows. -/
structure GraphData where
  nodes : List NodeData
  edges : List EdgeData
  history : List Provenance := []
  warnings : List Warning := []
  deriving DecidableEq, Repr

/-- Reads a kind of node. -/
def NodeKind.decoder : Decoder NodeKind := .choice NodeKind.names

/-- Reads a kind of edge. -/
def EdgeKind.decoder : Decoder EdgeKind := .choice EdgeKind.names

namespace NodeData

/-- A node as JSON. -/
def toJson (node : NodeData) : Json :=
  .object [("id", .text node.id), ("label", .text node.label), ("type", .text node.kind.name),
    ("attributes", Json.ofDict .text node.attributes)]

/-- Reads a node. -/
def decoder : Decoder NodeData :=
  Field.decoder ["id", "label", "type", "attributes"]
    (mk <$> .required "id" Decoder.text <*> .required "label" Decoder.text
      <*> .required "type" NodeKind.decoder
      <*> .named ["attributes", "properties"] (Decoder.dict Decoder.text) (some ∅))

end NodeData

namespace EdgeData

/-- An edge as JSON. -/
def toJson (edge : EdgeData) : Json :=
  .object [("id", .text edge.id), ("source", .text edge.source), ("target", .text edge.target),
    ("label", .text edge.kind.name), ("attributes", Json.ofDict .text edge.attributes)]

/-- Reads an edge. -/
def decoder : Decoder EdgeData :=
  Field.decoder ["id", "source", "target", "label", "attributes"]
    (mk <$> .required "id" Decoder.text <*> .required "source" Decoder.text
      <*> .required "target" Decoder.text <*> .required "label" EdgeKind.decoder
      <*> .named ["attributes", "properties"] (Decoder.dict Decoder.text) (some ∅))

end EdgeData

namespace Provenance

/-- A history entry as JSON. -/
def toJson (entry : Provenance) : Json :=
  .object [("nodeId", .text entry.node), ("ruleId", .text entry.rule)]

/-- Reads a history entry. -/
def decoder : Decoder Provenance :=
  Field.decoder ["nodeId", "ruleId"]
    (mk <$> .required "nodeId" Decoder.text <*> .required "ruleId" Decoder.text)

end Provenance

namespace GraphData

/-- Graph data as JSON. -/
def toJson (data : GraphData) : Json :=
  .object ([("nodes", .array (data.nodes.map (·.toJson))),
      ("edges", .array (data.edges.map (·.toJson)))]
    ++ Json.entryIfAny "history" Provenance.toJson data.history
    ++ Json.entryIfAny "warnings" Warning.toJson data.warnings)

/-- Reads graph data. -/
def decoder : Decoder GraphData :=
  Field.decoder ["nodes", "edges", "history", "warnings"]
    (mk <$> .required "nodes" (Decoder.list NodeData.decoder)
      <*> .required "edges" (Decoder.list EdgeData.decoder)
      <*> .defaulted "history" (Decoder.list Provenance.decoder) []
      <*> .defaulted "warnings" (Decoder.list Warning.decoder) [])

end GraphData

namespace CodeGraph

/-- What a graph shows. -/
def toData (graph : CodeGraph) : GraphData where
  nodes := graph.nodes.map fun node => ⟨node.id, node.label, node.kind, node.attributes⟩
  edges := graph.edges.map fun edge =>
    ⟨edge.id, edge.source, edge.target, edge.kind, edge.attributes⟩
  history := graph.history

/-- Adds nodes in order. -/
def addNodes (graph : CodeGraph) : List NodeData → Except GraphFault CodeGraph
  | [] => .ok graph
  | node :: rest => do
    (← graph.addNodeWithId node.id node.kind node.label node.attributes).addNodes rest

/-- Adds edges in order. -/
def addEdges (graph : CodeGraph) : List EdgeData → Except GraphFault CodeGraph
  | [] => .ok graph
  | edge :: rest =>
    match graph.addEdgeWithId edge.id edge.source edge.target edge.kind edge.attributes with
    | (.ok _, graph) => graph.addEdges rest
    | (.error fault, _) => .error fault

/-- The graph that shows given data, if ids are used once and ends of edges are nodes. -/
def ofData (data : GraphData) : Except GraphFault CodeGraph := do
  let withNodes ← ({} : CodeGraph).addNodes data.nodes
  let withEdges ← withNodes.addEdges data.edges
  return { withEdges with
    nextNodeId := withEdges.nodeCount
    nextEdgeId := withEdges.edgeCount
    history := data.history }

/-- The graph that JSON text denotes. -/
def ofJsonText (text : String) : Except Failure CodeGraph :=
  match (Json.read? text).map GraphData.decoder with
  | some (.ok data) =>
    match ofData data with
    | .ok graph => .ok graph
    | .error fault => .error (.invalidGraph fault)
  | _ => .error .json

end CodeGraph

end Transcode
