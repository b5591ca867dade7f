import Transcode.Transform.Run

/-!
# Transforming declarations apart

A graph is split into a part for each node that nothing contains, with all that it contains; nodes
that only a cycle of containment reaches make up a last part. The parts are transformed one by one
and merged again: what was there before keeps its id and its place in the order, and what is new
comes after it, part by part, under fresh ids. Edges between parts are kept apart meanwhile, and
then follow the replacements that were made of their ends.
-/

namespace Transcode

/-- A graph split into parts. -/
structure Split where
  /-- The ids of the nodes of each part. -/
  groups : List (List String)
  /-- The edges whose ends are in different parts. -/
  crossEdges : List Edge
  parts : List CodeGraph

namespace CodeGraph

/-- The nodes gathered so far and those that a node contains, also through others. A node is
gathered once, so the number of nodes bounds the depth. -/
def gather (graph : CodeGraph) : Nat → List String → String → List String
  | 0, gathered, _ => gathered
  | fuel + 1, gathered, id =>
    if gathered.contains id then gathered
    else ((graph.children id).map (·.id)).foldl (graph.gather fuel) (id :: gathered)

/-- The groups of nodes that roots contain. A node that several roots contain is in the first
group. -/
def groupsOf (graph : CodeGraph) (grouped : List String) : List Node → List (List String)
  | [] => []
  | root :: rest =>
    let gathered := graph.gather (graph.nodeCount + 1) grouped root.id
    gathered.take (gathered.length - grouped.length) :: graph.groupsOf gathered rest

/-- The nodes that nothing contains. -/
def roots (graph : CodeGraph) : List Node :=
  graph.nodes.filter fun node => (graph.incomingOf .contains node.id).isEmpty

/-- The nodes of a graph by parts. -/
def partGroups (graph : CodeGraph) : List (List String) :=
  let groups := graph.groupsOf [] graph.roots
  let left := (graph.nodes.filter fun node => !groups.any (·.contains node.id)).map (·.id)
  if left.isEmpty then groups else groups ++ [left]

end CodeGraph

/-- The part of a node, by the groups of nodes. -/
def partOf? (groups : List (List String)) (id : String) : Option Nat :=
  groups.findIdx? (·.contains id)

/-- The part of an edge, if both ends are in one. -/
def partOfEdge? (groups : List (List String)) (edge : Edge) : Option Nat :=
  if partOf? groups edge.source = partOf? groups edge.target then partOf? groups edge.source
  else none

namespace CodeGraph

/-- A part of a graph: the nodes of a group and the edges between them, with fresh ids of its
own. -/
def partGraph (graph : CodeGraph) (groups : List (List String)) (index : Nat)
    (group : List String) : Except GraphFault CodeGraph := do
  let nodes := graph.nodes.filter fun node => group.contains node.id
  let withNodes ← nodes.foldlM
    (fun part node => part.addNodeWithId node.id node.kind node.label node.attributes)
    (CodeGraph.withNamespace ("p" ++ toString index ++ "."))
  (graph.edges.filter fun edge => partOfEdge? groups edge = some index).foldlM
    (fun part edge => part.insertEdge edge) withNodes

/-- Splits a graph into parts. -/
def split (graph : CodeGraph) : Except GraphFault Split := do
  let groups := graph.partGroups
  let parts ← groups.zipIdx.mapM fun (group, index) => graph.partGraph groups index group
  return {
    groups
    crossEdges := graph.edges.filter fun edge => (partOfEdge? groups edge).isNone
    parts }

/-- The node that is there in place of a node after at most a number of replacements. -/
def survivor? (graph : CodeGraph) : Nat → String → Option String
  | 0, id => if graph.hasNode id then some id else none
  | fuel + 1, id =>
    if graph.hasNode id then some id
    else (graph.forwarding.get? id).bind (graph.survivor? fuel)

/-- The node that is there in place of a node. A chain of replacements without a cycle is no longer
than there are replacements. -/
def resolved? (graph : CodeGraph) (id : String) : Option String :=
  graph.survivor? graph.forwarding.size id

end CodeGraph

/-- What a merge puts together: the graph that was split, and the parts as they are now. -/
structure Merge where
  whole : CodeGraph
  groups : List (List String)
  crossEdges : List Edge
  parts : List CodeGraph

/-- A node of a part, with the part's index. -/
structure PartNode where
  part : Nat
  node : Node

/-- An edge for the merged graph. One without an id is new; `seq` is its place among the old
ones. -/
structure PlannedEdge where
  id : Option String
  source : String
  target : String
  kind : EdgeKind
  attributes : Attributes
  seq : Nat

/-- Ids made of a text and increasing numbers, none of them taken; `next` is the number to try
first. -/
structure IdSource where
  start : String
  next : Nat
  taken : List String

/-- A fresh id, and the source of the next one. -/
def IdSource.fresh (ids : IdSource) : String × IdSource :=
  let number := firstFree (fun number => ids.start ++ toString number) ids.taken ids.taken.length
    ids.next
  (ids.start ++ toString number, { ids with next := number + 1 })

namespace Merge

/-- The nodes of all parts in order. -/
def partNodes (merge : Merge) : List PartNode :=
  merge.parts.zipIdx.flatMap fun (part, index) => part.nodes.map fun node => ⟨index, node⟩

/-- The place that a node of a part had in the whole graph, if it is one of that part. -/
def oldSeq? (merge : Merge) (item : PartNode) : Option Nat :=
  if partOf? merge.groups item.node.id = some item.part then
    (merge.whole.node? item.node.id).map (·.seq)
  else none

/-- The nodes of the whole graph in their order. -/
def oldNodes (merge : Merge) : List PartNode :=
  let old := merge.partNodes.filterMap fun item => (merge.oldSeq? item).map (·, item)
  (old.mergeSort (·.1 ≤ ·.1)).map (·.2)

/-- The nodes that are new. -/
def newNodes (merge : Merge) : List PartNode :=
  merge.partNodes.filter fun item => (merge.oldSeq? item).isNone

/-- Fresh ids for new nodes: no id of the whole graph or its history. -/
def nodeIds (merge : Merge) : IdSource where
  start := "n"
  next := merge.whole.nodeCount
  taken := merge.whole.nodes.map (·.id) ++ merge.whole.history.map (·.node)

/-- Fresh ids for new edges. -/
def edgeIds (merge : Merge) : IdSource where
  start := "e"
  next := merge.whole.edgeCount
  taken := merge.whole.edges.map (·.id)

/-- New nodes with the ids that they get. -/
def nameNew : IdSource → List PartNode → List (PartNode × String)
  | _, [] => []
  | ids, item :: rest =>
    let (id, ids) := ids.fresh
    (item, id) :: nameNew ids rest

/-- All nodes with their ids in the merged graph, in its order. -/
def namedNodes (merge : Merge) : List (PartNode × String) :=
  merge.oldNodes.map (fun item => (item, item.node.id)) ++ nameNew merge.nodeIds merge.newNodes

/-- The id in the merged graph of a node of a part. -/
def renamed? (named : List (PartNode × String)) (part : Nat) (id : String) : Option String :=
  (named.find? fun (item, _) => item.part = part && item.node.id = id).map (·.2)

/-- Whether an edge of a part is one of the whole graph. -/
def isOldEdge (merge : Merge) (part : Nat) (edge : Edge) : Bool :=
  (merge.whole.edge? edge.id).any fun old => partOfEdge? merge.groups old = some part

/-- An edge of a part as it is planned for the merged graph. -/
def planned? (merge : Merge) (named : List (PartNode × String)) (part : Nat) (edge : Edge) :
    Option PlannedEdge := do
  let source ← renamed? named part edge.source
  let target ← renamed? named part edge.target
  return {
    id := if merge.isOldEdge part edge then some edge.id else none
    source, target, kind := edge.kind, attributes := edge.attributes, seq := edge.seq }

/-- The id in the merged graph of what is in place of an old node. -/
def resolved? (merge : Merge) (named : List (PartNode × String)) (id : String) : Option String := do
  let index ← partOf? merge.groups id
  let part ← merge.parts[index]?
  renamed? named index (← part.resolved? id)

/-- An edge between parts as it is planned for the merged graph, unless an end of it is gone. -/
def plannedCross? (merge : Merge) (named : List (PartNode × String)) (edge : Edge) :
    Option PlannedEdge := do
  let source ← merge.resolved? named edge.source
  let target ← merge.resolved? named edge.target
  return {
    id := some edge.id
    source, target, kind := edge.kind, attributes := edge.attributes, seq := edge.seq }

/-- The edges of the merged graph in its order: old ones by their places, then new ones part by
part. -/
def plannedEdges (merge : Merge) (named : List (PartNode × String)) : List PlannedEdge :=
  let inParts := merge.parts.zipIdx.flatMap fun (part, index) =>
    part.edges.filterMap (merge.planned? named index)
  let old := inParts.filter (·.id.isSome) ++
    merge.crossEdges.filterMap (merge.plannedCross? named)
  old.mergeSort (·.seq ≤ ·.seq) ++ inParts.filter (·.id.isNone)

/-- Adds planned edges, the first at a given place; new ones get fresh ids. -/
def addEdges (graph : CodeGraph) (ids : IdSource) (seq : Nat) :
    List PlannedEdge → Except GraphFault CodeGraph
  | [] => .ok graph
  | edge :: rest => do
    let (id, ids) := match edge.id with
      | some id => (id, ids)
      | none => ids.fresh
    let next ← graph.insertEdge ⟨id, edge.kind, edge.source, edge.target, edge.attributes, seq⟩
    addEdges next ids (seq + 1) rest

/-- The history of the merged graph: that of the whole, then those of the parts under the new
ids. -/
def history (merge : Merge) (named : List (PartNode × String)) : List Provenance :=
  merge.whole.history ++ merge.parts.zipIdx.flatMap fun (part, index) =>
    part.history.map fun entry =>
      { entry with node := (renamed? named index entry.node).getD entry.node }

/-- What has replaced old nodes. -/
def forwarding (merge : Merge) (named : List (PartNode × String)) : List (String × String) :=
  merge.parts.zipIdx.flatMap fun (part, index) =>
    part.forwarding.keys.filterMap fun old =>
      if merge.whole.hasNode old then
        ((part.resolved? old).bind (renamed? named index)).map (old, ·)
      else none

/-- The merged graph. -/
def graph (merge : Merge) : Except GraphFault CodeGraph := do
  let named := merge.namedNodes
  let withNodes ← named.foldlM (fun graph (item, id) =>
    graph.addNodeWithId id item.node.kind item.node.label item.node.attributes) ({} : CodeGraph)
  let withEdges ← addEdges withNodes merge.edgeIds 0 (merge.plannedEdges named)
  return { withEdges with
    history := merge.history named
    forwarding := Dict.ofList (merge.forwarding named) }

end Merge

/-- The merge of a split graph with its parts as they are now. -/
def Split.merged (split : Split) (whole : CodeGraph) (parts : List CodeGraph) :
    Except GraphFault CodeGraph :=
  (Merge.mk whole split.groups split.crossEdges parts).graph

/-- The results of the parts put together, with the merged graph. -/
def Transformed.combined (graph : CodeGraph) (results : List Transformed) : Transformed where
  graph
  passes := (results.map (·.passes)).foldl max 0
  applied := (results.map (·.applied)).foldr (· + ·) 0
  warnings := results.flatMap (·.warnings)

/-- Splits a graph, transforms its parts and merges them. -/
def transformParts (graph : CodeGraph) (rules : List Rule) (mode : RunMode) :
    Except Failure Transformed := do
  let split ← graph.split.mapError .invalidGraph
  let results ← split.parts.mapM fun part => transform part rules mode
  let merged ← (split.merged graph (results.map (·.graph))).mapError .invalidGraph
  return .combined merged results

/-- Transforms the declarations of a graph apart, unless a rule can span several of them. -/
def transformApart (graph : CodeGraph) (rules : List Rule) (mode : RunMode) :
    Except Failure Transformed :=
  if rules.any (·.crossDeclaration) then transform graph rules mode
  else transformParts graph rules mode

end Transcode
