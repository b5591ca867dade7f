import Transcode.Graph.Data
import Transcode.Proofs.FreshName
import Transcode.Proofs.Lists

/-!
# Well-formed graphs

`CodeGraph.WellFormed` is what every operation on a graph keeps: ids are used once, edges end at
nodes, and nodes and edges stand in the order of sequence numbers below the next one. In a
well-formed graph, looking an id up gives the node or edge with that id
(`CodeGraph.WellFormed.node?_eq_some_iff`, `CodeGraph.WellFormed.edge?_eq_some_iff`).
-/

namespace Transcode

/-! ### Edges in sequence -/

namespace CodeGraph

/-- An edge that is put at its place is added. -/
theorem insertBySeq_perm (edge : Edge) (edges : List Edge) :
    (insertBySeq edge edges).Perm (edge :: edges) := by
  induction edges with
  | nil => exact .refl _
  | cons head rest ih =>
      unfold insertBySeq
      split
      · exact .refl _
      · exact (ih.cons head).trans (.swap edge head rest)

/-- The edges are those that were there and the new one. -/
theorem mem_insertBySeq {edge other : Edge} {edges : List Edge} :
    other ∈ insertBySeq edge edges ↔ other = edge ∨ other ∈ edges := by
  rw [(insertBySeq_perm edge edges).mem_iff, List.mem_cons]

/-- An edge with a sequence number of its own keeps the order. -/
theorem pairwise_insertBySeq {edge : Edge} {edges : List Edge}
    (order : edges.Pairwise (·.seq < ·.seq)) (own : ∀ other ∈ edges, other.seq ≠ edge.seq) :
    (insertBySeq edge edges).Pairwise (·.seq < ·.seq) := by
  induction edges with
  | nil => exact List.pairwise_singleton _ _
  | cons head rest ih =>
      obtain ⟨first, later⟩ := List.pairwise_cons.mp order
      unfold insertBySeq
      split
      · rename_i before
        refine List.pairwise_cons.mpr ⟨fun other member => ?_, order⟩
        rcases List.mem_cons.mp member with rfl | member
        · exact before
        · exact Nat.lt_trans before (first other member)
      · rename_i after
        have behind : head.seq < edge.seq :=
          Nat.lt_of_le_of_ne (Nat.not_lt.mp after) (own head List.mem_cons_self)
        refine List.pairwise_cons.mpr
          ⟨fun other member => ?_, ih later fun other member =>
            own other (List.mem_cons_of_mem head member)⟩
        rcases mem_insertBySeq.mp member with rfl | member
        · exact behind
        · exact first other member

/-- An edge with a higher sequence number than all others goes to the end. -/
theorem insertBySeq_eq_append {edge : Edge} {edges : List Edge}
    (last : ∀ other ∈ edges, other.seq < edge.seq) : insertBySeq edge edges = edges ++ [edge] := by
  induction edges with
  | nil => rfl
  | cons head rest ih =>
      have behind : ¬edge.seq < head.seq := Nat.lt_asymm (last head List.mem_cons_self)
      rw [insertBySeq, if_neg behind,
        ih fun other member => last other (List.mem_cons_of_mem head member)]
      rfl

/-! ### What is in use -/

variable {graph : CodeGraph} {id : String}

theorem hasNode_iff : graph.hasNode id ↔ id ∈ graph.nodes.map (·.id) := by
  simp [hasNode]

theorem hasEdge_iff : graph.hasEdge id ↔ id ∈ graph.edges.map (·.id) := by
  simp [hasEdge]

theorem hasNode_of_mem {node : Node} (member : node ∈ graph.nodes) : graph.hasNode node.id :=
  hasNode_iff.mpr (List.mem_map_of_mem member)

theorem node?_isSome : (graph.node? id).isSome = graph.hasNode id := by
  rw [Bool.eq_iff_iff, node?, List.find?_isSome, hasNode, List.any_eq_true]

/-- An edge is added if its id is not in use and both ends are nodes, and in no other case. -/
theorem insertEdge_eq_ok_iff {edge : Edge} {after : CodeGraph} :
    graph.insertEdge edge = .ok after ↔
      (edge.id ∉ graph.edges.map (·.id) ∧ graph.hasNode edge.source ∧ graph.hasNode edge.target) ∧
        { graph with
          edges := insertBySeq edge graph.edges
          nextEdgeSeq := max graph.nextEdgeSeq (edge.seq + 1) } = after := by
  rw [← hasEdge_iff]
  unfold insertEdge
  split
  · simp [*]
  · split
    · rename_i missing
      simp only [Bool.or_eq_true, Bool.not_eq_true'] at missing
      rcases missing with missing | missing <;> simp [missing]
    · rename_i found
      simp only [Bool.or_eq_true, Bool.not_eq_true', not_or, Bool.not_eq_false] at found
      simp [*]

/-- An edge with an id of its own between nodes goes to the end of the sequence. -/
theorem addEdgeWithId_eq (graph : CodeGraph) {id source target : String}
    (unused : id ∉ graph.edges.map (·.id)) (hasSource : graph.hasNode source)
    (hasTarget : graph.hasNode target) (last : ∀ edge ∈ graph.edges, edge.seq < graph.nextEdgeSeq)
    (kind : EdgeKind) (attributes : Attributes) :
    graph.addEdgeWithId id source target kind attributes =
      (.ok (), { graph with
        edges := graph.edges ++ [⟨id, kind, source, target, attributes, graph.nextEdgeSeq⟩]
        nextEdgeSeq := graph.nextEdgeSeq + 1 }) := by
  let edge : Edge := ⟨id, kind, source, target, attributes, graph.nextEdgeSeq⟩
  let counted : CodeGraph := { graph with nextEdgeSeq := graph.nextEdgeSeq + 1 }
  have atEnd : insertBySeq edge graph.edges = graph.edges ++ [edge] := insertBySeq_eq_append last
  have inserted :
      counted.insertEdge edge = .ok { counted with edges := graph.edges ++ [edge] } := by
    refine insertEdge_eq_ok_iff.mpr ⟨⟨unused, hasSource, hasTarget⟩, ?_⟩
    simp only [counted, edge, atEnd, Nat.max_self]
  unfold addEdgeWithId
  dsimp only
  rw [inserted]

/-- An attribute is put at a node without changing any id. -/
theorem map_id_setAttribute (graph : CodeGraph) (id key value : String) :
    (graph.setAttribute id key value).nodes.map (·.id) = graph.nodes.map (·.id) := by
  unfold setAttribute
  rw [List.map_map]
  refine List.map_congr_left fun node _ => ?_
  dsimp only [Function.comp_apply]
  split <;> rfl

/-- What every operation on a graph keeps. -/
structure WellFormed (graph : CodeGraph) : Prop where
  nodeIds : (graph.nodes.map (·.id)).Nodup
  edgeIds : (graph.edges.map (·.id)).Nodup
  endpoints : ∀ edge ∈ graph.edges, graph.hasNode edge.source ∧ graph.hasNode edge.target
  nodeOrder : graph.nodes.Pairwise (·.seq < ·.seq)
  nodeBound : ∀ node ∈ graph.nodes, node.seq < graph.nextSeq
  edgeOrder : graph.edges.Pairwise (·.seq < ·.seq)
  edgeBound : ∀ edge ∈ graph.edges, edge.seq < graph.nextEdgeSeq

namespace WellFormed

/-! ### Looking up -/

theorem node?_eq_some_iff (wellFormed : graph.WellFormed) {node : Node} :
    graph.node? id = some node ↔ node ∈ graph.nodes ∧ node.id = id :=
  find?_key_eq_some_iff Node.id wellFormed.nodeIds

theorem edge?_eq_some_iff (wellFormed : graph.WellFormed) {edge : Edge} :
    graph.edge? id = some edge ↔ edge ∈ graph.edges ∧ edge.id = id :=
  find?_key_eq_some_iff Edge.id wellFormed.edgeIds

theorem node?_of_mem (wellFormed : graph.WellFormed) {node : Node} (member : node ∈ graph.nodes) :
    graph.node? node.id = some node :=
  wellFormed.node?_eq_some_iff.mpr ⟨member, rfl⟩

/-- No two nodes have one id. -/
theorem eq_of_id (wellFormed : graph.WellFormed) {first second : Node}
    (firstMember : first ∈ graph.nodes) (secondMember : second ∈ graph.nodes)
    (same : first.id = second.id) : first = second :=
  List.inj_on_of_nodup_map wellFormed.nodeIds firstMember secondMember same

/-- No two edges have one id. -/
theorem edge_eq_of_id (wellFormed : graph.WellFormed) {first second : Edge}
    (firstMember : first ∈ graph.edges) (secondMember : second ∈ graph.edges)
    (same : first.id = second.id) : first = second :=
  List.inj_on_of_nodup_map wellFormed.edgeIds firstMember secondMember same

/-- No two nodes have one sequence number. -/
theorem eq_of_seq (wellFormed : graph.WellFormed) {first second : Node}
    (firstMember : first ∈ graph.nodes) (secondMember : second ∈ graph.nodes)
    (same : first.seq = second.seq) : first = second :=
  List.inj_on_of_nodup_map (nodup_map_of_pairwise wellFormed.nodeOrder)
    firstMember secondMember same

/-- No two edges have one sequence number. -/
theorem edge_eq_of_seq (wellFormed : graph.WellFormed) {first second : Edge}
    (firstMember : first ∈ graph.edges) (secondMember : second ∈ graph.edges)
    (same : first.seq = second.seq) : first = second :=
  List.inj_on_of_nodup_map (nodup_map_of_pairwise wellFormed.edgeOrder)
    firstMember secondMember same

/-! ### Changes that keep it -/

/-- Only nodes, edges and the bounds of their sequence numbers matter. -/
theorem of_same {after : CodeGraph} (wellFormed : graph.WellFormed)
    (nodes : after.nodes = graph.nodes) (edges : after.edges = graph.edges)
    (nextSeq : graph.nextSeq ≤ after.nextSeq)
    (nextEdgeSeq : graph.nextEdgeSeq ≤ after.nextEdgeSeq) : after.WellFormed where
  nodeIds := nodes ▸ wellFormed.nodeIds
  edgeIds := edges ▸ wellFormed.edgeIds
  endpoints := by
    simp only [hasNode, nodes, edges]
    exact wellFormed.endpoints
  nodeOrder := nodes ▸ wellFormed.nodeOrder
  nodeBound := by
    rw [nodes]
    exact fun node member => Nat.lt_of_lt_of_le (wellFormed.nodeBound node member) nextSeq
  edgeOrder := edges ▸ wellFormed.edgeOrder
  edgeBound := by
    rw [edges]
    exact fun edge member => Nat.lt_of_lt_of_le (wellFormed.edgeBound edge member) nextEdgeSeq

/-- Leaving out nodes and edges keeps a graph well-formed as long as the edges left end at nodes
left. -/
theorem of_sublist {after : CodeGraph} (wellFormed : graph.WellFormed)
    (nodes : after.nodes.Sublist graph.nodes) (edges : after.edges.Sublist graph.edges)
    (closed : ∀ edge ∈ after.edges, after.hasNode edge.source ∧ after.hasNode edge.target)
    (nextSeq : graph.nextSeq ≤ after.nextSeq)
    (nextEdgeSeq : graph.nextEdgeSeq ≤ after.nextEdgeSeq) : after.WellFormed where
  nodeIds := wellFormed.nodeIds.sublist (nodes.map _)
  edgeIds := wellFormed.edgeIds.sublist (edges.map _)
  endpoints := closed
  nodeOrder := wellFormed.nodeOrder.sublist nodes
  nodeBound node member :=
    Nat.lt_of_lt_of_le (wellFormed.nodeBound node (nodes.subset member)) nextSeq
  edgeOrder := wellFormed.edgeOrder.sublist edges
  edgeBound edge member :=
    Nat.lt_of_lt_of_le (wellFormed.edgeBound edge (edges.subset member)) nextEdgeSeq

theorem empty (namespaceText : String) : (withNamespace namespaceText).WellFormed := by
  constructor <;> simp [withNamespace]

/-- A node under a new id keeps it. -/
theorem pushNode (wellFormed : graph.WellFormed) (fresh : id ∉ graph.nodes.map (·.id))
    (kind : NodeKind) (label : String) (attributes : Attributes) :
    (graph.pushNode id kind label attributes).WellFormed where
  nodeIds := by
    simp only [CodeGraph.pushNode, List.map_append, List.map_cons, List.map_nil]
    exact List.nodup_append.mpr ⟨wellFormed.nodeIds, List.nodup_singleton _, by grind⟩
  edgeIds := wellFormed.edgeIds
  endpoints edge member := by
    have ends := wellFormed.endpoints edge member
    simp only [hasNode_iff, CodeGraph.pushNode, List.map_append, List.mem_append] at ends ⊢
    exact ⟨.inl ends.1, .inl ends.2⟩
  nodeOrder := by
    refine List.pairwise_append.mpr ⟨wellFormed.nodeOrder, List.pairwise_singleton _ _, ?_⟩
    intro node member last isLast
    obtain rfl := List.mem_singleton.mp isLast
    exact wellFormed.nodeBound node member
  nodeBound node member := by
    simp only [CodeGraph.pushNode, List.mem_append, List.mem_singleton] at member ⊢
    rcases member with member | rfl
    · exact Nat.lt_succ_of_lt (wellFormed.nodeBound node member)
    · exact Nat.lt_succ_self _
  edgeOrder := wellFormed.edgeOrder
  edgeBound := wellFormed.edgeBound

/-- Adding a node under a fresh id keeps it. -/
theorem addNode (wellFormed : graph.WellFormed) (kind : NodeKind) (label : String)
    (attributes : Attributes) : (graph.addNode kind label attributes).2.WellFormed := by
  have counted : CodeGraph.WellFormed { graph with nextNodeId := graph.freshNode + 1 } :=
    wellFormed.of_same rfl rfl (Nat.le_refl _) (Nat.le_refl _)
  exact counted.pushNode graph.nodeName_freshNode_not_mem kind label attributes

/-- Adding a node under a given id keeps it. -/
theorem addNodeWithId (wellFormed : graph.WellFormed) {kind : NodeKind} {label : String}
    {attributes : Attributes} {after : CodeGraph}
    (added : graph.addNodeWithId id kind label attributes = .ok after) : after.WellFormed := by
  unfold CodeGraph.addNodeWithId at added
  split at added
  · cases added
  · rename_i absent
    cases added
    exact wellFormed.pushNode (fun used => absent (hasNode_iff.mpr used)) kind label attributes

/-- Adding an edge with a sequence number of its own. -/
theorem insertEdge (wellFormed : graph.WellFormed) {edge : Edge} {after : CodeGraph}
    (own : ∀ other ∈ graph.edges, other.seq ≠ edge.seq)
    (added : graph.insertEdge edge = .ok after) : after.WellFormed := by
  obtain ⟨⟨fresh, source, target⟩, rfl⟩ := insertEdge_eq_ok_iff.mp added
  refine ⟨wellFormed.nodeIds, ?_, ?_, wellFormed.nodeOrder, wellFormed.nodeBound,
    pairwise_insertBySeq wellFormed.edgeOrder own, ?_⟩
  · exact ((insertBySeq_perm edge graph.edges).map _).nodup_iff.mpr
      (List.nodup_cons.mpr ⟨fresh, wellFormed.edgeIds⟩)
  · intro other member
    rcases mem_insertBySeq.mp member with rfl | member
    · exact ⟨source, target⟩
    · exact wellFormed.endpoints other member
  · intro other member
    rcases mem_insertBySeq.mp member with rfl | member
    · exact Nat.lt_of_lt_of_le (Nat.lt_succ_self _) (Nat.le_max_right _ _)
    · exact Nat.lt_of_lt_of_le (wellFormed.edgeBound other member) (Nat.le_max_left _ _)

/-- Adding an edge under a given id keeps it, also where it is refused. -/
theorem addEdgeWithId (wellFormed : graph.WellFormed) (id source target : String) (kind : EdgeKind)
    (attributes : Attributes) :
    (graph.addEdgeWithId id source target kind attributes).2.WellFormed := by
  have counted : CodeGraph.WellFormed { graph with nextEdgeSeq := graph.nextEdgeSeq + 1 } :=
    wellFormed.of_same rfl rfl (Nat.le_refl _) (Nat.le_succ _)
  unfold CodeGraph.addEdgeWithId
  dsimp only
  split
  · rename_i after added
    exact counted.insertEdge
      (fun other member => Nat.ne_of_lt (wellFormed.edgeBound other member)) added
  · exact counted

/-- Adding an edge under a fresh id keeps it, also where it is refused. -/
theorem addEdge (wellFormed : graph.WellFormed) (source target : String) (kind : EdgeKind)
    (attributes : Attributes) : (graph.addEdge source target kind attributes).2.WellFormed := by
  have counted : CodeGraph.WellFormed { graph with nextEdgeId := graph.freshEdge + 1 } :=
    wellFormed.of_same rfl rfl (Nat.le_refl _) (Nat.le_refl _)
  exact counted.addEdgeWithId _ source target kind attributes

/-- An edge between nodes goes to the end of the sequence under a fresh id. -/
theorem addEdge_eq (wellFormed : graph.WellFormed) {source target : String}
    (hasSource : graph.hasNode source) (hasTarget : graph.hasNode target) (kind : EdgeKind)
    (attributes : Attributes) :
    graph.addEdge source target kind attributes =
      (.ok (graph.edgeName graph.freshEdge), { graph with
        edges := graph.edges ++ [⟨graph.edgeName graph.freshEdge, kind, source, target, attributes,
          graph.nextEdgeSeq⟩]
        nextEdgeSeq := graph.nextEdgeSeq + 1
        nextEdgeId := graph.freshEdge + 1 }) := by
  have added := addEdgeWithId_eq { graph with nextEdgeId := graph.freshEdge + 1 }
    graph.edgeName_freshEdge_not_mem hasSource hasTarget wellFormed.edgeBound kind attributes
  unfold CodeGraph.addEdge
  dsimp only
  rw [added]
  rfl

/-- Removing a node with its edges keeps it. -/
theorem removeNode (wellFormed : graph.WellFormed) (id : String) :
    (graph.removeNode id).WellFormed := by
  refine wellFormed.of_sublist List.filter_sublist List.filter_sublist ?_
    (Nat.le_refl _) (Nat.le_refl _)
  intro edge member
  obtain ⟨member, apart⟩ := List.mem_filter.mp member
  have ends := wellFormed.endpoints edge member
  simp only [hasNode_iff, List.mem_map, CodeGraph.removeNode, List.mem_filter] at ends ⊢
  grind

/-- Removing an edge keeps it. -/
theorem removeEdge (wellFormed : graph.WellFormed) (id : String) :
    (graph.removeEdge id).WellFormed :=
  wellFormed.of_sublist (.refl _) List.filter_sublist
    (fun edge member => wellFormed.endpoints edge (List.mem_filter.mp member).1)
    (Nat.le_refl _) (Nat.le_refl _)

/-- Writing an attribute keeps it. -/
theorem setAttribute (wellFormed : graph.WellFormed) (id key value : String) :
    (graph.setAttribute id key value).WellFormed := by
  let change : Node → Node := fun node =>
    if node.id = id then { node with attributes := node.attributes.insert key value } else node
  have sameSeq (node : Node) : (change node).seq = node.seq := by
    dsimp only [change]
    split <;> rfl
  have ids := graph.map_id_setAttribute id key value
  refine ⟨ids ▸ wellFormed.nodeIds, wellFormed.edgeIds, ?_, ?_, ?_, wellFormed.edgeOrder,
    wellFormed.edgeBound⟩
  · intro edge member
    have ends := wellFormed.endpoints edge member
    rw [hasNode_iff, hasNode_iff] at ends
    rwa [hasNode_iff, hasNode_iff, ids]
  · change (graph.nodes.map change).Pairwise (·.seq < ·.seq)
    rw [List.pairwise_map]
    simpa only [sameSeq] using wellFormed.nodeOrder
  · intro node member
    obtain ⟨before, present, rfl⟩ := List.mem_map.mp member
    change (change before).seq < graph.nextSeq
    rw [sameSeq]
    exact wellFormed.nodeBound before present

theorem record (wellFormed : graph.WellFormed) (node rule : String) :
    (graph.record node rule).WellFormed :=
  wellFormed.of_same rfl rfl (Nat.le_refl _) (Nat.le_refl _)

/-! ### Loading -/

/-- Adding the nodes of data keeps it. -/
theorem addNodes (wellFormed : graph.WellFormed) {nodes : List NodeData} {after : CodeGraph}
    (added : graph.addNodes nodes = .ok after) : after.WellFormed := by
  induction nodes generalizing graph with
  | nil =>
      cases added
      exact wellFormed
  | cons node rest ih =>
      unfold CodeGraph.addNodes at added
      cases step : graph.addNodeWithId node.id node.kind node.label node.attributes with
      | error fault => simp [step, bind, Except.bind] at added
      | ok next =>
          simp only [step, bind, Except.bind] at added
          exact ih (wellFormed.addNodeWithId step) added

/-- Adding the edges of data keeps it. -/
theorem addEdges (wellFormed : graph.WellFormed) {edges : List EdgeData} {after : CodeGraph}
    (added : graph.addEdges edges = .ok after) : after.WellFormed := by
  induction edges generalizing graph with
  | nil =>
      cases added
      exact wellFormed
  | cons edge rest ih =>
      have kept := wellFormed.addEdgeWithId edge.id edge.source edge.target edge.kind
        edge.attributes
      unfold CodeGraph.addEdges at added
      split at added
      · rename_i next step
        rw [step] at kept
        exact ih kept added
      · cases added

/-- What is loaded is well-formed, whatever the data. -/
theorem ofData {data : GraphData} (loaded : CodeGraph.ofData data = .ok graph) :
    graph.WellFormed := by
  unfold CodeGraph.ofData at loaded
  cases nodes : ({} : CodeGraph).addNodes data.nodes with
  | error fault => simp [nodes, bind, Except.bind] at loaded
  | ok withNodes =>
      cases edges : withNodes.addEdges data.edges with
      | error fault => simp [nodes, edges, bind, Except.bind] at loaded
      | ok withEdges =>
          simp only [nodes, edges, bind, Except.bind, pure, Except.pure] at loaded
          cases loaded
          have kept := ((WellFormed.empty "").addNodes nodes).addEdges edges
          exact kept.of_same rfl rfl (Nat.le_refl _) (Nat.le_refl _)

/-- Data that can be loaded gives a well-formed graph to test. -/
theorem exists_ofData (data : GraphData) (test : CodeGraph → Bool)
    (passes : (CodeGraph.ofData data).toOption.any test) :
    ∃ graph : CodeGraph, graph.WellFormed ∧ test graph := by
  cases loaded : CodeGraph.ofData data with
  | error fault =>
      rw [loaded] at passes
      cases passes
  | ok graph =>
      rw [loaded] at passes
      exact ⟨graph, ofData loaded, passes⟩

/-- A graph that text denotes is loaded from data. -/
theorem exists_data_of_ofJsonText {text : String} (loaded : CodeGraph.ofJsonText text = .ok graph) :
    ∃ data, CodeGraph.ofData data = .ok graph := by
  unfold CodeGraph.ofJsonText at loaded
  split at loaded
  · rename_i data _
    cases built : CodeGraph.ofData data with
    | error fault => simp [built] at loaded
    | ok other =>
        simp only [built] at loaded
        cases loaded
        exact ⟨data, built⟩
  · cases loaded

/-- What is loaded from a text is well-formed, whatever the text. -/
theorem ofJsonText {text : String} (loaded : CodeGraph.ofJsonText text = .ok graph) :
    graph.WellFormed := by
  obtain ⟨_, built⟩ := exists_data_of_ofJsonText loaded
  exact ofData built

end WellFormed

end CodeGraph

end Transcode
