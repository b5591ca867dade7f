import Transcode.Proofs.Outcome
import Transcode.Proofs.Search
import Transcode.Transform.Partition

/-!
# Splitting a graph

A well-formed graph can always be split. Each part has the nodes of its group in their order,
numbered anew, and the edges between them as they are (`CodeGraph.part`,
`CodeGraph.WellFormed.split_eq`).
-/

namespace Transcode

/-- What data shows of a node. -/
def Node.data (node : Node) : NodeData := ⟨node.id, node.label, node.kind, node.attributes⟩

namespace CodeGraph

variable {graph : CodeGraph}

/-! ### Adding several nodes and edges -/

/-- Nodes with consecutive sequence numbers. -/
def numbered (start : Nat) : List NodeData → List Node
  | [] => []
  | data :: rest =>
    ⟨data.id, data.kind, data.label, data.attributes, start⟩ :: numbered (start + 1) rest

@[simp] theorem map_data_numbered (start : Nat) (items : List NodeData) :
    (numbered start items).map Node.data = items := by
  induction items generalizing start with
  | nil => rfl
  | cons data rest ih => rw [numbered, List.map_cons, ih, Node.data]

@[simp] theorem map_id_numbered (start : Nat) (items : List NodeData) :
    (numbered start items).map (·.id) = items.map (·.id) := by
  conv_rhs => rw [← map_data_numbered start items, List.map_map]
  rfl

@[simp] theorem map_seq_numbered (start : Nat) (items : List NodeData) :
    (numbered start items).map (·.seq) = List.range' start items.length := by
  induction items generalizing start with
  | nil => rfl
  | cons data rest ih => rw [numbered, List.map_cons, ih, List.length_cons, List.range'_succ]

/-- Nodes that are numbered are in order. -/
theorem pairwise_numbered (start : Nat) (items : List NodeData) :
    (numbered start items).Pairwise (·.seq < ·.seq) := by
  rw [← List.pairwise_map, map_seq_numbered]
  exact List.pairwise_lt_range'

/-- Nodes are numbered from a start on. -/
theorem seq_lt_of_mem_numbered {start : Nat} {items : List NodeData} {node : Node}
    (member : node ∈ numbered start items) : node.seq < start + items.length := by
  have listed := List.mem_map_of_mem (f := fun node : Node => node.seq) member
  rw [map_seq_numbered, List.mem_range'_1] at listed
  exact listed.2

/-- Nodes with ids of their own can all be added. -/
theorem addNodes_eq (items : List NodeData) (graph : CodeGraph)
    (distinct : (graph.nodes.map (·.id) ++ items.map (·.id)).Nodup) :
    graph.addNodes items = .ok { graph with
      nodes := graph.nodes ++ numbered graph.nextSeq items
      nextSeq := graph.nextSeq + items.length } := by
  induction items generalizing graph with
  | nil => simp [addNodes, numbered]
  | cons data rest ih =>
      have unused : ¬graph.hasNode data.id := by
        rw [hasNode_iff]
        exact fun used => (List.nodup_append.mp distinct).2.2 _ used _ List.mem_cons_self rfl
      unfold addNodes
      rw [addNodeWithId, if_neg unused]
      change (graph.pushNode data.id data.kind data.label data.attributes).addNodes rest = _
      rw [ih]
      · simp only [pushNode, numbered, List.append_assoc, List.singleton_append, List.length_cons]
        rw [Nat.add_assoc, Nat.add_comm 1]
      · simpa [pushNode] using distinct

/-- Adding items one by one adds their data. -/
theorem foldlM_addNodeWithId {α : Type} (data : α → NodeData) (items : List α)
    (graph : CodeGraph) :
    items.foldlM (fun graph item => graph.addNodeWithId (data item).id (data item).kind
      (data item).label (data item).attributes) graph = graph.addNodes (items.map data) := by
  induction items generalizing graph with
  | nil => rfl
  | cons item rest ih =>
      rw [List.foldlM_cons, List.map_cons, addNodes]
      exact congrArg _ (funext ih)

/-- Edges with ids of their own can all be added in the order of their places. -/
theorem foldlM_insertEdge_eq (edges : List Edge) (graph : CodeGraph)
    (ids : ((graph.edges ++ edges).map (·.id)).Nodup)
    (order : (graph.edges ++ edges).Pairwise (·.seq < ·.seq))
    (ends : ∀ edge ∈ edges, graph.hasNode edge.source ∧ graph.hasNode edge.target) :
    edges.foldlM (fun graph edge => graph.insertEdge edge) graph = .ok { graph with
      edges := graph.edges ++ edges
      nextEdgeSeq :=
        edges.foldl (fun next edge => max next (edge.seq + 1)) graph.nextEdgeSeq } := by
  induction edges generalizing graph with
  | nil => simp [pure, Except.pure]
  | cons edge rest ih =>
      have unused : edge.id ∉ graph.edges.map (·.id) := by
        rw [List.map_append, List.nodup_append] at ids
        exact fun used => ids.2.2 _ used _ List.mem_cons_self rfl
      have last : insertBySeq edge graph.edges = graph.edges ++ [edge] :=
        insertBySeq_eq_append fun other member =>
          (List.pairwise_append.mp order).2.2 other member edge List.mem_cons_self
      have added := insertEdge_eq_ok_iff.mpr ⟨⟨unused, ends edge List.mem_cons_self⟩, rfl⟩
      rw [last] at added
      have later := ih { graph with
        edges := graph.edges ++ [edge]
        nextEdgeSeq := max graph.nextEdgeSeq (edge.seq + 1) } (by simpa using ids)
        (by simpa using order) fun other member => ends other (List.mem_cons_of_mem edge member)
      rw [List.foldlM_cons, bind_eq_ok_iff]
      refine ⟨_, added, later.trans ?_⟩
      simp

/-! ### The parts -/

variable {groups : List (List String)} {index : Nat} {group : List String} {id : String}

/-- A node is in the group of its part. -/
theorem mem_of_partOf? (inPart : partOf? groups id = some index)
    (at_ : groups[index]? = some group) :
    id ∈ group := by
  obtain ⟨bound, contains, _⟩ := List.findIdx?_eq_some_iff_getElem.mp inPart
  rw [List.getElem?_eq_getElem bound] at at_
  cases at_
  exact List.contains_iff_mem.mp contains

/-- An edge is in a part if both of its ends are. -/
theorem partOfEdge?_eq_some_iff {edge : Edge} :
    partOfEdge? groups edge = some index ↔
      partOf? groups edge.source = some index ∧ partOf? groups edge.target = some index := by
  unfold partOfEdge?
  split
  · rename_i same
    rw [← same, and_self]
  · rename_i other
    constructor
    · intro impossible
      cases impossible
    · rintro ⟨source, target⟩
      exact absurd (source.trans target.symm) other

/-- The part of a graph with the nodes of a group. -/
def part (graph : CodeGraph) (groups : List (List String)) (index : Nat) (group : List String) :
    CodeGraph :=
  let nodes := (graph.nodes.filter fun node => group.contains node.id).map Node.data
  let edges := graph.edges.filter fun edge => partOfEdge? groups edge = some index
  { nodes := numbered 0 nodes
    edges
    nextSeq := nodes.length
    nextEdgeSeq := edges.foldl (fun next edge => max next (edge.seq + 1)) 0
    namespaceText := "p" ++ toString index ++ "." }

/-- A part has the nodes of its group. -/
theorem hasNode_part_iff :
    (graph.part groups index group).hasNode id ↔ graph.hasNode id ∧ id ∈ group := by
  simp only [hasNode_iff, part, map_id_numbered, List.map_map, List.mem_map, List.mem_filter,
    List.contains_iff_mem, Function.comp_apply, Node.data]
  grind

/-- The next place is behind all edges. -/
theorem seq_lt_foldl_max {edges : List Edge} {next : Nat} {edge : Edge} (member : edge ∈ edges) :
    edge.seq < edges.foldl (fun next edge => max next (edge.seq + 1)) next := by
  have grows (edges : List Edge) (next : Nat) :
      next ≤ edges.foldl (fun next edge => max next (edge.seq + 1)) next := by
    induction edges generalizing next with
    | nil => exact Nat.le_refl _
    | cons head rest ih => exact Nat.le_trans (Nat.le_max_left _ _) (ih _)
  induction edges generalizing next with
  | nil => cases member
  | cons head rest ih =>
      rcases List.mem_cons.mp member with rfl | member
      · exact Nat.lt_of_lt_of_le (Nat.lt_of_lt_of_le (Nat.lt_succ_self _) (Nat.le_max_right _ _))
          (grows rest _)
      · exact ih member

/-- A part is well-formed. -/
theorem WellFormed.part (wellFormed : graph.WellFormed) (at_ : groups[index]? = some group) :
    (graph.part groups index group).WellFormed where
  nodeIds := by
    simp only [CodeGraph.part, map_id_numbered, List.map_map]
    exact wellFormed.nodeIds.sublist (List.filter_sublist.map _)
  edgeIds := wellFormed.edgeIds.sublist (List.filter_sublist.map _)
  endpoints edge member := by
    obtain ⟨there, inPart⟩ := List.mem_filter.mp member
    obtain ⟨source, target⟩ := partOfEdge?_eq_some_iff.mp (of_decide_eq_true inPart)
    have ends := wellFormed.endpoints edge there
    exact ⟨hasNode_part_iff.mpr ⟨ends.1, mem_of_partOf? source at_⟩,
      hasNode_part_iff.mpr ⟨ends.2, mem_of_partOf? target at_⟩⟩
  nodeOrder := pairwise_numbered ..
  nodeBound node member := by
    have bound := seq_lt_of_mem_numbered member
    rwa [Nat.zero_add] at bound
  edgeOrder := wellFormed.edgeOrder.sublist List.filter_sublist
  edgeBound _ member := seq_lt_foldl_max member

/-- The graph of a part is made without a failure. -/
theorem WellFormed.partGraph_eq (wellFormed : graph.WellFormed)
    (at_ : groups[index]? = some group) :
    graph.partGraph groups index group = .ok (graph.part groups index group) := by
  let kept := graph.nodes.filter fun node => group.contains node.id
  let edges := graph.edges.filter fun edge => partOfEdge? groups edge = some index
  have ids : (kept.map Node.data).map (·.id) = kept.map (·.id) := List.map_map
  have nodes := (foldlM_addNodeWithId Node.data kept
    (.withNamespace ("p" ++ toString index ++ "."))).trans (addNodes_eq _ _ (by
      rw [ids]
      exact wellFormed.nodeIds.sublist (List.filter_sublist.map _)))
  refine bind_eq_ok_iff.mpr ⟨_, nodes, (foldlM_insertEdge_eq edges _ ?_ ?_ ?_).trans ?_⟩
  · exact wellFormed.edgeIds.sublist (List.filter_sublist.map _)
  · exact wellFormed.edgeOrder.sublist List.filter_sublist
  · simpa [CodeGraph.part, kept, edges, withNamespace, hasNode_iff] using
      (wellFormed.part at_).endpoints
  · simp [withNamespace, CodeGraph.part, kept, edges]

/-- The parts of a graph. -/
def parts (graph : CodeGraph) : List CodeGraph :=
  graph.partGroups.zipIdx.map fun (group, index) => graph.part graph.partGroups index group

/-- **Splitting.** A well-formed graph can be split. -/
theorem WellFormed.split_eq (wellFormed : graph.WellFormed) :
    graph.split = .ok {
      groups := graph.partGroups
      crossEdges := graph.edges.filter fun edge => (partOfEdge? graph.partGroups edge).isNone
      parts := graph.parts } := by
  refine bind_eq_ok_iff.mpr ⟨graph.parts, mapM_eq_ok_iff.mpr ?_, rfl⟩
  refine List.forall₂_map_right_iff.mpr (List.forall₂_same.mpr fun entry member => ?_)
  exact wellFormed.partGraph_eq (List.mem_zipIdx_iff_getElem?.mp member)

end CodeGraph

end Transcode
