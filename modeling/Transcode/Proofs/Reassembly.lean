import Transcode.Proofs.Reattachment

/-!
# Merging parts as they are

A graph that is split and merged again is the graph that it was, apart from its sequence numbers
(`CodeGraph.WellFormed.split_merged`). Nothing of the parts is new to the merge, so every node keeps
its id and every edge its id and ends, and the places in the whole graph give the order back.
-/

namespace Transcode

namespace CodeGraph

variable {graph : CodeGraph}

namespace WellFormed

variable (wellFormed : graph.WellFormed)

include wellFormed

theorem sound_untouched : (graph.reunion graph.partAt).Sound :=
  wellFormed.sound_reunion wellFormed.partAt

/-- Nodes of untouched parts keep their ids. -/
theorem renamed?_untouched {index : Fin graph.partGroups.length} {id : String}
    (there : (graph.partAt index).hasNode id) :
    Merge.renamed? (graph.reunion graph.partAt).namedNodes index.val id = some id := by
  obtain ⟨original, partOf⟩ := wellFormed.hasNode_partAt_iff.mp there
  exact wellFormed.sound_untouched.renamed?_of_old
    (parts_reunion_eq_some_iff.mpr ⟨index, rfl, rfl⟩) there partOf original

/-! ### Nodes -/

/-- A node of an untouched part has its place in the whole graph. -/
theorem oldSeq?_untouched {item : PartNode}
    (member : item ∈ (graph.reunion graph.partAt).partNodes) :
    ∃ node, graph.node? item.node.id = some node ∧
      (graph.reunion graph.partAt).oldSeq? item = some node.seq := by
  obtain ⟨index, at_, there⟩ := mem_partNodes_reunion_iff.mp member
  obtain ⟨original, partOf⟩ := wellFormed.hasNode_partAt_iff.mp (hasNode_of_mem there)
  obtain ⟨node, found⟩ := Option.isSome_iff_exists.mp (node?_isSome.trans original)
  refine ⟨node, found, ?_⟩
  rw [Merge.oldSeq?, if_pos (at_ ▸ partOf), show (graph.reunion graph.partAt).whole =
    graph from rfl, found, Option.map_some]

/-- They have no new nodes. -/
theorem newNodes_untouched : (graph.reunion graph.partAt).newNodes = [] := by
  refine List.filter_eq_nil_iff.mpr fun item member => ?_
  obtain ⟨_, _, place⟩ := wellFormed.oldSeq?_untouched member
  simp [place]

/-- The nodes of the parts in the order of the whole graph. -/
theorem oldNodes_untouched :
    (graph.reunion graph.partAt).oldNodes.map (·.node.data) = graph.nodes.map Node.data := by
  let merge := graph.reunion graph.partAt
  let old := merge.partNodes.filterMap fun item => (merge.oldSeq? item).map (·, item)
  let placed (data : NodeData) : Option (Nat × NodeData) :=
    (graph.node? data.id).map fun node => (node.seq, data)
  let numbers : List (Nat × NodeData) := graph.nodes.map fun node => (node.seq, node.data)
  have datas :
      (merge.partNodes.map fun item => item.node.data).Perm (graph.nodes.map Node.data) := by
    have inParts : merge.partNodes.map (fun item => item.node.data) =
        (List.finRange graph.partGroups.length).flatMap fun index =>
          (graph.partAt index).nodes.map Node.data := by
      simp only [merge, Merge.partNodes, reunion, mergeOf, zipIdx_map_finRange, List.flatMap_map,
        List.map_flatMap, List.map_map]
      rfl
    exact inParts ▸ wellFormed.nodes_perm
  have unsorted : (old.map fun item => (item.1, item.2.node.data)).Perm numbers := by
    have read : old.map (fun item => (item.1, item.2.node.data)) =
        (merge.partNodes.map fun item => item.node.data).filterMap placed := by
      rw [List.map_filterMap, List.filterMap_map]
      refine List.filterMap_congr fun item member => ?_
      obtain ⟨node, found, place⟩ := wellFormed.oldSeq?_untouched member
      have known : graph.node? item.node.data.id = some node := found
      simp [merge, place, placed, known]
    have written : (graph.nodes.map Node.data).filterMap placed = numbers := by
      rw [List.filterMap_map]
      unfold numbers
      rw [← List.filterMap_eq_map]
      refine List.filterMap_congr fun node member => ?_
      have found : graph.node? node.data.id = some node := wellFormed.node?_of_mem member
      simp [placed, found]
    rw [read, ← written]
    exact datas.filterMap placed
  have order : numbers.Pairwise (·.1 < ·.1) := List.pairwise_map.mpr wellFormed.nodeOrder
  have sorted : ((old.mergeSort (·.1 ≤ ·.1)).map fun item => (item.1, item.2.node.data)).Pairwise
      (·.1 ≤ ·.1) := List.pairwise_map.mpr (pairwise_mergeSort_number Prod.fst old)
  have same : (old.mergeSort (·.1 ≤ ·.1)).map (fun item => (item.1, item.2.node.data)) = numbers :=
    eq_of_perm_of_sorted Prod.fst (((List.mergeSort_perm ..).map _).trans unsorted) sorted order
  calc merge.oldNodes.map (·.node.data)
      = ((old.mergeSort (·.1 ≤ ·.1)).map fun item => (item.1, item.2.node.data)).map Prod.snd := by
        rw [List.map_map]
        exact List.map_map
    _ = graph.nodes.map Node.data := by
        rw [same, List.map_map]
        rfl

/-- The nodes of the parts together are those of the graph, with their data and in its order. -/
theorem nodes_untouched :
    (graph.reunion graph.partAt).result.nodes.map Node.data = graph.nodes.map Node.data := by
  rw [Merge.map_data_result, Merge.namedNodes, wellFormed.newNodes_untouched, Merge.nameNew,
    List.append_nil, List.map_map, ← wellFormed.oldNodes_untouched]
  rfl

/-! ### Edges -/

/-- Every edge of a part is put back as it is. -/
theorem planned?_untouched {index : Fin graph.partGroups.length} {edge : Edge}
    (member : edge ∈ (graph.partAt index).edges) :
    (graph.reunion graph.partAt).planned? (graph.reunion graph.partAt).namedNodes index.val edge =
      some (edge.reattached id) := by
  obtain ⟨there, inPart⟩ := mem_edges_partAt.mp member
  obtain ⟨source, target⟩ := (wellFormed.partAt index).endpoints edge member
  have isOld : (graph.reunion graph.partAt).isOldEdge index.val edge :=
    (Option.any_eq_true ..).mpr
      ⟨edge, wellFormed.edge?_eq_some_iff.mpr ⟨there, rfl⟩, decide_eq_true inPart⟩
  refine Merge.planned?_eq_some_iff.mpr
    ⟨edge.source, edge.target, wellFormed.renamed?_untouched source,
      wellFormed.renamed?_untouched target, ?_⟩
  rw [if_pos isOld]
  rfl

/-- The id of a node stands for itself. -/
theorem resolved?_untouched {id : String} (there : graph.hasNode id) :
    (graph.reunion graph.partAt).resolved? (graph.reunion graph.partAt).namedNodes id =
      some id := by
  obtain ⟨index, inPart⟩ := wellFormed.exists_partAt there
  have partOf : partOf? (graph.reunion graph.partAt).groups id = some index.val :=
    (wellFormed.hasNode_partAt_iff.mp inPart).2
  have at_ : (graph.reunion graph.partAt).parts[index.val]? = some (graph.partAt index) :=
    parts_reunion_eq_some_iff.mpr ⟨index, rfl, rfl⟩
  have stays : (graph.partAt index).resolved? id = some id := survivor?_of_hasNode inPart _
  simp only [Merge.resolved?, Option.bind_eq_bind, partOf, Option.bind_some, at_, stays,
    wellFormed.renamed?_untouched inPart]

/-- Every edge between parts is put back as it is. -/
theorem plannedCross?_untouched {edge : Edge} (member : edge ∈ graph.between) :
    (graph.reunion graph.partAt).plannedCross? (graph.reunion graph.partAt).namedNodes edge =
      some (edge.reattached id) := by
  obtain ⟨source, target⟩ := wellFormed.endpoints edge (List.mem_filter.mp member).1
  exact Merge.plannedCross?_eq_some_iff.mpr
    ⟨_, _, wellFormed.resolved?_untouched source, wellFormed.resolved?_untouched target, rfl⟩

/-- The edges are planned as they were. -/
theorem plannedEdges_untouched :
    (graph.reunion graph.partAt).plannedEdges (graph.reunion graph.partAt).namedNodes =
      graph.edges.map (·.reattached id) := by
  let merge := graph.reunion graph.partAt
  have inParts : merge.plannedInParts merge.namedNodes =
      ((List.finRange graph.partGroups.length).flatMap fun index =>
        (graph.partAt index).edges).map (·.reattached id) := by
    rw [plannedInParts_reunion, List.map_flatMap]
    refine List.flatMap_congr fun index _ => ?_
    rw [← List.filterMap_eq_map]
    exact List.filterMap_congr fun edge member => wellFormed.planned?_untouched member
  have crossing : merge.crossEdges.filterMap (merge.plannedCross? merge.namedNodes) =
      graph.between.map (·.reattached id) := by
    rw [← List.filterMap_eq_map]
    exact List.filterMap_congr fun edge member => wellFormed.plannedCross?_untouched member
  have noneNew : (merge.plannedInParts merge.namedNodes).filter (·.id.isNone) = [] := by
    refine List.filter_eq_nil_iff.mpr fun plan member => ?_
    rw [inParts] at member
    obtain ⟨_, _, rfl⟩ := List.mem_map.mp member
    simp [Edge.reattached]
  have perm : (merge.plannedEdges merge.namedNodes).Perm (graph.edges.map (·.reattached id)) := by
    refine (merge.plannedEdges_perm merge.namedNodes).trans ?_
    rw [inParts, crossing, ← List.map_append]
    exact wellFormed.edges_perm.map _
  have sorted : (merge.plannedEdges merge.namedNodes).Pairwise fun first second =>
      first.seq ≤ second.seq := by
    change (_ ++ (merge.plannedInParts merge.namedNodes).filter (·.id.isNone)).Pairwise _
    rw [noneNew, List.append_nil]
    exact pairwise_mergeSort_number PlannedEdge.seq _
  exact eq_of_perm_of_sorted PlannedEdge.seq perm sorted
    (List.pairwise_map.mpr wellFormed.edgeOrder)

/-- The edges put back are those of the graph, with their data and in its order. -/
theorem edges_untouched :
    (graph.reunion graph.partAt).result.edges.map Edge.data = graph.edges.map Edge.data := by
  let merge := graph.reunion graph.partAt
  have known : ∀ plan ∈ merge.plannedEdges merge.namedNodes, true → plan.id ≠ none := by
    intro plan member _
    rw [wellFormed.plannedEdges_untouched] at member
    obtain ⟨_, _, rfl⟩ := List.mem_map.mp member
    exact Option.some_ne_none _
  have shown : ((merge.result.edges).filter fun _ => true).map Edge.data = _ :=
    Merge.map_data_edgesFrom (fun _ => true) known
  rw [List.filter_true, List.filter_true] at shown
  refine shown.trans ?_
  rw [wellFormed.plannedEdges_untouched, List.map_map]
  rfl

/-! ### The merged graph -/

/-- The merged graph has the data of the graph divided. -/
theorem toData_untouched : (graph.reunion graph.partAt).result.toData = graph.toData := by
  have nodes : (graph.reunion graph.partAt).result.toData.nodes = graph.toData.nodes :=
    wellFormed.nodes_untouched
  have edges : (graph.reunion graph.partAt).result.toData.edges = graph.toData.edges :=
    wellFormed.edges_untouched
  have history : (graph.reunion graph.partAt).result.history = graph.history := by
    rw [NamesNodes.history_reunion, List.append_right_eq_self]
    exact List.flatMap_eq_nil_iff.mpr fun index _ => rfl
  unfold toData at nodes edges ⊢
  dsimp only at nodes edges
  rw [nodes, edges, history]

end WellFormed

/-- An edge is in the part that has both of its ends. -/
theorem WellFormed.mem_edges_partAt_iff (wellFormed : graph.WellFormed) {edge : Edge}
    (there : edge ∈ graph.edges) {index : Fin graph.partGroups.length} :
    edge ∈ (graph.partAt index).edges ↔
      (graph.partAt index).hasNode edge.source ∧ (graph.partAt index).hasNode edge.target := by
  have ends := wellFormed.endpoints edge there
  rw [mem_edges_partAt, partOfEdge?_eq_some_iff, wellFormed.hasNode_partAt_iff,
    wellFormed.hasNode_partAt_iff]
  tauto

/-- An edge is between parts if no part has both of its ends. -/
theorem WellFormed.mem_between_iff (wellFormed : graph.WellFormed) {edge : Edge}
    (there : edge ∈ graph.edges) :
    edge ∈ graph.between ↔ ∀ index : Fin graph.partGroups.length,
      ¬((graph.partAt index).hasNode edge.source ∧ (graph.partAt index).hasNode edge.target) := by
  constructor
  · intro between index ends
    have inPart := (mem_edges_partAt.mp ((wellFormed.mem_edges_partAt_iff there).mpr ends)).2
    have apart := (List.mem_filter.mp between).2
    rw [inPart] at apart
    cases apart
  · intro apart
    rcases List.mem_append.mp (wellFormed.edges_perm.mem_iff.mpr there) with inPart | between
    · obtain ⟨index, _, member⟩ := List.mem_flatMap.mp inPart
      exact absurd ((wellFormed.mem_edges_partAt_iff there).mp member) (apart index)
    · exact between

/-- The parts are what stands at the number of each group. -/
theorem parts_eq_some_iff {number : Nat} {there : CodeGraph} :
    graph.parts[number]? = some there ↔
      ∃ index : Fin graph.partGroups.length, number = index.val ∧ graph.partAt index = there := by
  rw [parts_eq]
  exact parts_reunion_eq_some_iff

/-- A node is in one part. -/
theorem WellFormed.existsUnique_part (wellFormed : graph.WellFormed) {node : Node}
    (there : node ∈ graph.nodes) :
    ∃! index : Nat, ∃ part : CodeGraph,
      graph.parts[index]? = some part ∧ node.data ∈ part.nodes.map Node.data := by
  have listed := wellFormed.nodes_perm.mem_iff.mpr (List.mem_map_of_mem there)
  obtain ⟨index, _, member⟩ := List.mem_flatMap.mp listed
  have partOf {place : Fin graph.partGroups.length}
      (inPart : node.data ∈ (graph.partAt place).nodes.map Node.data) :
      partOf? graph.partGroups node.id = some place.val := by
    obtain ⟨own, ownMember, same⟩ := List.mem_map.mp inPart
    have sameId : own.id = node.id := congrArg NodeData.id same
    exact (wellFormed.hasNode_partAt_iff.mp (sameId ▸ hasNode_of_mem ownMember)).2
  refine ⟨index.val, ⟨_, parts_eq_some_iff.mpr ⟨index, rfl, rfl⟩, member⟩, ?_⟩
  rintro other ⟨part, at_, inPart⟩
  obtain ⟨place, rfl, rfl⟩ := parts_eq_some_iff.mp at_
  exact Option.some.inj ((partOf inPart).symm.trans (partOf member))

end CodeGraph

/-- **Splitting and merging.** A well-formed graph, whatever contains what in it, can be split. Its
nodes, as data shows them, are those of the parts, each in one of them. Its edges, with their
sequence numbers, are those of the parts, which have both ends of them, and those between the parts,
of which no part has both ends. And merging the parts as they are gives a graph that shows the same
nodes, edges and history in the same order. -/
theorem split_merged {graph : CodeGraph} (wellFormed : graph.WellFormed) :
    ∃ split, graph.split = .ok split ∧
      (split.parts.flatMap (·.nodes.map Node.data)).Perm (graph.nodes.map Node.data) ∧
      (∀ node ∈ graph.nodes, ∃! index : Nat, ∃ part : CodeGraph,
        split.parts[index]? = some part ∧ node.data ∈ part.nodes.map Node.data) ∧
      (split.parts.flatMap (·.edges) ++ split.crossEdges).Perm graph.edges ∧
      (∀ edge ∈ graph.edges,
        (∀ part ∈ split.parts,
          edge ∈ part.edges ↔ part.hasNode edge.source ∧ part.hasNode edge.target) ∧
        (edge ∈ split.crossEdges ↔ ∀ part ∈ split.parts,
          ¬(part.hasNode edge.source ∧ part.hasNode edge.target))) ∧
      ∃ merged, split.merged graph split.parts = .ok merged ∧ merged.toData = graph.toData := by
  refine ⟨_, wellFormed.split_eq, ?_, fun node there => wellFormed.existsUnique_part there,
    ?_, ?_, ?_⟩
  · rw [graph.parts_eq, List.flatMap_map]
    exact wellFormed.nodes_perm
  · rw [graph.parts_eq, List.flatMap_map]
    exact wellFormed.edges_perm
  · intro edge there
    simp only [graph.parts_eq, List.forall_mem_map, List.mem_finRange, true_imp_iff]
    exact ⟨fun index => wellFormed.mem_edges_partAt_iff there, wellFormed.mem_between_iff there⟩
  · refine ⟨_, ?_, wellFormed.toData_untouched⟩
    dsimp only [Split.merged]
    rw [graph.parts_eq]
    exact wellFormed.sound_untouched.graph_eq

/-- A type `B` that two roots contain, two types that contain each other, and a call from one part
to another, with gaps between the sequence numbers of nodes and edges. -/
theorem split_merged_of_cycle :
    let node (id : String) (seq : Nat) : Node := ⟨id, .classType, id, ∅, seq⟩
    let edge (id : String) (kind : EdgeKind) (source target : String) (seq : Nat) : Edge :=
      ⟨id, kind, source, target, ∅, seq⟩
    let graph : CodeGraph := {
      nodes := [node "p0.n1" 1, node "B" 3, node "n0" 4, node "D" 8, node "E" 9]
      edges := [edge "x" .contains "p0.n1" "B" 0, edge "e0" .contains "n0" "B" 2,
        edge "e7" .calls "D" "B" 3, edge "e1" .contains "D" "E" 5, edge "y" .contains "E" "D" 6]
      nextSeq := 12
      nextEdgeSeq := 9
      history := [⟨"D", "rule-1"⟩, ⟨"gone", "rule-2"⟩] }
    graph.WellFormed ∧ graph.partGroups.length = 3 ∧
      ∃ split, graph.split = .ok split ∧
        ∃ merged, split.merged graph split.parts = .ok merged ∧ merged.toData = graph.toData := by
  intro node edge graph
  have wellFormed : graph.WellFormed := by
    constructor <;> decide +kernel
  obtain ⟨split, done, _, _, _, _, merge⟩ := split_merged wellFormed
  exact ⟨wellFormed, by decide +kernel, split, done, merge⟩

end Transcode
