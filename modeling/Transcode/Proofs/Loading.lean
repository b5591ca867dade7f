import Transcode.Proofs.Reload
import Transcode.Proofs.Session

/-!
# What can be loaded

Data can be loaded if its ids are used once and its edges end at its nodes, and in no other case;
the graph then shows the data (`CodeGraph.ofData_eq_ok_iff`, `CodeGraph.toData_placed`). What a
graph of a session shows can always be loaded, whatever numbers its nodes and edges have by then,
and is shown again (`graphData_roundTrip`).
-/

namespace Transcode

namespace CodeGraph

variable {graph after : CodeGraph} {data : GraphData}

/-! ### What was loaded -/

/-- Nodes added under their own ids have them in order. -/
theorem map_id_addNodes {items : List NodeData} (added : graph.addNodes items = .ok after) :
    after.nodes.map (·.id) = graph.nodes.map (·.id) ++ items.map (·.id) := by
  induction items generalizing graph with
  | nil =>
      cases added
      simp
  | cons node rest ih =>
      unfold addNodes at added
      obtain ⟨next, step, added⟩ := bind_eq_ok_iff.mp added
      unfold addNodeWithId at step
      split at step
      · cases step
      · cases step
        rw [ih added]
        simp [pushNode]

/-- Edges are added between nodes that are there, under the ids asked for. -/
theorem of_addEdges {items : List EdgeData} (added : graph.addEdges items = .ok after) :
    after.nodes = graph.nodes ∧
      (after.edges.map (·.id)).Perm (graph.edges.map (·.id) ++ items.map (·.id)) ∧
      ∀ item ∈ items, graph.hasNode item.source ∧ graph.hasNode item.target := by
  induction items generalizing graph with
  | nil =>
      cases added
      simp
  | cons item rest ih =>
      unfold addEdges addEdgeWithId at added
      dsimp only at added
      split at added
      · rename_i next step
        split at step
        · rename_i inserted
          cases step
          obtain ⟨⟨_, ends⟩, rfl⟩ := insertEdge_eq_ok_iff.mp inserted
          obtain ⟨nodes, ids, others⟩ := ih added
          refine ⟨nodes, ids.trans ?_, List.forall_mem_cons.mpr ⟨ends, others⟩⟩
          refine (((insertBySeq_perm _ graph.edges).map _).append_right _).trans ?_
          exact List.perm_middle.symm
        · cases step
      · cases added

/-- Data that was loaded is loadable. -/
theorem loadable_of_ofData (loaded : CodeGraph.ofData data = .ok graph) : data.Loadable := by
  have wellFormed := WellFormed.ofData loaded
  unfold CodeGraph.ofData at loaded
  obtain ⟨withNodes, nodes, loaded⟩ := bind_eq_ok_iff.mp loaded
  obtain ⟨withEdges, edges, loaded⟩ := bind_eq_ok_iff.mp loaded
  cases loaded
  obtain ⟨sameNodes, edgeIds, ends⟩ := of_addEdges edges
  have nodeIds : withNodes.nodes.map (·.id) = data.nodes.map (·.id) := map_id_addNodes nodes
  refine ⟨?_, ?_, fun edge member => ?_⟩
  · rw [← nodeIds, ← sameNodes]
    exact wellFormed.nodeIds
  · have distinct := edgeIds.nodup_iff.mp wellFormed.edgeIds
    exact (List.nodup_append.mp distinct).2.1
  · rw [← nodeIds, ← hasNode_iff, ← hasNode_iff]
    exact ends edge member

/-- **What can be loaded.** Ids are used once and edges end at nodes. -/
theorem ofData_eq_ok_iff :
    CodeGraph.ofData data = .ok graph ↔ data.Loadable ∧ placed data = graph := by
  constructor
  · intro loaded
    have loadable := loadable_of_ofData loaded
    rw [ofData_of_loadable loadable] at loaded
    exact ⟨loadable, Except.ok.inj loaded⟩
  · rintro ⟨loadable, rfl⟩
    exact ofData_of_loadable loadable

/-! ### What a loaded graph shows -/

@[simp] theorem map_data_numberedEdges (start : Nat) (items : List EdgeData) :
    (numberedEdges start items).map Edge.data = items := by
  induction items generalizing start with
  | nil => rfl
  | cons data rest ih => rw [numberedEdges, List.map_cons, ih, Edge.data]

/-- A loaded graph shows what was loaded, without the warnings. -/
theorem toData_placed (data : GraphData) : (placed data).toData = { data with warnings := [] } := by
  have nodes : (placed data).toData.nodes = data.nodes := map_data_numbered 0 data.nodes
  have edges : (placed data).toData.edges = data.edges := map_data_numberedEdges 0 data.edges
  rw [← nodes, ← edges]
  rfl

/-- A graph loaded again has the same data. -/
theorem toData_reloaded (graph : CodeGraph) : graph.reloaded.toData = graph.toData := by
  have same : graph.reloaded = placed graph.toData := by
    simp [reloaded, placed, nodeCount, edgeCount, toData]
  rw [same, toData_placed]
  rfl

end CodeGraph

/-- Loading a well-formed graph again succeeds. -/
theorem Operation.run_reload {graph : CodeGraph} (wellFormed : graph.WellFormed) :
    Operation.reload.run graph = (true, graph.reloaded) := by
  have loaded := wellFormed.ofJsonText_pretty (List.forall_mem_nil _)
  rw [run, show CodeGraph.ofJsonText graph.toData.toJson.pretty = _ from loaded]
  rfl

/-- **Data and graphs.** Data can be loaded exactly if its ids are used once and its edges end at
its nodes, and the graph shows it without its warnings. Every graph of a session shows such data, in
the order of its sequence numbers, so it can be loaded from it, and from the text that it is written
as, into a graph that shows the same nodes, edges and history in the same order; and the JSON value
of the data is read as the data. -/
theorem graphData_roundTrip :
    (∀ data : GraphData, (∃ graph, CodeGraph.ofData data = .ok graph) ↔ data.Loadable) ∧
      (∀ (data : GraphData) (graph : CodeGraph), CodeGraph.ofData data = .ok graph →
        graph.toData = { data with warnings := [] }) ∧
      ∀ graph : CodeGraph, Reachable graph →
        graph.toData.Loadable ∧
          (graph.nodes.Pairwise (·.seq < ·.seq) ∧ graph.edges.Pairwise (·.seq < ·.seq)) ∧
          (∃ again : CodeGraph, CodeGraph.ofData graph.toData = .ok again ∧
            CodeGraph.ofJsonText graph.toData.toJson.pretty = .ok again ∧
            again.toData = graph.toData) ∧
          GraphData.decoder graph.toData.toJson = .ok graph.toData := by
  refine ⟨fun data => ?_, fun data graph loaded => ?_, fun graph reachable => ?_⟩
  · constructor
    · rintro ⟨graph, loaded⟩
      exact CodeGraph.loadable_of_ofData loaded
    · intro loadable
      exact ⟨_, CodeGraph.ofData_of_loadable loadable⟩
  · obtain ⟨_, rfl⟩ := CodeGraph.ofData_eq_ok_iff.mp loaded
    exact CodeGraph.toData_placed data
  · have wellFormed := reachable.wellFormed
    have noWarning : ∀ warning ∈ graph.toData.warnings, warning.Fits := by simp [CodeGraph.toData]
    exact ⟨wellFormed.loadable, ⟨wellFormed.nodeOrder, wellFormed.edgeOrder⟩,
      ⟨graph.reloaded, wellFormed.ofData_toData [], wellFormed.ofJsonText_pretty noWarning,
        graph.toData_reloaded⟩,
      GraphData.decoder_toJson noWarning⟩

/-- A session that removes the first of two nodes, so that the numbers do not start at zero, and is
refused an edge to it. -/
theorem graphData_roundTrip_of_gap :
    let two := ((Operation.addNode .method "f" ∅).run
      ((Operation.addNode .classType "A" ∅).run (.withNamespace "")).2).2
    let one := ((Operation.removeNode "n0").run two).2
    let refused := (Operation.addEdge "n0" "n1" .contains ∅).run one
    Reachable refused.2 ∧ refused.1 = false ∧ refused.2.nodes.map (·.seq) = [1] ∧
      refused.2.toData.Loadable ∧
      ∃ again : CodeGraph, CodeGraph.ofData refused.2.toData = .ok again ∧
        again.toData = refused.2.toData := by
  have reachable := ((((Reachable.empty "").after (.addNode .classType "A" ∅)).after
    (.addNode .method "f" ∅)).after (.removeNode "n0")).after (.addEdge "n0" "n1" .contains ∅)
  obtain ⟨loadable, _, ⟨again, loaded, _, same⟩, _⟩ := graphData_roundTrip.2.2 _ reachable
  exact ⟨reachable, by decide +kernel, by decide +kernel, loadable, again, loaded, same⟩

end Transcode
