import Transcode.Proofs.Tables
import Transcode.Proofs.WellFormed

/-!
# Stored graphs

A store represents a graph (`IndexedGraph.Represents`) if its indexes are exact and its nodes and
edges are those of the graph, with the same counters, history and forwarding. Then looking an id up
through the indexes finds what the graph has under it (`IndexedGraph.Represents.node?_eq`,
`IndexedGraph.Represents.edge?_eq`), and the indexes have exactly the ids of the nodes and edges
that are there (`IndexedGraph.Represents.mem_nodeIndex_iff`,
`IndexedGraph.Represents.mem_edgeIndex_iff`). Each primitive change made in the store and in the
graph comes to the same outcome and to a store that represents the graph again.
-/

namespace Transcode

/-- Two outcomes are alike: both are successes, with results that are related, or both the same
failure. -/
inductive SameOutcome {ε α β : Type} (related : α → β → Prop) : Except ε α → Except ε β → Prop
  | ok {first : α} {second : β} (same : related first second) :
      SameOutcome related (.ok first) (.ok second)
  | error (fault : ε) : SameOutcome related (.error fault) (.error fault)

/-- Numbers are tried with the same result against names of which the same are taken. -/
theorem firstFree_congr {name : Nat → String} {first second : List String}
    (same : ∀ id, id ∈ first ↔ id ∈ second) (fuel number : Nat) :
    firstFree name first fuel number = firstFree name second fuel number := by
  induction fuel generalizing number with
  | zero => rfl
  | succ fuel ih =>
      unfold firstFree
      simp only [List.contains_iff_mem, same, ih]

namespace IndexedGraph

variable {store after : IndexedGraph} {graph : CodeGraph} {id : String}

/-- What a store says of a graph: the same nodes and edges, which its indexes find exactly, and the
same of everything else. -/
structure Represents (store : IndexedGraph) (graph : CodeGraph) : Prop where
  nodeIndex : store.nodes.Exact (·.id)
  edgeIndex : store.edges.Exact (·.id)
  nodes : ∀ node, store.nodes.Stores node ↔ node ∈ graph.nodes
  edges : ∀ edge, (∃ stored, store.edges.Stores stored ∧ store.view? stored = some edge) ↔
    edge ∈ graph.edges
  ends : ∀ stored, store.edges.Stores stored → (store.view? stored).isSome
  nodeIds : (graph.nodes.map (·.id)).Nodup
  edgeIds : (graph.edges.map (·.id)).Nodup
  nextSeq : store.nextSeq = graph.nextSeq
  nextEdgeSeq : store.nextEdgeSeq = graph.nextEdgeSeq
  nextNodeId : store.nextNodeId = graph.nextNodeId
  nextEdgeId : store.nextEdgeId = graph.nextEdgeId
  namespaceText : store.namespaceText = graph.namespaceText
  history : store.history = graph.history
  forwarding : store.forwarding = graph.forwarding

/-! ### Edges as they are shown -/

/-- A stored edge is shown with the ids that its two places have. -/
theorem view?_eq_some_iff {stored : StoredEdge} {edge : Edge} :
    store.view? stored = some edge ↔ ∃ source target, store.idAt? stored.source = some source ∧
      store.idAt? stored.target = some target ∧
        ⟨stored.id, stored.kind, source, target, stored.attributes, stored.seq⟩ = edge := by
  simp only [view?, Option.bind_eq_bind, Option.bind_eq_some_iff, Option.pure_def,
    Option.some.injEq]
  constructor
  · rintro ⟨source, sourceAt, target, targetAt, shown⟩
    exact ⟨source, target, sourceAt, targetAt, shown⟩
  · rintro ⟨source, target, sourceAt, targetAt, shown⟩
    exact ⟨source, sourceAt, target, targetAt, shown⟩

/-- An edge is shown as before if its ends have the same ids. -/
theorem view?_congr {stored : StoredEdge}
    (source : after.idAt? stored.source = store.idAt? stored.source)
    (target : after.idAt? stored.target = store.idAt? stored.target) :
    after.view? stored = store.view? stored := by
  rw [view?, source, target, view?]

/-- An edge is shown under the id that it is stored with. -/
theorem id_of_view? {stored : StoredEdge} {edge : Edge} (shown : store.view? stored = some edge) :
    edge.id = stored.id := by
  obtain ⟨_, _, _, _, rfl⟩ := view?_eq_some_iff.mp shown
  rfl

namespace Represents

section Lookups

variable (represents : store.Represents graph)

include represents

/-! ### Looking up -/

/-- The index of nodes has exactly the ids of the nodes that are there. -/
theorem mem_nodeIndex_iff : id ∈ store.nodes.index.keys ↔ id ∈ graph.nodes.map (·.id) := by
  rw [represents.nodeIndex.mem_keys_iff, List.mem_map]
  exact exists_congr fun node => and_congr_left' (represents.nodes node)

/-- The index of edges has exactly the ids of the edges that are there. -/
theorem mem_edgeIndex_iff : id ∈ store.edges.index.keys ↔ id ∈ graph.edges.map (·.id) := by
  rw [represents.edgeIndex.mem_keys_iff, List.mem_map]
  constructor
  · rintro ⟨stored, there, named⟩
    obtain ⟨edge, shown⟩ := Option.isSome_iff_exists.mp (represents.ends stored there)
    exact ⟨edge, (represents.edges edge).mp ⟨stored, there, shown⟩, (id_of_view? shown).trans named⟩
  · rintro ⟨edge, member, named⟩
    obtain ⟨stored, there, shown⟩ := (represents.edges edge).mpr member
    exact ⟨stored, there, (id_of_view? shown).symm.trans named⟩

/-- The index of nodes leads to the node with an id. -/
theorem node?_eq (id : String) : store.node? id = graph.node? id := by
  refine Option.ext fun node => ?_
  rw [node?, represents.nodeIndex.find?_eq_some_iff, represents.nodes, CodeGraph.node?,
    find?_key_eq_some_iff Node.id represents.nodeIds]

/-- The index of edges leads to the edge with an id. -/
theorem edge?_eq (id : String) : store.edge? id = graph.edge? id := by
  refine Option.ext fun edge => ?_
  rw [edge?, Option.bind_eq_some_iff, CodeGraph.edge?,
    find?_key_eq_some_iff Edge.id represents.edgeIds, ← represents.edges]
  simp only [represents.edgeIndex.find?_eq_some_iff]
  constructor
  · rintro ⟨stored, ⟨there, named⟩, shown⟩
    exact ⟨⟨stored, there, shown⟩, (id_of_view? shown).trans named⟩
  · rintro ⟨⟨stored, there, shown⟩, named⟩
    exact ⟨stored, ⟨there, (id_of_view? shown).symm.trans named⟩, shown⟩

/-- The index of nodes tells whether a node has an id. -/
theorem hasNode_eq (id : String) : store.hasNode id = graph.hasNode id := by
  rw [Bool.eq_iff_iff, CodeGraph.hasNode_iff, ← represents.mem_nodeIndex_iff, Dict.mem_keys_iff,
    hasNode, Dict.contains, Option.isSome_iff_ne_none]

/-- The index of edges tells whether an edge has an id. -/
theorem hasEdge_eq (id : String) : store.hasEdge id = graph.hasEdge id := by
  rw [Bool.eq_iff_iff, CodeGraph.hasEdge_iff, ← represents.mem_edgeIndex_iff, Dict.mem_keys_iff,
    hasEdge, Dict.contains, Option.isSome_iff_ne_none]

/-- The place that the index tells for an id is that of a node with the id. -/
theorem idAt?_eq_some_iff {place : Nat} :
    store.idAt? place = some id ↔ store.nodes.index.get? id = some place := by
  rw [represents.nodeIndex id place, idAt?, Option.map_eq_some_iff]

theorem exists_place_iff :
    (∃ place, store.nodes.index.get? id = some place) ↔ graph.hasNode id := by
  rw [← represents.hasNode_eq, hasNode, Dict.contains, Option.isSome_iff_exists]

/-! ### Fresh ids -/

/-- There are as many ids in the index as there are nodes. -/
theorem size_nodeIndex : store.nodes.index.size = graph.nodes.length := by
  have same : store.nodes.index.keys.Perm (graph.nodes.map (·.id)) :=
    (List.perm_ext_iff_of_nodup (Dict.nodup_keys _) represents.nodeIds).mpr fun _ =>
      represents.mem_nodeIndex_iff
  simpa [Dict.keys, Dict.size] using same.length_eq

/-- There are as many ids in the index as there are edges. -/
theorem size_edgeIndex : store.edges.index.size = graph.edges.length := by
  have same : store.edges.index.keys.Perm (graph.edges.map (·.id)) :=
    (List.perm_ext_iff_of_nodup (Dict.nodup_keys _) represents.edgeIds).mpr fun _ =>
      represents.mem_edgeIndex_iff
  simpa [Dict.keys, Dict.size] using same.length_eq

/-- Ids that are not in the index are those that are not in use. -/
theorem freshNode_eq : store.freshNode = graph.freshNode := by
  rw [freshNode, represents.size_nodeIndex, represents.nextNodeId, represents.namespaceText]
  exact firstFree_congr (fun _ => represents.mem_nodeIndex_iff) ..

theorem freshEdge_eq : store.freshEdge = graph.freshEdge := by
  rw [freshEdge, represents.size_edgeIndex, represents.nextEdgeId, represents.namespaceText]
  exact firstFree_congr (fun _ => represents.mem_edgeIndex_iff) ..

end Lookups

/-! ### An empty store -/

/-- An empty store represents an empty graph. -/
theorem empty (namespaceText : String) :
    ({ namespaceText } : IndexedGraph).Represents (.withNamespace namespaceText) where
  nodeIndex := .empty
  edgeIndex := .empty
  nodes _ := iff_of_false (fun ⟨_, filled⟩ => nomatch filled) List.not_mem_nil
  edges _ := iff_of_false (fun ⟨_, ⟨_, filled⟩, _⟩ => nomatch filled) List.not_mem_nil
  ends := fun _ ⟨_, filled⟩ => nomatch filled
  nodeIds := .nil
  edgeIds := .nil
  nextSeq := rfl
  nextEdgeSeq := rfl
  nextNodeId := rfl
  nextEdgeId := rfl
  namespaceText := rfl
  history := rfl
  forwarding := rfl

/-! ### Adding nodes -/

/-- A node under a new id is stored and put into the index. -/
theorem pushNode (represents : store.Represents graph) (unused : id ∉ graph.nodes.map (·.id))
    (kind : NodeKind) (label : String) (attributes : Attributes) :
    (store.pushNode id kind label attributes).Represents
      (graph.pushNode id kind label attributes) := by
  have new : store.nodes.index.get? id = none := by
    have absent := mt represents.mem_nodeIndex_iff.mp unused
    rwa [Dict.mem_keys_iff, not_not] at absent
  have stays {place : Nat} {other : String} (named : store.idAt? place = some other) :
      (store.pushNode id kind label attributes).idAt? place = some other := by
    obtain ⟨node, filled, rfl⟩ := Option.map_eq_some_iff.mp named
    exact Option.map_eq_some_iff.mpr ⟨node, Table.at?_insert_of_some filled .., rfl⟩
  have shows (stored : StoredEdge) (there : store.edges.Stores stored) :
      (store.pushNode id kind label attributes).view? stored = store.view? stored := by
    obtain ⟨edge, shown⟩ := Option.isSome_iff_exists.mp (represents.ends stored there)
    obtain ⟨source, target, sourceAt, targetAt, _⟩ := view?_eq_some_iff.mp shown
    exact view?_congr ((stays sourceAt).trans sourceAt.symm) ((stays targetAt).trans targetAt.symm)
  refine { represents with
    nodeIndex := ?_, nodes := ?_, edges := ?_, ends := ?_, nodeIds := ?_, nextSeq := ?_ }
  · exact represents.nodeIndex.insert ⟨id, kind, label, attributes, store.nextSeq⟩ new
  · intro node
    change (store.nodes.insert ..).Stores node ↔ node ∈ graph.nodes ++ [_]
    rw [Table.stores_insert_iff, represents.nodes, represents.nextSeq, List.mem_append,
      List.mem_singleton, or_comm]
  · intro edge
    refine Iff.trans (exists_congr fun stored => ?_) (represents.edges edge)
    exact and_congr_right fun there => by rw [shows stored there]
  · intro stored there
    rw [shows stored there]
    exact represents.ends stored there
  · rw [CodeGraph.pushNode, List.map_append, List.map_singleton]
    refine List.nodup_append.mpr ⟨represents.nodeIds, List.nodup_singleton _, ?_⟩
    intro other member new isNew same
    obtain rfl := List.mem_singleton.mp isNew
    exact unused (same ▸ member)
  · change store.nextSeq + 1 = graph.nextSeq + 1
    rw [represents.nextSeq]

/-- The store and the graph make a node under the same fresh id. -/
theorem addNode (represents : store.Represents graph) (kind : NodeKind) (label : String)
    (attributes : Attributes) :
    (store.addNode kind label attributes).1 = (graph.addNode kind label attributes).1 ∧
      (store.addNode kind label attributes).2.Represents
        (graph.addNode kind label attributes).2 := by
  have named : store.namespaceText ++ "n" ++ toString store.freshNode =
      graph.nodeName graph.freshNode := by
    rw [represents.namespaceText, represents.freshNode_eq, CodeGraph.nodeName]
  have counted : { store with nextNodeId := graph.freshNode + 1 }.Represents
      { graph with nextNodeId := graph.freshNode + 1 } := { represents with nextNodeId := rfl }
  refine ⟨named, ?_⟩
  unfold IndexedGraph.addNode CodeGraph.addNode
  dsimp only
  rw [named, represents.freshNode_eq]
  exact counted.pushNode graph.nodeName_freshNode_not_mem kind label attributes

/-- A node under a given id is added to both or refused by both. -/
theorem addNodeWithId (represents : store.Represents graph) (id : String) (kind : NodeKind)
    (label : String) (attributes : Attributes) :
    SameOutcome Represents (store.addNodeWithId id kind label attributes)
      (graph.addNodeWithId id kind label attributes) := by
  unfold IndexedGraph.addNodeWithId CodeGraph.addNodeWithId
  rw [represents.hasNode_eq]
  by_cases used : graph.hasNode id
  · rw [if_pos used, if_pos used]
    exact .error _
  · rw [if_neg used, if_neg used]
    exact .ok (represents.pushNode (mt CodeGraph.hasNode_iff.mpr used) kind label attributes)

/-! ### Adding edges -/

/-- An edge is put into both, or both refuse it for the same reason. -/
theorem insertEdge (represents : store.Represents graph) (edge : Edge) :
    SameOutcome Represents (store.insertEdge edge) (graph.insertEdge edge) := by
  unfold IndexedGraph.insertEdge CodeGraph.insertEdge
  rw [represents.hasEdge_eq]
  by_cases used : graph.hasEdge edge.id
  · rw [if_pos used, if_pos used]
    exact .error _
  rw [if_neg used, if_neg used]
  by_cases ends : graph.hasNode edge.source ∧ graph.hasNode edge.target
  · obtain ⟨source, sourceAt⟩ := represents.exists_place_iff.mpr ends.1
    obtain ⟨target, targetAt⟩ := represents.exists_place_iff.mpr ends.2
    rw [sourceAt, targetAt, if_neg (by simp [ends.1, ends.2])]
    have unused : edge.id ∉ graph.edges.map (·.id) := mt CodeGraph.hasEdge_iff.mpr used
    have new : store.edges.index.get? edge.id = none := by
      have absent := mt represents.mem_edgeIndex_iff.mp unused
      rwa [Dict.mem_keys_iff, not_not] at absent
    let stored : StoredEdge := ⟨edge.id, edge.kind, source, target, edge.attributes, edge.seq⟩
    have shown : store.view? stored = some edge :=
      view?_eq_some_iff.mpr ⟨edge.source, edge.target, represents.idAt?_eq_some_iff.mpr sourceAt,
        represents.idAt?_eq_some_iff.mpr targetAt, rfl⟩
    refine .ok { represents with
      edgeIndex := ?_, edges := ?_, ends := ?_, edgeIds := ?_, nextEdgeSeq := ?_ }
    · exact represents.edgeIndex.insert stored new
    · intro other
      change (∃ item, (store.edges.insert edge.id stored).Stores item ∧
        store.view? item = some other) ↔
        other ∈ CodeGraph.insertBySeq edge graph.edges
      rw [CodeGraph.mem_insertBySeq, ← represents.edges]
      simp only [Table.stores_insert_iff, or_and_right, exists_or, exists_eq_left, shown,
        Option.some.injEq, eq_comm]
    · intro item there
      rcases Table.stores_insert_iff.mp there with rfl | old
      · exact Option.isSome_of_mem shown
      · exact represents.ends item old
    · exact ((CodeGraph.insertBySeq_perm edge graph.edges).map _).nodup_iff.mpr
        (List.nodup_cons.mpr ⟨unused, represents.edgeIds⟩)
    · change max store.nextEdgeSeq _ = max graph.nextEdgeSeq _
      rw [represents.nextEdgeSeq]
  · have missing : (!graph.hasNode edge.source || !graph.hasNode edge.target) = true := by
      rwa [← Bool.not_and, Bool.not_eq_true', ← Bool.not_eq_true, Bool.and_eq_true]
    rw [if_pos missing]
    split
    · rename_i source target sourceAt targetAt
      exact absurd ⟨represents.exists_place_iff.mp ⟨source, sourceAt⟩,
        represents.exists_place_iff.mp ⟨target, targetAt⟩⟩ ends
    · exact .error _

/-- An edge under a given id is added to both or refused by both, and both count on. -/
theorem addEdgeWithId (represents : store.Represents graph) (id source target : String)
    (kind : EdgeKind) (attributes : Attributes) :
    (store.addEdgeWithId id source target kind attributes).1 =
        (graph.addEdgeWithId id source target kind attributes).1 ∧
      (store.addEdgeWithId id source target kind attributes).2.Represents
        (graph.addEdgeWithId id source target kind attributes).2 := by
  have counted : { store with nextEdgeSeq := store.nextEdgeSeq + 1 }.Represents
      { graph with nextEdgeSeq := graph.nextEdgeSeq + 1 } :=
    { represents with nextEdgeSeq := congrArg (· + 1) represents.nextEdgeSeq }
  have inserted := counted.insertEdge ⟨id, kind, source, target, attributes, graph.nextEdgeSeq⟩
  unfold IndexedGraph.addEdgeWithId CodeGraph.addEdgeWithId
  dsimp only
  rw [represents.nextEdgeSeq] at inserted ⊢
  revert inserted
  generalize IndexedGraph.insertEdge _ _ = stored
  generalize CodeGraph.insertEdge _ _ = shown
  rintro (same | fault)
  · exact ⟨rfl, same⟩
  · rw [represents.nextEdgeSeq] at counted
    exact ⟨rfl, counted⟩

/-- The store and the graph make an edge under the same fresh id, or both refuse it. -/
theorem addEdge (represents : store.Represents graph) (source target : String) (kind : EdgeKind)
    (attributes : Attributes) :
    (store.addEdge source target kind attributes).1 =
        (graph.addEdge source target kind attributes).1 ∧
      (store.addEdge source target kind attributes).2.Represents
        (graph.addEdge source target kind attributes).2 := by
  have named : store.namespaceText ++ "e" ++ toString store.freshEdge =
      graph.edgeName graph.freshEdge := by
    rw [represents.namespaceText, represents.freshEdge_eq, CodeGraph.edgeName]
  have counted : { store with nextEdgeId := graph.freshEdge + 1 }.Represents
      { graph with nextEdgeId := graph.freshEdge + 1 } := { represents with nextEdgeId := rfl }
  obtain ⟨same, later⟩ :=
    counted.addEdgeWithId (graph.edgeName graph.freshEdge) source target kind attributes
  unfold IndexedGraph.addEdge CodeGraph.addEdge
  dsimp only
  rw [named, represents.freshEdge_eq]
  exact ⟨congrArg (Except.map _) same, later⟩

/-! ### Removing and writing -/

/-- A node leaves the store with the edges at its place, and with the ids of all of them. -/
theorem removeNode (represents : store.Represents graph) (id : String) :
    (store.removeNode id).Represents (graph.removeNode id) := by
  have keptNodes (node : Node) : node ∈ (graph.removeNode id).nodes ↔
      node ∈ graph.nodes ∧ node.id ≠ id := by
    rw [CodeGraph.removeNode, List.mem_filter, decide_eq_true_iff]
  have keptEdges (edge : Edge) : edge ∈ (graph.removeNode id).edges ↔
      edge ∈ graph.edges ∧ edge.source ≠ id ∧ edge.target ≠ id := by
    simp only [CodeGraph.removeNode, List.mem_filter, Bool.and_eq_true, decide_eq_true_eq]
  have nodeIds : ((graph.removeNode id).nodes.map (·.id)).Nodup :=
    represents.nodeIds.sublist (List.filter_sublist.map _)
  have edgeIds : ((graph.removeNode id).edges.map (·.id)).Nodup :=
    represents.edgeIds.sublist (List.filter_sublist.map _)
  -- Where an edge ends at the place of an id, it is shown with that id.
  have places {stored : StoredEdge} {edge : Edge} (shown : store.view? stored = some edge) :
      store.nodes.index.get? edge.source = some stored.source ∧
        store.nodes.index.get? edge.target = some stored.target := by
    obtain ⟨source, target, sourceAt, targetAt, rfl⟩ := view?_eq_some_iff.mp shown
    exact ⟨represents.idAt?_eq_some_iff.mp sourceAt, represents.idAt?_eq_some_iff.mp targetAt⟩
  unfold IndexedGraph.removeNode
  cases listed : store.nodes.index.get? id with
  | none =>
      have absent := represents.nodeIndex.get?_eq_none_iff.mp listed
      refine { represents with
        nodes := ?_, edges := ?_, nodeIds := nodeIds, edgeIds := edgeIds }
      · intro node
        rw [keptNodes, ← represents.nodes]
        exact ⟨fun there => ⟨there, absent node there⟩, And.left⟩
      · intro edge
        rw [keptEdges, ← represents.edges]
        refine ⟨fun there => ⟨there, ?_⟩, And.left⟩
        obtain ⟨stored, _, shown⟩ := there
        obtain ⟨source, target⟩ := places shown
        constructor
        · rintro rfl
          cases source.symm.trans listed
        · rintro rfl
          cases target.symm.trans listed
  | some place =>
      have elsewhere {other : Nat} (apart : other ≠ place) :
          { store with nodes := store.nodes.erase id }.idAt? other = store.idAt? other := by
        rw [idAt?, idAt?, Table.at?_erase listed, if_neg apart]
      have atPlace {other : String} {there : Nat}
          (found : store.nodes.index.get? other = some there) : there = place ↔ other = id := by
        constructor
        · rintro rfl
          have first := represents.idAt?_eq_some_iff.mpr found
          have second := represents.idAt?_eq_some_iff.mpr listed
          exact Option.some.inj (first.symm.trans second)
        · rintro rfl
          exact Option.some.inj (found.symm.trans listed)
      let goes (edge : StoredEdge) : Bool := edge.source = place || edge.target = place
      have stays (stored : StoredEdge) :
          (store.edges.eraseAll (·.id) goes).Stores stored ↔
            store.edges.Stores stored ∧ stored.source ≠ place ∧ stored.target ≠ place := by
        rw [Table.stores_eraseAll_iff]
        simp [goes]
      refine { represents with
        nodeIndex := represents.nodeIndex.erase id
        edgeIndex := represents.edgeIndex.eraseAll goes
        nodes := ?_, edges := ?_, ends := ?_, nodeIds := nodeIds, edgeIds := edgeIds }
      · intro node
        rw [keptNodes, ← represents.nodes]
        exact represents.nodeIndex.stores_erase_iff
      · intro edge
        rw [keptEdges, ← represents.edges]
        constructor
        · rintro ⟨stored, there, shown⟩
          obtain ⟨old, source, target⟩ := (stays stored).mp there
          have before : store.view? stored = some edge :=
            (view?_congr (elsewhere source) (elsewhere target)).symm.trans shown
          obtain ⟨sourceAt, targetAt⟩ := places before
          exact ⟨⟨stored, old, before⟩, mt (atPlace sourceAt).mpr source,
            mt (atPlace targetAt).mpr target⟩
        · rintro ⟨⟨stored, old, before⟩, source, target⟩
          obtain ⟨sourceAt, targetAt⟩ := places before
          have sourceApart := mt (atPlace sourceAt).mp source
          have targetApart := mt (atPlace targetAt).mp target
          exact ⟨stored, (stays stored).mpr ⟨old, sourceApart, targetApart⟩,
            (view?_congr (elsewhere sourceApart) (elsewhere targetApart)).trans before⟩
      · intro stored there
        obtain ⟨old, source, target⟩ := (stays stored).mp there
        have shown := represents.ends stored old
        rwa [← view?_congr (elsewhere source) (elsewhere target)] at shown

/-- An edge leaves the store with its id. -/
theorem removeEdge (represents : store.Represents graph) (id : String) :
    (store.removeEdge id).Represents (graph.removeEdge id) := by
  refine { represents with
    edgeIndex := represents.edgeIndex.erase id
    edges := ?_, ends := ?_
    edgeIds := represents.edgeIds.sublist (List.filter_sublist.map _) }
  · intro edge
    change (∃ stored, (store.edges.erase id).Stores stored ∧ store.view? stored = some edge) ↔
      edge ∈ graph.edges.filter _
    rw [List.mem_filter, decide_eq_true_iff, ← represents.edges]
    simp only [represents.edgeIndex.stores_erase_iff]
    constructor
    · rintro ⟨stored, ⟨there, apart⟩, shown⟩
      exact ⟨⟨stored, there, shown⟩, id_of_view? shown ▸ apart⟩
    · rintro ⟨⟨stored, there, shown⟩, apart⟩
      exact ⟨stored, ⟨there, id_of_view? shown ▸ apart⟩, shown⟩
  · intro stored there
    exact represents.ends stored (represents.edgeIndex.stores_erase_iff.mp there).1

/-- An attribute is written where the node is stored, which keeps its id. -/
theorem setAttribute (represents : store.Represents graph) (id key value : String) :
    (store.setAttribute id key value).Represents (graph.setAttribute id key value) := by
  let change (node : Node) : Node := { node with attributes := node.attributes.insert key value }
  have named (place : Nat) : (store.setAttribute id key value).idAt? place = store.idAt? place := by
    unfold idAt? IndexedGraph.setAttribute
    cases listed : store.nodes.index.get? id with
    | none => rw [Table.update, listed]
    | some there =>
        rw [Table.at?_update listed]
        split
        · rw [Option.map_map]
          rfl
        · rfl
  have shows (stored : StoredEdge) :
      (store.setAttribute id key value).view? stored = store.view? stored :=
    view?_congr (named _) (named _)
  refine { represents with
    nodeIndex := represents.nodeIndex.update change (fun _ => rfl) id
    nodes := ?_, edges := ?_, ends := ?_, nodeIds := ?_ }
  · intro node
    change (store.nodes.update id change).Stores node ↔ node ∈ graph.nodes.map _
    rw [represents.nodeIndex.stores_update_iff, List.mem_map]
    exact exists_congr fun old => and_congr (represents.nodes old) eq_comm
  · intro edge
    simp only [shows]
    exact represents.edges edge
  · intro stored there
    rw [shows]
    exact represents.ends stored there
  · rw [CodeGraph.map_id_setAttribute]
    exact represents.nodeIds

theorem record (represents : store.Represents graph) (node rule : String) :
    (store.record node rule).Represents (graph.record node rule) :=
  { represents with history := congrArg (· ++ [Provenance.mk node rule]) represents.history }

theorem forward (represents : store.Represents graph) (old new : String) :
    (store.forward old new).Represents (graph.forward old new) :=
  { represents with forwarding := congrArg (·.insert old new) represents.forwarding }

end Represents

end IndexedGraph

end Transcode
