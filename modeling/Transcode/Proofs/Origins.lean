import Transcode.Proofs.Agreement
import Transcode.Proofs.Building
import Transcode.Proofs.Containment
import Transcode.Proofs.Success

/-!
# The parts of a built graph

The parts into which a graph of a syntax tree is split agree with it (`CodeGraph.Built.accord`):
each has the nodes of its group and the edges between them under the same ids.
-/

namespace Transcode

namespace CodeGraph

/-- The part of a graph with the group at an index. -/
def partAt (graph : CodeGraph) (index : Fin graph.partGroups.length) : CodeGraph :=
  graph.part graph.partGroups index graph.partGroups[index]

/-- The edges of a graph whose ends are in different parts. -/
def between (graph : CodeGraph) : List Edge :=
  graph.edges.filter fun edge => (partOfEdge? graph.partGroups edge).isNone

/-- The naming that calls everything of a graph by its own id. -/
def ownNaming (graph : CodeGraph) : Naming :=
  ⟨id, id, graph.nodes.map (·.id), graph.edges.map (·.id)⟩

variable {graph : CodeGraph} {id : String} {index : Fin graph.partGroups.length}

/-- Items are numbered by their places. -/
theorem zipIdx_map_finRange {α : Type} {n : Nat} (item : Fin n → α) :
    ((List.finRange n).map item).zipIdx = (List.finRange n).map fun index =>
      (item index, index.val) := by
  refine List.ext_getElem (by simp) fun place _ _ => ?_
  simp

/-- A graph has a part for each of its groups. -/
theorem parts_eq (graph : CodeGraph) :
    graph.parts = (List.finRange graph.partGroups.length).map graph.partAt := by
  refine List.ext_getElem (by simp [parts]) fun place _ _ => ?_
  simp [parts, partAt]

theorem WellFormed.partAt (wellFormed : graph.WellFormed)
    (index : Fin graph.partGroups.length) : (graph.partAt index).WellFormed :=
  wellFormed.parts _ (parts_eq graph ▸ List.mem_map_of_mem (List.mem_finRange index))

theorem territory_ownNaming (graph : CodeGraph) :
    graph.ownNaming.territory = graph.nodes.map (·.id) := List.map_id _

theorem routes_ownNaming (graph : CodeGraph) :
    graph.ownNaming.routes = graph.edges.map (·.id) := List.map_id _

/-- The edges of a part are those with both ends in it. -/
theorem mem_edges_partAt {edge : Edge} :
    edge ∈ (graph.partAt index).edges ↔
      edge ∈ graph.edges ∧ partOfEdge? graph.partGroups edge = some index.val := by
  simp [partAt, part]

theorem namespaceText_partAt :
    (graph.partAt index).namespaceText = "p" ++ (toString index.val ++ ".") :=
  String.append_assoc

/-- New nodes of a part are named apart from those of the graph. -/
theorem nodeName_ne_of_namespace {other : CodeGraph} {text : String}
    (none : graph.namespaceText = "") (named : other.namespaceText = "p" ++ text)
    (first second : Nat) : graph.nodeName first ≠ other.nodeName second := by
  intro same
  have heads := congrArg (fun name : String => name.toList.head?) same
  simp [nodeName, none, named] at heads

/-- New edges of a part are named apart from those of the graph. -/
theorem edgeName_ne_of_namespace {other : CodeGraph} {text : String}
    (none : graph.namespaceText = "") (named : other.namespaceText = "p" ++ text)
    (first second : Nat) : graph.edgeName first ≠ other.edgeName second := by
  intro same
  have heads := congrArg (fun name : String => name.toList.head?) same
  simp [edgeName, none, named] at heads

/-- An id of the form that nodes have which are made in parts. -/
def IsPartName (id : String) : Prop :=
  ∃ index number : Nat, id = (withNamespace ("p" ++ toString index ++ ".")).nodeName number

/-- What a part can still make is named in its namespace. -/
theorem isPartName_of_not_nodeSpent (unspent : ¬(graph.partAt index).NodeSpent id) :
    IsPartName id := by
  obtain ⟨number, _, made⟩ := exists_nodeName_of_not_nodeSpent unspent
  exact ⟨index.val, number, made⟩

theorem not_isPartName_nodeName (noNamespace : graph.namespaceText = "") (number : Nat) :
    ¬IsPartName (graph.nodeName number) := fun ⟨_, other, same⟩ =>
  nodeName_ne_of_namespace noNamespace String.append_assoc number other same

/-! ### The part of a node -/

namespace WellFormed

variable (wellFormed : graph.WellFormed)

include wellFormed

/-- A node is in the part of its group. -/
theorem hasNode_partAt_iff :
    (graph.partAt index).hasNode id ↔
      graph.hasNode id ∧ partOf? graph.partGroups id = some index.val := by
  rw [CodeGraph.partAt, hasNode_part_iff, wellFormed.sharing.partOf?_eq_some_iff]
  refine and_congr_right fun _ =>
    ⟨fun inGroup => ⟨_, List.getElem?_eq_getElem index.isLt, inGroup⟩, ?_⟩
  rintro ⟨group, at_, inGroup⟩
  rw [List.getElem?_eq_getElem index.isLt] at at_
  cases at_
  exact inGroup

/-- The part of a node, as an index. -/
theorem exists_index_of_partOf? {number : Nat}
    (inPart : partOf? graph.partGroups id = some number) :
    ∃ index : Fin graph.partGroups.length, number = index.val := by
  obtain ⟨group, at_, _⟩ := wellFormed.sharing.partOf?_eq_some_iff.mp inPart
  obtain ⟨bound, _⟩ := List.getElem?_eq_some_iff.mp at_
  exact ⟨⟨number, bound⟩, rfl⟩

/-- The number of a part is one of those that there are. -/
theorem exists_index_of_partOfEdge? {edge : Edge} {number : Nat}
    (inPart : partOfEdge? graph.partGroups edge = some number) :
    ∃ index : Fin graph.partGroups.length, number = index.val :=
  wellFormed.exists_index_of_partOf? (partOfEdge?_eq_some_iff.mp inPart).1

/-- Each node is in a part. -/
theorem exists_partAt (there : graph.hasNode id) :
    ∃ index : Fin graph.partGroups.length, (graph.partAt index).hasNode id := by
  obtain ⟨number, inPart⟩ := wellFormed.sharing.exists_partOf? there
  obtain ⟨index, rfl⟩ := wellFormed.exists_index_of_partOf? inPart
  exact ⟨index, wellFormed.hasNode_partAt_iff.mpr ⟨there, inPart⟩⟩

/-- Nothing is contained across parts. -/
theorem noContainment (grouping : graph.Grouping graph.partGroups) :
    ∀ edge ∈ graph.between, edge.kind ≠ .contains := by
  intro edge member contains
  obtain ⟨there, apart⟩ := List.mem_filter.mp member
  have ends := wellFormed.endpoints edge there
  have same : partOf? graph.partGroups edge.source = partOf? graph.partGroups edge.target :=
    grouping.partOf?_of_contains ⟨edge, there, contains, rfl, rfl⟩
  obtain ⟨index, inPart⟩ := wellFormed.sharing.exists_partOf? ends.1
  rw [partOfEdge?, if_pos same, inPart] at apart
  cases apart

/-- The nodes of the parts are those of the graph, as data. -/
theorem nodes_perm :
    ((List.finRange graph.partGroups.length).flatMap fun index =>
      (graph.partAt index).nodes.map Node.data).Perm (graph.nodes.map Node.data) := by
  have shown (index : Fin graph.partGroups.length) : (graph.partAt index).nodes.map Node.data =
      (graph.nodes.filter fun node => partOf? graph.partGroups node.id = some index.val).map
        Node.data := by
    rw [CodeGraph.partAt, CodeGraph.part, map_data_numbered]
    refine congrArg _ (List.filter_congr fun node member => ?_)
    have inPart : (graph.partAt index).hasNode node.id ↔ _ := wellFormed.hasNode_partAt_iff
    rw [CodeGraph.partAt, hasNode_part_iff, and_congr_right_iff] at inPart
    rw [Bool.eq_iff_iff, List.contains_iff_mem, decide_eq_true_eq]
    exact inPart (hasNode_of_mem member)
  simp only [shown, ← List.map_flatMap]
  refine List.Perm.map _ ?_
  have distinct : graph.nodes.Nodup := wellFormed.nodeIds.of_map _
  refine (List.perm_ext_iff_of_nodup ?_ distinct).mpr fun node => ?_
  · refine List.nodup_flatMap.mpr ⟨fun index _ => distinct.filter _, ?_⟩
    refine (List.nodup_finRange _).imp fun {first second} different node inFirst inSecond => ?_
    have one := of_decide_eq_true (List.mem_filter.mp inFirst).2
    have other := of_decide_eq_true (List.mem_filter.mp inSecond).2
    exact different (Fin.ext (Option.some.inj (one.symm.trans other)))
  · simp only [List.mem_flatMap, List.mem_finRange, true_and, List.mem_filter, decide_eq_true_eq]
    constructor
    · rintro ⟨_, member, _⟩
      exact member
    · intro member
      obtain ⟨index, there⟩ := wellFormed.exists_partAt (hasNode_of_mem member)
      exact ⟨index, member, (wellFormed.hasNode_partAt_iff.mp there).2⟩

/-- The edges of a graph are those of its parts and those between parts. -/
theorem edges_perm :
    ((List.finRange graph.partGroups.length).flatMap (fun index => (graph.partAt index).edges) ++
      graph.between).Perm graph.edges := by
  have distinct : graph.edges.Nodup := wellFormed.edgeIds.of_map _
  refine (List.perm_ext_iff_of_nodup ?_ distinct).mpr fun edge => ?_
  · refine List.nodup_append.mpr ⟨List.nodup_flatMap.mpr ⟨fun index _ => distinct.filter _, ?_⟩,
      distinct.filter _, ?_⟩
    · refine (List.nodup_finRange _).imp fun {first second} different edge inFirst inSecond => ?_
      have same := (mem_edges_partAt.mp inFirst).2.symm.trans (mem_edges_partAt.mp inSecond).2
      exact different (Fin.ext (Option.some.inj same))
    · intro edge inParts other between same
      obtain ⟨index, _, member⟩ := List.mem_flatMap.mp inParts
      have apart := (List.mem_filter.mp between).2
      rw [← same, (mem_edges_partAt.mp member).2] at apart
      cases apart
  · rw [List.mem_append, List.mem_flatMap]
    constructor
    · rintro (⟨index, _, member⟩ | between)
      · exact (mem_edges_partAt.mp member).1
      · exact (List.mem_filter.mp between).1
    · intro there
      cases inPart : partOfEdge? graph.partGroups edge with
      | none => exact .inr (List.mem_filter.mpr ⟨there, by rw [inPart]; rfl⟩)
      | some number =>
          obtain ⟨index, rfl⟩ := wellFormed.exists_index_of_partOfEdge? inPart
          exact .inl ⟨index, List.mem_finRange index, mem_edges_partAt.mpr ⟨there, inPart⟩⟩

end WellFormed

namespace Built

variable (built : graph.Built)

include built

theorem hasNode_partAt_iff :
    (graph.partAt index).hasNode id ↔
      graph.hasNode id ∧ partOf? graph.partGroups id = some index.val :=
  built.wellFormed.hasNode_partAt_iff

theorem exists_partAt (there : graph.hasNode id) :
    ∃ index : Fin graph.partGroups.length, (graph.partAt index).hasNode id :=
  built.wellFormed.exists_partAt there

theorem noContainment : ∀ edge ∈ graph.between, edge.kind ≠ .contains :=
  built.wellFormed.noContainment built.grouping

/-- A built graph is settled. -/
theorem settled : graph.Settled where
  nodes node member := by
    obtain ⟨number, used, named⟩ := built.nodeNames node member
    rw [named]
    exact graph.nodeSpent_nodeName used
  edges edge member := by
    obtain ⟨number, used, named⟩ := built.edgeNames edge member
    rw [named]
    exact graph.edgeSpent_edgeName used
  history entry member := by
    rw [built.noHistory] at member
    cases member
  forwarding old new forwarded := by
    rw [built.noForwarding] at forwarded
    cases forwarded

/-- No node of a built graph is named as one of a part. -/
theorem not_isPartName (there : graph.hasNode id) : ¬IsPartName id := by
  obtain ⟨node, member, rfl⟩ := List.mem_map.mp (hasNode_iff.mp there)
  obtain ⟨number, _, named⟩ := built.nodeNames node member
  exact named ▸ not_isPartName_nodeName built.noNamespace number

/-- Ids of a built graph are not made by its parts. -/
theorem nodeSpent_partAt (there : graph.hasNode id) (index : Fin graph.partGroups.length) :
    (graph.partAt index).NodeSpent id := by
  by_contra unspent
  exact built.not_isPartName there (isPartName_of_not_nodeSpent unspent)

/-- Each part of a built graph is settled. -/
theorem settled_partAt (index : Fin graph.partGroups.length) : (graph.partAt index).Settled where
  nodes node member :=
    built.nodeSpent_partAt (built.hasNode_partAt_iff.mp (hasNode_of_mem member)).1 index
  edges edge member := by
    obtain ⟨number, _, named⟩ := built.edgeNames edge (mem_edges_partAt.mp member).1
    rw [named]
    exact fun second _ => edgeName_ne_of_namespace built.noNamespace namespaceText_partAt
      number second
  history _ member := by cases member
  forwarding _ _ forwarded := by cases forwarded

/-- The territory of a part is its group. -/
theorem mem_territory_iff :
    id ∈ (graph.partAt index).ownNaming.territory ↔
      graph.hasNode id ∧ partOf? graph.partGroups id = some index.val := by
  rw [territory_ownNaming, ← hasNode_iff, built.hasNode_partAt_iff]

/-- The routes of a part are the edges within its group. -/
theorem mem_routes_iff {edge : Edge} (member : edge ∈ graph.edges) :
    edge.id ∈ (graph.partAt index).ownNaming.routes ↔
      partOfEdge? graph.partGroups edge = some index.val := by
  rw [routes_ownNaming, List.mem_map]
  constructor
  · rintro ⟨other, otherMember, same⟩
    obtain ⟨there, inPart⟩ := mem_edges_partAt.mp otherMember
    rwa [← built.wellFormed.edge_eq_of_id there member same]
  · exact fun inPart => ⟨edge, mem_edges_partAt.mpr ⟨member, inPart⟩, rfl⟩

/-- A part of a built graph mirrors it under its own ids. -/
theorem mirrors (index : Fin graph.partGroups.length) :
    Mirrors (graph.partAt index).ownNaming (graph.partAt index) graph where
  partFormed := built.wellFormed.part (List.getElem?_eq_getElem index.isLt)
  wholeFormed := built.wellFormed
  partSettled := built.settled_partAt index
  wholeSettled := built.settled
  nodes := by
    have kept : graph.nodes.filter (·.id ∈ (graph.partAt index).ownNaming.territory) =
        graph.nodes.filter fun node => graph.partGroups[index].contains node.id := by
      refine List.filter_congr fun node member => ?_
      rw [Bool.eq_iff_iff, decide_eq_true_eq, List.contains_iff_mem, territory_ownNaming,
        ← hasNode_iff, partAt, hasNode_part_iff]
      exact and_iff_right (hasNode_of_mem member)
    rw [kept]
    exact (map_data_numbered 0 _).symm
  edges := by
    have kept : graph.edges.filter (·.id ∈ (graph.partAt index).ownNaming.routes) =
        (graph.partAt index).edges := by
      refine List.filter_congr fun edge member => ?_
      rw [decide_eq_decide]
      exact built.mem_routes_iff member
    rw [kept]
    rfl
  nodesKnown _ member := List.mem_map_of_mem member
  edgesKnown _ member := List.mem_map_of_mem member
  nodesApart _ _ _ _ same := same
  edgesApart _ _ _ _ same := same
  nodesSpent id known := by
    obtain ⟨node, member, rfl⟩ := List.mem_map.mp known
    refine ⟨(built.settled_partAt index).nodes node member, ?_⟩
    obtain ⟨there, _⟩ := built.hasNode_partAt_iff.mp (hasNode_of_mem member)
    obtain ⟨other, otherMember, same⟩ := List.mem_map.mp (hasNode_iff.mp there)
    exact same ▸ built.settled.nodes other otherMember
  edgesSpent id known := by
    obtain ⟨edge, member, rfl⟩ := List.mem_map.mp known
    exact ⟨(built.settled_partAt index).edges edge member,
      built.settled.edges edge (mem_edges_partAt.mp member).1⟩
  enclosed edge member fromInside toInside := by
    rw [built.mem_territory_iff] at fromInside toInside
    exact (built.mem_routes_iff member).mpr
      (partOfEdge?_eq_some_iff.mpr ⟨fromInside.2, toInside.2⟩)
  contained edge member contains := by
    have ends := built.wellFormed.endpoints edge member
    have same : partOf? graph.partGroups edge.source = partOf? graph.partGroups edge.target :=
      built.grouping.partOf?_of_contains ⟨edge, member, contains, rfl, rfl⟩
    rw [built.mem_territory_iff, built.mem_territory_iff, same]
    exact and_congr_left fun _ => iff_of_true ends.1 ends.2

/-- **The start.** The parts of a built graph agree with it. -/
theorem accord : Accord graph.between graph.partAt (fun index => (graph.partAt index).ownNaming)
    graph.partAt graph where
  agrees := by
    refine ⟨built.wellFormed, built.mirrors, ?_, ?_, fun node member => ?_⟩
    · intro first second different id inFirst inSecond
      rw [built.mem_territory_iff] at inFirst inSecond
      rw [inFirst.2, Option.some.injEq] at inSecond
      exact different (Fin.ext inSecond.2)
    · intro first second different id inFirst inSecond
      rw [routes_ownNaming] at inFirst inSecond
      obtain ⟨edge, member, rfl⟩ := List.mem_map.mp inFirst
      obtain ⟨there, inPart⟩ := mem_edges_partAt.mp member
      rw [← routes_ownNaming, built.mem_routes_iff there, inPart, Option.some.injEq] at inSecond
      exact different (Fin.ext inSecond)
    · obtain ⟨index, there⟩ := built.exists_partAt (hasNode_of_mem member)
      exact ⟨index, built.mem_territory_iff.mpr (built.hasNode_partAt_iff.mp there)⟩
  traces index := by
    refine ⟨rfl, fun id there => ⟨hasNode_iff.mp there, rfl, id, ?_⟩,
      fun id there => ⟨hasEdge_iff.mp there, rfl⟩, fun entry member => by cases member⟩
    exact survivor?_of_hasNode there _
  joins := by
    have standsFor {id : String} (there : graph.hasNode id) : StandsFor graph.partAt
        (fun index => (graph.partAt index).ownNaming) graph.partAt id id := by
      obtain ⟨index, isThere⟩ := built.exists_partAt there
      exact ⟨index, id, isThere, survivor?_of_hasNode isThere _, rfl⟩
    refine ⟨?_, fun edge member => ?_, fun edge member => ?_, fun edge member index => ?_⟩
    · rw [built.noHistory]
      exact (Finset.sum_eq_zero fun _ _ => rfl).symm
    · have there := (List.mem_filter.mp member).1
      have ends := built.wellFormed.endpoints edge there
      exact ⟨edge, there, rfl, rfl, rfl, standsFor ends.1, standsFor ends.2⟩
    · cases inPart : partOfEdge? graph.partGroups edge with
      | none => exact .inr (List.mem_map_of_mem (List.mem_filter.mpr ⟨member, by rw [inPart]; rfl⟩))
      | some number =>
          obtain ⟨place, rfl⟩ := built.wellFormed.exists_index_of_partOfEdge? inPart
          exact .inl ⟨place, (built.mem_routes_iff member).mpr inPart⟩
    · obtain ⟨there, apart⟩ := List.mem_filter.mp member
      rw [built.mem_routes_iff there]
      intro inPart
      rw [inPart] at apart
      cases apart

end Built

end CodeGraph

end Transcode
