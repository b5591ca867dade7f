import Transcode.Proofs.Regrafting
import Transcode.Proofs.Rehousing
import Transcode.Proofs.Renaming
import Transcode.Proofs.Reload

/-!
# Loops across splits, merges and loading

The parts of a forest are rehoused in it, since nothing is contained across parts
(`CodeGraph.WellFormed.rehouses_partAt`), and a merge rehouses its parts under the names that it
gives (`CodeGraph.WellFormed.rehouses_reunion`). A graph that is written and loaded changes its
numbers only (`Relocated.rehouses`). So bodies stand for their loops in all of these if they do so
in one.
-/

namespace Transcode

/-- A node with the same specification resembles the other. -/
theorem Node.Resembles.of_spec {node other : Node} (same : other.spec = node.spec) :
    node.Resembles other := by
  obtain ⟨kind, -, attributes⟩ := NodeSpec.mk.inj same
  exact ⟨congrArg NodeKind.isLoop kind, congrArg (Dict.get? · "body") attributes,
    congrArg (Dict.get? · "slot") attributes⟩

/-! ### Loading -/

namespace Relocated

variable {first second : CodeGraph} {place edgePlace : Nat → Nat}
  (relocated : Relocated first place edgePlace second)

include relocated

theorem containments_eq : second.containments = first.containments := by
  rw [CodeGraph.containments, relocated.edges, List.filterMap_map]
  rfl

theorem contains_iff {owner child : String} :
    second.Contains owner child ↔ first.Contains owner child := by
  rw [← CodeGraph.mem_containments_iff, relocated.containments_eq, CodeGraph.mem_containments_iff]

/-- A resettled forest is a forest. -/
theorem forest (formed : first.WellFormed) (afterFormed : second.WellFormed)
    (forest : first.Forest) : second.Forest := by
  rw [afterFormed.forest_iff, relocated.containments_eq]
  exact formed.forest_iff.mp forest

/-- Other numbers leave every node with its body, its slot and its loops. -/
theorem rehouses : first.Rehouses id second where
  shown node member := by
    refine ⟨node.placed place, ?_, rfl, .of_spec rfl⟩
    rw [relocated.nodes]
    exact List.mem_map_of_mem member
  apart _ _ _ _ same := same
  held _ _ _ _ contains := relocated.contains_iff.mpr contains
  only _ _ child contains := ⟨child, relocated.contains_iff.mp contains, rfl⟩

end Relocated

namespace CodeGraph

variable {graph : CodeGraph} {part : Fin graph.partGroups.length → CodeGraph}

/-- **Loading** a graph that was written leaves its bodies standing for their loops. -/
theorem Housed.reloaded (housed : graph.Housed) (formed : graph.reloaded.WellFormed) :
    graph.reloaded.Housed := by
  obtain ⟨place, edgePlace, relocated⟩ := housed.wellFormed.relocated
  refine .of_rehouses (fun _ : Unit => housed) (fun _ => relocated.rehouses) formed
    (relocated.forest housed.wellFormed formed housed.forest) fun node member => ⟨(), ?_⟩
  rw [relocated.nodes] at member
  obtain ⟨earlier, there, rfl⟩ := List.mem_map.mp member
  exact ⟨earlier, there, rfl⟩

/-! ### Splitting -/

/-- The nodes of a part are nodes of the graph with other numbers. -/
theorem exists_of_mem_partAt {index : Fin graph.partGroups.length} {node : Node}
    (member : node ∈ (graph.partAt index).nodes) :
    ∃ other ∈ graph.nodes, other.id = node.id ∧ other.spec = node.spec := by
  have listed : node.data ∈ (graph.partAt index).nodes.map Node.data := List.mem_map_of_mem member
  rw [CodeGraph.partAt, CodeGraph.part, map_data_numbered] at listed
  obtain ⟨other, otherMember, same⟩ := List.mem_map.mp listed
  obtain ⟨named, label, kind, attributes⟩ := NodeData.mk.inj same
  refine ⟨other, (List.mem_filter.mp otherMember).1, named, ?_⟩
  rw [Node.spec, Node.spec, label, kind, attributes]

/-- What a node contains in a part it contains in the graph. -/
theorem contains_of_partAt {index : Fin graph.partGroups.length} {owner child : String}
    (contains : (graph.partAt index).Contains owner child) : graph.Contains owner child :=
  contains_of_subset (fun _ member => (mem_edges_partAt.mp member).1) contains

/-- A part keeps what it contains where it is. -/
theorem WellFormed.rehouses_partAt (wellFormed : graph.WellFormed)
    (oneContainer : graph.OneContainer)
    (index : Fin graph.partGroups.length) : (graph.partAt index).Rehouses id graph where
  shown node member := by
    obtain ⟨other, there, named, same⟩ := exists_of_mem_partAt member
    exact ⟨other, there, named, .of_spec same⟩
  apart _ _ _ _ same := same
  held _ _ _ _ contains := contains_of_partAt contains
  only owner there child contains := by
    have grouping := wellFormed.grouping oneContainer
    have inPart := (wellFormed.hasNode_partAt_iff.mp there).2
    have same := grouping.partOf?_of_contains contains
    obtain ⟨edge, leads⟩ := contains
    refine ⟨child, ⟨edge, mem_edges_partAt.mpr ⟨leads.member, ?_⟩, leads.kind, leads.source,
      leads.target⟩, rfl⟩
    rw [partOfEdge?_eq_some_iff, leads.source, leads.target]
    exact ⟨inPart, same ▸ inPart⟩

/-- **Splitting** leaves the bodies standing for their loops. -/
theorem Housed.partAt (housed : graph.Housed) (index : Fin graph.partGroups.length) :
    (graph.partAt index).Housed where
  wellFormed := housed.wellFormed.partAt index
  forest := housed.forest.partAt index
  placed node member := by
    have rehouses := housed.wellFormed.rehouses_partAt housed.forest.oneContainer index
    obtain ⟨other, there, named, _⟩ := rehouses.shown node member
    exact (rehouses.placesLoops_iff (housed.wellFormed.partAt index) (housed.forest.partAt index)
      housed.wellFormed housed.forest member there named).mp (housed.placed other there)

/-! ### Merging -/

section Merging

variable (wellFormed : graph.WellFormed) (formed : ∀ index, (part index).WellFormed)

include wellFormed formed

/-- A node of a part is called something in the merged graph. -/
theorem WellFormed.exists_calls_reunion {index : Fin graph.partGroups.length} {node : Node}
    (member : node ∈ (part index).nodes) : ∃ called, (graph.reunion part).Calls index node called ∧
      called.id = graph.nameInReunion part (index, node.id) := by
  have sound := wellFormed.sound_reunion formed
  obtain ⟨before, called, calls, same, named⟩ := sound.renamed?_eq_some_iff.mp
    (wellFormed.renamed?_reunion formed (hasNode_of_mem member))
  have there := calls.mem_nodes (parts_reunion_eq_some_iff.mpr ⟨index, rfl, rfl⟩)
  obtain rfl := (formed index).eq_of_id there member same
  exact ⟨called, calls, named⟩

/-- The merge keeps what the parts contain, under the names that it gives. -/
theorem WellFormed.rehouses_reunion
    (noContainment : ∀ edge ∈ graph.between, edge.kind ≠ .contains)
    (index : Fin graph.partGroups.length) : (part index).Rehouses
      (fun id => graph.nameInReunion part (index, id)) (graph.reunion part).result where
  shown node member := by
    obtain ⟨called, calls, named⟩ := wellFormed.exists_calls_reunion formed member
    exact ⟨called, calls.there, named, .of_spec calls.spec⟩
  apart _ firstThere _ secondThere same :=
    (wellFormed.eq_of_nameInReunion formed firstThere secondThere same).2
  held loop member _ owner contains := by
    have sound := wellFormed.sound_reunion formed
    obtain ⟨holder, holderMember, rfl⟩ :=
      List.mem_map.mp (hasNode_iff.mp ((formed index).hasNode_of_contains contains).1)
    obtain ⟨called, calls, named⟩ := wellFormed.exists_calls_reunion formed holderMember
    obtain ⟨inner, innerCalls, innerNamed⟩ := wellFormed.exists_calls_reunion formed member
    obtain ⟨other, otherCalls, contained⟩ := sound.exists_contains
      (parts_reunion_eq_some_iff.mpr ⟨index, rfl, rfl⟩) calls member contains
    rwa [← sound.calls_eq innerCalls otherCalls, named, innerNamed] at contained
  only owner there child contains := by
    have sound := wellFormed.sound_reunion formed
    obtain ⟨holder, holderMember, rfl⟩ := List.mem_map.mp (hasNode_iff.mp there)
    obtain ⟨called, calls, named⟩ := wellFormed.exists_calls_reunion formed holderMember
    obtain ⟨inner, innerThere, rfl⟩ :=
      List.mem_map.mp (hasNode_iff.mp (sound.formed.hasNode_of_contains contains).2)
    rw [← named] at contains
    obtain ⟨number, there, before, innerBefore, at_, otherCalls, innerCalls, contained⟩ :=
      sound.exists_contains_part noContainment calls.there innerThere contains
    obtain ⟨rfl, rfl⟩ := sound.eq_of_calls calls otherCalls
    obtain ⟨same, sameIndex, rfl⟩ := parts_reunion_eq_some_iff.mp at_
    obtain rfl : index = same := Fin.ext sameIndex
    obtain ⟨again, againCalls, againNamed⟩ :=
      wellFormed.exists_calls_reunion formed (innerCalls.mem_nodes at_)
    refine ⟨innerBefore.id, contained, ?_⟩
    rw [← againNamed, sound.calls_eq againCalls innerCalls]

/-- Every node of the merged graph is one of a part. -/
theorem WellFormed.exists_part_of_reunion {node : Node}
    (member : node ∈ (graph.reunion part).result.nodes) :
    ∃ index, ∃ earlier ∈ (part index).nodes,
      node.id = graph.nameInReunion part (index, earlier.id) := by
  obtain ⟨⟨⟨number, earlier⟩, _⟩, named, same⟩ := List.mem_map.mp
    (Merge.hasNode_result_iff.mp (hasNode_of_mem member))
  obtain ⟨called, calls, isCalled⟩ := Merge.exists_calls_of_named named
  obtain ⟨there, at_, earlierMember⟩ := calls.exists_part
  obtain ⟨index, rfl, rfl⟩ := parts_reunion_eq_some_iff.mp at_
  obtain ⟨again, againCalls, againNamed⟩ := wellFormed.exists_calls_reunion formed earlierMember
  refine ⟨index, earlier, earlierMember, ?_⟩
  rw [← againNamed, (wellFormed.sound_reunion formed).calls_eq againCalls calls, isCalled]
  exact same.symm

end Merging

/-- **The merge** of parts whose bodies stand for their loops is such a graph. -/
theorem WellFormed.housed_reunion (wellFormed : graph.WellFormed)
    (noContainment : ∀ edge ∈ graph.between, edge.kind ≠ .contains)
    (housed : ∀ index, (part index).Housed) : (graph.reunion part).result.Housed := by
  have formed (index : Fin graph.partGroups.length) := (housed index).wellFormed
  exact .of_rehouses housed (wellFormed.rehouses_reunion formed noContainment)
    (wellFormed.sound_reunion formed).formed
    (wellFormed.forest_reunion noContainment formed fun index => (housed index).forest)
    fun node => wellFormed.exists_part_of_reunion formed

/-! ### Transforming -/

/-- **Transforming** by valid rules that keep loops, as a whole or in parts, leaves the bodies
standing for their loops. -/
theorem Housed.exists_transform (housed : graph.Housed) {rules : List Rule}
    (valid : ∀ rule ∈ rules, rule.Valid) (keeps : ∀ rule ∈ rules, rule.KeepsLoops)
    (separate : rules.any (·.crossDeclaration) = false) (mode : RunMode) :
    (∃ result, transform graph rules mode = .ok result ∧ result.graph.Housed) ∧
      ∃ result, transformApart graph rules mode = .ok result ∧ result.graph.Housed := by
  have wellFormed := housed.wellFormed
  obtain ⟨⟨whole, ran, last⟩, apart, apartRan, apartLast⟩ :=
    exists_transform_stage valid wellFormed separate mode
  refine ⟨⟨whole, ran, last ▸ housed.stage valid keeps mode.passes⟩, apart, apartRan, ?_⟩
  rw [apartLast]
  have grouping := wellFormed.grouping housed.forest.oneContainer
  exact wellFormed.housed_reunion (wellFormed.noContainment grouping)
    fun index => (housed.partAt index).stage valid keeps mode.passes

end CodeGraph

end Transcode
