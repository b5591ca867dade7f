import Mathlib.Data.List.Perm.Basic
import Mathlib.Data.Set.Function
import Transcode.Proofs.Origins

/-!
# The merge of the parts

The merge of parts that agree with a whole graph is that graph up to the ids of what is new
(`Accord.exists_sameUpTo`).
-/

namespace Transcode

/-- Two graphs have the same nodes and edges up to their ids, and what both have of an original
graph has its id in both. -/
structure SameUpTo (original first second : CodeGraph) (node edge : String → String) : Prop where
  nodes : Set.BijOn node {id | first.hasNode id} {id | second.hasNode id}
  edges : Set.BijOn edge {id | first.hasEdge id} {id | second.hasEdge id}
  shown : ∀ there ∈ first.nodes, ∃ other ∈ second.nodes, other.id = node there.id ∧
    other.spec = there.spec
  linked : ∀ there ∈ first.edges, ∃ other ∈ second.edges, other.id = edge there.id ∧
    other.source = node there.source ∧ other.target = node there.target ∧
    other.kind = there.kind ∧ other.attributes = there.attributes
  keptNodes : ∀ id, original.hasNode id →
    (first.hasNode id ↔ second.hasNode id) ∧ (first.hasNode id → node id = id)
  keptEdges : ∀ id, original.hasEdge id →
    (first.hasEdge id ↔ second.hasEdge id) ∧ (first.hasEdge id → edge id = id)

/-- Things that correspond and have ids of their own can be renamed into each other. -/
theorem exists_renaming {α β : Type} {relation : α → β → Prop} {key : α → String}
    {otherKey : β → String} {items : List α} {others : List β}
    (aligned : List.Forall₂ relation items others) (distinct : (items.map key).Nodup)
    (otherDistinct : (others.map otherKey).Nodup) :
    ∃ name : String → String,
      Set.BijOn name {id | id ∈ items.map key} {id | id ∈ others.map otherKey} ∧
      List.Forall₂ (fun item other => relation item other ∧ name (key item) = otherKey other)
        items others := by
  obtain ⟨name, mapped, _⟩ := exists_extension id distinct
    (show _ = (others.map otherKey).length by
      rw [List.length_map, List.length_map, aligned.length_eq])
  refine ⟨name, ⟨?_, ?_, ?_⟩, forall₂_and aligned ?_⟩
  · intro id member
    rw [Set.mem_ofPred_eq, ← mapped]
    exact List.mem_map_of_mem member
  · intro first firstMember second secondMember same
    rw [← mapped] at otherDistinct
    exact List.inj_on_of_nodup_map otherDistinct firstMember secondMember same
  · intro id member
    rw [Set.mem_ofPred_eq, ← mapped] at member
    exact List.mem_map.mp member
  · rw [List.map_map] at mapped
    exact forall₂_iff_map_eq.mpr mapped

namespace CodeGraph

/-- The merge of a graph that was split with parts in place of its own. -/
def reunion (graph : CodeGraph) (part : Fin graph.partGroups.length → CodeGraph) : Merge :=
  graph.mergeOf ((List.finRange graph.partGroups.length).map part)

variable {graph : CodeGraph} {part : Fin graph.partGroups.length → CodeGraph} {item : PartNode}

/-- The parts of a reunion are those given for each group. -/
theorem parts_reunion_eq_some_iff {number : Nat} {there : CodeGraph} :
    (graph.reunion part).parts[number]? = some there ↔
      ∃ index : Fin graph.partGroups.length, number = index.val ∧ part index = there := by
  change ((List.finRange graph.partGroups.length).map part)[number]? = some there ↔ _
  rw [List.getElem?_map, Option.map_eq_some_iff]
  constructor
  · rintro ⟨index, at_, same⟩
    obtain ⟨bound, rfl⟩ := List.getElem?_eq_some_iff.mp at_
    exact ⟨_, by simp, same⟩
  · rintro ⟨index, rfl, same⟩
    exact ⟨index, by simp, same⟩

/-- Its nodes are the nodes of the parts with their numbers. -/
theorem mem_partNodes_reunion_iff :
    item ∈ (graph.reunion part).partNodes ↔
      ∃ index : Fin graph.partGroups.length, item.part = index.val ∧
        item.node ∈ (part index).nodes := by
  simp only [Merge.mem_partNodes_iff, parts_reunion_eq_some_iff]
  constructor
  · rintro ⟨_, ⟨index, at_, rfl⟩, member⟩
    exact ⟨index, at_, member⟩
  · rintro ⟨index, at_, member⟩
    exact ⟨_, ⟨index, at_, rfl⟩, member⟩

/-- The reunion of well-formed parts is sound. -/
theorem WellFormed.sound_reunion (wellFormed : graph.WellFormed)
    (formed : ∀ index, (part index).WellFormed) : (graph.reunion part).Sound := by
  refine ⟨wellFormed, fun there member => ?_, rfl⟩
  obtain ⟨index, _, rfl⟩ := List.mem_map.mp member
  exact formed index

end CodeGraph

/-- Each node of the parts has an id in the merged graph. -/
theorem Merge.map_fst_namedNodes_perm (merge : Merge) :
    (merge.namedNodes.map (·.1)).Perm merge.partNodes := by
  have olds : (merge.oldNodes.map fun item => (item, item.node.id)).map (·.1) = merge.oldNodes := by
    rw [List.map_map]
    exact List.map_id _
  have complement : (fun item : PartNode => (merge.oldSeq? item).isNone) =
      fun item => !(merge.oldSeq? item).isSome := by
    funext item
    cases merge.oldSeq? item <;> rfl
  rw [namedNodes, List.map_append, olds, map_fst_nameNew, newNodes, complement]
  exact (merge.oldNodes_perm.append_right _).trans (List.filter_append_perm ..)

/-- The merged graph has the nodes that were given names. -/
theorem Merge.hasNode_result_iff {merge : Merge} {id : String} :
    merge.result.hasNode id ↔ id ∈ merge.namedNodes.map (·.2) := by
  rw [CodeGraph.hasNode_iff, result, CodeGraph.map_id_numbered, List.map_map]
  rfl

/-- A node of a merged graph has the id of a node of the whole graph, or a fresh one. -/
theorem Merge.hasNode_or_gives {merge : Merge} {id : String} (there : merge.result.hasNode id) :
    merge.whole.hasNode id ∨ merge.nodeIds.Gives id := by
  obtain ⟨entry, member, rfl⟩ := List.mem_map.mp (Merge.hasNode_result_iff.mp there)
  rcases List.mem_append.mp member with old | new
  · obtain ⟨item, isOld, rfl⟩ := List.mem_map.mp old
    exact .inl (Merge.mem_oldNodes_iff.mp isOld).2.2
  · exact .inr (Merge.gives_of_mem_nameNew new)

namespace Accord

variable {graph : CodeGraph} {naming : Fin graph.partGroups.length → Naming}
  {part : Fin graph.partGroups.length → CodeGraph} {whole : CodeGraph} (built : graph.Built)
  (accord : Accord graph.between graph.partAt naming part whole)

include built accord

theorem sound_reunion : (graph.reunion part).Sound :=
  built.wellFormed.sound_reunion fun index => (accord.agrees.mirrors index).partFormed

/-! ### Nodes -/

omit built in
/-- A node of a part is told by what it is called in the whole graph. -/
theorem eq_of_named {first second : Fin graph.partGroups.length} {one other : String}
    (oneKnown : one ∈ (naming first).nodeIds) (otherKnown : other ∈ (naming second).nodeIds)
    (same : (naming first).node one = (naming second).node other) :
    first = second ∧ one = other := by
  have agrees := accord.agrees
  have samePart : first = second := by
    by_contra different
    exact agrees.apart first second different (List.mem_map_of_mem oneKnown)
      (same ▸ List.mem_map_of_mem otherKnown)
  subst samePart
  exact ⟨rfl, (agrees.mirrors first).nodesApart one oneKnown other otherKnown same⟩

/-- The nodes of the whole graph for those of the merged graph. -/
theorem exists_wholeNodes :
    ∃ nodes : List Node, (∀ node, node ∈ nodes ↔ node ∈ whole.nodes) ∧ (nodes.map (·.id)).Nodup ∧
      List.Forall₂ (fun node (entry : PartNode × String) => ∃ index, entry.1.part = index.val ∧
        entry.1.node ∈ (part index).nodes ∧ node.data = (naming index).nodeData entry.1.node)
        nodes (graph.reunion part).namedNodes := by
  have perm := (graph.reunion part).map_fst_namedNodes_perm
  have sound := accord.sound_reunion built
  have agrees := accord.agrees
  obtain ⟨nodes, aligned⟩ : ∃ nodes : List Node, List.Forall₂
      (fun (entry : PartNode × String) node => node ∈ whole.nodes ∧ ∃ index,
        entry.1.part = index.val ∧ entry.1.node ∈ (part index).nodes ∧
          node.data = (naming index).nodeData entry.1.node)
      (graph.reunion part).namedNodes nodes := by
    refine exists_forall₂ fun entry member => ?_
    obtain ⟨index, at_, there⟩ := CodeGraph.mem_partNodes_reunion_iff.mp
      (perm.mem_iff.mp (List.mem_map_of_mem member))
    obtain ⟨node, nodeMember, same⟩ := (agrees.mirrors index).exists_shown there
    exact ⟨node, nodeMember, index, at_, there, same⟩
  refine ⟨nodes, fun node => ⟨fun member => ?_, fun member => ?_⟩, ?_,
    aligned.flip.imp fun _ _ related => related.2⟩
  · obtain ⟨_, _, there, _⟩ := exists_left_of_forall₂ aligned node member
    exact there
  · obtain ⟨index, inside⟩ := agrees.cover node member
    obtain ⟨own, ownMember, same⟩ := (agrees.mirrors index).exists_shows member inside
    have listed : (⟨index.val, own⟩ : PartNode) ∈ (graph.reunion part).namedNodes.map (·.1) :=
      perm.mem_iff.mpr (CodeGraph.mem_partNodes_reunion_iff.mpr ⟨index, rfl, ownMember⟩)
    obtain ⟨entry, entryMember, isOwn⟩ := List.mem_map.mp listed
    obtain ⟨other, otherMember, there, place, at_, _, shown⟩ :=
      exists_left_of_forall₂ aligned.flip entry entryMember
    rw [isOwn] at at_ shown
    obtain rfl : place = index := Fin.ext at_.symm
    have sameId : other.id = node.id := congrArg NodeData.id (shown.trans same.symm)
    rwa [agrees.formed.eq_of_id member there sameId.symm]
  · refine nodup_map_of_forall₂ aligned (perm.nodup_iff.mpr sound.nodup_partNodes)
      fun first firstMember another anotherMember second other related otherRelated same => ?_
    obtain ⟨_, index, at_, there, shown⟩ := related
    obtain ⟨_, place, placeAt, placeThere, placeShown⟩ := otherRelated
    have sameName : (naming index).node first.1.node.id = (naming place).node another.1.node.id :=
      (congrArg NodeData.id shown).symm.trans (same.trans (congrArg NodeData.id placeShown))
    obtain ⟨rfl, sameId⟩ := accord.eq_of_named ((agrees.mirrors index).nodesKnown _ there)
      ((agrees.mirrors place).nodesKnown _ placeThere) sameName
    exact sound.eq_of_part_of_id (perm.mem_iff.mp (List.mem_map_of_mem firstMember))
      (perm.mem_iff.mp (List.mem_map_of_mem anotherMember)) (at_.trans placeAt.symm) sameId

end Accord

/-- A map from the ids of the whole graph to those of the merged graph. -/
structure NamesNodes (graph : CodeGraph) (naming : Fin graph.partGroups.length → Naming)
    (part : Fin graph.partGroups.length → CodeGraph) (whole : CodeGraph) (name : String → String) :
    Prop where
  bijection : Set.BijOn name {id | whole.hasNode id} {id | (graph.reunion part).result.hasNode id}
  named : ∀ entry ∈ (graph.reunion part).namedNodes, ∀ index, entry.1.part = index.val →
    entry.2 = name ((naming index).node entry.1.node.id)

namespace Accord

variable {graph : CodeGraph} {naming : Fin graph.partGroups.length → Naming}
  {part : Fin graph.partGroups.length → CodeGraph} {whole : CodeGraph} (built : graph.Built)
  (accord : Accord graph.between graph.partAt naming part whole)

include built accord

/-- Some naming leads the nodes of the transformed graph to those of the reunion. -/
theorem exists_namesNodes : ∃ name, NamesNodes graph naming part whole name := by
  obtain ⟨nodes, same, distinct, aligned⟩ := accord.exists_wholeNodes built
  obtain ⟨name, bijection, named⟩ := exists_renaming aligned distinct
    (accord.sound_reunion built).nodup_namedNodes
  have ids (id : String) : id ∈ nodes.map (·.id) ↔ whole.hasNode id := by
    rw [CodeGraph.hasNode_iff, List.mem_map, List.mem_map]
    simp only [same]
  refine ⟨name, ?_, fun entry member index at_ => ?_⟩
  · simpa only [Merge.hasNode_result_iff, ids] using bijection
  · obtain ⟨node, _, ⟨place, placeAt, _, shown⟩, new⟩ := exists_left_of_forall₂ named entry member
    obtain rfl : place = index := Fin.ext (placeAt.symm.trans at_)
    rw [← new, show node.id = _ from congrArg NodeData.id shown]
    rfl

end Accord

namespace NamesNodes

variable {graph : CodeGraph} {naming : Fin graph.partGroups.length → Naming}
  {part : Fin graph.partGroups.length → CodeGraph} {whole : CodeGraph} {name : String → String}
  (names : NamesNodes graph naming part whole name)

include names

/-- What a node of a part is called in the merged graph. -/
theorem renamed?_eq (index : Fin graph.partGroups.length) (id : String) :
    Merge.renamed? (graph.reunion part).namedNodes index.val id =
      if (part index).hasNode id then some (name ((naming index).node id)) else none := by
  have perm := (graph.reunion part).map_fst_namedNodes_perm
  unfold Merge.renamed?
  cases found : (graph.reunion part).namedNodes.find?
      fun entry => entry.1.part = index.val && entry.1.node.id = id with
  | none =>
      rw [if_neg]
      · rfl
      · intro there
        obtain ⟨node, member, rfl⟩ := List.mem_map.mp (CodeGraph.hasNode_iff.mp there)
        have listed : (⟨index.val, node⟩ : PartNode) ∈
            (graph.reunion part).namedNodes.map (·.1) :=
          perm.mem_iff.mpr (CodeGraph.mem_partNodes_reunion_iff.mpr ⟨index, rfl, member⟩)
        obtain ⟨entry, entryMember, isOwn⟩ := List.mem_map.mp listed
        have absent := List.find?_eq_none.mp found entry entryMember
        rw [isOwn] at absent
        simp at absent
  | some entry =>
      have member := List.mem_of_find?_eq_some found
      have isOwn := List.find?_some found
      rw [Bool.and_eq_true, decide_eq_true_eq, decide_eq_true_eq] at isOwn
      obtain ⟨place, at_, there⟩ := CodeGraph.mem_partNodes_reunion_iff.mp
        (perm.mem_iff.mp (List.mem_map_of_mem member))
      obtain rfl : place = index := Fin.ext (at_.symm.trans isOwn.1)
      have isThere := CodeGraph.hasNode_of_mem there
      rw [isOwn.2] at isThere
      rw [if_pos isThere, Option.map_some, names.named entry member place isOwn.1, isOwn.2]

/-- A node of a part is given the name of its counterpart. -/
theorem renamed?_of_hasNode {index : Fin graph.partGroups.length} {id : String}
    (there : (part index).hasNode id) :
    Merge.renamed? (graph.reunion part).namedNodes index.val id =
      some (name ((naming index).node id)) := by
  rw [names.renamed?_eq, if_pos there]

section Accord

variable (built : graph.Built) (accord : Accord graph.between graph.partAt naming part whole)

include built accord

omit built in
/-- A node of the whole graph is one of the merged graph. -/
theorem exists_shown {node : Node} (member : node ∈ whole.nodes) :
    ∃ other ∈ (graph.reunion part).result.nodes, other.id = name node.id ∧
      other.spec = node.spec := by
  have perm := (graph.reunion part).map_fst_namedNodes_perm
  obtain ⟨index, inside⟩ := accord.agrees.cover node member
  obtain ⟨own, ownMember, same⟩ := (accord.agrees.mirrors index).exists_shows member inside
  have listed : (⟨index.val, own⟩ : PartNode) ∈ (graph.reunion part).namedNodes.map (·.1) :=
    perm.mem_iff.mpr (CodeGraph.mem_partNodes_reunion_iff.mpr ⟨index, rfl, ownMember⟩)
  obtain ⟨⟨_, id⟩, entryMember, rfl⟩ := List.mem_map.mp listed
  have data : (⟨id, own.label, own.kind, own.attributes⟩ : NodeData) ∈
      (graph.reunion part).result.nodes.map Node.data := by
    rw [Merge.result, CodeGraph.map_data_numbered]
    exact List.mem_map.mpr ⟨_, entryMember, rfl⟩
  obtain ⟨other, otherMember, shown⟩ := List.mem_map.mp data
  obtain ⟨sameId, label, kind, attributes⟩ := NodeData.mk.inj shown
  refine ⟨other, otherMember, ?_, ?_⟩
  · rw [sameId, show node.id = _ from congrArg NodeData.id same]
    exact names.named _ entryMember index rfl
  · rw [Naming.spec_of_data same]
    exact NodeSpec.mk.injEq .. ▸ ⟨kind, label, attributes⟩

/-- Original nodes keep their ids. -/
theorem kept {id : String} (original : graph.hasNode id) :
    (whole.hasNode id ↔ (graph.reunion part).result.hasNode id) ∧
      (whole.hasNode id → name id = id) := by
  obtain ⟨index, inPart⟩ := built.exists_partAt original
  obtain ⟨known, called, _⟩ := (accord.traces index).nodes id inPart
  have partOf := (built.hasNode_partAt_iff.mp inPart).2
  have perm := (graph.reunion part).map_fst_namedNodes_perm
  have inWhole : whole.hasNode id ↔ (part index).hasNode id := by
    have same := (accord.agrees.mirrors index).hasNode_iff known
    rwa [called] at same
  have oldEntry (there : (part index).hasNode id) :
      ∃ entry ∈ (graph.reunion part).namedNodes, entry.1.part = index.val ∧
        entry.1.node.id = id ∧ entry.2 = id := by
    obtain ⟨node, member, rfl⟩ := List.mem_map.mp (CodeGraph.hasNode_iff.mp there)
    refine ⟨(⟨index.val, node⟩, node.id), List.mem_append_left _ (List.mem_map.mpr
      ⟨⟨index.val, node⟩, Merge.mem_oldNodes_iff.mpr ⟨?_, partOf, original⟩, rfl⟩), rfl, rfl, rfl⟩
    exact CodeGraph.mem_partNodes_reunion_iff.mpr ⟨index, rfl, member⟩
  have inMerged : (graph.reunion part).result.hasNode id ↔ (part index).hasNode id := by
    rw [Merge.hasNode_result_iff]
    refine ⟨fun listed => ?_, fun there => ?_⟩
    · obtain ⟨entry, member, same⟩ := List.mem_map.mp listed
      rcases List.mem_append.mp member with old | new
      · obtain ⟨item, isOld, rfl⟩ := List.mem_map.mp old
        obtain ⟨itemMember, itemPart, _⟩ := Merge.mem_oldNodes_iff.mp isOld
        obtain ⟨place, at_, there⟩ := CodeGraph.mem_partNodes_reunion_iff.mp itemMember
        change item.node.id = id at same
        change partOf? graph.partGroups item.node.id = some item.part at itemPart
        rw [same, partOf, Option.some.injEq] at itemPart
        obtain rfl : place = index := Fin.ext (at_.symm.trans itemPart.symm)
        exact same ▸ CodeGraph.hasNode_of_mem there
      · have unused := (Merge.gives_of_mem_nameNew new).1
        rw [same] at unused
        exact absurd (List.mem_append_left _ (CodeGraph.hasNode_iff.mp original)) unused
    · obtain ⟨entry, member, _, _, same⟩ := oldEntry there
      exact same ▸ List.mem_map_of_mem member
  refine ⟨inWhole.trans inMerged.symm, fun there => ?_⟩
  obtain ⟨entry, member, at_, isId, same⟩ := oldEntry (inWhole.mp there)
  have named := names.named entry member index at_
  rwa [isId, called, same, eq_comm] at named

end Accord

end NamesNodes

end Transcode
