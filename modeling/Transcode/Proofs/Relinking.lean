import Transcode.Proofs.Reunion

/-!
# The edges of the merged graph

An edge of the whole graph is planned for the merged graph from the edge of the part that it is in,
or from the edge between parts that it was. So the edges of both correspond
(`NamesNodes.exists_wholeEdges`).
-/

namespace Transcode

/-- A planned edge is for an edge of the whole graph. -/
structure Plans (graph : CodeGraph) (name : String → String) (edge : Edge) (plan : PlannedEdge) :
    Prop where
  source : plan.source = name edge.source
  target : plan.target = name edge.target
  kind : plan.kind = edge.kind
  attributes : plan.attributes = edge.attributes
  id : plan.id = some edge.id ∨ plan.id = none ∧ ¬ graph.hasEdge edge.id

/-- An edge of the merged graph is for an edge of the whole graph. -/
structure Realizes (graph : CodeGraph) (name : String → String) (edge other : Edge) : Prop where
  source : other.source = name edge.source
  target : other.target = name edge.target
  kind : other.kind = edge.kind
  attributes : other.attributes = edge.attributes
  id : other.id = edge.id ∨ ¬ graph.hasEdge other.id ∧ ¬ graph.hasEdge edge.id

/-- Numbered edges realize the edges their plans are for. -/
theorem forall₂_edgesFrom {graph : CodeGraph} {name : String → String} {edges : List Edge}
    {planned : List PlannedEdge} {ids : IdSource} {seq : Nat}
    (aligned : List.Forall₂ (Plans graph name) edges planned)
    (taken : ids.taken = graph.edges.map (·.id)) :
    List.Forall₂ (Realizes graph name) edges (Merge.edgesFrom ids seq planned) := by
  induction aligned generalizing ids seq with
  | nil => exact .nil
  | @cons edge plan _ _ here _ ih =>
      unfold Merge.edgesFrom Merge.idOf
      rcases here.id with known | ⟨new, notOriginal⟩
      · rw [known]
        exact .cons ⟨here.source, here.target, here.kind, here.attributes, .inl rfl⟩ (ih taken)
      · rw [new]
        have unused := ids.gives_fresh.1
        rw [taken, ← CodeGraph.hasEdge_iff] at unused
        exact .cons ⟨here.source, here.target, here.kind, here.attributes,
          .inr ⟨unused, notOriginal⟩⟩ (ih taken)

/-- An edge of a part is old if the part had it from the start. -/
theorem CodeGraph.WellFormed.isOldEdge_iff {graph : CodeGraph} (wellFormed : graph.WellFormed)
    {part : Fin graph.partGroups.length → CodeGraph} {index : Fin graph.partGroups.length}
    {edge : Edge} :
    (graph.reunion part).isOldEdge index.val edge ↔ (graph.partAt index).hasEdge edge.id := by
  rw [CodeGraph.hasEdge_iff, List.mem_map]
  simp only [CodeGraph.mem_edges_partAt]
  constructor
  · intro isOld
    obtain ⟨old, found, inPart⟩ := (Option.any_eq_true ..).mp isOld
    obtain ⟨member, same⟩ := wellFormed.edge?_eq_some_iff.mp found
    exact ⟨old, ⟨member, of_decide_eq_true inPart⟩, same⟩
  · rintro ⟨old, ⟨member, inPart⟩, same⟩
    exact (Option.any_eq_true ..).mpr
      ⟨old, wellFormed.edge?_eq_some_iff.mpr ⟨member, same⟩, decide_eq_true inPart⟩

namespace Accord

variable {graph : CodeGraph} {naming : Fin graph.partGroups.length → Naming}
  {part : Fin graph.partGroups.length → CodeGraph} {whole : CodeGraph} (built : graph.Built)
  (accord : Accord graph.between graph.partAt naming part whole)

include built accord

/-- The id that an edge of a part keeps is its id in the whole graph. An edge that is new in a part
is new in the whole graph. -/
theorem planned_id {index : Fin graph.partGroups.length} {edge : Edge}
    (member : edge ∈ (part index).edges) :
    (if (graph.reunion part).isOldEdge index.val edge then some edge.id else none) =
        some ((naming index).edge edge.id) ∨
      (if (graph.reunion part).isOldEdge index.val edge then some edge.id else none) = none ∧
        ¬ graph.hasEdge ((naming index).edge edge.id) := by
  have mirrors := accord.agrees.mirrors index
  have known := mirrors.edgesKnown edge member
  have routed : (naming index).edge edge.id ∈ (naming index).routes := List.mem_map_of_mem known
  split
  · rename_i isOld
    left
    rw [((accord.traces index).edges _ ((built.wellFormed.isOldEdge_iff).mp isOld)).2]
  · rename_i isNew
    refine .inr ⟨rfl, fun original => isNew ((built.wellFormed.isOldEdge_iff).mpr ?_)⟩
    obtain ⟨old, oldMember, same⟩ := List.mem_map.mp (CodeGraph.hasEdge_iff.mp original)
    cases inPart : partOfEdge? graph.partGroups old with
    | none =>
        have apart : old ∈ graph.between := List.mem_filter.mpr ⟨oldMember, by rw [inPart]; rfl⟩
        exact absurd (same ▸ routed) (accord.joins.unrouted old apart index)
    | some number =>
        obtain ⟨place, rfl⟩ := built.wellFormed.exists_index_of_partOfEdge? inPart
        have there : (graph.partAt place).hasEdge old.id := CodeGraph.hasEdge_iff.mpr
          (List.mem_map_of_mem (CodeGraph.mem_edges_partAt.mpr ⟨oldMember, inPart⟩))
        obtain ⟨oldKnown, oldNamed⟩ := (accord.traces place).edges _ there
        have oldRouted : old.id ∈ (naming place).routes := oldNamed ▸ List.mem_map_of_mem oldKnown
        obtain rfl : place = index := by
          by_contra different
          exact accord.agrees.routesApart place index different oldRouted (same ▸ routed)
        rwa [← mirrors.edgesApart _ oldKnown _ known (oldNamed.trans same)]

end Accord

/-- The edges planned in a reunion are planned part by part. -/
theorem CodeGraph.plannedInParts_reunion {graph : CodeGraph}
    {part : Fin graph.partGroups.length → CodeGraph} (named : List (PartNode × String)) :
    (graph.reunion part).plannedInParts named =
      (List.finRange graph.partGroups.length).flatMap fun index =>
        (part index).edges.filterMap ((graph.reunion part).planned? named index.val) := by
  rw [Merge.plannedInParts, show (graph.reunion part).parts =
    (List.finRange graph.partGroups.length).map part from rfl, zipIdx_map_finRange,
    List.flatMap_map]

namespace NamesNodes

variable {graph : CodeGraph} {naming : Fin graph.partGroups.length → Naming}
  {part : Fin graph.partGroups.length → CodeGraph} {whole : CodeGraph} {name : String → String}
  (names : NamesNodes graph naming part whole name) (built : graph.Built)
  (accord : Accord graph.between graph.partAt naming part whole)

include names built

/-- What the merge resolves an original node to stands for it in the whole graph. -/
theorem resolved?_of_standsFor {id other : String}
    (stands : StandsFor graph.partAt naming part id other) :
    (graph.reunion part).resolved? (graph.reunion part).namedNodes id = some (name other) := by
  obtain ⟨index, place, original, resolved, rfl⟩ := stands
  have inPart : partOf? (graph.reunion part).groups id = some index.val :=
    (built.hasNode_partAt_iff.mp original).2
  have at_ : (graph.reunion part).parts[index.val]? = some (part index) :=
    CodeGraph.parts_reunion_eq_some_iff.mpr ⟨index, rfl, rfl⟩
  have renamed := names.renamed?_of_hasNode (CodeGraph.hasNode_of_resolved? resolved)
  simp only [Merge.resolved?, Option.bind_eq_bind, inPart, Option.bind_some, at_, resolved, renamed]

include accord

/-- The edges of a part are planned for those of the whole graph in its territory. -/
theorem plans_inPart (index : Fin graph.partGroups.length) :
    List.Forall₂ (Plans graph name) (whole.edges.filter (·.id ∈ (naming index).routes))
      ((part index).edges.filterMap
        ((graph.reunion part).planned? (graph.reunion part).namedNodes index.val)) := by
  have mirrors := accord.agrees.mirrors index
  refine forall₂_filterMap (forall₂_iff_map_eq.mpr mirrors.edges) fun own member edge same => ?_
  obtain ⟨id, source, target, kind, attributes⟩ := EdgeData.mk.inj same
  obtain ⟨sourceThere, targetThere⟩ := mirrors.partFormed.endpoints own member
  refine ⟨_, Merge.planned?_eq_some_iff.mpr
    ⟨_, _, names.renamed?_of_hasNode sourceThere, names.renamed?_of_hasNode targetThere, rfl⟩, ?_⟩
  have keeps := accord.planned_id built member
  rw [← id] at keeps
  exact ⟨congrArg name source.symm, congrArg name target.symm, kind.symm, attributes.symm, keeps⟩

/-- The edges of the whole graph, in the order in which they are planned for the merged graph. -/
theorem exists_plans :
    ∃ edges : List Edge, (∀ edge, edge ∈ edges ↔ edge ∈ whole.edges) ∧
      (edges.map (·.id)).Nodup ∧ List.Forall₂ (Plans graph name) edges
        ((graph.reunion part).plannedInParts (graph.reunion part).namedNodes ++
          graph.between.filterMap
            ((graph.reunion part).plannedCross? (graph.reunion part).namedNodes)) := by
  obtain ⟨crossing, aligned⟩ := exists_forall₂ accord.joins.links
  have sameIds : crossing.map (·.id) = graph.between.map (·.id) :=
    (forall₂_iff_map_eq.mp (aligned.imp fun _ _ linked => linked.2.1.symm)).symm
  have isThere (edge : Edge) (member : edge ∈ crossing) : edge ∈ whole.edges := by
    obtain ⟨_, _, there, _⟩ := exists_left_of_forall₂ aligned edge member
    exact there
  have routed {index : Fin graph.partGroups.length} {id : String} (listed : id ∈
      (whole.edges.filter (·.id ∈ (naming index).routes)).map (·.id)) :
      id ∈ (naming index).routes := by
    obtain ⟨edge, member, rfl⟩ := List.mem_map.mp listed
    exact of_decide_eq_true (List.mem_filter.mp member).2
  refine ⟨(List.finRange graph.partGroups.length).flatMap (fun index =>
    whole.edges.filter (·.id ∈ (naming index).routes)) ++ crossing, fun edge => ?_, ?_, ?_⟩
  · simp only [List.mem_append, List.mem_flatMap, List.mem_finRange, true_and, List.mem_filter,
      decide_eq_true_eq]
    refine ⟨fun listed => listed.elim (fun ⟨_, member, _⟩ => member) (isThere edge),
      fun member => ?_⟩
    refine (accord.joins.routed edge member).imp (fun ⟨index, inside⟩ => ⟨index, member, inside⟩) ?_
    intro apart
    rw [← sameIds] at apart
    obtain ⟨other, there, same⟩ := List.mem_map.mp apart
    rwa [← accord.agrees.formed.edge_eq_of_id (isThere other there) member same]
  · rw [List.map_append, List.nodup_append, List.map_flatMap, sameIds]
    refine ⟨List.nodup_flatMap.mpr ⟨fun index _ => ?_, ?_⟩, ?_, ?_⟩
    · exact accord.agrees.formed.edgeIds.sublist (List.filter_sublist.map _)
    · refine (List.nodup_finRange _).imp fun {first second} different id inFirst inSecond => ?_
      exact accord.agrees.routesApart first second different (routed inFirst) (routed inSecond)
    · exact built.wellFormed.edgeIds.sublist (List.filter_sublist.map _)
    · intro id inPart other apart same
      obtain ⟨index, _, inside⟩ := List.mem_flatMap.mp inPart
      obtain ⟨edge, member, rfl⟩ := List.mem_map.mp apart
      exact accord.joins.unrouted edge member index (same ▸ routed inside)
  · rw [CodeGraph.plannedInParts_reunion]
    refine List.rel_append (forall₂_flatMap fun index _ => names.plans_inPart built accord index) ?_
    refine forall₂_filterMap aligned.flip fun edge member other linked => ?_
    obtain ⟨_, id, kind, attributes, source, target⟩ := linked
    refine ⟨_, Merge.plannedCross?_eq_some_iff.mpr ⟨_, _, names.resolved?_of_standsFor built source,
      names.resolved?_of_standsFor built target, rfl⟩, ?_⟩
    exact ⟨rfl, rfl, kind.symm, attributes.symm, .inl (congrArg some id.symm)⟩

/-- **The edges** of the whole graph correspond to those of the merged graph. -/
theorem exists_wholeEdges :
    ∃ edges : List Edge, (∀ edge, edge ∈ edges ↔ edge ∈ whole.edges) ∧
      (edges.map (·.id)).Nodup ∧
      List.Forall₂ (Realizes graph name) edges (graph.reunion part).result.edges := by
  obtain ⟨edges, same, distinct, aligned⟩ := names.exists_plans built accord
  obtain ⟨ordered, planned, perm⟩ := List.perm_comp_forall₂
    ((graph.reunion part).plannedEdges_perm (graph.reunion part).namedNodes) aligned.flip
  refine ⟨ordered, fun edge => perm.mem_iff.trans (same edge), ?_, ?_⟩
  · exact (perm.map _).nodup_iff.mpr distinct
  · exact forall₂_edgesFrom planned.flip rfl

/-- **The merge.** The merged graph is the whole graph up to the ids of what is new. -/
theorem exists_sameUpTo :
    ∃ edge, SameUpTo graph whole (graph.reunion part).result name edge := by
  obtain ⟨edges, same, distinct, aligned⟩ := names.exists_wholeEdges built accord
  obtain ⟨ids, taken⟩ := (accord.sound_reunion built).plannedEdges_ids
    (graph.reunion part).namedNodes
  obtain ⟨edge, bijection, renames⟩ := exists_renaming aligned distinct
    (Merge.nodup_edgesFrom ids taken)
  have listed (id : String) : id ∈ edges.map (·.id) ↔ whole.hasEdge id := by
    rw [CodeGraph.hasEdge_iff, List.mem_map, List.mem_map]
    simp only [same]
  have pairOf {there : Edge} (member : there ∈ whole.edges) :
      ∃ other ∈ (graph.reunion part).result.edges, Realizes graph name there other ∧
        edge there.id = other.id :=
    exists_left_of_forall₂ renames.flip there ((same there).mpr member)
  refine ⟨edge, names.bijection, ?_, fun there member => names.exists_shown accord member,
    fun there member => ?_, fun id => names.kept built accord, fun id original => ⟨⟨?_, ?_⟩, ?_⟩⟩
  · simpa only [listed, ← CodeGraph.hasEdge_iff] using bijection
  · obtain ⟨other, otherMember, realizes, named⟩ := pairOf member
    exact ⟨other, otherMember, named.symm, realizes.source, realizes.target, realizes.kind,
      realizes.attributes⟩
  · intro there
    obtain ⟨own, member, rfl⟩ := List.mem_map.mp (CodeGraph.hasEdge_iff.mp there)
    obtain ⟨other, otherMember, realizes, _⟩ := pairOf member
    rcases realizes.id with kept | ⟨_, isNew⟩
    · exact CodeGraph.hasEdge_iff.mpr (kept ▸ List.mem_map_of_mem otherMember)
    · exact absurd original isNew
  · intro there
    obtain ⟨other, member, rfl⟩ := List.mem_map.mp (CodeGraph.hasEdge_iff.mp there)
    obtain ⟨own, ownMember, realizes⟩ := exists_left_of_forall₂ aligned other member
    rcases realizes.id with kept | ⟨isNew, _⟩
    · exact CodeGraph.hasEdge_iff.mpr (kept ▸ List.mem_map_of_mem ((same own).mp ownMember))
    · exact absurd original isNew
  · intro there
    obtain ⟨own, member, rfl⟩ := List.mem_map.mp (CodeGraph.hasEdge_iff.mp there)
    obtain ⟨other, _, realizes, named⟩ := pairOf member
    rcases realizes.id with kept | ⟨_, isNew⟩
    · exact named.trans kept
    · exact absurd original isNew

end NamesNodes

end Transcode
