import Transcode.Proofs.Splitting

/-!
# Merging parts

A merge of well-formed parts never fails (`Merge.Sound.graph_eq`): old nodes and edges have the ids
that they had in the whole graph, where ids are used once, new ones get fresh ids, and an edge is
planned only between nodes that have an id in the merged graph.
-/

namespace Transcode

/-! ### Fresh ids -/

namespace IdSource

/-- The ids that a source can still give. -/
def Gives (ids : IdSource) (id : String) : Prop :=
  id ∉ ids.taken ∧ ∃ number, ids.next ≤ number ∧ id = ids.start ++ toString number

theorem gives_fresh (ids : IdSource) : ids.Gives ids.fresh.1 :=
  ⟨firstFree_not_mem _ (append_toString_injective ids.start) _ _ _ (Nat.le_refl _), _,
    le_firstFree .., rfl⟩

/-- What a source gives later it could have given before, but it is something else. -/
theorem gives_of_later (ids : IdSource) {id : String} (later : ids.fresh.2.Gives id) :
    ids.Gives id ∧ id ≠ ids.fresh.1 := by
  obtain ⟨unused, number, bound, rfl⟩ := later
  have start := le_firstFree (fun number => ids.start ++ toString number) ids.taken
    ids.taken.length ids.next
  refine ⟨⟨unused, number, Nat.le_trans start (Nat.le_of_succ_le bound), rfl⟩, fun same => ?_⟩
  have equal := append_toString_injective ids.start same
  exact Nat.not_succ_le_self _ (equal ▸ bound)

end IdSource

namespace Merge

/-- All new nodes are named. -/
theorem map_fst_nameNew (ids : IdSource) (items : List PartNode) :
    (nameNew ids items).map (·.1) = items := by
  induction items generalizing ids with
  | nil => rfl
  | cons item rest ih => rw [nameNew, List.map_cons, ih]

/-- New nodes have names that their source gives. -/
theorem gives_of_mem_nameNew {ids : IdSource} {items : List PartNode} {named : PartNode × String}
    (member : named ∈ nameNew ids items) : ids.Gives named.2 := by
  induction items generalizing ids with
  | nil => cases member
  | cons item rest ih =>
      rcases List.mem_cons.mp member with rfl | member
      · exact ids.gives_fresh
      · exact (ids.gives_of_later (ih member)).1

/-- New nodes have different names. -/
theorem nodup_nameNew (ids : IdSource) (items : List PartNode) :
    ((nameNew ids items).map (·.2)).Nodup := by
  induction items generalizing ids with
  | nil => exact List.nodup_nil
  | cons item rest ih =>
      rw [nameNew, List.map_cons, List.nodup_cons]
      refine ⟨fun repeated => ?_, ih _⟩
      obtain ⟨named, member, same⟩ := List.mem_map.mp repeated
      exact (ids.gives_of_later (gives_of_mem_nameNew member)).2 same

/-- The id of a planned edge, and the source of further ids. -/
def idOf (ids : IdSource) (edge : PlannedEdge) : String × IdSource :=
  match edge.id with
  | some id => (id, ids)
  | none => ids.fresh

/-- The edges that are added for planned edges, with their ids and places. -/
def edgesFrom (ids : IdSource) (seq : Nat) : List PlannedEdge → List Edge
  | [] => []
  | edge :: rest =>
    ⟨(idOf ids edge).1, edge.kind, edge.source, edge.target, edge.attributes, seq⟩ ::
      edgesFrom (idOf ids edge).2 (seq + 1) rest

/-- Planned edges that are old keep their ids, new ones get ids that are not taken. -/
theorem known_or_gives_of_mem_edgesFrom {ids : IdSource} {seq : Nat} {planned : List PlannedEdge}
    {edge : Edge} (member : edge ∈ edgesFrom ids seq planned) :
    edge.id ∈ planned.filterMap (·.id) ∨ ids.Gives edge.id := by
  induction planned generalizing ids seq with
  | nil => cases member
  | cons first rest ih =>
      unfold edgesFrom idOf at member
      cases known : first.id with
      | some id =>
          rw [List.filterMap_cons_some known]
          rw [known] at member
          rcases List.mem_cons.mp member with rfl | member
          · exact .inl List.mem_cons_self
          · exact (ih member).imp_left (List.mem_cons_of_mem id)
      | none =>
          rw [List.filterMap_cons_none known]
          rw [known] at member
          rcases List.mem_cons.mp member with rfl | member
          · exact .inr ids.gives_fresh
          · exact (ih member).imp_right fun later => (ids.gives_of_later later).1

/-- Edges that are planned under different ids have different ids. -/
theorem nodup_edgesFrom {ids : IdSource} {seq : Nat} {planned : List PlannedEdge}
    (distinct : (planned.filterMap (·.id)).Nodup)
    (taken : ∀ id ∈ planned.filterMap (·.id), id ∈ ids.taken) :
    ((edgesFrom ids seq planned).map (·.id)).Nodup := by
  induction planned generalizing ids seq with
  | nil => exact List.nodup_nil
  | cons first rest ih =>
      unfold edgesFrom idOf
      cases known : first.id with
      | some id =>
          rw [List.filterMap_cons_some known] at distinct taken
          obtain ⟨own, distinct⟩ := List.nodup_cons.mp distinct
          obtain ⟨idTaken, taken⟩ := List.forall_mem_cons.mp taken
          refine List.nodup_cons.mpr ⟨fun repeated => ?_, ih distinct taken⟩
          obtain ⟨edge, member, same⟩ := List.mem_map.mp repeated
          have sameId : edge.id = id := same
          rcases known_or_gives_of_mem_edgesFrom member with old | new
          · exact own (sameId ▸ old)
          · exact new.1 (sameId ▸ idTaken)
      | none =>
          rw [List.filterMap_cons_none known] at distinct taken
          refine List.nodup_cons.mpr ⟨fun repeated => ?_, ih distinct taken⟩
          obtain ⟨edge, member, same⟩ := List.mem_map.mp repeated
          have sameId : edge.id = ids.fresh.1 := same
          rcases known_or_gives_of_mem_edgesFrom member with old | new
          · exact ids.gives_fresh.1 (sameId ▸ taken _ old)
          · exact (ids.gives_of_later new).2 sameId

/-- Planned edges between nodes of a graph can all be added after its edges. -/
theorem addEdges_eq {graph : CodeGraph} {ids : IdSource} {planned : List PlannedEdge}
    (distinct : (graph.edges.map (·.id) ++ (edgesFrom ids graph.nextEdgeSeq planned).map
      (·.id)).Nodup)
    (earlier : ∀ edge ∈ graph.edges, edge.seq < graph.nextEdgeSeq)
    (ends : ∀ edge ∈ planned, graph.hasNode edge.source ∧ graph.hasNode edge.target) :
    addEdges graph ids graph.nextEdgeSeq planned = .ok { graph with
      edges := graph.edges ++ edgesFrom ids graph.nextEdgeSeq planned
      nextEdgeSeq := graph.nextEdgeSeq + planned.length } := by
  induction planned generalizing graph ids with
  | nil => simp [addEdges, edgesFrom]
  | cons first rest ih =>
      obtain ⟨firstEnds, otherEnds⟩ := List.forall_mem_cons.mp ends
      let edge : Edge := ⟨(idOf ids first).1, first.kind, first.source, first.target,
        first.attributes, graph.nextEdgeSeq⟩
      let next : CodeGraph := { graph with
        edges := graph.edges ++ [edge]
        nextEdgeSeq := graph.nextEdgeSeq + 1 }
      have unused : edge.id ∉ graph.edges.map (·.id) := fun used =>
        (List.nodup_append.mp distinct).2.2 _ used _ List.mem_cons_self rfl
      have last : CodeGraph.insertBySeq edge graph.edges = graph.edges ++ [edge] :=
        CodeGraph.insertBySeq_eq_append earlier
      have added : graph.insertEdge edge = .ok next := by
        refine CodeGraph.insertEdge_eq_ok_iff.mpr ⟨⟨unused, firstEnds⟩, ?_⟩
        rw [last, Nat.max_eq_right (Nat.le_succ _)]
      have later : addEdges next (idOf ids first).2 next.nextEdgeSeq rest = _ :=
        ih (by simpa [next, edge, edgesFrom] using distinct) (fun other member => by
          rcases List.mem_append.mp member with old | new
          · exact Nat.lt_succ_of_lt (earlier other old)
          · obtain rfl := List.mem_singleton.mp new
            exact Nat.lt_succ_self _) otherEnds
      refine bind_eq_ok_iff.mpr ⟨next, added, later.trans ?_⟩
      simp only [next, edge, edgesFrom, List.append_assoc, List.singleton_append, List.length_cons]
      rw [Nat.add_assoc, Nat.add_comm 1]

/-! ### Nodes and edges of the merged graph -/

/-- A merge of well-formed parts of a well-formed graph. -/
structure Sound (merge : Merge) : Prop where
  whole : merge.whole.WellFormed
  parts : ∀ part ∈ merge.parts, part.WellFormed
  crossEdges : merge.crossEdges =
    merge.whole.edges.filter fun edge => (partOfEdge? merge.groups edge).isNone

variable {merge : Merge} {named : List (PartNode × String)} {item : PartNode} {index : Nat}

/-- The nodes of a merge are those of its parts. -/
theorem mem_partNodes_iff :
    item ∈ merge.partNodes ↔
      ∃ part, merge.parts[item.part]? = some part ∧ item.node ∈ part.nodes := by
  simp only [partNodes, List.mem_flatMap, List.mem_map, Prod.exists, List.mem_zipIdx_iff_getElem?]
  constructor
  · rintro ⟨part, index, at_, node, member, rfl⟩
    exact ⟨part, at_, member⟩
  · rintro ⟨part, at_, member⟩
    exact ⟨part, item.part, at_, item.node, member, rfl⟩

/-- A node of a part is known by the part and its id. -/
theorem Sound.eq_of_part_of_id (sound : merge.Sound) {first second : PartNode}
    (firstMember : first ∈ merge.partNodes) (secondMember : second ∈ merge.partNodes)
    (samePart : first.part = second.part) (sameId : first.node.id = second.node.id) :
    first = second := by
  obtain ⟨part, firstAt, firstNode⟩ := mem_partNodes_iff.mp firstMember
  obtain ⟨other, secondAt, secondNode⟩ := mem_partNodes_iff.mp secondMember
  rw [← samePart, firstAt] at secondAt
  cases secondAt
  have sameNode := (sound.parts part (List.mem_of_getElem? firstAt)).eq_of_id firstNode secondNode
    sameId
  cases first
  cases second
  cases samePart
  cases sameNode
  rfl

/-- No node of a part comes twice. -/
theorem Sound.nodup_partNodes (sound : merge.Sound) : merge.partNodes.Nodup := by
  unfold partNodes
  refine List.nodup_flatMap.mpr ⟨?_, ?_⟩
  · rintro ⟨part, index⟩ member
    have wellFormed := sound.parts part
      (List.mem_of_getElem? (List.mem_zipIdx_iff_getElem?.mp member))
    exact (wellFormed.nodeIds.of_map _).map_on fun first _ second _ same => by
      cases same
      rfl
  · have indices : (merge.parts.zipIdx.map (·.2)).Nodup := by
      rw [List.zipIdx_map_snd]
      exact List.nodup_range'
    refine (List.pairwise_map.mp indices).imp fun {first second} other item inFirst inSecond => ?_
    obtain ⟨_, _, rfl⟩ := List.mem_map.mp inFirst
    obtain ⟨_, _, same⟩ := List.mem_map.mp inSecond
    exact other (PartNode.mk.inj same).1.symm

/-- The old nodes are those with a place in the whole graph. -/
theorem oldNodes_perm (merge : Merge) :
    merge.oldNodes.Perm (merge.partNodes.filter fun item => (merge.oldSeq? item).isSome) := by
  have unsorted : ((merge.partNodes.filterMap fun item =>
      (merge.oldSeq? item).map (·, item)).map (·.2)) =
        merge.partNodes.filter fun item => (merge.oldSeq? item).isSome := by
    rw [List.map_filterMap, ← List.filterMap_eq_filter]
    refine List.filterMap_congr fun item _ => ?_
    cases place : merge.oldSeq? item <;> simp [Option.guard, place]
  rw [← unsorted]
  exact (List.mergeSort_perm ..).map _

/-- A node is old in the part where it was before. -/
theorem mem_oldNodes_iff :
    item ∈ merge.oldNodes ↔ item ∈ merge.partNodes ∧
      partOf? merge.groups item.node.id = some item.part ∧ merge.whole.hasNode item.node.id := by
  rw [merge.oldNodes_perm.mem_iff, List.mem_filter, oldSeq?]
  refine and_congr_right fun _ => ?_
  split
  · simp [*, CodeGraph.node?_isSome]
  · simp [*]

/-- Ids in the merged graph are used once. -/
theorem Sound.nodup_namedNodes (sound : merge.Sound) : (merge.namedNodes.map (·.2)).Nodup := by
  unfold namedNodes
  rw [List.map_append, List.map_map, List.nodup_append]
  refine ⟨?_, nodup_nameNew _ _, ?_⟩
  · have distinct : merge.oldNodes.Nodup :=
      merge.oldNodes_perm.nodup_iff.mpr (sound.nodup_partNodes.filter _)
    refine distinct.map_on fun first firstMember second secondMember same => ?_
    obtain ⟨firstNode, firstPart, _⟩ := mem_oldNodes_iff.mp firstMember
    obtain ⟨secondNode, secondPart, _⟩ := mem_oldNodes_iff.mp secondMember
    have sameId : first.node.id = second.node.id := same
    rw [sameId, secondPart, Option.some.injEq] at firstPart
    exact sound.eq_of_part_of_id firstNode secondNode firstPart.symm sameId
  · intro id old other new same
    obtain ⟨item, member, rfl⟩ := List.mem_map.mp old
    obtain ⟨entry, entryMember, rfl⟩ := List.mem_map.mp new
    have unused := (gives_of_mem_nameNew entryMember).1
    have known := CodeGraph.hasNode_iff.mp (mem_oldNodes_iff.mp member).2.2
    exact unused (same ▸ List.mem_append_left _ known)

/-- What is renamed has one of the names. -/
theorem mem_of_renamed? {id new : String} (renamed : renamed? named index id = some new) :
    new ∈ named.map (·.2) := by
  obtain ⟨entry, found, rfl⟩ := Option.map_eq_some_iff.mp renamed
  exact List.mem_map_of_mem (List.mem_of_find?_eq_some found)

/-- An edge of a part as it is planned. -/
theorem planned?_eq_some_iff {before : Edge} {edge : PlannedEdge} :
    merge.planned? named index before = some edge ↔
      ∃ source target, renamed? named index before.source = some source ∧
        renamed? named index before.target = some target ∧
        edge = {
          id := if merge.isOldEdge index before then some before.id else none
          source, target
          kind := before.kind
          attributes := before.attributes
          seq := before.seq } := by
  unfold planned?
  simp only [Option.bind_eq_bind, Option.bind_eq_some_iff, Option.pure_def, Option.some.injEq,
    @eq_comm _ edge, exists_and_left]

/-- An edge between parts as it is planned. -/
theorem plannedCross?_eq_some_iff {before : Edge} {edge : PlannedEdge} :
    merge.plannedCross? named before = some edge ↔
      ∃ source target, merge.resolved? named before.source = some source ∧
        merge.resolved? named before.target = some target ∧
        edge = {
          id := some before.id
          source, target
          kind := before.kind
          attributes := before.attributes
          seq := before.seq } := by
  unfold plannedCross?
  simp only [Option.bind_eq_bind, Option.bind_eq_some_iff, Option.pure_def, Option.some.injEq,
    @eq_comm _ edge, exists_and_left]

/-- The planned edges of the parts, part by part. -/
def plannedInParts (merge : Merge) (named : List (PartNode × String)) : List PlannedEdge :=
  merge.parts.zipIdx.flatMap fun (part, index) =>
    part.edges.filterMap (merge.planned? named index)

/-- An edge is planned for an edge of a part. -/
theorem mem_plannedInParts_iff {edge : PlannedEdge} :
    edge ∈ merge.plannedInParts named ↔ ∃ part index, merge.parts[index]? = some part ∧
      ∃ before ∈ part.edges, merge.planned? named index before = some edge := by
  simp only [plannedInParts, List.mem_flatMap, Prod.exists, List.mem_zipIdx_iff_getElem?,
    List.mem_filterMap]

/-- The planned edges are those in parts and those between them. -/
theorem plannedEdges_perm (merge : Merge) (named : List (PartNode × String)) :
    (merge.plannedEdges named).Perm
      (merge.plannedInParts named ++ merge.crossEdges.filterMap (merge.plannedCross? named)) := by
  have split : ((merge.plannedInParts named).filter (·.id.isSome) ++
      (merge.plannedInParts named).filter (·.id.isNone)).Perm (merge.plannedInParts named) := by
    have complement : (fun edge : PlannedEdge => edge.id.isNone) = fun edge => !edge.id.isSome := by
      funext edge
      cases edge.id <;> rfl
    rw [complement]
    exact List.filter_append_perm ..
  refine (List.Perm.append_right _ (List.mergeSort_perm ..)).trans ?_
  rw [List.append_assoc]
  refine (List.Perm.append_left _ List.perm_append_comm).trans ?_
  rw [← List.append_assoc]
  exact split.append_right _

/-- An edge is planned between nodes of the merged graph. -/
theorem ends_of_mem_plannedEdges {edge : PlannedEdge} (member : edge ∈ merge.plannedEdges named) :
    edge.source ∈ named.map (·.2) ∧ edge.target ∈ named.map (·.2) := by
  rcases List.mem_append.mp ((merge.plannedEdges_perm named).mem_iff.mp member) with inPart | cross
  · obtain ⟨part, index, _, before, _, planned⟩ := mem_plannedInParts_iff.mp inPart
    obtain ⟨source, target, sourceEq, targetEq, rfl⟩ := planned?_eq_some_iff.mp planned
    exact ⟨mem_of_renamed? sourceEq, mem_of_renamed? targetEq⟩
  · have resolved {id new : String} (found : merge.resolved? named id = some new) :
        new ∈ named.map (·.2) := by
      unfold resolved? at found
      simp only [Option.bind_eq_bind, Option.bind_eq_some_iff] at found
      obtain ⟨index, _, part, _, old, _, renamed⟩ := found
      exact mem_of_renamed? renamed
    obtain ⟨before, _, planned⟩ := List.mem_filterMap.mp cross
    obtain ⟨source, target, sourceEq, targetEq, rfl⟩ := plannedCross?_eq_some_iff.mp planned
    exact ⟨resolved sourceEq, resolved targetEq⟩

/-- A planned edge of a part with an id is an edge of the whole graph that is in this part. -/
theorem id_of_planned? {before : Edge} {edge : PlannedEdge} {id : String}
    (planned : merge.planned? named index before = some edge) (known : edge.id = some id) :
    id = before.id ∧ ∃ old ∈ merge.whole.edges, old.id = id ∧
      partOfEdge? merge.groups old = some index := by
  obtain ⟨source, target, _, _, rfl⟩ := planned?_eq_some_iff.mp planned
  dsimp only at known
  split at known
  · rename_i isOld
    cases known
    obtain ⟨old, found, inPart⟩ := (Option.any_eq_true ..).mp isOld
    exact ⟨rfl, old, List.mem_of_find?_eq_some found, by simpa using List.find?_some found,
      of_decide_eq_true inPart⟩
  · cases known

/-- No edge within parts is planned under the id of another. -/
theorem Sound.nodup_ids_inParts (sound : merge.Sound) (named : List (PartNode × String)) :
    ((merge.plannedInParts named).filterMap (·.id)).Nodup := by
  unfold plannedInParts
  rw [List.filterMap_flatMap, List.nodup_flatMap]
  constructor
  · rintro ⟨part, index⟩ member
    have wellFormed := sound.parts part
      (List.mem_of_getElem? (List.mem_zipIdx_iff_getElem?.mp member))
    rw [List.filterMap_filterMap]
    refine nodup_filterMap_of_key Edge.id wellFormed.edgeIds fun before id given => ?_
    obtain ⟨edge, planned, known⟩ := Option.bind_eq_some_iff.mp given
    exact (id_of_planned? planned known).1
  · have indices : (merge.parts.zipIdx.map (·.2)).Nodup := by
      rw [List.zipIdx_map_snd]
      exact List.nodup_range'
    refine (List.pairwise_map.mp indices).imp fun {first second} other id inFirst inSecond => ?_
    have partOf {entry : CodeGraph × Nat}
        (member : id ∈ (entry.1.edges.filterMap (merge.planned? named entry.2)).filterMap (·.id)) :
        ∃ old ∈ merge.whole.edges, old.id = id ∧
          partOfEdge? merge.groups old = some entry.2 := by
      obtain ⟨edge, edgeMember, known⟩ := List.mem_filterMap.mp member
      obtain ⟨before, _, planned⟩ := List.mem_filterMap.mp edgeMember
      exact (id_of_planned? planned known).2
    obtain ⟨left, leftMember, leftId, leftPart⟩ := partOf inFirst
    obtain ⟨right, rightMember, rightId, rightPart⟩ := partOf inSecond
    have equal := sound.whole.edge_eq_of_id leftMember rightMember (leftId.trans rightId.symm)
    rw [equal, rightPart] at leftPart
    exact other (Option.some.inj leftPart).symm

/-- **Planned edges have different ids**, as far as they have ids, and these are ids of the whole
graph. -/
theorem Sound.plannedEdges_ids (sound : merge.Sound) (named : List (PartNode × String)) :
    ((merge.plannedEdges named).filterMap (·.id)).Nodup ∧
      ∀ id ∈ (merge.plannedEdges named).filterMap (·.id), id ∈ merge.edgeIds.taken := by
  have perm := (merge.plannedEdges_perm named).filterMap (·.id)
  rw [List.filterMap_append] at perm
  -- An id tells in which part its edge is, or that it is between parts.
  have inParts : ∀ id ∈ (merge.plannedInParts named).filterMap (·.id), ∃ index, ∃ old ∈
      merge.whole.edges, old.id = id ∧ partOfEdge? merge.groups old = some index := by
    intro id member
    obtain ⟨edge, edgeMember, known⟩ := List.mem_filterMap.mp member
    obtain ⟨part, index, _, before, _, planned⟩ := mem_plannedInParts_iff.mp edgeMember
    exact ⟨index, (id_of_planned? planned known).2⟩
  have cross : ∀ id ∈ (merge.crossEdges.filterMap (merge.plannedCross? named)).filterMap (·.id),
      ∃ old ∈ merge.whole.edges, old.id = id ∧ partOfEdge? merge.groups old = none := by
    intro id member
    obtain ⟨edge, edgeMember, known⟩ := List.mem_filterMap.mp member
    obtain ⟨before, beforeMember, planned⟩ := List.mem_filterMap.mp edgeMember
    obtain ⟨source, target, _, _, rfl⟩ := plannedCross?_eq_some_iff.mp planned
    cases known
    rw [sound.crossEdges, List.mem_filter, Option.isNone_iff_eq_none] at beforeMember
    exact ⟨before, beforeMember.1, rfl, beforeMember.2⟩
  constructor
  · rw [perm.nodup_iff, List.nodup_append]
    refine ⟨sound.nodup_ids_inParts named, ?_, ?_⟩
    · rw [List.filterMap_filterMap]
      refine nodup_filterMap_of_key Edge.id ?_ fun before id given => ?_
      · rw [sound.crossEdges]
        exact sound.whole.edgeIds.sublist (List.filter_sublist.map _)
      · obtain ⟨edge, planned, known⟩ := Option.bind_eq_some_iff.mp given
        obtain ⟨source, target, _, _, rfl⟩ := plannedCross?_eq_some_iff.mp planned
        exact (Option.some.inj known).symm
    · intro id inPart other between same
      obtain ⟨index, old, oldMember, oldId, oldPart⟩ := inParts id inPart
      obtain ⟨new, newMember, newId, newPart⟩ := cross other between
      have equal :=
        sound.whole.edge_eq_of_id oldMember newMember (oldId.trans (same.trans newId.symm))
      rw [equal, newPart] at oldPart
      cases oldPart
  · intro id member
    rcases List.mem_append.mp (perm.mem_iff.mp member) with inPart | between
    · obtain ⟨_, old, oldMember, rfl, _⟩ := inParts id inPart
      exact List.mem_map_of_mem oldMember
    · obtain ⟨old, oldMember, rfl, _⟩ := cross id between
      exact List.mem_map_of_mem oldMember

/-- The merged graph. -/
def result (merge : Merge) : CodeGraph :=
  let named := merge.namedNodes
  { nodes := CodeGraph.numbered 0 (named.map fun (item, id) =>
      ⟨id, item.node.label, item.node.kind, item.node.attributes⟩)
    edges := edgesFrom merge.edgeIds 0 (merge.plannedEdges named)
    nextSeq := named.length
    nextEdgeSeq := (merge.plannedEdges named).length
    history := merge.history named
    forwarding := Dict.ofList (merge.forwarding named) }

/-- **Merging.** Parts that are well-formed can be merged. -/
theorem Sound.graph_eq (sound : merge.Sound) : merge.graph = .ok merge.result := by
  let data : PartNode × String → NodeData := fun entry =>
    ⟨entry.2, entry.1.node.label, entry.1.node.kind, entry.1.node.attributes⟩
  have ids : (merge.namedNodes.map data).map (·.id) = merge.namedNodes.map (·.2) := List.map_map
  let withNodes : CodeGraph := {
    nodes := CodeGraph.numbered 0 (merge.namedNodes.map data)
    nextSeq := merge.namedNodes.length }
  have nodes : merge.namedNodes.foldlM (fun graph entry => graph.addNodeWithId (data entry).id
      (data entry).kind (data entry).label (data entry).attributes) ({} : CodeGraph) =
        .ok withNodes := by
    rw [CodeGraph.foldlM_addNodeWithId, CodeGraph.addNodes_eq _ _ (by
      rw [ids]
      exact sound.nodup_namedNodes)]
    simp [withNodes]
  have hasNode {id : String} (known : id ∈ merge.namedNodes.map (·.2)) : withNodes.hasNode id := by
    rw [CodeGraph.hasNode_iff]
    rwa [← ids, ← CodeGraph.map_id_numbered 0] at known
  obtain ⟨distinct, taken⟩ := sound.plannedEdges_ids merge.namedNodes
  have edges : addEdges withNodes merge.edgeIds withNodes.nextEdgeSeq
      (merge.plannedEdges merge.namedNodes) = _ :=
    addEdges_eq (nodup_edgesFrom distinct taken) (by simp [withNodes]) fun edge member =>
      have ends := ends_of_mem_plannedEdges member
      ⟨hasNode ends.1, hasNode ends.2⟩
  refine bind_eq_ok_iff.mpr ⟨withNodes, nodes, bind_eq_ok_iff.mpr ⟨_, edges, ?_⟩⟩
  simp [result, withNodes, data, pure, Except.pure]

end Merge

end Transcode
