import Transcode.Proofs.NormalForm
import Transcode.Proofs.Relations

/-!
# Relations of a graph that is transformed in parts

A relation of a built graph is in one part, where it is carried over as in any graph, or between
parts; then it is in none of them, and its ends are looked up when the parts are merged. In either
case the merge puts it back at its place among the relations, with its ends led to what is in the
place of them in their parts (`Reattached.relations_result`).
-/

namespace Transcode

/-- A relation as it is planned for a merged graph, with its ends led to other nodes. -/
def Edge.reattached (place : String → String) (edge : Edge) : PlannedEdge where
  id := some edge.id
  source := place edge.source
  target := place edge.target
  kind := edge.kind
  attributes := edge.attributes
  seq := edge.seq

/-- What data will show of a planned edge that has an id. -/
def PlannedEdge.data (edge : PlannedEdge) : EdgeData :=
  ⟨edge.id.getD "", edge.source, edge.target, edge.kind, edge.attributes⟩

/-- What planned edges of some kinds become shows the same, if they all have ids. -/
theorem Merge.map_data_edgesFrom {ids : IdSource} {seq : Nat} {planned : List PlannedEdge}
    (keep : EdgeKind → Bool) (known : ∀ edge ∈ planned, keep edge.kind → edge.id ≠ none) :
    ((edgesFrom ids seq planned).filter fun edge => keep edge.kind).map Edge.data =
      (planned.filter fun edge => keep edge.kind).map PlannedEdge.data := by
  induction planned generalizing ids seq with
  | nil => rfl
  | cons edge rest ih =>
      obtain ⟨here, later⟩ := List.forall_mem_cons.mp known
      unfold edgesFrom
      cases kept : keep edge.kind with
      | true =>
          obtain ⟨id, isKnown⟩ := Option.ne_none_iff_exists'.mp (here kept)
          simp only [List.filter_cons, kept, if_true, List.map_cons, ih later]
          simp [Edge.data, PlannedEdge.data, idOf, isKnown]
      | false => simp only [List.filter_cons, kept, Bool.false_eq_true, if_false, ih later]

/-! ### Names in a merged graph -/

namespace Merge.Sound

variable {merge : Merge} (sound : merge.Sound) {index : Nat} {part : CodeGraph}

include sound

/-- Nodes of parts are called what they are named. -/
theorem renamed?_of_named {node : Node} {id : String}
    (named : (⟨index, node⟩, id) ∈ merge.namedNodes) :
    renamed? merge.namedNodes index node.id = some id := by
  obtain ⟨called, calls, same⟩ := exists_calls_of_named named
  exact sound.renamed?_eq_some_iff.mpr ⟨node, called, calls, rfl, same⟩

/-- A node of a part is called something in the merged graph. -/
theorem exists_renamed? (at_ : merge.parts[index]? = some part) {id : String}
    (there : part.hasNode id) : ∃ new, renamed? merge.namedNodes index id = some new := by
  obtain ⟨node, member, rfl⟩ := List.mem_map.mp (CodeGraph.hasNode_iff.mp there)
  have listed : (⟨index, node⟩ : PartNode) ∈ merge.namedNodes.map (·.1) :=
    merge.map_fst_namedNodes_perm.mem_iff.mpr (mem_partNodes_iff.mpr ⟨part, at_, member⟩)
  obtain ⟨⟨_, id⟩, named, rfl⟩ := List.mem_map.mp listed
  exact ⟨id, sound.renamed?_of_named named⟩

/-- A node that was in its part from the start keeps its id. -/
theorem renamed?_of_old (at_ : merge.parts[index]? = some part) {id : String}
    (there : part.hasNode id) (partOf : partOf? merge.groups id = some index)
    (original : merge.whole.hasNode id) : renamed? merge.namedNodes index id = some id := by
  obtain ⟨node, member, rfl⟩ := List.mem_map.mp (CodeGraph.hasNode_iff.mp there)
  have isOld : (⟨index, node⟩ : PartNode) ∈ merge.oldNodes :=
    mem_oldNodes_iff.mpr ⟨mem_partNodes_iff.mpr ⟨part, at_, member⟩, partOf, original⟩
  exact sound.renamed?_of_named (List.mem_append_left _ (List.mem_map_of_mem isOld))

/-- A name in the merged graph tells a node of a part. -/
theorem eq_of_renamed? {first second : Nat} {one other new : String}
    (oneNamed : renamed? merge.namedNodes first one = some new)
    (otherNamed : renamed? merge.namedNodes second other = some new) :
    first = second ∧ one = other := by
  obtain ⟨before, node, calls, rfl, rfl⟩ := exists_calls_of_renamed? oneNamed
  obtain ⟨another, there, otherCalls, rfl, same⟩ := exists_calls_of_renamed? otherNamed
  obtain rfl := sound.formed.eq_of_id otherCalls.there calls.there same
  obtain ⟨samePart, sameNode⟩ := sound.eq_of_calls calls otherCalls
  exact ⟨samePart, congrArg Node.id sameNode⟩

end Merge.Sound

namespace CodeGraph

variable {graph : CodeGraph}

/-- The relations of a built graph, those of each part and those between parts. -/
theorem Built.relations_perm (built : graph.Built) :
    ((List.finRange graph.partGroups.length).flatMap
      (fun index => (graph.partAt index).relations) ++ graph.between).Perm graph.relations := by
  have between : graph.between.filter (·.kind ≠ .contains) = graph.between :=
    List.filter_eq_self.mpr fun edge member => decide_eq_true (built.noContainment edge member)
  have perm := built.wellFormed.edges_perm.filter (·.kind ≠ .contains)
  rwa [List.filter_append, List.filter_flatMap, between] at perm

end CodeGraph

/-! ### Forwarding in parts -/

namespace CodeGraph

variable {graph : CodeGraph} {id there : String}

/-- A node that is gone is forwarded if something is in the place of it. -/
theorem forwarding_of_resolved? (resolved : graph.resolved? id = some there)
    (gone : ¬graph.hasNode id) : graph.forwarding.get? id ≠ none := by
  unfold resolved? at resolved
  cases size : graph.forwarding.size with
  | zero => simp [size, survivor?, gone] at resolved
  | succ fuel =>
      rw [size, survivor?, if_neg gone] at resolved
      obtain ⟨next, forwarded, _⟩ := Option.bind_eq_some_iff.mp resolved
      rw [forwarded]
      exact Option.some_ne_none _

/-- An id that is gone stands for the node it is forwarded to. -/
theorem resolved?_of_forwarding (gone : ¬graph.hasNode id)
    (forwarded : graph.forwarding.get? id = some there) (isThere : graph.hasNode there) :
    graph.resolved? id = some there := by
  unfold resolved?
  cases size : graph.forwarding.size with
  | zero =>
      have none : graph.forwarding.entries = [] := List.eq_nil_of_length_eq_zero size
      rw [Dict.get?, none] at forwarded
      cases forwarded
  | succ fuel =>
      rw [survivor?, if_neg gone, forwarded]
      exact survivor?_of_hasNode isThere fuel

end CodeGraph

/-- A reunion forwards what its parts forward, to where they do. -/
theorem mem_forwarding_reunion_iff {graph : CodeGraph}
    {part : Fin graph.partGroups.length → CodeGraph} (named : List (PartNode × String))
    {entry : String × String} :
    entry ∈ (graph.reunion part).forwarding named ↔
      ∃ index, entry.1 ∈ (part index).forwarding.keys ∧ graph.hasNode entry.1 ∧
        ((part index).resolved? entry.1).bind (Merge.renamed? named index.val) = some entry.2 := by
  obtain ⟨old, new⟩ := entry
  simp only [Merge.forwarding, List.mem_flatMap, Prod.exists, List.mem_zipIdx_iff_getElem?,
    CodeGraph.parts_reunion_eq_some_iff, List.mem_filterMap]
  constructor
  · rintro ⟨_, _, ⟨index, rfl, rfl⟩, id, isKey, given⟩
    split at given
    · rename_i original
      obtain ⟨target, resolved, same⟩ := Option.map_eq_some_iff.mp given
      cases same
      exact ⟨index, isKey, original, resolved⟩
    · cases given
  · rintro ⟨index, isKey, original, resolved⟩
    refine ⟨_, _, ⟨index, rfl, rfl⟩, old, isKey, ?_⟩
    rw [if_pos (show (graph.reunion part).whole.hasNode old from original)]
    exact Option.map_eq_some_iff.mpr ⟨new, resolved, rfl⟩

/-- Parts that carry over the relations of the parts of a built graph, with what its nodes become in
the merged graph. -/
structure Reattached (graph : CodeGraph) (part : Fin graph.partGroups.length → CodeGraph)
    (place : Fin graph.partGroups.length → String → String) (final : String → String) : Prop where
  built : graph.Built
  formed : ∀ index, (part index).WellFormed
  carries : ∀ index, (graph.partAt index).Carries (place index) (part index)
  named : ∀ index id, (graph.partAt index).hasNode id →
    Merge.renamed? (graph.reunion part).namedNodes index.val (place index id) = some (final id)

namespace Reattached

variable {graph : CodeGraph} {part : Fin graph.partGroups.length → CodeGraph}
  {place : Fin graph.partGroups.length → String → String} {final : String → String}
  (reattached : Reattached graph part place final)

include reattached

theorem sound : (graph.reunion part).Sound :=
  reattached.built.wellFormed.sound_reunion reattached.formed

/-- What is in the place of a node in its part. -/
theorem resolved?_part {index : Fin graph.partGroups.length} {id : String}
    (there : (graph.partAt index).hasNode id) :
    (part index).resolved? id = some (place index id) := by
  have settled := reattached.built.settled_partAt index
  obtain ⟨node, member, rfl⟩ := List.mem_map.mp (CodeGraph.hasNode_iff.mp there)
  exact (reattached.carries index).resolved settled _ _ (settled.nodes node member)
    (CodeGraph.survivor?_of_hasNode there _)

/-- What the merge looks up for an end of an edge between parts. -/
theorem resolved?_merge {id : String} (there : graph.hasNode id) :
    (graph.reunion part).resolved? (graph.reunion part).namedNodes id = some (final id) := by
  obtain ⟨index, inPart⟩ := reattached.built.exists_partAt there
  have partOf : partOf? (graph.reunion part).groups id = some index.val :=
    (reattached.built.hasNode_partAt_iff.mp inPart).2
  have at_ : (graph.reunion part).parts[index.val]? = some (part index) :=
    CodeGraph.parts_reunion_eq_some_iff.mpr ⟨index, rfl, rfl⟩
  simp only [Merge.resolved?, Option.bind_eq_bind, partOf, Option.bind_some, at_,
    reattached.resolved?_part inPart, reattached.named index id inPart]

/-- The relations of a part as they are planned. -/
theorem planned_part (index : Fin graph.partGroups.length) :
    ((part index).edges.filterMap ((graph.reunion part).planned?
        (graph.reunion part).namedNodes index.val)).filter (·.kind ≠ .contains) =
      (graph.partAt index).relations.map (·.reattached final) := by
  let plan := (graph.reunion part).planned? (graph.reunion part).namedNodes index.val
  have keepsKind : ∀ edge ∈ (part index).edges, (plan edge).filter (·.kind ≠ .contains) =
      if edge.kind ≠ .contains then plan edge else none := by
    intro edge _
    cases planned : plan edge with
    | none => simp
    | some other =>
        obtain ⟨source, target, _, _, rfl⟩ := Merge.planned?_eq_some_iff.mp planned
        by_cases contains : edge.kind = .contains <;> simp [Option.filter, contains]
  have each : ∀ edge ∈ (graph.partAt index).relations,
      plan (edge.led (place index)) = some (edge.reattached final) := by
    intro edge member
    have there := (List.mem_filter.mp member).1
    obtain ⟨inWhole, inPart⟩ := CodeGraph.mem_edges_partAt.mp there
    obtain ⟨source, target⟩ := (reattached.built.wellFormed.partAt index).endpoints edge there
    have isOld : (graph.reunion part).isOldEdge index.val (edge.led (place index)) :=
      (Option.any_eq_true ..).mpr ⟨edge,
        reattached.built.wellFormed.edge?_eq_some_iff.mpr ⟨inWhole, rfl⟩, decide_eq_true inPart⟩
    refine Merge.planned?_eq_some_iff.mpr ⟨final edge.source, final edge.target,
      reattached.named index _ source, reattached.named index _ target, ?_⟩
    rw [if_pos isOld]
    rfl
  calc ((part index).edges.filterMap plan).filter (·.kind ≠ .contains)
      = (part index).relations.filterMap plan := by
        rw [List.filter_filterMap, List.filterMap_congr keepsKind, CodeGraph.relations,
          List.filterMap_filter]
        simp
    _ = (graph.partAt index).relations.filterMap fun edge => some (edge.reattached final) := by
        rw [(reattached.carries index).relations, List.filterMap_map]
        exact List.filterMap_congr each
    _ = (graph.partAt index).relations.map (·.reattached final) := by
        rw [← List.filterMap_eq_map]
        rfl

/-- The relations between parts as they are planned. -/
theorem planned_between :
    graph.between.filterMap ((graph.reunion part).plannedCross? (graph.reunion part).namedNodes) =
      graph.between.map (·.reattached final) := by
  rw [← List.filterMap_eq_map]
  refine List.filterMap_congr fun edge member => ?_
  have ends := reattached.built.wellFormed.endpoints edge (List.mem_filter.mp member).1
  exact Merge.plannedCross?_eq_some_iff.mpr ⟨_, _, reattached.resolved?_merge ends.1,
    reattached.resolved?_merge ends.2, rfl⟩

/-- The relations in parts as they are planned. -/
theorem planned_inParts :
    ((graph.reunion part).plannedInParts (graph.reunion part).namedNodes).filter
        (·.kind ≠ .contains) =
      ((List.finRange graph.partGroups.length).flatMap fun index =>
        (graph.partAt index).relations).map (·.reattached final) := by
  rw [CodeGraph.plannedInParts_reunion, List.filter_flatMap, List.map_flatMap]
  exact List.flatMap_congr fun index _ => reattached.planned_part index

/-- **The relations of the merged graph are planned** in the order of the whole graph. -/
theorem planned_relations :
    ((graph.reunion part).plannedEdges (graph.reunion part).namedNodes).filter
        (·.kind ≠ .contains) = graph.relations.map (·.reattached final) := by
  let inParts := (graph.reunion part).plannedInParts (graph.reunion part).namedNodes
  let old := inParts.filter (·.id.isSome) ++ (graph.reunion part).crossEdges.filterMap
    ((graph.reunion part).plannedCross? (graph.reunion part).namedNodes)
  have relationsInParts := reattached.planned_inParts
  have known : ∀ edge ∈ inParts.filter (·.kind ≠ .contains), edge.id.isSome := by
    intro edge member
    rw [relationsInParts] at member
    obtain ⟨_, _, rfl⟩ := List.mem_map.mp member
    rfl
  have noneNew : (inParts.filter (·.id.isNone)).filter (·.kind ≠ .contains) = [] := by
    rw [List.filter_comm]
    refine List.filter_eq_nil_iff.mpr fun edge member => ?_
    simp [Option.isSome_iff_ne_none.mp (known edge member)]
  have between : ((graph.between.map (·.reattached final)).filter (·.kind ≠ .contains)) =
      graph.between.map (·.reattached final) := by
    refine List.filter_eq_self.mpr fun edge member => ?_
    obtain ⟨before, listed, rfl⟩ := List.mem_map.mp member
    exact decide_eq_true (reattached.built.noContainment before listed)
  have relations : old.filter (·.kind ≠ .contains) =
      ((List.finRange graph.partGroups.length).flatMap (fun index =>
        (graph.partAt index).relations) ++ graph.between).map (·.reattached final) := by
    have crossing : (graph.reunion part).crossEdges.filterMap
        ((graph.reunion part).plannedCross? (graph.reunion part).namedNodes) =
          graph.between.map (·.reattached final) := reattached.planned_between
    rw [List.filter_append, crossing, between, List.filter_comm, List.filter_eq_self.mpr known,
      relationsInParts, List.map_append]
  change ((old.mergeSort (·.seq ≤ ·.seq)) ++ inParts.filter (·.id.isNone)).filter _ = _
  rw [List.filter_append, noneNew, List.append_nil]
  -- Both are in the order of the sequence numbers, which are different.
  have order : (graph.relations.map (·.reattached final)).Pairwise (·.seq < ·.seq) :=
    List.pairwise_map.mpr (reattached.built.wellFormed.edgeOrder.sublist List.filter_sublist)
  have perm : ((old.mergeSort (·.seq ≤ ·.seq)).filter (·.kind ≠ .contains)).Perm
      (graph.relations.map (·.reattached final)) := by
    refine ((List.mergeSort_perm ..).filter _).trans ?_
    rw [relations]
    exact reattached.built.relations_perm.map _
  have sorted : ((old.mergeSort (·.seq ≤ ·.seq)).filter (·.kind ≠ .contains)).Pairwise
      fun first second => first.seq ≤ second.seq :=
    (pairwise_mergeSort_number PlannedEdge.seq old).sublist List.filter_sublist
  exact eq_of_perm_of_sorted PlannedEdge.seq perm sorted order

/-- **The relations of the merged graph** are those of the whole graph. -/
theorem relations_result :
    (graph.reunion part).result.relations.map Edge.data =
      graph.relations.map fun edge => (edge.led final).data := by
  have planned := reattached.planned_relations
  have known : ∀ edge ∈ (graph.reunion part).plannedEdges (graph.reunion part).namedNodes,
      edge.kind ≠ .contains → edge.id ≠ none := by
    intro edge member relation
    have listed : edge ∈ graph.relations.map (·.reattached final) :=
      planned ▸ List.mem_filter.mpr ⟨member, decide_eq_true relation⟩
    obtain ⟨_, _, rfl⟩ := List.mem_map.mp listed
    exact Option.some_ne_none _
  calc (graph.reunion part).result.relations.map Edge.data
      = (((graph.reunion part).plannedEdges (graph.reunion part).namedNodes).filter
          (·.kind ≠ .contains)).map PlannedEdge.data :=
        Merge.map_data_edgesFrom (fun kind => kind ≠ .contains) fun edge member relation =>
          known edge member (of_decide_eq_true relation)
    _ = (graph.relations.map (·.reattached final)).map PlannedEdge.data := by rw [planned]
    _ = graph.relations.map fun edge => (edge.led final).data := List.map_map

/-! ### Forwarding -/

/-- What a node ends as is in the merged graph. -/
theorem hasNode_final {id : String} (there : graph.hasNode id) :
    (graph.reunion part).result.hasNode (final id) := by
  obtain ⟨index, inPart⟩ := reattached.built.exists_partAt there
  exact Merge.hasNode_result_iff.mpr
    (Merge.mem_of_renamed? (reattached.named index id inPart))

/-- A node that is still in its part keeps its id. -/
theorem final_of_hasNode {index : Fin graph.partGroups.length} {id : String}
    (inPart : (graph.partAt index).hasNode id) (there : (part index).hasNode id) :
    final id = id ∧ (graph.reunion part).result.hasNode id := by
  obtain ⟨original, partOf⟩ := reattached.built.hasNode_partAt_iff.mp inPart
  have renamed := reattached.sound.renamed?_of_old
    (CodeGraph.parts_reunion_eq_some_iff.mpr ⟨index, rfl, rfl⟩) there partOf original
  have stays : place index id = id := by
    have resolved := reattached.resolved?_part inPart
    rw [CodeGraph.resolved?, CodeGraph.survivor?_of_hasNode there] at resolved
    exact (Option.some.inj resolved).symm
  have named := reattached.named index id inPart
  rw [stays, renamed, Option.some.injEq] at named
  exact ⟨named.symm, Merge.hasNode_result_iff.mpr (Merge.mem_of_renamed? renamed)⟩

/-- A node that is gone from its part is gone. -/
theorem hasNode_part_of_result {index : Fin graph.partGroups.length} {id : String}
    (inPart : (graph.partAt index).hasNode id) (there : (graph.reunion part).result.hasNode id) :
    (part index).hasNode id := by
  obtain ⟨original, partOf⟩ := reattached.built.hasNode_partAt_iff.mp inPart
  obtain ⟨entry, member, same⟩ := List.mem_map.mp (Merge.hasNode_result_iff.mp there)
  rcases List.mem_append.mp member with old | new
  · obtain ⟨item, isOld, rfl⟩ := List.mem_map.mp old
    obtain ⟨itemMember, itemPart, _⟩ := Merge.mem_oldNodes_iff.mp isOld
    obtain ⟨place, at_, isThere⟩ := CodeGraph.mem_partNodes_reunion_iff.mp itemMember
    change item.node.id = id at same
    change partOf? graph.partGroups item.node.id = some item.part at itemPart
    rw [same, partOf, Option.some.injEq] at itemPart
    obtain rfl : place = index := Fin.ext (at_.symm.trans itemPart.symm)
    exact same ▸ CodeGraph.hasNode_of_mem isThere
  · have unused := (Merge.gives_of_mem_nameNew new).1
    rw [same] at unused
    exact absurd (List.mem_append_left _ (CodeGraph.hasNode_iff.mp original)) unused

/-- What the merged graph forwards a node to that is gone. -/
theorem get?_forwarding_result {index : Fin graph.partGroups.length} {id : String}
    (inPart : (graph.partAt index).hasNode id) (gone : ¬(part index).hasNode id) :
    (graph.reunion part).result.forwarding.get? id = some (final id) := by
  have original := (reattached.built.hasNode_partAt_iff.mp inPart).1
  have resolved := reattached.resolved?_part inPart
  have target : ((part index).resolved? id).bind
      (Merge.renamed? (graph.reunion part).namedNodes index.val) = some (final id) := by
    rw [resolved, Option.bind_some, reattached.named index id inPart]
  refine Dict.get?_ofList ⟨(id, final id), ?_, rfl⟩ fun entry member same => ?_
  · refine (mem_forwarding_reunion_iff _).mpr ⟨index, ?_, original, target⟩
    exact Dict.mem_keys_iff.mpr (CodeGraph.forwarding_of_resolved? resolved gone)
  · obtain ⟨other, isKey, _, otherTarget⟩ := (mem_forwarding_reunion_iff _).mp member
    rw [same] at isKey otherTarget
    -- Only the part that had the node forwards it.
    have inOther : (graph.partAt other).hasNode id := by
      refine ((reattached.carries other).forwarded id ?_
        (Dict.mem_keys_iff.mp isKey)).resolve_right ?_
      · exact reattached.built.nodeSpent_partAt original other
      · exact fun some => some rfl
    obtain rfl : other = index := by
      have first := (reattached.built.hasNode_partAt_iff.mp inOther).2
      rw [(reattached.built.hasNode_partAt_iff.mp inPart).2, Option.some.injEq] at first
      exact Fin.ext first.symm
    rw [target, Option.some.injEq] at otherTarget
    exact otherTarget.symm

/-- **Forwarding.** The merged graph forwards a node to what is in the place of it. -/
theorem resolved?_result {id : String} (there : graph.hasNode id) :
    (graph.reunion part).result.resolved? id = some (final id) := by
  obtain ⟨index, inPart⟩ := reattached.built.exists_partAt there
  by_cases stays : (part index).hasNode id
  · obtain ⟨same, isThere⟩ := reattached.final_of_hasNode inPart stays
    rw [same]
    exact CodeGraph.survivor?_of_hasNode isThere _
  · refine CodeGraph.resolved?_of_forwarding ?_ (reattached.get?_forwarding_result inPart stays)
      (reattached.hasNode_final there)
    exact fun isThere => stays (reattached.hasNode_part_of_result inPart isThere)

end Reattached

/-! ### Transforming -/

/-- A later graph has the relations of a graph in their order, with their ends led to what is in the
place of them, and forwards every node so. -/
structure CodeGraph.KeepsRelations (graph : CodeGraph) (place : String → String)
    (after : CodeGraph) : Prop where
  relations : after.relations.map Edge.data = graph.relations.map fun edge => (edge.led place).data
  live : ∀ id, graph.hasNode id → after.hasNode (place id)
  forwarded : ∀ id, graph.hasNode id → after.resolved? id = some (place id)

/-- What a graph that is transformed in parts has in the place of a node: what the rewrites of its
part have put there, as the merge calls it. -/
def CodeGraph.placeApart (graph : CodeGraph) (rules : List Rule) (passes : Nat) (id : String) :
    String :=
  let parts := graph.parts.map (·.stage rules passes)
  let place : Option String := do
    let index ← partOf? graph.partGroups id
    let part ← graph.parts[index]?
    Merge.renamed? (graph.mergeOf parts).namedNodes index
      (Rewrite.placeAfter (part.rewritesOver rules passes) id)
  place.getD id

/-- Merging the parts behind a number of passes is their reunion. -/
theorem CodeGraph.mergeOf_stage (graph : CodeGraph) (rules : List Rule) (passes : Nat) :
    graph.mergeOf (graph.parts.map (·.stage rules passes)) =
      graph.reunion fun index => (graph.partAt index).stage rules passes := by
  rw [CodeGraph.parts_eq, List.map_map]
  rfl

section Transforming

variable {graph : CodeGraph} {rules : List Rule} (valid : ∀ rule ∈ rules, rule.Valid)

include valid

/-- A graph is transformed to its last stage, or to the merge of the last stages of its parts. -/
theorem CodeGraph.exists_transform_stage (wellFormed : graph.WellFormed)
    (separate : rules.any (·.crossDeclaration) = false) (mode : RunMode) :
    (∃ result, transform graph rules mode = .ok result ∧
      result.graph = graph.stage rules mode.passes) ∧
    ∃ result, transformApart graph rules mode = .ok result ∧
      result.graph =
        (graph.reunion fun index => (graph.partAt index).stage rules mode.passes).result := by
  constructor
  · obtain ⟨result, ran, describes⟩ := exists_transform_describes valid wellFormed mode
    exact ⟨result, ran, describes.last⟩
  · obtain ⟨results, transformed⟩ := exists_forall₂ fun part member =>
      exists_transform_describes valid (wellFormed.parts part member) mode
    have stages : results.map (·.graph) = graph.parts.map (·.stage rules mode.passes) :=
      (forall₂_iff_map_eq.mp (transformed.imp fun _ _ ran => ran.2.last.symm)).symm
    obtain ⟨_, merged⟩ := transformParts_eq wellFormed (transformed.imp fun _ _ ran => ran.1)
    rw [stages, graph.mergeOf_stage] at merged
    refine ⟨.combined _ results, ?_, rfl⟩
    rw [transformApart, separate]
    exact merged

variable (only : ∀ rule ∈ rules, rule.OnlyContains)

include only

/-- A run keeps the relations of a settled graph. -/
theorem CodeGraph.WellFormed.keepsRelations_stage (wellFormed : graph.WellFormed)
    (settled : graph.Settled) (passes : Nat) :
    graph.KeepsRelations (Rewrite.placeAfter (graph.rewritesOver rules passes))
      (graph.stage rules passes) := by
  have carries := wellFormed.carries_stage valid only passes
  refine ⟨?_, carries.live, fun id there => ?_⟩
  · rw [carries.relations, List.map_map]
    rfl
  · obtain ⟨node, member, rfl⟩ := List.mem_map.mp (CodeGraph.hasNode_iff.mp there)
    exact carries.resolved settled _ _ (settled.nodes node member)
      (CodeGraph.survivor?_of_hasNode there _)

/-- The stages of the parts of a built graph carry over its relations. -/
theorem CodeGraph.Built.reattached_stage (built : graph.Built) (passes : Nat) :
    Reattached graph (fun index => (graph.partAt index).stage rules passes)
      (fun index => Rewrite.placeAfter ((graph.partAt index).rewritesOver rules passes))
      (graph.placeApart rules passes) := by
  have formed (index : Fin graph.partGroups.length) :=
    (built.wellFormed.partAt index).stage valid passes
  have carries (index : Fin graph.partGroups.length) :=
    (built.wellFormed.partAt index).carries_stage valid only passes
  refine ⟨built, formed, carries, fun index id there => ?_⟩
  have sameParts := graph.mergeOf_stage rules passes
  have at_ : graph.parts[index.val]? = some (graph.partAt index) := by
    simp [CodeGraph.parts_eq]
  have partOf := (built.hasNode_partAt_iff.mp there).2
  obtain ⟨new, renamed⟩ := (built.wellFormed.sound_reunion formed).exists_renamed?
    (CodeGraph.parts_reunion_eq_some_iff.mpr ⟨index, rfl, rfl⟩) ((carries index).live id there)
  simp only [CodeGraph.placeApart, sameParts, partOf, at_, renamed, Option.bind_eq_bind,
    Option.bind_some, Option.getD_some]

/-- A built graph that is transformed by rules that have to do with containment only keeps its
relations, as a whole and in parts. -/
theorem CodeGraph.Built.exists_keepsRelations (built : graph.Built)
    (separate : rules.any (·.crossDeclaration) = false) (mode : RunMode) :
    (∃ result, transform graph rules mode = .ok result ∧
      graph.KeepsRelations (Rewrite.placeAfter (graph.rewritesOver rules mode.passes))
        result.graph) ∧
    ∃ result, transformApart graph rules mode = .ok result ∧
      graph.KeepsRelations (graph.placeApart rules mode.passes) result.graph := by
  obtain ⟨⟨whole, ran, last⟩, apart, apartRan, apartLast⟩ :=
    CodeGraph.exists_transform_stage valid built.wellFormed separate mode
  refine ⟨⟨whole, ran, ?_⟩, apart, apartRan, ?_⟩
  · rw [last]
    exact built.wellFormed.keepsRelations_stage valid only built.settled mode.passes
  · have reattached := built.reattached_stage valid only mode.passes
    rw [apartLast]
    exact ⟨reattached.relations_result, fun _ => reattached.hasNode_final,
      fun _ => reattached.resolved?_result⟩

end Transforming

/-- **Relations survive.** Transformed by the automated built-in rules in either way, the graph of a
syntax tree has the relations that it had, in their order and with their ids, kinds and attributes,
and no others. Each of their ends is what the rewrites that were made have put in its place one
after the other, and nothing else where none of them replaced it. -/
theorem relations_survive {tree : SyntaxTree} {graph : CodeGraph}
    (ok : buildGraph tree = .ok graph) (mode : RunMode) :
    (∃ result, transform graph Builtin.catalog.automated mode = .ok result ∧
      graph.KeepsRelations
        (Rewrite.placeAfter (graph.rewritesOver Builtin.catalog.automated mode.passes))
        result.graph) ∧
    ∃ result, transformApart graph Builtin.catalog.automated mode = .ok result ∧
      graph.KeepsRelations (graph.placeApart Builtin.catalog.automated mode.passes)
        result.graph :=
  (buildGraph_built ok).exists_keepsRelations Builtin.valid_of_mem Builtin.onlyContains_of_mem
    (by decide) mode

/-- A static method that calls itself, and a method of another class that calls it. -/
def recursiveCall : SyntaxTree where
  kind := .program
  range := default
  children := [
    { kind := .classDecl, name := some "A", range := default
      children := [{ kind := .method, name := some "f", range := default
                     attributes := Dict.empty.insert "modifiers" "static"
                     children := [{ kind := .block, range := default
                                    children := [{ kind := .call, name := some "f"
                                                   range := default }] }] }] },
    { kind := .classDecl, name := some "B", range := default
      children := [{ kind := .method, name := some "g", range := default
                     children := [{ kind := .block, range := default
                                    children := [{ kind := .call, name := some "f"
                                                   range := default }] }] }] }]

/-- The calls of a static method, by itself and from another class, are there in either way. -/
theorem relations_survive_recursiveCall :
    ∃ (graph : CodeGraph) (whole apart : Transformed) (place other : String → String),
      buildGraph recursiveCall = .ok graph ∧
      transform graph Builtin.catalog.automated (.fixpoint 5) = .ok whole ∧
      whole.graph.relations.map Edge.data =
        [⟨"e2", place "n1", place "n1", .calls, ∅⟩, ⟨"e3", place "n3", place "n1", .calls, ∅⟩] ∧
      transformApart graph Builtin.catalog.automated (.fixpoint 5) = .ok apart ∧
      apart.graph.relations.map Edge.data =
        [⟨"e2", other "n1", other "n1", .calls, ∅⟩, ⟨"e3", other "n3", other "n1", .calls, ∅⟩] := by
  have checked :
      (buildGraph recursiveCall).toOption.any (fun graph => graph.relations.map Edge.data =
      [⟨"e2", "n1", "n1", .calls, ∅⟩, ⟨"e3", "n3", "n1", .calls, ∅⟩]) = true := by
    decide +kernel
  cases ok : buildGraph recursiveCall with
  | error _ =>
      rw [ok] at checked
      cases checked
  | ok graph =>
      rw [ok] at checked
      have calls := of_decide_eq_true checked
      obtain ⟨⟨whole, ran, keeps⟩, apart, apartRan, apartKeeps⟩ :=
        relations_survive ok (.fixpoint 5)
      have shown {place : String → String} {after : CodeGraph}
          (keeps : graph.KeepsRelations place after) : after.relations.map Edge.data =
            (graph.relations.map Edge.data).map fun data =>
              { data with source := place data.source, target := place data.target } := by
        rw [keeps.relations, List.map_map]
        rfl
      rw [calls] at shown
      exact ⟨graph, whole, apart, _, _, rfl, ran, shown keeps, apartRan, shown apartKeeps⟩

end Transcode
