import Transcode.Proofs.Declarations
import Transcode.Proofs.Growth
import Transcode.Proofs.Reassembly

/-!
# Nothing is lost in a merge

The parts of a graph can be transformed by any rules, each on its own, and then merged: the merged
graph has what the parts have, and the edges between parts lead to what the parts have in the place
of their ends (`CodeGraph.Reunites`). No edge is dropped, since in each part the replacements of a
node can be followed to a node that is there (`CodeGraph.Follows`).

The graph may not have ids of the form that parts make
(`transformParts_reunites`).
-/

namespace Transcode

namespace CodeGraph

/-! ### Replacements that are followed -/

/-- A node that is there, and that any number of replacements lead to from a node. -/
def LeadsTo (graph : CodeGraph) (id last : String) : Prop :=
  Relation.ReflTransGen (fun old new => graph.forwarding.get? old = some new) id last ∧
    graph.hasNode last

variable {graph : CodeGraph} {id first second last : String}

/-- What survives is come to by following replacements. -/
theorem leadsTo_of_survivor? {fuel : Nat} (survives : graph.survivor? fuel id = some last) :
    graph.LeadsTo id last := by
  induction fuel generalizing id with
  | zero =>
      unfold survivor? at survives
      split at survives
      · rename_i there
        cases survives
        exact ⟨.refl, there⟩
      · cases survives
  | succ fuel ih =>
      unfold survivor? at survives
      split at survives
      · rename_i there
        cases survives
        exact ⟨.refl, there⟩
      · obtain ⟨next, forwarded, later⟩ := Option.bind_eq_some_iff.mp survives
        exact ⟨.head forwarded (ih later).1, (ih later).2⟩

/-- In a settled graph replacements lead to one node, since a node that is there is not replaced. -/
theorem Settled.eq_of_leadsTo (settled : graph.Settled) (one : graph.LeadsTo id first)
    (other : graph.LeadsTo id second) : first = second := by
  have live {id next : String} (there : graph.hasNode id)
      (forwarded : graph.forwarding.get? id = some next) : False := by
    rw [(settled.forwarding id next forwarded).2.2] at there
    cases there
  obtain ⟨chain, there⟩ := one
  induction chain using Relation.ReflTransGen.head_induction_on with
  | refl =>
      rcases other.1.cases_head with same | ⟨next, forwarded, _⟩
      · exact same
      · exact (live there forwarded).elim
  | head forwarded _ ih =>
      rcases other.1.cases_head with rfl | ⟨next, otherForwarded, later⟩
      · exact (live other.2 forwarded).elim
      · obtain rfl := Option.some.inj (forwarded.symm.trans otherForwarded)
        exact ih ⟨later, other.2⟩

/-! ### Graphs that are rewritten -/

/-- A settled graph has become another one. An edge that was not there before has an id that was not
used up, and from each node that was there replacements lead to one that is there. -/
structure Follows (before after : CodeGraph) : Prop where
  settled : after.Settled
  nodesSpent : ∀ id, before.NodeSpent id → after.NodeSpent id
  edgesSpent : ∀ id, before.EdgeSpent id → after.EdgeSpent id
  edges : ∀ edge ∈ after.edges, before.hasEdge edge.id ∨ ¬before.EdgeSpent edge.id
  resolved : ∀ id, before.hasNode id → ∃ last, after.resolved? id = some last

/-- A settled graph follows itself. -/
theorem Settled.follows (settled : graph.Settled) : graph.Follows graph where
  settled := settled
  nodesSpent _ spent := spent
  edgesSpent _ spent := spent
  edges _ member := .inl (hasEdge_iff.mpr (List.mem_map_of_mem member))
  resolved id there := ⟨id, survivor?_of_hasNode there _⟩

end CodeGraph

/-- **One rewrite.** -/
theorem Rewrite.Genuine.follows {rules : List Rule} {rewrite : Rewrite} {start : CodeGraph}
    (genuine : rewrite.Genuine rules) (valid : rewrite.rule.Valid) (settled : start.Settled)
    (follows : start.Follows rewrite.before.graph) : start.Follows rewrite.after.graph := by
  obtain ⟨addition, applies, made⟩ := genuine.applies
  rw [made]
  refine ⟨applies.settled follows.settled,
    fun id spent => applies.added.nodeSpent_result (follows.nodesSpent id spent),
    fun id spent => applies.added.edgeSpent_result (follows.edgesSpent id spent),
    fun edge member => ?_, fun id there => ?_⟩
  · rcases List.mem_append.mp member with old | new
    · obtain ⟨before, listed, rewritten⟩ := List.mem_filterMap.mp old
      rw [Edge.id_of_rewritten? rewritten]
      exact follows.edges before listed
    · exact .inr fun spent => applies.added.not_edgeSpent new (follows.edgesSpent _ spent)
  · obtain ⟨last, resolved⟩ := follows.resolved id there
    obtain ⟨node, member, rfl⟩ := List.mem_map.mp (CodeGraph.hasNode_iff.mp there)
    have spent := follows.nodesSpent _ (settled.nodes node member)
    have replaced := applies.fits.replaced_ne_nil valid
    exact ⟨_, applies.resolved?_eq follows.settled replaced spent resolved⟩

namespace CodeGraph

variable {graph : CodeGraph} {rules : List Rule} {id : String}

/-- **Any number of passes.** -/
theorem WellFormed.follows_stage (wellFormed : graph.WellFormed)
    (valid : ∀ rule ∈ rules, rule.Valid) (settled : graph.Settled) (passes : Nat) :
    graph.Follows (graph.stage rules passes) :=
  wellFormed.stage_induction valid (fun _ genuine =>
    genuine.follows (valid _ (List.mem_of_getElem? genuine.listed)) settled) settled.follows passes

/-! ### Ids that parts make -/

/-- An id of the form that edges have which are made in parts. -/
def IsPartEdgeName (id : String) : Prop :=
  ∃ index number : Nat, id = (withNamespace ("p" ++ toString index ++ ".")).edgeName number

/-- An edge that a part can still make is named in its namespace. -/
theorem isPartEdgeName_of_not_edgeSpent {index : Fin graph.partGroups.length}
    (unspent : ¬(graph.partAt index).EdgeSpent id) : IsPartEdgeName id := by
  unfold EdgeSpent at unspent
  push Not at unspent
  obtain ⟨number, _, made⟩ := unspent
  exact ⟨index.val, number, made⟩

/-- No id of a graph has the form of those that parts make. -/
structure NoPartNames (graph : CodeGraph) : Prop where
  nodes : ∀ node ∈ graph.nodes, ¬IsPartName node.id
  edges : ∀ edge ∈ graph.edges, ¬IsPartEdgeName edge.id

namespace NoPartNames

variable (names : graph.NoPartNames)

include names

/-- What is there has been spent in each part. -/
theorem nodeSpent (there : graph.hasNode id) (index : Fin graph.partGroups.length) :
    (graph.partAt index).NodeSpent id := by
  obtain ⟨node, member, rfl⟩ := List.mem_map.mp (hasNode_iff.mp there)
  by_contra unspent
  exact names.nodes node member (isPartName_of_not_nodeSpent unspent)

/-- An edge that is there has been spent in each part. -/
theorem edgeSpent (there : graph.hasEdge id) (index : Fin graph.partGroups.length) :
    (graph.partAt index).EdgeSpent id := by
  obtain ⟨edge, member, rfl⟩ := List.mem_map.mp (hasEdge_iff.mp there)
  by_contra unspent
  exact names.edges edge member (isPartEdgeName_of_not_edgeSpent unspent)

/-- Each part is settled. -/
theorem settled_partAt (wellFormed : graph.WellFormed) (index : Fin graph.partGroups.length) :
    (graph.partAt index).Settled where
  nodes _ member :=
    names.nodeSpent (wellFormed.hasNode_partAt_iff.mp (hasNode_of_mem member)).1 index
  edges _ member := names.edgeSpent
    (hasEdge_iff.mpr (List.mem_map_of_mem (mem_edges_partAt.mp member).1)) index
  history _ member := by cases member
  forwarding _ _ forwarded := by cases forwarded

end NoPartNames

/-- The ids of a built graph are not such as parts make. -/
theorem Built.noPartNames (built : graph.Built) : graph.NoPartNames where
  nodes _ member := built.not_isPartName (hasNode_of_mem member)
  edges edge member := by
    obtain ⟨number, _, named⟩ := built.edgeNames edge member
    rintro ⟨index, other, same⟩
    exact edgeName_ne_of_namespace built.noNamespace String.append_assoc number other
      (named.symm.trans same)

/-! ### What a merge reunites -/

/-- An edge of a merged graph is that of a part. It has the id of that if the graph that was split
has this id, and else an id that this graph does not have. -/
structure IsEdge (graph : CodeGraph) (edge merged : Edge) : Prop where
  source : merged.source = edge.source
  target : merged.target = edge.target
  kind : merged.kind = edge.kind
  attributes : merged.attributes = edge.attributes
  old : graph.hasEdge edge.id → merged.id = edge.id
  new : ¬graph.hasEdge edge.id → ¬graph.hasEdge merged.id

/-- What a merged graph has of parts of a graph that was split. It calls a node by its part and its
id there, and an end of an edge between parts by the id in the graph. -/
structure Reunites (graph : CodeGraph) (split : Split) (parts : List CodeGraph)
    (name : Nat → String → String) (place : String → String) (merged : CodeGraph) : Prop where
  formed : merged.WellFormed
  /-- The nodes are those of the parts. -/
  nodes : ∃ items : List PartNode,
    items.Perm (parts.zipIdx.flatMap fun (part, index) => part.nodes.map (PartNode.mk index)) ∧
      List.Forall₂ (fun item merged =>
        merged.id = name item.part item.node.id ∧ merged.spec = item.node.spec) items merged.nodes
  /-- A node of the graph that a part still has keeps its id and all else. -/
  old : ∀ index part, parts[index]? = some part → ∀ node ∈ part.nodes, graph.hasNode node.id →
    name index node.id = node.id ∧ node.data ∈ graph.nodes.map Node.data
  /-- Nodes of the graph come in their order. -/
  inOrder : ((merged.nodes.map (·.id)).filter graph.hasNode).Sublist (graph.nodes.map (·.id))
  /-- A node that a part has made gets an id that neither the graph nor its history has. -/
  new : ∀ index part, parts[index]? = some part → ∀ node ∈ part.nodes, ¬graph.hasNode node.id →
    ¬graph.hasNode (name index node.id) ∧ name index node.id ∉ graph.history.map (·.node)
  /-- The edges are those of the parts and those between parts. -/
  edges : ∃ items : List Edge,
    items.Perm (parts.zipIdx.flatMap (fun (part, index) => part.edges.map (·.led (name index))) ++
      split.crossEdges.map (·.led place)) ∧
      List.Forall₂ graph.IsEdge items merged.edges
  /-- An edge between parts leads to what the replacements of a part lead to. -/
  led : ∀ id, graph.hasNode id → ∃ index before part last, split.parts[index]? = some before ∧
    before.hasNode id ∧ parts[index]? = some part ∧ part.LeadsTo id last ∧
    (∀ other, part.LeadsTo id other → other = last) ∧ place id = name index last

end CodeGraph

/-- Parts that the parts of a graph have become, and can be merged again. -/
structure Kept (graph : CodeGraph) (part : Fin graph.partGroups.length → CodeGraph) : Prop where
  wellFormed : graph.WellFormed
  names : graph.NoPartNames
  formed : ∀ index, (part index).WellFormed
  follows : ∀ index, (graph.partAt index).Follows (part index)
  grows : ∀ index, ∃ created, (graph.partAt index).Grows created (part index)

/-- The place that a node of a part had is that of a node of the whole graph. -/
theorem Merge.Sound.oldSeq?_eq_some_iff {merge : Merge} (sound : merge.Sound) {item : PartNode}
    {seq : Nat} :
    merge.oldSeq? item = some seq ↔ partOf? merge.groups item.node.id = some item.part ∧
      ∃ node ∈ merge.whole.nodes, node.id = item.node.id ∧ node.seq = seq := by
  unfold oldSeq?
  split
  · simp only [Option.map_eq_some_iff, sound.whole.node?_eq_some_iff, and_assoc, true_and, *]
  · simp [*]

/-- The old nodes of a merge are nodes of the whole graph in their order. -/
theorem Merge.Sound.oldNodes_eq {merge : Merge} (sound : merge.Sound) :
    merge.oldNodes.map (·.node.id) =
      (merge.whole.nodes.filter (·.id ∈ merge.oldNodes.map (·.node.id))).map (·.id) := by
  let old := merge.partNodes.filterMap fun item => (merge.oldSeq? item).map (·, item)
  let placed := (old.mergeSort (·.1 ≤ ·.1)).map fun entry => (entry.1, entry.2.node.id)
  let left := (merge.whole.nodes.filter (·.id ∈ merge.oldNodes.map (·.node.id))).map
    fun node => (node.seq, node.id)
  have ids : placed.map Prod.snd = merge.oldNodes.map (·.node.id) := by
    simp only [placed, oldNodes, old, List.map_map]
    rfl
  have order : left.Pairwise (·.1 < ·.1) :=
    List.pairwise_map.mpr (sound.whole.nodeOrder.sublist List.filter_sublist)
  have sorted : placed.Pairwise (·.1 ≤ ·.1) :=
    List.pairwise_map.mpr (pairwise_mergeSort_number Prod.fst old)
  have distinct : placed.Nodup := by
    refine List.Nodup.of_map Prod.snd ?_
    have named := sound.nodup_namedNodes
    rw [namedNodes, List.map_append, List.map_map] at named
    rw [ids]
    exact (List.nodup_append.mp named).1
  have perm : placed.Perm left := by
    refine (List.perm_ext_iff_of_nodup distinct (order.imp fun less same => ?_)).mpr ?_
    · exact Nat.lt_irrefl _ (same ▸ less)
    · rintro ⟨seq, id⟩
      simp only [placed, left, old, List.mem_map, (List.mergeSort_perm _ _).mem_iff,
        List.mem_filterMap, Option.map_eq_some_iff, sound.oldSeq?_eq_some_iff, List.mem_filter,
        decide_eq_true_eq]
      constructor
      · rintro ⟨_, ⟨item, there, _, ⟨partOf, node, member, same, rfl⟩, rfl⟩, equal⟩
        obtain ⟨rfl, rfl⟩ := Prod.mk.inj equal
        exact ⟨node, ⟨member, item, mem_oldNodes_iff.mpr ⟨there, partOf,
          same ▸ CodeGraph.hasNode_of_mem member⟩, same.symm⟩, by rw [same]⟩
      · rintro ⟨node, ⟨member, item, isOld, same⟩, equal⟩
        obtain ⟨rfl, rfl⟩ := Prod.mk.inj equal
        obtain ⟨there, partOf, _⟩ := mem_oldNodes_iff.mp isOld
        exact ⟨_, ⟨item, there, _, ⟨partOf, node, member, same.symm, rfl⟩, rfl⟩, by rw [same]⟩
  calc merge.oldNodes.map (·.node.id) = left.map Prod.snd := by
        rw [← ids, eq_of_perm_of_sorted Prod.fst perm sorted order]
    _ = _ := List.map_map

/-- A node has the data of another under an id. -/
theorem Node.data_eq_iff {node other : Node} {id : String} :
    node.data = ⟨id, other.label, other.kind, other.attributes⟩ ↔
      node.id = id ∧ node.spec = other.spec := by
  rw [data, spec, spec, NodeData.mk.injEq, NodeSpec.mk.injEq]
  tauto

namespace Kept

variable {graph : CodeGraph} {part : Fin graph.partGroups.length → CodeGraph}
  {index : Fin graph.partGroups.length}

/-- What the merge calls a node of a part. -/
def name (graph : CodeGraph) (part : Fin graph.partGroups.length → CodeGraph) (index : Nat)
    (id : String) : String :=
  (Merge.renamed? (graph.reunion part).namedNodes index id).getD id

/-- What the merge calls that which is in the place of a node. -/
def place (graph : CodeGraph) (part : Fin graph.partGroups.length → CodeGraph) (id : String) :
    String :=
  ((graph.reunion part).resolved? (graph.reunion part).namedNodes id).getD id

variable (kept : Kept graph part)

include kept

theorem sound : (graph.reunion part).Sound := kept.wellFormed.sound_reunion kept.formed

/-! ### Nodes -/

/-- A node that a part has and that is in the graph was in this part from the start. -/
theorem mem_partAt {node : Node} (member : node ∈ (part index).nodes)
    (original : graph.hasNode node.id) : node ∈ (graph.partAt index).nodes := by
  obtain ⟨created, grows⟩ := kept.grows index
  refine (grows.nodes node member).resolve_right fun made => ?_
  obtain ⟨creation, isMade, same⟩ := List.mem_map.mp made
  exact grows.fresh creation isMade (same ▸ kept.names.nodeSpent original index)

/-- A node of a part has its name in the reunion. -/
theorem renamed?_eq {id : String} (there : (part index).hasNode id) :
    Merge.renamed? (graph.reunion part).namedNodes index.val id =
      some (name graph part index.val id) := by
  obtain ⟨new, renamed⟩ := kept.sound.exists_renamed?
    (CodeGraph.parts_reunion_eq_some_iff.mpr ⟨index, rfl, rfl⟩) there
  rw [name, renamed, Option.getD_some]

/-- The nodes of the merged graph are those of the parts. -/
theorem nodes_aligned :
    List.Forall₂ (fun item merged =>
        merged.id = name graph part item.part item.node.id ∧ merged.spec = item.node.spec)
      ((graph.reunion part).namedNodes.map (·.1)) (graph.reunion part).result.nodes := by
  rw [List.forall₂_map_left_iff]
  have aligned := forall₂_iff_map_eq.mpr (graph.reunion part).map_data_result.symm
  refine (forall₂_congr_of_mem fun entry member node _ => ?_).mp aligned
  obtain ⟨⟨index, before⟩, id⟩ := entry
  have named : name graph part index before.id = id := by
    rw [name, kept.sound.renamed?_of_named member, Option.getD_some]
  rw [named]
  exact eq_comm.trans Node.data_eq_iff

/-- An original node keeps its id and its data. -/
theorem old {node : Node} (member : node ∈ (part index).nodes)
    (original : graph.hasNode node.id) :
    name graph part index.val node.id = node.id ∧ node.data ∈ graph.nodes.map Node.data := by
  have inPart := kept.mem_partAt member original
  constructor
  · have renamed := kept.sound.renamed?_of_old
      (CodeGraph.parts_reunion_eq_some_iff.mpr ⟨index, rfl, rfl⟩) (CodeGraph.hasNode_of_mem member)
      (kept.wellFormed.hasNode_partAt_iff.mp (CodeGraph.hasNode_of_mem inPart)).2 original
    rw [name, renamed, Option.getD_some]
  · exact kept.wellFormed.nodes_perm.mem_iff.mp
      (List.mem_flatMap.mpr ⟨index, List.mem_finRange index, List.mem_map_of_mem inPart⟩)

/-- A new node gets an id outside of the graph and its history. -/
theorem new {node : Node} (member : node ∈ (part index).nodes)
    (isNew : ¬graph.hasNode node.id) :
    ¬graph.hasNode (name graph part index.val node.id) ∧
      name graph part index.val node.id ∉ graph.history.map (·.node) := by
  obtain ⟨before, after, calls, same, named⟩ := Merge.exists_calls_of_renamed?
    (kept.renamed?_eq (CodeGraph.hasNode_of_mem member))
  rcases List.mem_append.mp calls.named with listed | listed
  · obtain ⟨item, isOld, equal⟩ := List.mem_map.mp listed
    obtain rfl : item = ⟨index.val, before⟩ := (Prod.mk.inj equal).1
    exact absurd (same ▸ (Merge.mem_oldNodes_iff.mp isOld).2.2) isNew
  · have unused := (Merge.gives_of_mem_nameNew listed).1
    rw [named] at unused
    refine ⟨fun there => unused ?_, fun there => unused ?_⟩
    · exact List.mem_append_left _ (CodeGraph.hasNode_iff.mp there)
    · exact List.mem_append_right _ there

/-- The nodes of the graph that are left are in their order in the merged graph. -/
theorem inOrder :
    (((graph.reunion part).result.nodes.map (·.id)).filter graph.hasNode).Sublist
      (graph.nodes.map (·.id)) := by
  let merge := graph.reunion part
  have ids : merge.result.nodes.map (·.id) =
      merge.oldNodes.map (·.node.id) ++ (Merge.nameNew merge.nodeIds merge.newNodes).map (·.2) := by
    rw [Merge.result, CodeGraph.map_id_numbered, List.map_map, Merge.namedNodes, List.map_append,
      List.map_map]
    rfl
  have oldKept : (merge.oldNodes.map (·.node.id)).filter graph.hasNode =
      merge.oldNodes.map (·.node.id) := by
    refine List.filter_eq_self.mpr fun id member => ?_
    obtain ⟨item, isOld, rfl⟩ := List.mem_map.mp member
    exact (Merge.mem_oldNodes_iff.mp isOld).2.2
  have newGone : ((Merge.nameNew merge.nodeIds merge.newNodes).map (·.2)).filter graph.hasNode =
      [] := by
    refine List.filter_eq_nil_iff.mpr fun id member there => ?_
    obtain ⟨entry, isNew, rfl⟩ := List.mem_map.mp member
    exact (Merge.gives_of_mem_nameNew isNew).1
      (List.mem_append_left _ (CodeGraph.hasNode_iff.mp there))
  rw [ids, List.filter_append, oldKept, newGone, List.append_nil, kept.sound.oldNodes_eq]
  exact List.filter_sublist.map _

/-! ### Edges -/

/-- What an edge of a part is planned as. -/
theorem plans_inPart (index : Fin graph.partGroups.length) :
    List.Forall₂ (Plans graph id) ((part index).edges.map (·.led (name graph part index.val)))
      ((part index).edges.filterMap
        ((graph.reunion part).planned? (graph.reunion part).namedNodes index.val)) := by
  rw [List.forall₂_map_left_iff]
  refine forall₂_filterMap (List.forall₂_same.mpr fun edge _ => Eq.refl edge) ?_
  rintro _ member edge rfl
  obtain ⟨source, target⟩ := (kept.formed index).endpoints edge member
  refine ⟨_, Merge.planned?_eq_some_iff.mpr
    ⟨_, _, kept.renamed?_eq source, kept.renamed?_eq target, rfl⟩, rfl, rfl, rfl, rfl, ?_⟩
  dsimp only
  split
  · exact .inl rfl
  · rename_i isNew
    refine .inr ⟨rfl, fun original => isNew (kept.wellFormed.isOldEdge_iff.mpr ?_)⟩
    exact ((kept.follows index).edges edge member).resolve_right
      (not_not.mpr (kept.names.edgeSpent original index))

/-- The replacements of a node are followed in its part. -/
theorem exists_resolved? {id : String} (there : (graph.partAt index).hasNode id) :
    ∃ last, (part index).LeadsTo id last ∧ (∀ other, (part index).LeadsTo id other → other = last) ∧
      (graph.reunion part).resolved? (graph.reunion part).namedNodes id =
        some (name graph part index.val last) := by
  obtain ⟨last, resolved⟩ := (kept.follows index).resolved id there
  have leads : (part index).LeadsTo id last := CodeGraph.leadsTo_of_survivor? resolved
  refine ⟨last, leads, fun other otherLeads =>
    (kept.follows index).settled.eq_of_leadsTo otherLeads leads, ?_⟩
  have partOf : partOf? (graph.reunion part).groups id = some index.val :=
    (kept.wellFormed.hasNode_partAt_iff.mp there).2
  have at_ : (graph.reunion part).parts[index.val]? = some (part index) :=
    CodeGraph.parts_reunion_eq_some_iff.mpr ⟨index, rfl, rfl⟩
  simp only [Merge.resolved?, Option.bind_eq_bind, partOf, Option.bind_some, at_, resolved,
    kept.renamed?_eq leads.2]

/-- The end of an edge between parts is where its node has its place. -/
theorem resolved?_eq {id : String} (there : graph.hasNode id) :
    (graph.reunion part).resolved? (graph.reunion part).namedNodes id =
      some (place graph part id) := by
  obtain ⟨index, inPart⟩ := kept.wellFormed.exists_partAt there
  obtain ⟨last, _, _, resolved⟩ := kept.exists_resolved? inPart
  rw [place, resolved, Option.getD_some]

/-- What an edge between parts is planned as. -/
theorem plans_between :
    List.Forall₂ (Plans graph id) (graph.between.map (·.led (place graph part)))
      (graph.between.filterMap
        ((graph.reunion part).plannedCross? (graph.reunion part).namedNodes)) := by
  rw [List.forall₂_map_left_iff]
  refine forall₂_filterMap (List.forall₂_same.mpr fun edge _ => Eq.refl edge) ?_
  rintro _ member edge rfl
  obtain ⟨source, target⟩ := kept.wellFormed.endpoints edge (List.mem_filter.mp member).1
  exact ⟨_, Merge.plannedCross?_eq_some_iff.mpr
    ⟨_, _, kept.resolved?_eq source, kept.resolved?_eq target, rfl⟩, rfl, rfl, rfl, rfl, .inl rfl⟩

/-- The edges of the merged graph are those of the parts and those between parts. -/
theorem exists_edges_aligned :
    ∃ items : List Edge,
      items.Perm ((List.finRange graph.partGroups.length).flatMap (fun index =>
          (part index).edges.map (·.led (name graph part index.val))) ++
        graph.between.map (·.led (place graph part))) ∧
      List.Forall₂ graph.IsEdge items (graph.reunion part).result.edges := by
  have planned := List.rel_append
    (forall₂_flatMap fun index (_ : index ∈ List.finRange graph.partGroups.length) =>
      kept.plans_inPart index) kept.plans_between
  rw [← CodeGraph.plannedInParts_reunion] at planned
  obtain ⟨ordered, aligned, perm⟩ := List.perm_comp_forall₂
    ((graph.reunion part).plannedEdges_perm (graph.reunion part).namedNodes) planned.flip
  refine ⟨ordered, perm, (forall₂_edgesFrom aligned.flip rfl).imp fun edge merged realizes => ?_⟩
  refine ⟨realizes.source, realizes.target, realizes.kind, realizes.attributes, fun there => ?_,
    fun isNew => ?_⟩
  · exact realizes.id.resolve_right fun both => both.2 there
  · rcases realizes.id with same | ⟨apart, _⟩
    · exact same ▸ isNew
    · exact apart

/-- **The merge** has what the parts have, and leads the edges between parts. -/
theorem reunites :
    graph.Reunites ⟨graph.partGroups, graph.between, (List.finRange graph.partGroups.length).map
        graph.partAt⟩
      ((List.finRange graph.partGroups.length).map part) (name graph part) (place graph part)
      (graph.reunion part).result where
  formed := kept.sound.formed
  nodes := ⟨_, (graph.reunion part).map_fst_namedNodes_perm, kept.nodes_aligned⟩
  old number there at_ node member original := by
    obtain ⟨index, rfl, rfl⟩ := CodeGraph.parts_reunion_eq_some_iff.mp at_
    exact kept.old member original
  inOrder := kept.inOrder
  new number there at_ node member isNew := by
    obtain ⟨index, rfl, rfl⟩ := CodeGraph.parts_reunion_eq_some_iff.mp at_
    exact kept.new member isNew
  edges := by
    rw [CodeGraph.zipIdx_map_finRange, List.flatMap_map]
    exact kept.exists_edges_aligned
  led id there := by
    obtain ⟨index, inPart⟩ := kept.wellFormed.exists_partAt there
    obtain ⟨last, leads, only, resolved⟩ := kept.exists_resolved? inPart
    refine ⟨index.val, graph.partAt index, part index, last,
      CodeGraph.parts_reunion_eq_some_iff.mpr ⟨index, rfl, rfl⟩, inPart,
      CodeGraph.parts_reunion_eq_some_iff.mpr ⟨index, rfl, rfl⟩, leads, only, ?_⟩
    rw [place, resolved, Option.getD_some]

end Kept

namespace CodeGraph

variable {graph : CodeGraph} {rules : List Rule}

/-- Parts that are rewritten are kept. -/
theorem WellFormed.kept_stage (wellFormed : graph.WellFormed) (names : graph.NoPartNames)
    (valid : ∀ rule ∈ rules, rule.Valid) (passes : Nat) :
    Kept graph fun index => (graph.partAt index).stage rules passes where
  wellFormed := wellFormed
  names := names
  formed index := (wellFormed.partAt index).stage valid passes
  follows index := (wellFormed.partAt index).follows_stage valid
    (names.settled_partAt wellFormed index) passes
  grows index := ⟨_, (wellFormed.partAt index).grows_stage valid passes⟩

end CodeGraph

/-- **Merging loses nothing.** If no id of a well-formed graph has the form of those that parts
make, then its parts can be transformed by any valid rules and merged again. The merged graph has
the nodes and edges of the transformed parts, each once, and every edge between parts, led from its
ends to what the replacements in their parts lead to. What is left of the graph has its ids and its
order. -/
theorem transformParts_reunites {graph : CodeGraph} {rules : List Rule}
    (wellFormed : graph.WellFormed) (names : graph.NoPartNames)
    (valid : ∀ rule ∈ rules, rule.Valid) (mode : RunMode) :
    ∃ split results merged name place, graph.split = .ok split ∧
      List.Forall₂ (fun part result => transform part rules mode = .ok result) split.parts results ∧
      split.merged graph (results.map (·.graph)) = .ok merged ∧
      transformParts graph rules mode = .ok (.combined merged results) ∧
      graph.Reunites split (results.map (·.graph)) name place merged := by
  obtain ⟨results, transformed⟩ := exists_forall₂ fun part member =>
    exists_transform_describes valid (wellFormed.parts part member) mode
  have stages : results.map (·.graph) = (List.finRange graph.partGroups.length).map fun index =>
      (graph.partAt index).stage rules mode.passes := by
    rw [← forall₂_iff_map_eq.mp (transformed.imp fun _ _ ran => ran.2.last.symm),
      CodeGraph.parts_eq, List.map_map]
    rfl
  have ran := transformed.imp fun _ _ ran => ran.1
  obtain ⟨sound, merged⟩ := transformParts_eq wellFormed ran
  have merge : graph.mergeOf (results.map (·.graph)) = graph.reunion fun index =>
      (graph.partAt index).stage rules mode.passes := congrArg graph.mergeOf stages
  have reunites := (wellFormed.kept_stage names valid mode.passes).reunites
  rw [← merge, ← stages, ← CodeGraph.parts_eq] at reunites
  exact ⟨_, results, _, _, _, wellFormed.split_eq, ran, sound.graph_eq, merged, reunites⟩

/-- A static method leaves its class, and a method of another class calls it from another part. -/
theorem transformParts_reunites_call :
    let source :=
      "class A \x7b static int f() \x7b \x7d \x7d class B \x7b int g() \x7b f(); \x7d \x7d"
    let rules := [Builtin.staticToFunction]
    ∃ parsed graph, parseSource source = .ok parsed ∧ buildGraph parsed.tree = .ok graph ∧
      graph.WellFormed ∧ graph.NoPartNames ∧ (∀ rule ∈ rules, rule.Valid) ∧
      graph.between.map Edge.data = [⟨"e2", "n3", "n1", .calls, ∅⟩] ∧
      ∃ split results merged name place, graph.split = .ok split ∧
        List.Forall₂ (fun part result => transform part rules (.fixpoint 5) = .ok result)
          split.parts results ∧
        split.merged graph (results.map (·.graph)) = .ok merged ∧
        graph.Reunites split (results.map (·.graph)) name place merged ∧
        results.map (·.applied) = [1, 0] := by
  intro source rules
  obtain ⟨parsed, graph, read, ok, tested⟩ : ∃ parsed graph, parseSource source = .ok parsed ∧
      buildGraph parsed.tree = .ok graph ∧
      decide (graph.between.map Edge.data = [⟨"e2", "n3", "n1", .calls, ∅⟩] ∧
        graph.parts.map (fun part =>
          (transform part rules (.fixpoint 5)).toOption.map (·.applied)) =
            [some 1, some 0]) = true :=
    exists_tested_graph (by decide +kernel)
  obtain ⟨between, applied⟩ := of_decide_eq_true tested
  have built := buildGraph_built ok
  have valid : ∀ rule ∈ rules, rule.Valid :=
    List.forall_mem_singleton.mpr (Rule.valid_of_validate (by decide +kernel))
  obtain ⟨split, results, merged, name, place, isSplit, ran, isMerged, _, reunites⟩ :=
    transformParts_reunites built.wellFormed built.noPartNames valid (.fixpoint 5)
  refine ⟨parsed, graph, read, ok, built.wellFormed, built.noPartNames, valid, between, split,
    results, merged, name, place, isSplit, ran, isMerged, reunites, ?_⟩
  rw [built.wellFormed.split_eq] at isSplit
  cases isSplit
  have counted : graph.parts.map (fun part => (transform part rules (.fixpoint 5)).toOption.map
      (·.applied)) = results.map fun result => some result.applied :=
    forall₂_iff_map_eq.mp (ran.imp fun part result done => by rw [done]; rfl)
  rw [applied] at counted
  refine List.map_injective_iff.mpr (Option.some_injective Nat) ?_
  rw [List.map_map]
  exact counted.symm

end Transcode
