import Mathlib.Logic.Equiv.Fintype
import Transcode.Proofs.Lockstep
import Transcode.Proofs.Renaming

/-!
# Rewriting a graph under other names

The same match is applied in a graph and in that graph under other names. The ids that are made up
on the way may be called anything in either of the two, but what is added shows the same, and takes
the same places. So the results are again one graph under two names (`Renamed.exists_result`), and
the names of what was there before remain (`Renaming.Continues`).
-/

namespace Transcode

/-! ### Finding names -/

/-- Names that tell some ids apart are those that a permutation of all ids gives them. -/
theorem exists_perm (ids : List String) (name : String → String)
    (distinct : (ids.map name).Nodup) :
    ∃ perm : Equiv.Perm String, ∀ id ∈ ids, perm id = name id := by
  have apart : Function.Injective fun id : {id // id ∈ ids} => name id.1 :=
    fun first second same =>
      Subtype.ext (List.inj_on_of_nodup_map distinct first.2 second.2 same)
  obtain ⟨perm, agrees⟩ :=
    Equiv.Perm.exists_extending_pair (fun id : {id // id ∈ ids} => id.1) _
      Subtype.val_injective apart
  exact ⟨perm, fun id member => agrees ⟨id, member⟩⟩

namespace Naming

/-- An edge of the whole graph for one of the part, given what places are in the whole graph. -/
def edgeAt (naming : Naming) (place : Nat → Nat) (edge : Edge) : Edge :=
  ⟨naming.edge edge.id, edge.kind, naming.node edge.source, naming.node edge.target,
    edge.attributes, place edge.seq⟩

/-- Edges that show the same are the same edges at other places. -/
theorem exists_edgePlace (naming : Naming) {edges others : List Edge}
    (distinct : (edges.map (·.seq)).Nodup)
    (shown : others.map Edge.data = edges.map naming.edgeData) :
    ∃ place : Nat → Nat, others = edges.map (naming.edgeAt place) := by
  have size := congrArg List.length shown
  rw [List.length_map, List.length_map] at size
  obtain ⟨place, places, -⟩ := exists_extension id distinct
    (show _ = (others.map (·.seq)).length by rw [List.length_map, List.length_map, size])
  refine ⟨place, ?_⟩
  rw [List.map_map] at places
  clear size distinct
  induction others generalizing edges with
  | nil =>
      rw [List.map_nil, eq_comm, List.map_eq_nil_iff] at shown
      rw [shown, List.map_nil]
  | cons other rest ih =>
      obtain ⟨edge, later, rfl, same, shown⟩ := List.map_eq_cons_iff.mp shown.symm
      obtain ⟨here, places⟩ := List.cons.inj places
      rw [List.map_cons, ← ih shown.symm places]
      refine congrArg (· :: rest) ?_
      obtain ⟨id, source, target, kind, attributes⟩ := EdgeData.mk.inj same
      cases other
      simp only [edgeAt, Edge.mk.injEq]
      exact ⟨id.symm, kind.symm, source.symm, target.symm, attributes.symm, here.symm⟩

end Naming

namespace CodeGraph

variable {first second : CodeGraph}

/-- **Graphs that show the same are renamed.** If the nodes and edges of two graphs are the same but
for what they are called, then one is the other under other names. -/
theorem WellFormed.exists_renamed (firstFormed : first.WellFormed)
    (secondFormed : second.WellFormed) (naming : Naming)
    (nodes : second.nodes.map Node.data = first.nodes.map naming.nodeData)
    (edges : second.edges.map Edge.data = first.edges.map naming.edgeData) :
    ∃ names, Renamed first names second ∧
      (∀ node ∈ first.nodes, names.node node.id = naming.node node.id) ∧
      ∀ edge ∈ first.edges, names.edge edge.id = naming.edge edge.id := by
  obtain ⟨place, nodesEq⟩ :=
    naming.exists_place (nodup_map_of_pairwise firstFormed.nodeOrder) nodes
  obtain ⟨edgePlace, edgesEq⟩ :=
    naming.exists_edgePlace (nodup_map_of_pairwise firstFormed.edgeOrder) edges
  obtain ⟨node, nodeAgrees⟩ := exists_perm (first.nodes.map (·.id)) naming.node (by
    have ids := secondFormed.nodeIds
    rw [nodesEq, List.map_map] at ids
    rwa [List.map_map])
  obtain ⟨edge, edgeAgrees⟩ := exists_perm (first.edges.map (·.id)) naming.edge (by
    have ids := secondFormed.edgeIds
    rw [edgesEq, List.map_map] at ids
    rwa [List.map_map])
  let names : Renaming := ⟨node, edge, place, edgePlace⟩
  have named {id : String} (there : first.hasNode id) : node id = naming.node id :=
    nodeAgrees id (hasNode_iff.mp there)
  have edgeNamed {edge : Edge} (member : edge ∈ first.edges) :
      names.edge edge.id = naming.edge edge.id :=
    edgeAgrees _ (List.mem_map_of_mem member)
  have renamedNodes : second.nodes = first.nodes.map names.onNode := by
    rw [nodesEq]
    refine List.map_congr_left fun node member => ?_
    rw [Renaming.onNode, Naming.nodeAt, ← named (hasNode_of_mem member)]
  have renamedEdges : second.edges = first.edges.map names.onEdge := by
    rw [edgesEq]
    refine List.map_congr_left fun edge member => ?_
    obtain ⟨source, target⟩ := firstFormed.endpoints edge member
    rw [Renaming.onEdge, Naming.edgeAt, ← named source, ← named target, ← edgeNamed member]
  refine ⟨names, ⟨renamedNodes, renamedEdges, fun one oneMember other otherMember => ?_⟩,
    fun node member => named (hasNode_of_mem member), fun edge member => edgeNamed member⟩
  have order := secondFormed.nodeOrder
  rw [renamedNodes, List.pairwise_map] at order
  exact le_iff_of_pairwise firstFormed.nodeOrder order oneMember otherMember

end CodeGraph

/-! ### Rewriting edges -/

namespace Renaming

variable (names : Renaming)

/-- Pairs of ids under other names. -/
def onPairs (pairs : List (String × String)) : List (String × String) :=
  pairs.map fun pair => (names.node pair.1, names.node pair.2)

theorem touches_onEdge (ids : List String) (edge : Edge) :
    (names.onEdge edge).touches (ids.map names.node) = edge.touches ids := by
  simp [Edge.touches]

/-- The first halves of renamed pairs are renamed. -/
theorem map_fst_onPairs (pairs : List (String × String)) :
    (names.onPairs pairs).map (·.1) = (pairs.map (·.1)).map names.node := by
  rw [onPairs, List.map_map, List.map_map]
  rfl

/-- A renamed edge is moved along renamed pairs as it would be before. -/
theorem moved_onEdge (pairs : List (String × String)) (edge : Edge) :
    (names.onEdge edge).moved (names.onPairs pairs) = names.onEdge (edge.moved pairs) := by
  have looked (id : String) : (names.onPairs pairs).lookup (names.node id) =
      (pairs.lookup id).map names.node :=
    lookup_map_pairs fun _ _ => names.node_eq_iff.mp
  simp only [Edge.moved, onEdge, looked, Option.getD_map]

/-- Renaming makes no edge of containment into a loop. -/
theorem isContainmentLoop_onEdge (edge : Edge) :
    (names.onEdge edge).isContainmentLoop = edge.isContainmentLoop := by
  exact congrArg (_ && ·) (decide_eq_decide.mpr names.node_eq_iff)

/-- What becomes of an edge under its other name. -/
theorem rewritten?_onEdge {found other : Match}
    (edges : other.edges.map (·.edge) = (found.edges.map (·.edge)).map names.edge)
    (pairs : List (String × String)) (edge : Edge) :
    (names.onEdge edge).rewritten? other (names.onPairs pairs) =
      (edge.rewritten? found pairs).map names.onEdge := by
  have matched : other.edges.any (·.edge = names.edge edge.id) =
      found.edges.any (·.edge = edge.id) := by
    have listed (taken : Match) (id : String) :
        taken.edges.any (·.edge = id) = (taken.edges.map (·.edge)).contains id := by
      rw [List.contains_eq_any_beq, List.any_map]
      exact List.any_congr rfl fun edge => by
        rw [Function.comp_apply, Bool.eq_iff_iff, beq_iff_eq, decide_eq_true_iff, eq_comm]
    rw [listed, listed, edges]
    simp
  unfold Edge.rewritten?
  rw [names.map_fst_onPairs, names.touches_onEdge, names.moved_onEdge,
    names.isContainmentLoop_onEdge, onEdge_id, matched]
  split
  · rfl
  · split <;> rfl

end Renaming

/-! ### Applying a match -/

/-- Names of a later graph under which all that is left of an earlier graph keeps its name. -/
structure Renaming.Continues (graph : CodeGraph) (names : Renaming) (after : CodeGraph)
    (later : Renaming) : Prop where
  nodes : ∀ node ∈ after.nodes,
    node ∈ graph.nodes ∧ later.onNode node = names.onNode node ∨ graph.nextSeq ≤ node.seq
  edges : ∀ edge ∈ after.edges,
    (∃ old ∈ graph.edges, old.id = edge.id ∧ old.seq = edge.seq ∧
      later.edge edge.id = names.edge edge.id ∧
        later.edgePlace edge.seq = names.edgePlace edge.seq) ∨
    graph.nextEdgeSeq ≤ edge.seq
  nextSeq : graph.nextSeq ≤ after.nextSeq
  nextEdgeSeq : graph.nextEdgeSeq ≤ after.nextEdgeSeq

namespace Renaming.Continues

variable {graph middle after : CodeGraph} {names between later : Renaming}

/-- A graph continues itself under the same names. -/
theorem refl (graph : CodeGraph) (names : Renaming) : Continues graph names graph names where
  nodes _ member := .inl ⟨member, rfl⟩
  edges edge member := .inl ⟨edge, member, rfl, rfl, rfl, rfl⟩
  nextSeq := Nat.le_refl _
  nextEdgeSeq := Nat.le_refl _

/-- A graph that continues one that continues a third one continues that. -/
theorem trans (first : Continues graph names middle between)
    (second : Continues middle between after later) : Continues graph names after later where
  nodes node member := by
    rcases second.nodes node member with ⟨there, kept⟩ | new
    · exact (first.nodes node there).imp_left fun earlier => ⟨earlier.1, kept.trans earlier.2⟩
    · exact .inr (Nat.le_trans first.nextSeq new)
  edges edge member := by
    rcases second.edges edge member with ⟨middleEdge, there, id, seq, named, placed⟩ | new
    · refine (first.edges middleEdge there).imp ?_ fun new => seq ▸ new
      rintro ⟨old, oldThere, oldId, oldSeq, oldNamed, oldPlaced⟩
      rw [id] at oldId oldNamed
      rw [seq] at oldSeq oldPlaced
      exact ⟨old, oldThere, oldId, oldSeq, named.trans oldNamed, placed.trans oldPlaced⟩
    · exact .inr (Nat.le_trans first.nextEdgeSeq new)
  nextSeq := Nat.le_trans first.nextSeq second.nextSeq
  nextEdgeSeq := Nat.le_trans first.nextEdgeSeq second.nextEdgeSeq

end Renaming.Continues

namespace Renamed

variable {first second : CodeGraph} {names : Renaming} (renamed : Renamed first names second)
  {rule : Rule} {found other : Match} {addition secondAddition : Addition}

include renamed

/-- What a name is bound to shows the same. -/
theorem boundNode?_eq (relates : (names.naming first).Relates found other) (name : String) :
    (second.boundNode? other name).map Node.spec = (first.boundNode? found name).map Node.spec := by
  rw [CodeGraph.boundNode?, CodeGraph.boundNode?, relates.node?_eq]
  cases found.node? name with
  | none => rfl
  | some id =>
      rw [Option.map_some, Option.bind_some, Option.bind_some]
      change (second.node? (names.node id)).map Node.spec = _
      rw [renamed.node?_eq, Option.map_map]
      rfl

section Applied

variable (firstFormed : first.WellFormed) (relates : (names.naming first).Relates found other)
  (applies : first.Applies rule found addition)
  (secondApplies : second.Applies rule other secondAddition)
  (new : addition.New first rule) (secondNew : secondAddition.New second rule)

include firstFormed relates applies secondApplies new secondNew

/-- **The fragments beside what they replace.** With both the graphs are again one graph under two
names. -/
theorem exists_placed : ∃ later,
    Renamed (addition.placed first rule) later (secondAddition.placed second rule) ∧
      (∀ node ∈ first.nodes, later.onNode node = names.onNode node) ∧
      ∀ edge ∈ first.edges, later.onEdge edge = names.onEdge edge := by
  have nodeSize :
      (addition.nodes.map (·.id)).length = (secondAddition.nodes.map (·.id)).length := by
    rw [List.length_map, List.length_map, ← applies.added.filled.length_eq,
      secondApplies.added.filled.length_eq]
  have linkSize :
      (addition.links.map (·.id)).length = (secondAddition.links.map (·.id)).length := by
    rw [List.length_map, List.length_map, ← applies.added.linked.length_eq,
      secondApplies.added.linked.length_eq]
  obtain ⟨node, nodes, keeps⟩ := exists_extension names.node applies.nodup_nodes nodeSize
  obtain ⟨edge, links, keepsEdge⟩ := exists_extension names.edge applies.nodup_links linkSize
  have nodeIds := new.placed.nodeIds
  have edgeIds := new.placed.edgeIds
  simp only [Addition.placed, List.map_append] at nodeIds edgeIds
  let further : Naming := ⟨node, edge, first.nodes.map (·.id) ++ addition.nodes.map (·.id),
    first.edges.map (·.id) ++ addition.links.map (·.id)⟩
  have adds : (names.naming first).Adds further addition secondAddition :=
    ⟨rfl, rfl, fun id known => keeps id fun added => (List.nodup_append.mp nodeIds).2.2 id known id
      added rfl, fun id known => keepsEdge id fun added =>
        (List.nodup_append.mp edgeIds).2.2 id known
      id added rfl, nodes, links⟩
  have oldNodes : second.nodes.map Node.data = first.nodes.map further.nodeData := by
    rw [renamed.nodes, List.map_map]
    refine List.map_congr_left fun node member => ?_
    rw [Function.comp_apply, Naming.nodeData, adds.node node.id (List.mem_map_of_mem member)]
    rfl
  have oldEdges : second.edges.map Edge.data = first.edges.map further.edgeData := by
    rw [renamed.edges, List.map_map]
    refine List.map_congr_left fun edge member => ?_
    obtain ⟨source, target⟩ := firstFormed.endpoints edge member
    rw [Function.comp_apply, Naming.edgeData, adds.edge edge.id (List.mem_map_of_mem member),
      adds.node _ (CodeGraph.hasNode_iff.mp source), adds.node _ (CodeGraph.hasNode_iff.mp target)]
    rfl
  have newNodes : secondAddition.nodes.map Node.data = addition.nodes.map further.nodeData :=
    Naming.map_data_of_spec adds.nodes.symm
      (applies.map_spec_nodes secondApplies (renamed.boundNode?_eq relates))
  have newLinks := adds.map_data_links applies secondApplies relates
  obtain ⟨later, placed, _, _⟩ := new.placed.exists_renamed secondNew.placed further
    (by simp only [Addition.placed, List.map_append, oldNodes, newNodes])
    (by simp only [Addition.placed, List.map_append, oldEdges, newLinks])
  refine ⟨later, placed, ?_, ?_⟩
  · have same := placed.nodes
    simp only [Addition.placed, List.map_append] at same
    have kept := (List.append_inj same (by rw [renamed.nodes, List.length_map, List.length_map])).1
    rw [renamed.nodes] at kept
    exact fun node member => (List.map_inj_left.mp kept node member).symm
  · have same := placed.edges
    simp only [Addition.placed, List.map_append] at same
    have kept := (List.append_inj same (by rw [renamed.edges, List.length_map, List.length_map])).1
    rw [renamed.edges] at kept
    exact fun edge member => (List.map_inj_left.mp kept edge member).symm

/-- **The same match applied under two names.** The results are one graph under two names, and what
is left keeps its name. -/
theorem exists_result : ∃ later,
    Renamed (addition.result first rule found) later (secondAddition.result second rule other) ∧
      Renaming.Continues first names (addition.result first rule found) later := by
  obtain ⟨later, placed, keepsNodes, keepsEdges⟩ :=
    renamed.exists_placed firstFormed relates applies secondApplies new secondNew
  have placedNodes := placed.nodes
  have placedEdges := placed.edges
  have nodeKept (id : String) (known : id ∈ first.nodes.map (·.id)) :
      later.node id = names.node id := by
    obtain ⟨node, member, rfl⟩ := List.mem_map.mp known
    exact congrArg Node.id (keepsNodes node member)
  have edgeKept (id : String) (known : id ∈ first.edges.map (·.id)) :
      later.edge id = names.edge id := by
    obtain ⟨edge, member, rfl⟩ := List.mem_map.mp known
    exact congrArg Edge.id (keepsEdges edge member)
  simp only [Addition.placed, List.map_append] at placedNodes placedEdges
  obtain ⟨nodes, newNodes⟩ := List.append_inj placedNodes (by
    rw [renamed.nodes, List.length_map, List.length_map])
  obtain ⟨edges, newLinks⟩ := List.append_inj placedEdges (by
    rw [renamed.edges, List.length_map, List.length_map])
  let naming : Naming := later.naming (addition.placed first rule)
  have adds : (names.naming first).Adds naming addition secondAddition := by
    refine ⟨List.map_append, List.map_append, nodeKept, edgeKept, ?_, ?_⟩
    · rw [newNodes, List.map_map, List.map_map]
      rfl
    · rw [newLinks, List.map_map, List.map_map]
      rfl
  have further := adds.relates relates
  have replaced : other.replaced.map (·.node) = (found.replaced.map (·.node)).map later.node :=
    Naming.map_node further.replaced
  have pairs : secondAddition.replacements rule other =
      later.onPairs (addition.replacements rule found) :=
    adds.replacements_eq applies secondApplies relates
  have matched : other.edges.map (·.edge) = (found.edges.map (·.edge)).map later.edge := by
    rw [List.map_map, ← forall₂_iff_map_eq]
    exact further.edges.flip.imp fun _ _ carries => carries.edge
  refine ⟨later, ⟨?_, ?_, fun one oneMember another anotherMember => ?_⟩, ?_, ?_, ?_, ?_⟩
  · rw [Addition.result, nodes, newNodes, List.filter_map, replaced, Addition.result,
      List.map_append]
    refine congrArg (fun kept => kept.map later.onNode ++ _) (List.filter_congr fun node _ => ?_)
    simp
  · rw [Addition.result, edges, newLinks, List.filterMap_map, pairs, Addition.result,
      List.map_append, List.map_filterMap]
    exact congrArg (· ++ _) (List.filterMap_congr fun edge _ =>
      later.rewritten?_onEdge matched _ edge)
  · have there {node : Node} (member : node ∈ (addition.result first rule found).nodes) :
        node ∈ (addition.placed first rule).nodes :=
      (List.mem_append.mp member).elim
        (fun old => List.mem_append_left _ (List.mem_filter.mp old).1) (List.mem_append_right _)
    exact placed.order one (there oneMember) another (there anotherMember)
  · intro node member
    refine (List.mem_append.mp member).imp (fun old => ?_) (new.nodeSeqs node)
    exact ⟨(List.mem_filter.mp old).1, keepsNodes node (List.mem_filter.mp old).1⟩
  · intro edge member
    refine (List.mem_append.mp member).imp (fun old => ?_) (new.linkSeqs edge)
    obtain ⟨earlier, there, rewritten⟩ := List.mem_filterMap.mp old
    have id := Edge.id_of_rewritten? rewritten
    have seq := Edge.seq_of_rewritten? rewritten
    have kept := keepsEdges earlier there
    refine ⟨earlier, there, id.symm, seq.symm, ?_, ?_⟩
    · rw [id]
      exact congrArg Edge.id kept
    · rw [seq]
      exact congrArg Edge.seq kept
  · exact Nat.le_add_right _ _
  · exact Nat.le_add_right _ _

end Applied

end Renamed

end Transcode
