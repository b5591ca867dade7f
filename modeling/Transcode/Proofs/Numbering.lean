import Transcode.Proofs.Building
import Transcode.Proofs.Reload

/-!
# How built graphs are numbered

A graph under construction counts without gaps (`CodeGraph.Counted`). Its ids come from its counters
alone, so no number is skipped; and its edges are only drawn between nodes that are there
(`Draft.Sound`), so no number is used up by an edge that is refused. A graph that was built from a
syntax tree is therefore numbered as one that was loaded, and writing and loading it changes nothing
(`reloaded_buildGraph`).
-/

namespace Transcode

/-- A free number is the first one from itself on. -/
theorem firstFree_eq_self {name : Nat → String} {taken : List String} {fuel number : Nat}
    (free : name number ∉ taken) : firstFree name taken fuel number = number := by
  cases fuel with
  | zero => rfl
  | succ fuel => rw [firstFree, if_neg fun found => free (List.contains_iff_mem.mp found)]

namespace CodeGraph

variable {graph : CodeGraph}

/-- Nodes and edges are numbered from zero without gaps, and all counters stand right after them. -/
structure Counted (graph : CodeGraph) : Prop where
  nodeSeqs : graph.nodes.map (·.seq) = List.range graph.nodes.length
  edgeSeqs : graph.edges.map (·.seq) = List.range graph.edges.length
  nextSeq : graph.nextSeq = graph.nodes.length
  nextEdgeSeq : graph.nextEdgeSeq = graph.edges.length
  nextNodeId : graph.nextNodeId = graph.nodes.length
  nextEdgeId : graph.nextEdgeId = graph.edges.length

/-! ### Fresh ids of built graphs -/

namespace Built

/-- In a built graph the next node takes the number of the counter. -/
theorem freshNode_eq (built : graph.Built) : graph.freshNode = graph.nextNodeId := by
  refine firstFree_eq_self fun used => ?_
  -- A node with that name would have its number, but all numbers given are below the counter.
  obtain ⟨node, member, same⟩ := List.mem_map.mp used
  obtain ⟨number, bound, named⟩ := built.nodeNames node member
  have equal : number = graph.nextNodeId := graph.nodeName_injective (named.symm.trans same)
  omega

/-- In a built graph the next edge takes the number of the counter. -/
theorem freshEdge_eq (built : graph.Built) : graph.freshEdge = graph.nextEdgeId := by
  refine firstFree_eq_self fun used => ?_
  obtain ⟨edge, member, same⟩ := List.mem_map.mp used
  obtain ⟨number, bound, named⟩ := built.edgeNames edge member
  have equal : number = graph.nextEdgeId := graph.edgeName_injective (named.symm.trans same)
  omega

end Built

/-! ### Counting -/

namespace Counted

theorem empty : ({} : CodeGraph).Counted := ⟨rfl, rfl, rfl, rfl, rfl, rfl⟩

/-- A node made keeps a graph counted. -/
theorem addNode (counted : graph.Counted) (built : graph.Built) (kind : NodeKind) (label : String)
    (attributes : Attributes) : (graph.addNode kind label attributes).2.Counted := by
  unfold CodeGraph.addNode CodeGraph.pushNode
  dsimp only
  refine ⟨?_, counted.edgeSeqs, ?_, counted.nextEdgeSeq, ?_, counted.nextEdgeId⟩
  · simp only [List.map_append, List.map_singleton, List.length_append, List.length_singleton,
      List.range_succ, counted.nodeSeqs, counted.nextSeq]
  · simp only [List.length_append, List.length_singleton, counted.nextSeq]
  · simp only [List.length_append, List.length_singleton, built.freshNode_eq, counted.nextNodeId]

/-- An edge between nodes that are there is counted. One that is refused would leave a gap. -/
theorem addEdge (counted : graph.Counted) (built : graph.Built) {source target : String}
    (hasSource : graph.hasNode source) (hasTarget : graph.hasNode target) (kind : EdgeKind)
    (attributes : Attributes) : (graph.addEdge source target kind attributes).2.Counted := by
  rw [built.wellFormed.addEdge_eq hasSource hasTarget]
  refine ⟨counted.nodeSeqs, ?_, counted.nextSeq, ?_, counted.nextNodeId, ?_⟩
  · simp only [List.map_append, List.map_singleton, List.length_append, List.length_singleton,
      List.range_succ, counted.edgeSeqs, counted.nextEdgeSeq]
  · simp only [List.length_append, List.length_singleton, counted.nextEdgeSeq]
  · simp only [List.length_append, List.length_singleton, built.freshEdge_eq, counted.nextEdgeId]

end Counted

/-- **A counted graph is loaded as it is.** -/
theorem Built.reloaded_eq (built : graph.Built) (counted : graph.Counted) :
    graph.reloaded = graph := by
  have nodes : numbered 0 graph.toData.nodes = graph.nodes.map (Node.placed id) :=
    numbered_eq_map (by rw [List.map_id, counted.nodeSeqs, List.range_eq_range'])
  have edges : numberedEdges 0 graph.toData.edges = graph.edges.map (Edge.placed id) :=
    numberedEdges_eq_map (by rw [List.map_id, counted.edgeSeqs, List.range_eq_range'])
  have sameNodes : graph.nodes.map (Node.placed id) = graph.nodes := List.map_id _
  have sameEdges : graph.edges.map (Edge.placed id) = graph.edges := List.map_id _
  rw [sameNodes] at nodes
  rw [sameEdges] at edges
  cases graph
  rw [reloaded, mk.injEq]
  exact ⟨nodes, edges, counted.nextSeq.symm, counted.nextEdgeSeq.symm, counted.nextNodeId.symm,
    counted.nextEdgeId.symm, built.noNamespace.symm, rfl, built.noForwarding.symm⟩

end CodeGraph

/-! ### Drafts -/

namespace Draft

variable {draft : Draft}

/-- A draft whose graph is built and counted, and whose entries are nodes of it. -/
structure Sound (draft : Draft) : Prop extends draft.Anchored where
  built : draft.graph.Built
  counted : draft.graph.Counted

namespace Sound

theorem empty : ({} : Draft).Sound := ⟨.empty, .empty, .empty⟩

/-- An edge other than of containment between nodes of a draft keeps it sound. -/
theorem linked (sound : draft.Sound) {source target : String} {kind : EdgeKind}
    (other : kind ≠ .contains) (hasSource : draft.graph.hasNode source)
    (hasTarget : draft.graph.hasNode target) : (draft.linked source target kind).Sound where
  toAnchored := sound.toAnchored.linked source target kind
  built := built_linked sound.built source target other
  counted := sound.counted.addEdge sound.built hasSource hasTarget kind ∅

/-- Edges between nodes of a draft keep it sound, since no node is lost on the way. -/
theorem foldl_linked {α : Type} (sound : draft.Sound) (items : List α)
    (source target : α → String) (kind : α → EdgeKind)
    (other : ∀ item ∈ items, kind item ≠ .contains) (each : ∀ item ∈ items,
      draft.graph.hasNode (source item) ∧ draft.graph.hasNode (target item)) :
    (items.foldl (fun linked item => linked.linked (source item) (target item) (kind item))
      draft).Sound := by
  induction items generalizing draft with
  | nil => exact sound
  | cons item rest ih =>
      obtain ⟨⟨hasSource, hasTarget⟩, later⟩ := List.forall_mem_cons.mp each
      obtain ⟨differs, othersDiffer⟩ := List.forall_mem_cons.mp other
      refine ih (sound.linked differs hasSource hasTarget) othersDiffer fun item member => ?_
      rw [hasNode_linked, hasNode_linked]
      exact later item member

/-- A construct in what is a node keeps a draft sound. -/
theorem withConstruct (sound : draft.Sound) {owner : Option String}
    (hasOwner : ∀ id ∈ owner, draft.graph.hasNode id) (outline : Outline) :
    (draft.withConstruct owner outline).2.Sound where
  toAnchored := (sound.toAnchored.withConstruct owner outline).anchored
  built := built_withConstruct sound.built owner outline
  counted := by
    have counted := sound.counted.addNode sound.built outline.kind outline.label outline.attributes
    cases owner with
    | none => exact counted
    | some owner =>
        have built := sound.built.addNode outline.kind outline.label outline.attributes
        -- The owner was there before and the other end was just added, so the edge is not refused.
        exact counted.addEdge built (CodeGraph.hasNode_addNode.mpr (.inl (hasOwner owner rfl)))
          (CodeGraph.hasNode_addNode.mpr (.inr rfl)) .contains ∅

mutual

/-- A construct with those in it keeps a draft sound. -/
theorem placed : ∀ (outline : Outline) {draft : Draft} {owner : Option String}, draft.Sound →
    (∀ id ∈ owner, draft.graph.hasNode id) → (draft.placed owner outline).Sound
  | ⟨kind, label, attributes, callees, children⟩, draft, owner, sound, hasOwner => by
    have added := sound.withConstruct hasOwner ⟨kind, label, attributes, callees, []⟩
    unfold Draft.placed
    refine placedAll children added fun id same => ?_
    obtain rfl := Option.mem_some_iff.mp same
    exact (hasNode_withConstruct_iff ..).mpr (.inr rfl)

/-- Several constructs keep a draft sound. -/
theorem placedAll : ∀ (outlines : List Outline) {draft : Draft} {owner : Option String},
    draft.Sound → (∀ id ∈ owner, draft.graph.hasNode id) → (draft.placedAll owner outlines).Sound
  | [], draft, _, sound, _ => by
    unfold Draft.placedAll
    exact sound
  | outline :: rest, _, owner, sound, hasOwner => by
    have grown := sound.toAnchored.placed outline owner
    unfold Draft.placedAll
    exact placedAll rest (placed outline sound hasOwner) fun id same =>
      grown.kept id (hasOwner id same)

end

theorem withCalls (sound : draft.Sound) : draft.withCalls.Sound :=
  sound.foldl_linked _ Prod.fst Prod.snd (fun _ => .calls) (by simp) fun _ =>
    sound.toAnchored.hasNode_calls

/-- Drawing the supertypes keeps a draft sound. -/
theorem withSupertypes (sound : draft.Sound) : draft.withSupertypes.Sound := by
  refine sound.foldl_linked _ Prod.fst (Prod.fst ∘ Prod.snd) (Prod.snd ∘ Prod.snd)
    (fun relation member => ?_) fun _ => sound.toAnchored.hasNode_supertypes
  obtain ⟨entry, _, there⟩ := List.mem_flatMap.mp member
  exact ne_contains_of_mem_supertypesOf there

end Sound

end Draft

/-- **Loading a built graph.** The graph of a syntax tree is numbered as a loaded one, so it comes
back as it is. -/
theorem reloaded_buildGraph {tree : SyntaxTree} {graph : CodeGraph}
    (ok : buildGraph tree = .ok graph) : graph.reloaded = graph := by
  refine (buildGraph_built ok).reloaded_eq ?_
  rw [buildGraph_eq] at ok
  split at ok
  · rename_i outlines _
    cases ok
    have placed : (({} : Draft).placedAll none outlines).Sound :=
      Draft.Sound.placedAll outlines .empty (by simp)
    exact placed.withCalls.withSupertypes.counted
  · cases ok

end Transcode
