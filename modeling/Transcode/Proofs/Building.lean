import Transcode.Proofs.Drafts

/-!
# Graphs of source texts

What is known of a graph that was built from a syntax tree (`CodeGraph.Built`, `buildGraph_built`):
it is well-formed, its ids are those that it has made itself, no node has more than one container,
and nothing has been recorded or replaced yet.
-/

namespace Transcode

namespace CodeGraph

variable {graph : CodeGraph}

/-- A graph as it is built from a syntax tree. -/
structure Built (graph : CodeGraph) : Prop where
  wellFormed : graph.WellFormed
  nodeNames : ∀ node ∈ graph.nodes, ∃ number < graph.nextNodeId, node.id = graph.nodeName number
  edgeNames : ∀ edge ∈ graph.edges, ∃ number < graph.nextEdgeId, edge.id = graph.edgeName number
  oneContainer : ∀ first ∈ graph.edges, ∀ second ∈ graph.edges, first.kind = .contains →
    second.kind = .contains → first.target = second.target → first = second
  noNamespace : graph.namespaceText = ""
  noHistory : graph.history = []
  noForwarding : graph.forwarding = ∅

/-- An edge to what is no node, or from it, is not added. -/
theorem addEdge_of_missing {source target : String}
    (missing : ¬(graph.hasNode source ∧ graph.hasNode target)) (kind : EdgeKind)
    (attributes : Attributes) :
    graph.addEdge source target kind attributes =
      (.error (.missingEndpoint (graph.edgeName graph.freshEdge) source target), { graph with
        nextEdgeSeq := graph.nextEdgeSeq + 1
        nextEdgeId := graph.freshEdge + 1 }) := by
  let edge : Edge :=
    ⟨graph.edgeName graph.freshEdge, kind, source, target, attributes, graph.nextEdgeSeq⟩
  let counted : CodeGraph := { graph with
    nextEdgeId := graph.freshEdge + 1
    nextEdgeSeq := graph.nextEdgeSeq + 1 }
  have unused : ¬counted.hasEdge edge.id := fun used =>
    graph.edgeName_freshEdge_not_mem (hasEdge_iff.mp used)
  have absent : (!counted.hasNode edge.source || !counted.hasNode edge.target) = true := by
    rw [Bool.or_eq_true, Bool.not_eq_true', Bool.not_eq_true', ← Bool.not_eq_true,
      ← Bool.not_eq_true, ← not_and_or]
    exact missing
  have refused : counted.insertEdge edge = .error (.missingEndpoint edge.id source target) := by
    rw [CodeGraph.insertEdge, if_neg unused, if_pos absent]
  unfold CodeGraph.addEdge CodeGraph.addEdgeWithId
  dsimp only
  rw [refused]
  rfl

namespace Built

/-- The empty graph is built. -/
theorem empty : ({} : CodeGraph).Built where
  wellFormed := .empty ""
  nodeNames := by simp
  edgeNames := by simp
  oneContainer := by simp
  noNamespace := rfl
  noHistory := rfl
  noForwarding := rfl

/-- A node made leaves a built graph. -/
theorem addNode (built : graph.Built) (kind : NodeKind) (label : String)
    (attributes : Attributes) : (graph.addNode kind label attributes).2.Built where
  wellFormed := built.wellFormed.addNode kind label attributes
  nodeNames node member := by
    have later := graph.nextNodeId_le_freshNode
    rcases List.mem_append.mp member with old | new
    · obtain ⟨number, bound, named⟩ := built.nodeNames node old
      exact ⟨number, Nat.lt_succ_of_le (Nat.le_trans (Nat.le_of_lt bound) later), named⟩
    · obtain rfl := List.mem_singleton.mp new
      exact ⟨graph.freshNode, Nat.lt_succ_self _, rfl⟩
  edgeNames := built.edgeNames
  oneContainer := built.oneContainer
  noNamespace := built.noNamespace
  noHistory := built.noHistory
  noForwarding := built.noForwarding

/-- An edge is added that contains nothing, or that contains what nothing has contained yet. -/
theorem addEdge (built : graph.Built) (source target : String) (kind : EdgeKind)
    (attributes : Attributes)
    (first : kind = .contains → ∀ edge ∈ graph.edges, edge.kind = .contains →
      edge.target ≠ target) : (graph.addEdge source target kind attributes).2.Built := by
  have wellFormed := built.wellFormed.addEdge source target kind attributes
  have later := graph.nextEdgeId_le_freshEdge
  have oldNames : ∀ edge ∈ graph.edges, ∃ number < graph.freshEdge + 1,
      edge.id = graph.edgeName number := by
    intro edge member
    obtain ⟨number, bound, named⟩ := built.edgeNames edge member
    exact ⟨number, by omega, named⟩
  by_cases present : graph.hasNode source ∧ graph.hasNode target
  · rw [built.wellFormed.addEdge_eq present.1 present.2] at wellFormed ⊢
    refine ⟨wellFormed, built.nodeNames, ?_, ?_, built.noNamespace, built.noHistory,
      built.noForwarding⟩
    · intro edge member
      rcases List.mem_append.mp member with old | new
      · exact oldNames edge old
      · obtain rfl := List.mem_singleton.mp new
        exact ⟨graph.freshEdge, Nat.lt_succ_self _, rfl⟩
    · intro left leftMember right rightMember leftContains rightContains same
      rcases List.mem_append.mp leftMember with leftOld | leftNew <;>
        rcases List.mem_append.mp rightMember with rightOld | rightNew
      · exact built.oneContainer left leftOld right rightOld leftContains rightContains same
      · obtain rfl := List.mem_singleton.mp rightNew
        exact absurd same (first rightContains left leftOld leftContains)
      · obtain rfl := List.mem_singleton.mp leftNew
        exact absurd same.symm (first leftContains right rightOld rightContains)
      · exact (List.mem_singleton.mp leftNew).trans (List.mem_singleton.mp rightNew).symm
  · rw [addEdge_of_missing present] at wellFormed ⊢
    exact ⟨wellFormed, built.nodeNames, oldNames, built.oneContainer, built.noNamespace,
      built.noHistory, built.noForwarding⟩

end Built

end CodeGraph

/-! ### Drafts -/

namespace Draft

variable {draft : Draft}

theorem built_linked (built : draft.graph.Built) (source target : String) {kind : EdgeKind}
    (other : kind ≠ .contains) : (draft.linked source target kind).graph.Built :=
  built.addEdge source target kind ∅ fun contains => absurd contains other

/-- Adding a construct under its owner leaves a built graph. -/
theorem built_withConstruct (built : draft.graph.Built) (owner : Option String)
    (outline : Outline) : (draft.withConstruct owner outline).2.graph.Built := by
  have added := built.addNode outline.kind outline.label outline.attributes
  unfold withConstruct
  cases owner with
  | none => exact added
  | some owner =>
      refine added.addEdge owner _ .contains ∅ fun _ edge member _ same => ?_
      -- No edge ends at the new node, since edges end at nodes and its id is fresh.
      have ending := CodeGraph.hasNode_iff.mp (built.wellFormed.endpoints edge member).2
      rw [same] at ending
      exact draft.graph.nodeName_freshNode_not_mem ending

mutual

/-- Placing an outline leaves a built graph. -/
theorem built_placed : ∀ (outline : Outline) {draft : Draft} (owner : Option String),
    draft.graph.Built → (draft.placed owner outline).graph.Built
  | ⟨kind, label, attributes, callees, children⟩, _, owner, built => by
    unfold placed
    exact built_placedAll children _
      (built_withConstruct built owner ⟨kind, label, attributes, callees, []⟩)

/-- Placing outlines leaves a built graph. -/
theorem built_placedAll : ∀ (outlines : List Outline) {draft : Draft} (owner : Option String),
    draft.graph.Built → (draft.placedAll owner outlines).graph.Built
  | [], _, _, built => by
    unfold placedAll
    exact built
  | outline :: rest, _, owner, built => by
    unfold placedAll
    exact built_placedAll rest owner (built_placed outline owner built)

end

/-- Steps that leave built graphs do so one after the other. -/
theorem built_foldl {α : Type} {step : Draft → α → Draft} {items : List α}
    (kept : ∀ draft : Draft, ∀ item ∈ items, draft.graph.Built → (step draft item).graph.Built)
    (built : draft.graph.Built) : (items.foldl step draft).graph.Built :=
  List.foldlRecOn items step built fun draft built item member => kept draft item member built

theorem built_withCalls (built : draft.graph.Built) : draft.withCalls.graph.Built :=
  built_foldl (fun _ call _ built => built_linked built call.1 call.2 (by decide)) built

/-- Relations to supertypes contain nothing. -/
theorem ne_contains_of_mem_supertypesOf {id source target : String} {kind : EdgeKind}
    (member : (source, target, kind) ∈ draft.supertypesOf id) : kind ≠ .contains := by
  unfold supertypesOf at member
  split at member
  · cases member
  · simp only [List.mem_flatMap, List.mem_cons, List.not_mem_nil, or_false, List.mem_filterMap,
      Option.map_eq_some_iff, Prod.mk.injEq] at member
    obtain ⟨relation, rfl | rfl, _, _, _, _, _, _, rfl⟩ := member <;> decide

/-- Drawing the supertypes leaves a built graph. -/
theorem built_withSupertypes (built : draft.graph.Built) : draft.withSupertypes.graph.Built := by
  refine built_foldl (fun linked relation member built => ?_) built
  obtain ⟨entry, _, there⟩ := List.mem_flatMap.mp member
  exact built_linked built relation.1 relation.2.1 (ne_contains_of_mem_supertypesOf there)

end Draft

/-- **Building a graph.** Every syntax tree that has a graph has one that is built as such. -/
theorem buildGraph_built {tree : SyntaxTree} {graph : CodeGraph}
    (ok : buildGraph tree = .ok graph) :
    graph.Built := by
  rw [buildGraph_eq] at ok
  split at ok
  · cases ok
    exact Draft.built_withSupertypes (Draft.built_withCalls (Draft.built_placedAll _ none .empty))
  · cases ok

end Transcode
