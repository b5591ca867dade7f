import Transcode.Json.Printer
import Transcode.Proofs.Application
import Transcode.Proofs.Building
import Transcode.Proofs.Changes
import Transcode.Proofs.Outcome
import Transcode.Rule.Builtin

/-!
# Sessions

A session starts with an empty, loaded or built graph and goes on by operations in any order, of
which some fail. Every graph that a session comes to is well-formed (`Reachable.wellFormed`) and is
made by primitive changes (`Reachable.exists_madeWith`), so the indexes of a store in which the same
changes are made have exactly the ids that are in use. Both are shown operation by operation
(`Operation.wellFormed_run`, `Operation.changesTo_run`).
-/

namespace Transcode

/-! ### Induction over runs -/

section Runs

variable {motive : CodeGraph → Prop} {rules : List Rule}

/-- What each application of a match keeps holds of the graph after a step of a pass. -/
theorem Pass.step_induction
    (keep : ∀ graph rule found, motive graph → motive (graph.applyMatch rule found).2)
    {pass after : Pass} {found : Match} (before : motive pass.graph)
    (stepped : pass.step rules found = .ok after) : motive after.graph := by
  unfold Pass.step at stepped
  split at stepped
  · cases stepped
    exact before
  · rename_i rule _
    split at stepped
    · have kept := keep pass.graph rule found before
      split at stepped
      · rename_i ids next applied
        cases stepped
        rwa [applied] at kept
      · cases stepped
    · cases stepped
      exact before

/-- It holds of the graph after a pass. -/
theorem Pass.run_induction
    (keep : ∀ graph rule found, motive graph → motive (graph.applyMatch rule found).2)
    {graph : CodeGraph} {pass : Pass} (before : motive graph)
    (done : Pass.run rules graph = .ok pass) : motive pass.graph :=
  foldlM_induction (motive := fun pass : Pass => motive pass.graph)
    (fun _ _ _ _ kept stepped => step_induction keep kept stepped) before done

/-- It holds of the graph after any number of passes. -/
theorem Transformed.proceed_induction
    (keep : ∀ graph rule found, motive graph → motive (graph.applyMatch rule found).2)
    {bound : Nat} {result last : Transformed} (before : motive result.graph)
    (done : result.proceed rules bound = .ok last) : motive last.graph := by
  induction bound generalizing result with
  | zero =>
      cases done
      unfold Transformed.atBound
      split <;> exact before
  | succ bound ih =>
      unfold Transformed.proceed at done
      obtain ⟨pass, ran, done⟩ := bind_eq_ok_iff.mp done
      have kept := Pass.run_induction keep before ran
      dsimp only at done
      split at done
      · cases done
        exact kept
      · exact ih kept done

/-- **Induction over a run.** What each application of a match keeps holds of the graph that a run
comes to, if it holds of the one that it starts with. -/
theorem transform_induction
    (keep : ∀ graph rule found, motive graph → motive (graph.applyMatch rule found).2)
    {graph : CodeGraph} {mode : RunMode} {result : Transformed} (before : motive graph)
    (done : Transcode.transform graph rules mode = .ok result) : motive result.graph := by
  cases mode with
  | singlePass =>
      unfold Transcode.transform at done
      dsimp only at done
      cases ran : Pass.run rules graph with
      | error failure => simp [ran, Except.map] at done
      | ok pass =>
          rw [ran] at done
          cases done
          exact Pass.run_induction keep before ran
  | fixpoint bound => exact Transformed.proceed_induction keep before done

/-- A rule that is applied by its id applies its best match, or leaves the graph as it is. -/
theorem CodeGraph.applyRule_induction
    (keep : ∀ graph rule found, motive graph → motive (graph.applyMatch rule found).2)
    {graph : CodeGraph} (before : motive graph) (catalog : Catalog) (id : String) :
    motive (graph.applyRule catalog id).2 := by
  unfold CodeGraph.applyRule
  split
  · exact before
  · rename_i rule _
    split
    · exact before
    · rename_i best rest _
      exact keep graph rule best before

end Runs

namespace CodeGraph.WellFormed

variable {graph : CodeGraph}

/-! ### Transforming -/

/-- Applying a rule by its id leaves a well-formed graph, also where it fails. -/
theorem applyRule (wellFormed : graph.WellFormed) (catalog : Catalog) (id : String) :
    (graph.applyRule catalog id).2.WellFormed :=
  applyRule_induction (fun _ rule found kept => kept.applyMatch rule found) wellFormed catalog id

/-- A step of a pass leaves a well-formed graph. -/
theorem passStep {rules : List Rule} {pass after : Pass} {found : Match}
    (wellFormed : pass.graph.WellFormed) (stepped : pass.step rules found = .ok after) :
    after.graph.WellFormed :=
  Pass.step_induction (fun _ rule found kept => kept.applyMatch rule found) wellFormed stepped

theorem passRun {rules : List Rule} {pass : Pass} (wellFormed : graph.WellFormed)
    (done : Pass.run rules graph = .ok pass) : pass.graph.WellFormed :=
  Pass.run_induction (fun _ rule found kept => kept.applyMatch rule found) wellFormed done

/-- A run over the whole graph leaves a well-formed one. -/
theorem transform {rules : List Rule} {mode : RunMode} {result : Transformed}
    (wellFormed : graph.WellFormed) (done : Transcode.transform graph rules mode = .ok result) :
    result.graph.WellFormed :=
  transform_induction (fun _ rule found kept => kept.applyMatch rule found) wellFormed done

/-! ### Merging -/

/-- Edges that are added at increasing places get sequence numbers of their own. -/
theorem mergeEdges {ids : IdSource} {seq : Nat} {edges : List PlannedEdge} {after : CodeGraph}
    (wellFormed : graph.WellFormed) (earlier : ∀ edge ∈ graph.edges, edge.seq < seq)
    (added : Merge.addEdges graph ids seq edges = .ok after) : after.WellFormed := by
  induction edges generalizing graph ids seq with
  | nil =>
      cases added
      exact wellFormed
  | cons edge rest ih =>
      unfold Merge.addEdges at added
      obtain ⟨next, inserted, added⟩ := bind_eq_ok_iff.mp added
      refine ih (wellFormed.insertEdge (fun other member => Nat.ne_of_lt (earlier other member))
        inserted) ?_ added
      obtain ⟨_, rfl⟩ := insertEdge_eq_ok_iff.mp inserted
      intro other member
      rcases mem_insertBySeq.mp member with rfl | old
      · exact Nat.lt_succ_self seq
      · exact Nat.lt_succ_of_lt (earlier other old)

/-- Adding nodes under their own ids leaves a well-formed graph with the same edges. -/
theorem addNodesAs {α : Type} (data : α → NodeData) {items : List α} {after : CodeGraph}
    (wellFormed : graph.WellFormed)
    (added : items.foldlM (fun graph item => graph.addNodeWithId (data item).id (data item).kind
      (data item).label (data item).attributes) graph = .ok after) :
    after.WellFormed ∧ after.edges = graph.edges := by
  refine foldlM_induction (motive := fun after => after.WellFormed ∧ after.edges = graph.edges)
    (fun before item _ next kept step => ?_) ⟨wellFormed, rfl⟩ added
  refine ⟨WellFormed.addNodeWithId kept.1 step, ?_⟩
  unfold CodeGraph.addNodeWithId at step
  split at step
  · cases step
  · cases step
    exact kept.2

/-- A merge of whatever parts is well-formed. -/
theorem merged {merge : Merge} (done : merge.graph = .ok graph) : graph.WellFormed := by
  unfold Merge.graph at done
  obtain ⟨withNodes, nodes, done⟩ := bind_eq_ok_iff.mp done
  obtain ⟨withEdges, edges, done⟩ := bind_eq_ok_iff.mp done
  cases done
  obtain ⟨kept, noEdges⟩ := addNodesAs (fun item : PartNode × String =>
    ⟨item.2, item.1.node.label, item.1.node.kind, item.1.node.attributes⟩)
    (WellFormed.empty "") nodes
  refine (kept.mergeEdges ?_ edges).of_same rfl rfl (Nat.le_refl _) (Nat.le_refl _)
  rw [noEdges]
  simp [withNamespace]

/-- A run over the parts leaves a well-formed graph. -/
theorem transformApart {rules : List Rule} {mode : RunMode} {result : Transformed}
    (wellFormed : graph.WellFormed)
    (done : Transcode.transformApart graph rules mode = .ok result) :
    result.graph.WellFormed := by
  unfold Transcode.transformApart at done
  split at done
  · exact transform wellFormed done
  · unfold transformParts at done
    obtain ⟨split, _, done⟩ := bind_eq_ok_iff.mp done
    obtain ⟨results, _, done⟩ := bind_eq_ok_iff.mp done
    obtain ⟨whole, merge, done⟩ := bind_eq_ok_iff.mp done
    cases done
    exact merged (mapError_eq_ok_iff.mp merge)

end CodeGraph.WellFormed

namespace CodeGraph

variable {graph : CodeGraph} {rules : List Rule} {mode : RunMode} {result : Transformed}

/-! ### Runs as changes -/

/-- A run is a sequence of changes: those of the matches that it applies. -/
theorem changesTo_transform (done : transform graph rules mode = .ok result) :
    graph.ChangesTo result.graph :=
  transform_induction (motive := graph.ChangesTo)
    (fun before rule found leads => leads.trans (before.changesTo_applyMatch rule found))
    (.refl graph) done

/-- A run in parts is a sequence of changes of the graph, or of an empty one that the parts are
merged into. -/
theorem changesTo_transformApart (done : transformApart graph rules mode = .ok result) :
    graph.ChangesTo result.graph ∨ (withNamespace "").ChangesTo result.graph := by
  unfold transformApart at done
  split at done
  · exact .inl (changesTo_transform done)
  · unfold transformParts at done
    obtain ⟨split, _, done⟩ := bind_eq_ok_iff.mp done
    obtain ⟨results, _, done⟩ := bind_eq_ok_iff.mp done
    obtain ⟨whole, merge, done⟩ := bind_eq_ok_iff.mp done
    cases done
    exact .inr (changesTo_merged (mapError_eq_ok_iff.mp merge))

/-- A graph that is read from a text is made by changes of an empty one. -/
theorem changesTo_ofJsonText {text : String} (loaded : ofJsonText text = .ok graph) :
    (withNamespace "").ChangesTo graph := by
  obtain ⟨data, built⟩ := WellFormed.exists_data_of_ofJsonText loaded
  exact changesTo_ofData built

end CodeGraph

/-! ### Operations -/

/-- What can be done with the graph of a session. A match may be any match of any rule, so also one
that was found in an earlier graph. -/
inductive Operation where
  | addNode (kind : NodeKind) (label : String) (attributes : Attributes)
  | addNodeWithId (id : String) (kind : NodeKind) (label : String) (attributes : Attributes)
  | addEdge (source target : String) (kind : EdgeKind) (attributes : Attributes)
  | addEdgeWithId (id source target : String) (kind : EdgeKind) (attributes : Attributes)
  | removeNode (id : String)
  | removeEdge (id : String)
  | setAttribute (id key value : String)
  | record (node rule : String)
  | applyMatch (rule : Rule) (found : Match)
  | applyRule (catalog : Catalog) (id : String)
  | transform (rules : List Rule) (mode : RunMode)
  | transformApart (rules : List Rule) (mode : RunMode)
  | reload

namespace Operation

/-- The graph after an operation that makes a new graph or fails. -/
def replaceBy {ε : Type} (graph : CodeGraph) : Except ε CodeGraph → Bool × CodeGraph
  | .ok after => (true, after)
  | .error _ => (false, graph)

/-- Whether an operation succeeds, and the graph that it leaves. -/
def run (graph : CodeGraph) : Operation → Bool × CodeGraph
  | .addNode kind label attributes => (true, (graph.addNode kind label attributes).2)
  | .addNodeWithId id kind label attributes =>
    replaceBy graph (graph.addNodeWithId id kind label attributes)
  | .addEdge source target kind attributes =>
    let (outcome, after) := graph.addEdge source target kind attributes
    (outcome.isOk, after)
  | .addEdgeWithId id source target kind attributes =>
    let (outcome, after) := graph.addEdgeWithId id source target kind attributes
    (outcome.isOk, after)
  | .removeNode id => (true, graph.removeNode id)
  | .removeEdge id => (true, graph.removeEdge id)
  | .setAttribute id key value => (true, graph.setAttribute id key value)
  | .record node rule => (true, graph.record node rule)
  | .applyMatch rule found =>
    let (outcome, after) := graph.applyMatch rule found
    (outcome.isOk, after)
  | .applyRule catalog id =>
    let (outcome, after) := graph.applyRule catalog id
    (outcome.isOk, after)
  | .transform rules mode => replaceBy graph ((Transcode.transform graph rules mode).map (·.graph))
  | .transformApart rules mode =>
    replaceBy graph ((Transcode.transformApart graph rules mode).map (·.graph))
  | .reload => replaceBy graph (CodeGraph.ofJsonText graph.toData.toJson.pretty)

/-- The graph after some operations, of which each may fail. -/
def runAll (operations : List Operation) (graph : CodeGraph) : CodeGraph :=
  operations.foldl (fun graph operation => (operation.run graph).2) graph

/-- Whether an operation adds a given node or an edge, which can fail. -/
def isAddition : Operation → Bool
  | .addNodeWithId .. | .addEdge .. | .addEdgeWithId .. => true
  | _ => false

variable {graph : CodeGraph}

/-- A graph that may be replaced stays well-formed where its replacement is. -/
theorem wellFormed_replaceBy {ε : Type} {outcome : Except ε CodeGraph}
    (wellFormed : graph.WellFormed) (made : ∀ after, outcome = .ok after → after.WellFormed) :
    (replaceBy graph outcome).2.WellFormed := by
  cases outcome with
  | ok after => exact made after rfl
  | error _ => exact wellFormed

/-- Every operation keeps a graph well-formed, whether it succeeds or fails. -/
theorem wellFormed_run (wellFormed : graph.WellFormed) (operation : Operation) :
    (operation.run graph).2.WellFormed := by
  cases operation with
  | addNode kind label attributes => exact wellFormed.addNode kind label attributes
  | addNodeWithId id kind label attributes =>
      exact wellFormed_replaceBy wellFormed fun _ added => wellFormed.addNodeWithId added
  | addEdge source target kind attributes => exact wellFormed.addEdge source target kind attributes
  | addEdgeWithId id source target kind attributes =>
      exact wellFormed.addEdgeWithId id source target kind attributes
  | removeNode id => exact wellFormed.removeNode id
  | removeEdge id => exact wellFormed.removeEdge id
  | setAttribute id key value => exact wellFormed.setAttribute id key value
  | record node rule => exact wellFormed.record node rule
  | applyMatch rule found => exact wellFormed.applyMatch rule found
  | applyRule catalog id => exact wellFormed.applyRule catalog id
  | transform rules mode =>
      refine wellFormed_replaceBy wellFormed fun after mapped => ?_
      obtain ⟨result, done, rfl⟩ := map_eq_ok_iff.mp mapped
      exact wellFormed.transform done
  | transformApart rules mode =>
      refine wellFormed_replaceBy wellFormed fun after mapped => ?_
      obtain ⟨result, done, rfl⟩ := map_eq_ok_iff.mp mapped
      exact wellFormed.transformApart done
  | reload => exact wellFormed_replaceBy wellFormed fun _ loaded => .ofJsonText loaded

/-- So does any number of operations. -/
theorem wellFormed_runAll (wellFormed : graph.WellFormed) (operations : List Operation) :
    (runAll operations graph).WellFormed := by
  induction operations generalizing graph with
  | nil => exact wellFormed
  | cons operation rest ih => exact ih (operation.wellFormed_run wellFormed)

/-- An operation that makes a new graph or fails comes to what it comes to where it succeeds. -/
theorem changesTo_replaceBy {ε : Type} {outcome : Except ε CodeGraph}
    (made : ∀ after, outcome = .ok after →
      graph.ChangesTo after ∨ (CodeGraph.withNamespace "").ChangesTo after) :
    graph.ChangesTo (replaceBy graph outcome).2 ∨
      (CodeGraph.withNamespace "").ChangesTo (replaceBy graph outcome).2 := by
  cases outcome with
  | ok after => exact made after rfl
  | error _ => exact .inl (.refl graph)

/-- **Operations as changes.** Every operation, whether it succeeds or fails, is a sequence of
changes of the graph, or of an empty one where it makes the graph anew. -/
theorem changesTo_run (graph : CodeGraph) (operation : Operation) :
    graph.ChangesTo (operation.run graph).2 ∨
      (CodeGraph.withNamespace "").ChangesTo (operation.run graph).2 := by
  cases operation with
  | addNode kind label attributes => exact .inl (.one (.addNode kind label attributes))
  | addNodeWithId id kind label attributes =>
      exact changesTo_replaceBy fun _ added => .inl (.addNodeWithId added)
  | addEdge source target kind attributes =>
      exact .inl (.one (.addEdge source target kind attributes))
  | addEdgeWithId id source target kind attributes =>
      exact .inl (.one (.addEdgeWithId id source target kind attributes))
  | removeNode id => exact .inl (.one (.removeNode id))
  | removeEdge id => exact .inl (.one (.removeEdge id))
  | setAttribute id key value => exact .inl (.one (.setAttribute id key value))
  | record node rule => exact .inl (.one (.record node rule))
  | applyMatch rule found => exact .inl (graph.changesTo_applyMatch rule found)
  | applyRule catalog id =>
      exact .inl (CodeGraph.applyRule_induction (motive := graph.ChangesTo)
        (fun before rule found leads => leads.trans (before.changesTo_applyMatch rule found))
        (.refl graph) catalog id)
  | transform rules mode =>
      refine changesTo_replaceBy fun after mapped => .inl ?_
      obtain ⟨result, done, rfl⟩ := map_eq_ok_iff.mp mapped
      exact CodeGraph.changesTo_transform done
  | transformApart rules mode =>
      refine changesTo_replaceBy fun after mapped => ?_
      obtain ⟨result, done, rfl⟩ := map_eq_ok_iff.mp mapped
      exact CodeGraph.changesTo_transformApart done
  | reload => exact changesTo_replaceBy fun _ loaded => .inr (CodeGraph.changesTo_ofJsonText loaded)

/-- An edge refused costs a place in the order of edges and nothing else. -/
theorem addEdgeWithId_of_failed {id source target : String} {kind : EdgeKind}
    {attributes : Attributes}
    (failed : (graph.addEdgeWithId id source target kind attributes).1.isOk = false) :
    (graph.addEdgeWithId id source target kind attributes).2 =
      { graph with nextEdgeSeq := graph.nextEdgeSeq + 1 } := by
  unfold CodeGraph.addEdgeWithId at failed ⊢
  dsimp only at failed ⊢
  split at failed
  · cases failed
  · rfl

/-- An addition that fails changes no node, no edge and no history entry. -/
theorem same_of_failed_addition {operation : Operation} (addition : operation.isAddition)
    (failed : (operation.run graph).1 = false) :
    (operation.run graph).2.nodes = graph.nodes ∧ (operation.run graph).2.edges = graph.edges ∧
      (operation.run graph).2.history = graph.history := by
  cases operation with
  | addNodeWithId id kind label attributes =>
      simp only [run] at failed ⊢
      cases added : graph.addNodeWithId id kind label attributes with
      | ok after =>
          rw [added] at failed
          cases failed
      | error fault => exact ⟨rfl, rfl, rfl⟩
  | addEdge source target kind attributes =>
      simp only [run, CodeGraph.addEdge] at failed ⊢
      rw [addEdgeWithId_of_failed]
      · exact ⟨rfl, rfl, rfl⟩
      · rw [← failed]
        cases (CodeGraph.addEdgeWithId _ _ _ _ _ _).1 <;> rfl
  | addEdgeWithId id source target kind attributes =>
      simp only [run] at failed ⊢
      rw [addEdgeWithId_of_failed failed]
      exact ⟨rfl, rfl, rfl⟩
  | _ => cases addition

end Operation

/-- The graphs that a session can come to. -/
inductive Reachable : CodeGraph → Prop where
  | empty (namespaceText : String) : Reachable (.withNamespace namespaceText)
  | loaded {text : String} {graph : CodeGraph} (loaded : CodeGraph.ofJsonText text = .ok graph) :
    Reachable graph
  | built {tree : SyntaxTree} {graph : CodeGraph} (built : buildGraph tree = .ok graph) :
    Reachable graph
  | after {graph : CodeGraph} (before : Reachable graph) (operation : Operation) :
    Reachable (operation.run graph).2

theorem Reachable.runAll {graph : CodeGraph} (reachable : Reachable graph)
    (operations : List Operation) : Reachable (Operation.runAll operations graph) :=
  List.foldlRecOn operations _ reachable fun _ before operation _ => before.after operation

/-- Every graph that a session comes to is well-formed. -/
theorem Reachable.wellFormed {graph : CodeGraph} (reachable : Reachable graph) :
    graph.WellFormed := by
  induction reachable with
  | empty namespaceText => exact .empty namespaceText
  | loaded loaded => exact .ofJsonText loaded
  | built built => exact (buildGraph_built built).wellFormed
  | after _ operation ih => exact operation.wellFormed_run ih

/-- Every graph that a session comes to is made by changes, which make a store with it. -/
theorem Reachable.exists_madeWith {graph : CodeGraph} (reachable : Reachable graph) :
    ∃ store : IndexedGraph, store.MadeWith graph := by
  have empty (namespaceText : String) :
      ({ namespaceText } : IndexedGraph).MadeWith (.withNamespace namespaceText) :=
    ⟨namespaceText, [], rfl, rfl⟩
  induction reachable with
  | empty namespaceText => exact ⟨_, empty namespaceText⟩
  | loaded loaded => exact (CodeGraph.changesTo_ofJsonText loaded).exists_madeWith (empty "")
  | built built => exact (changesTo_buildGraph built).exists_madeWith (empty "")
  | @after before _ operation ih =>
      obtain ⟨store, made⟩ := ih
      rcases operation.changesTo_run before with leads | anew
      · exact leads.exists_madeWith made
      · exact anew.exists_madeWith (empty "")

/-- **The invariant of sessions.** In every graph that a session comes to, ids are used once, edges
end at nodes and sequence numbers are different and below the next one; looking up finds what is
there and nothing else; the graph is made by changes, and whatever store the same changes make has
exactly the ids of the nodes and edges that are there in its two indexes, and finds by them what the
graph has under an id; and an addition that fails changes no node, no edge and no history entry. -/
theorem session_invariant {graph : CodeGraph} (reachable : Reachable graph) :
    graph.WellFormed ∧
      (∀ id node, graph.node? id = some node ↔ node ∈ graph.nodes ∧ node.id = id) ∧
      (∀ id edge, graph.edge? id = some edge ↔ edge ∈ graph.edges ∧ edge.id = id) ∧
      (∀ id, graph.hasNode id ↔ id ∈ graph.nodes.map (·.id)) ∧
      (∀ id, graph.hasEdge id ↔ id ∈ graph.edges.map (·.id)) ∧
      ((∃ store : IndexedGraph, store.MadeWith graph) ∧
        ∀ store : IndexedGraph, store.MadeWith graph →
          (∀ id, id ∈ store.nodes.index.keys ↔ id ∈ graph.nodes.map (·.id)) ∧
          (∀ id, id ∈ store.edges.index.keys ↔ id ∈ graph.edges.map (·.id)) ∧
          (∀ id, store.node? id = graph.node? id) ∧
          ∀ id, store.edge? id = graph.edge? id) ∧
      ∀ operation : Operation, operation.isAddition → (operation.run graph).1 = false →
        (operation.run graph).2.nodes = graph.nodes ∧ (operation.run graph).2.edges = graph.edges ∧
          (operation.run graph).2.history = graph.history := by
  have wellFormed := reachable.wellFormed
  refine ⟨wellFormed, fun _ _ => wellFormed.node?_eq_some_iff,
    fun _ _ => wellFormed.edge?_eq_some_iff, fun _ => CodeGraph.hasNode_iff,
    fun _ => CodeGraph.hasEdge_iff, ⟨reachable.exists_madeWith, ?_⟩,
    fun _ => Operation.same_of_failed_addition⟩
  intro store made
  have represents := made.represents
  exact ⟨fun _ => represents.mem_nodeIndex_iff, fun _ => represents.mem_edgeIndex_iff,
    represents.node?_eq, represents.edge?_eq⟩

/-- A class with a static method that is linked to it twice. The method becomes a function, which
leaves the class and keeps the other link. -/
def staticSession : List Operation :=
  [.addNode .classType "A" ∅,
    .addNode .method "f" ((∅ : Attributes).insert "modifiers" "static"),
    .addEdge "n0" "n1" .contains ∅,
    .addEdge "n1" "n0" .calls ∅,
    .applyRule Builtin.catalog "rule-2"]

/-- The method and its place in the class are gone from the indexes, the function and the other link
are in them, and an edge to the method is refused. -/
theorem session_invariant_of_rewrite :
    let graph := Operation.runAll staticSession (.withNamespace "")
    let refused := Operation.addEdge "n0" "n1" .calls ∅
    Reachable graph ∧ graph.WellFormed ∧
      (∃ store : IndexedGraph, store.MadeWith graph ∧
        "n1" ∉ store.nodes.index.keys ∧ "n2" ∈ store.nodes.index.keys ∧
        "e0" ∉ store.edges.index.keys ∧ "e1" ∈ store.edges.index.keys) ∧
      (refused.run graph).1 = false ∧ (refused.run graph).2.edges = graph.edges := by
  intro graph refused
  have reachable : Reachable graph := (Reachable.empty "").runAll staticSession
  have nodes : graph.nodes.map (·.id) = ["n0", "n2"] := by decide +kernel
  have edges : graph.edges.map (·.id) = ["e1"] := by decide +kernel
  have failed : (refused.run graph).1 = false := by decide +kernel
  obtain ⟨wellFormed, _, _, _, _, ⟨⟨store, made⟩, exact⟩, additions⟩ := session_invariant reachable
  obtain ⟨nodeIndex, edgeIndex, _, _⟩ := exact store made
  refine ⟨reachable, wellFormed, ⟨store, made, ?_⟩, failed, (additions refused rfl failed).2.1⟩
  rw [nodeIndex, nodeIndex, edgeIndex, edgeIndex, nodes, edges]
  decide

end Transcode
