import Transcode.Proofs.Drafts
import Transcode.Proofs.Indexing
import Transcode.Transform.Partition

/-!
# Primitive changes

Whatever is done to a graph comes down to a few primitive changes (`Change`): nodes and edges are
added, put back and removed, attributes are written, history and forwarding are noted and counters
are set. A change made in a store that represents a graph and in the graph leaves a store that
represents the graph again, also where it is refused, and so do any number of changes
(`IndexedGraph.Represents.runAll`), so a store and a graph that the same changes made agree
(`IndexedGraph.MadeWith.represents`). Applying a match, merging parts, loading data and building the
graph of a tree are sequences of primitive changes (`CodeGraph.changesTo_applyMatch`,
`CodeGraph.changesTo_merged`, `CodeGraph.changesTo_ofData`, `changesTo_buildGraph`).
-/

namespace Transcode

/-- A primitive change of a graph. -/
inductive Change where
  | addNode (kind : NodeKind) (label : String) (attributes : Attributes)
  | addNodeWithId (id : String) (kind : NodeKind) (label : String) (attributes : Attributes)
  | addEdge (source target : String) (kind : EdgeKind) (attributes : Attributes)
  | addEdgeWithId (id source target : String) (kind : EdgeKind) (attributes : Attributes)
  | insertEdge (edge : Edge)
  | removeNode (id : String)
  | removeEdge (id : String)
  | setAttribute (id key value : String)
  | record (node rule : String)
  | forward (old new : String)
  | count (nextNodeId nextEdgeId : Nat)

namespace Change

/-- The graph after a change. One that is refused may have used up an id or a sequence number. -/
def run (graph : CodeGraph) : Change → CodeGraph
  | .addNode kind label attributes => (graph.addNode kind label attributes).2
  | .addNodeWithId id kind label attributes =>
    ((graph.addNodeWithId id kind label attributes).toOption).getD graph
  | .addEdge source target kind attributes => (graph.addEdge source target kind attributes).2
  | .addEdgeWithId id source target kind attributes =>
    (graph.addEdgeWithId id source target kind attributes).2
  | .insertEdge edge => ((graph.insertEdge edge).toOption).getD graph
  | .removeNode id => graph.removeNode id
  | .removeEdge id => graph.removeEdge id
  | .setAttribute id key value => graph.setAttribute id key value
  | .record node rule => graph.record node rule
  | .forward old new => graph.forward old new
  | .count nextNodeId nextEdgeId => { graph with nextNodeId, nextEdgeId }

/-- The store after a change. -/
def runStored (store : IndexedGraph) : Change → IndexedGraph
  | .addNode kind label attributes => (store.addNode kind label attributes).2
  | .addNodeWithId id kind label attributes =>
    ((store.addNodeWithId id kind label attributes).toOption).getD store
  | .addEdge source target kind attributes => (store.addEdge source target kind attributes).2
  | .addEdgeWithId id source target kind attributes =>
    (store.addEdgeWithId id source target kind attributes).2
  | .insertEdge edge => ((store.insertEdge edge).toOption).getD store
  | .removeNode id => store.removeNode id
  | .removeEdge id => store.removeEdge id
  | .setAttribute id key value => store.setAttribute id key value
  | .record node rule => store.record node rule
  | .forward old new => store.forward old new
  | .count nextNodeId nextEdgeId => { store with nextNodeId, nextEdgeId }

end Change

namespace IndexedGraph.Represents

variable {store : IndexedGraph} {graph : CodeGraph}

/-- A change that is made or refused alike leaves what represents the graph that it leaves. -/
theorem of_sameOutcome {stored : Except GraphFault IndexedGraph}
    {shown : Except GraphFault CodeGraph} (represents : store.Represents graph)
    (same : SameOutcome Represents stored shown) :
    (stored.toOption.getD store).Represents (shown.toOption.getD graph) := by
  cases same with
  | ok same => exact same
  | error _ => exact represents

/-- **One change.** The indexes of the store stay exact, and the store represents the graph after
the change. -/
theorem run (represents : store.Represents graph) (change : Change) :
    (change.runStored store).Represents (change.run graph) := by
  cases change with
  | addNode kind label attributes => exact (represents.addNode kind label attributes).2
  | addNodeWithId id kind label attributes =>
      exact represents.of_sameOutcome (represents.addNodeWithId id kind label attributes)
  | addEdge source target kind attributes =>
      exact (represents.addEdge source target kind attributes).2
  | addEdgeWithId id source target kind attributes =>
      exact (represents.addEdgeWithId id source target kind attributes).2
  | insertEdge edge => exact represents.of_sameOutcome (represents.insertEdge edge)
  | removeNode id => exact represents.removeNode id
  | removeEdge id => exact represents.removeEdge id
  | setAttribute id key value => exact represents.setAttribute id key value
  | record node rule => exact represents.record node rule
  | forward old new => exact represents.forward old new
  | count nextNodeId nextEdgeId => exact { represents with nextNodeId := rfl, nextEdgeId := rfl }

/-- **Any number of changes.** -/
theorem runAll (represents : store.Represents graph) (changes : List Change) :
    (changes.foldl Change.runStored store).Represents (changes.foldl Change.run graph) := by
  induction changes generalizing store graph with
  | nil => exact represents
  | cons change rest ih => exact ih (represents.run change)

end IndexedGraph.Represents

/-- A store and a graph that the same changes made, the one of an empty store and the other of an
empty graph. -/
def IndexedGraph.MadeWith (store : IndexedGraph) (graph : CodeGraph) : Prop :=
  ∃ (namespaceText : String) (changes : List Change),
    changes.foldl Change.runStored { namespaceText } = store ∧
      changes.foldl Change.run (.withNamespace namespaceText) = graph

/-- **Stores and graphs that the same changes made.** The indexes of the store are exact, and it
represents the graph. -/
theorem IndexedGraph.MadeWith.represents {store : IndexedGraph} {graph : CodeGraph}
    (made : store.MadeWith graph) : store.Represents graph := by
  obtain ⟨namespaceText, changes, rfl, rfl⟩ := made
  exact (Represents.empty namespaceText).runAll changes

namespace CodeGraph

variable {graph before after : CodeGraph}

/-- A graph comes from another by primitive changes. -/
def ChangesTo (before after : CodeGraph) : Prop :=
  ∃ changes : List Change, changes.foldl Change.run before = after

namespace ChangesTo

theorem refl (graph : CodeGraph) : graph.ChangesTo graph := ⟨[], rfl⟩

/-- Changes are made one after another. -/
theorem trans {last : CodeGraph} (first : before.ChangesTo after) (second : after.ChangesTo last) :
    before.ChangesTo last := by
  obtain ⟨changes, rfl⟩ := first
  obtain ⟨others, rfl⟩ := second
  exact ⟨changes ++ others, List.foldl_append⟩

/-- A graph that comes from one that is made with a store is made with a store, too. -/
theorem exists_madeWith (leads : before.ChangesTo after) {store : IndexedGraph}
    (made : store.MadeWith before) : ∃ store : IndexedGraph, store.MadeWith after := by
  obtain ⟨changes, rfl⟩ := leads
  obtain ⟨namespaceText, earlier, -, rfl⟩ := made
  exact ⟨_, namespaceText, earlier ++ changes, rfl, List.foldl_append⟩

theorem one (change : Change) : graph.ChangesTo (change.run graph) := ⟨[change], rfl⟩

/-- A node is added under a given id. -/
theorem addNodeWithId {id : String} {kind : NodeKind} {label : String} {attributes : Attributes}
    (added : graph.addNodeWithId id kind label attributes = .ok after) : graph.ChangesTo after := by
  refine ⟨[.addNodeWithId id kind label attributes], ?_⟩
  change ((graph.addNodeWithId id kind label attributes).toOption).getD graph = after
  rw [added]
  rfl

/-- An edge is put at its place. -/
theorem insertEdge {edge : Edge} (added : graph.insertEdge edge = .ok after) :
    graph.ChangesTo after := by
  refine ⟨[.insertEdge edge], ?_⟩
  change ((graph.insertEdge edge).toOption).getD graph = after
  rw [added]
  rfl

/-- What each step of a loop comes to by changes, the loop does. -/
theorem foldl {α : Type} {step : CodeGraph → α → CodeGraph}
    (each : ∀ graph item, CodeGraph.ChangesTo graph (step graph item)) (items : List α) :
    graph.ChangesTo (items.foldl step graph) :=
  List.foldlRecOn (motive := graph.ChangesTo) items step (.refl graph) fun _ leads item _ =>
    leads.trans (each _ item)

/-- Entries are added to the history one by one. -/
theorem history (graph : CodeGraph) (entries : List Provenance) :
    graph.ChangesTo { graph with history := graph.history ++ entries } := by
  refine ⟨entries.map fun entry => .record entry.node entry.rule, ?_⟩
  induction entries generalizing graph with
  | nil => simp
  | cons entry rest ih =>
      rw [List.map_cons, List.foldl_cons, ih]
      simp [Change.run, record]

/-- What is replaced is noted one by one. -/
theorem forwarding (graph : CodeGraph) (entries : List (String × String)) :
    graph.ChangesTo { graph with
      forwarding := entries.foldl (fun dict entry => dict.insert entry.1 entry.2)
        graph.forwarding } := by
  refine ⟨entries.map fun entry => .forward entry.1 entry.2, ?_⟩
  induction entries generalizing graph with
  | nil => rfl
  | cons entry rest ih =>
      rw [List.map_cons, List.foldl_cons, ih]
      rfl

end ChangesTo

/-! ### Applying a match -/

/-- Each new node is added and recorded, as far as the templates go. -/
theorem changesTo_buildNodes (rule : Rule) (lookup : String → Option Node)
    (templates : List TemplateNode) (graph : CodeGraph) :
    graph.ChangesTo (rule.buildNodes lookup templates graph).2 := by
  induction templates generalizing graph with
  | nil => exact .refl graph
  | cons template rest ih =>
      unfold Rule.buildNodes
      split
      · exact .refl graph
      · rename_i spec _
        have added : graph.ChangesTo (graph.addNode spec.kind spec.label spec.attributes).2 :=
          .one (.addNode spec.kind spec.label spec.attributes)
        exact (added.trans (.one (.record _ rule.id))).trans (ih _)

/-- Each edge of the target is added, up to the first that is refused. -/
theorem changesTo_buildEdges (rule : Rule) (fragment : Fragment) (found : Match)
    (edges : List PatternEdge) (graph : CodeGraph) :
    graph.ChangesTo (rule.buildEdges fragment found edges graph).2 := by
  induction edges generalizing graph with
  | nil => exact .refl graph
  | cons edge rest ih =>
      unfold Rule.buildEdges
      split
      · rename_i source target _ _
        have added : graph.ChangesTo (graph.addEdge source target edge.kind ∅).2 :=
          .one (.addEdge source target edge.kind ∅)
        split
        · rename_i after step
          rw [step] at added
          exact added.trans (ih after)
        · rename_i fault after step
          rw [step] at added
          exact added
      · exact .refl graph

/-- Edges are put back one by one. -/
theorem changesTo_insertEdges (edges : List Edge) (graph : CodeGraph) :
    graph.ChangesTo (insertEdges edges graph).2 := by
  induction edges generalizing graph with
  | nil => exact .refl graph
  | cons edge rest ih =>
      unfold insertEdges
      split
      · rename_i after added
        exact (ChangesTo.insertEdge added).trans (ih after)
      · exact .refl graph

/-- Border edges are taken away, nodes are replaced, and the edges are put back. -/
theorem changesTo_replaceNodes (graph : CodeGraph) (found : Match)
    (replacements : List (String × String)) :
    graph.ChangesTo (graph.replaceNodes found replacements).2 := by
  have cleared : graph.ChangesTo
      ((graph.borderEdges found).foldl (fun graph edge => graph.removeEdge edge.id) graph) :=
    .foldl (fun _ (edge : Edge) => .one (.removeEdge edge.id)) _
  have dropped (graph : CodeGraph) : graph.ChangesTo (graph.dropReplaced replacements) :=
    .foldl (fun _ (replacement : String × String) =>
      (ChangesTo.one (.removeNode replacement.1)).trans
        (.one (.forward replacement.1 replacement.2))) _
  exact (cleared.trans (dropped _)).trans (changesTo_insertEdges _ _)

/-- A fragment is linked, and nodes are replaced by it. -/
theorem changesTo_placeFragment (graph : CodeGraph) (rule : Rule) (found : Match)
    (fragment : Fragment) : graph.ChangesTo (graph.placeFragment rule found fragment).2 := by
  unfold placeFragment
  split
  · exact .refl graph
  · have linked := changesTo_buildEdges rule fragment found rule.targetPattern.edges graph
    split
    · rename_i fault after step
      rw [step] at linked
      exact linked
    · rename_i after step
      rw [step] at linked
      exact linked.trans (changesTo_replaceNodes after found _)

/-- **Applying a match** is a sequence of changes, also where it stops on the way: nodes are added
and recorded, edges are added, border edges are removed, replaced nodes are removed and forwarded,
and the border edges are put back. -/
theorem changesTo_applyMatch (graph : CodeGraph) (rule : Rule) (found : Match) :
    graph.ChangesTo (graph.applyMatch rule found).2 := by
  unfold applyMatch
  split
  · exact .refl graph
  · have added := changesTo_buildNodes rule (graph.boundNode? found) rule.targetPattern.nodes graph
    split
    · rename_i fault after step
      rw [step] at added
      exact added
    · rename_i fragment after step
      rw [step] at added
      exact added.trans (changesTo_placeFragment after rule found fragment)

/-! ### Merging and loading -/

/-- A graph comes from another by changes that leave its history and forwarding as they are. -/
structure GrowsTo (before after : CodeGraph) : Prop where
  leads : before.ChangesTo after
  history : after.history = before.history
  forwarding : after.forwarding = before.forwarding

namespace GrowsTo

theorem refl (graph : CodeGraph) : graph.GrowsTo graph := ⟨.refl graph, rfl, rfl⟩

/-- Growing goes on. -/
theorem trans {last : CodeGraph} (first : before.GrowsTo after) (second : after.GrowsTo last) :
    before.GrowsTo last where
  leads := first.leads.trans second.leads
  history := second.history.trans first.history
  forwarding := second.forwarding.trans first.forwarding

/-- A graph grows by a node under a given id. -/
theorem addNodeWithId {id : String} {kind : NodeKind} {label : String} {attributes : Attributes}
    (added : graph.addNodeWithId id kind label attributes = .ok after) : graph.GrowsTo after := by
  have leads := ChangesTo.addNodeWithId added
  unfold CodeGraph.addNodeWithId at added
  split at added
  · cases added
  · cases added
    exact ⟨leads, rfl, rfl⟩

/-- A graph grows by an edge at its place. -/
theorem insertEdge {edge : Edge} (added : graph.insertEdge edge = .ok after) :
    graph.GrowsTo after := by
  have leads := ChangesTo.insertEdge added
  obtain ⟨_, rfl⟩ := insertEdge_eq_ok_iff.mp added
  exact ⟨leads, rfl, rfl⟩

/-- An edge under a given id is put at the end, or refused. -/
theorem addEdgeWithId (graph : CodeGraph) (id source target : String) (kind : EdgeKind)
    (attributes : Attributes) :
    graph.GrowsTo (graph.addEdgeWithId id source target kind attributes).2 := by
  have leads : graph.ChangesTo (graph.addEdgeWithId id source target kind attributes).2 :=
    .one (.addEdgeWithId id source target kind attributes)
  let counted : CodeGraph := { graph with nextEdgeSeq := graph.nextEdgeSeq + 1 }
  have made : (graph.addEdgeWithId id source target kind attributes).2 = counted ∨
      ∃ edge, counted.insertEdge edge =
        .ok (graph.addEdgeWithId id source target kind attributes).2 := by
    unfold CodeGraph.addEdgeWithId
    dsimp only
    split
    · rename_i after inserted
      exact .inr ⟨_, inserted⟩
    · exact .inl rfl
  rcases made with refused | ⟨edge, inserted⟩
  · exact ⟨leads, by rw [refused], by rw [refused]⟩
  · have grown := GrowsTo.insertEdge inserted
    exact ⟨leads, grown.history, grown.forwarding⟩

/-- A graph grows by the nodes of data. -/
theorem addNodes {nodes : List NodeData} (added : graph.addNodes nodes = .ok after) :
    graph.GrowsTo after := by
  induction nodes generalizing graph with
  | nil =>
      cases added
      exact .refl after
  | cons node rest ih =>
      unfold CodeGraph.addNodes at added
      obtain ⟨next, step, later⟩ := bind_eq_ok_iff.mp added
      exact (addNodeWithId step).trans (ih later)

/-- A graph grows by the edges of data. -/
theorem addEdges {edges : List EdgeData} (added : graph.addEdges edges = .ok after) :
    graph.GrowsTo after := by
  induction edges generalizing graph with
  | nil =>
      cases added
      exact .refl after
  | cons edge rest ih =>
      have step := addEdgeWithId graph edge.id edge.source edge.target edge.kind edge.attributes
      unfold CodeGraph.addEdges at added
      split at added
      · rename_i next made
        rw [made] at step
        exact step.trans (ih added)
      · cases added

/-- A graph grows by the edges of a merge. -/
theorem mergeEdges {ids : IdSource} {seq : Nat} {edges : List PlannedEdge}
    (added : Merge.addEdges graph ids seq edges = .ok after) : graph.GrowsTo after := by
  induction edges generalizing graph ids seq with
  | nil =>
      cases added
      exact .refl after
  | cons edge rest ih =>
      unfold Merge.addEdges at added
      obtain ⟨next, inserted, added⟩ := bind_eq_ok_iff.mp added
      exact (insertEdge inserted).trans (ih added)

end GrowsTo

/-- **Merging parts** is a sequence of changes of an empty graph. -/
theorem changesTo_merged {merge : Merge} (done : merge.graph = .ok after) :
    (withNamespace "").ChangesTo after := by
  unfold Merge.graph at done
  obtain ⟨withNodes, nodes, done⟩ := bind_eq_ok_iff.mp done
  obtain ⟨withEdges, edges, done⟩ := bind_eq_ok_iff.mp done
  cases done
  have grown : (withNamespace "").GrowsTo withNodes :=
    foldlM_induction (motive := (withNamespace "").GrowsTo)
      (fun _ _ _ _ kept step => kept.trans (.addNodeWithId step)) (.refl _) nodes
  obtain ⟨leads, history, forwarding⟩ := grown.trans (.mergeEdges edges)
  have noted := (leads.trans (.history withEdges (merge.history merge.namedNodes))).trans
    (.forwarding _ (merge.forwarding merge.namedNodes))
  rw [history, forwarding] at noted
  exact noted

/-- **Loading data** is a sequence of changes of an empty graph. -/
theorem changesTo_ofData {data : GraphData} (loaded : CodeGraph.ofData data = .ok after) :
    (withNamespace "").ChangesTo after := by
  unfold CodeGraph.ofData at loaded
  obtain ⟨withNodes, nodes, loaded⟩ := bind_eq_ok_iff.mp loaded
  obtain ⟨withEdges, edges, loaded⟩ := bind_eq_ok_iff.mp loaded
  cases loaded
  have grown : (withNamespace "").GrowsTo withEdges :=
    (GrowsTo.addNodes nodes).trans (.addEdges edges)
  have noted := (grown.leads.trans (.history withEdges data.history)).trans
    (.one (.count withEdges.nodeCount withEdges.edgeCount))
  rw [grown.history] at noted
  exact noted

end CodeGraph

/-! ### Graphs of source texts -/

namespace Draft

variable {draft : Draft}

open CodeGraph (ChangesTo)

theorem changesTo_linked (draft : Draft) (source target : String) (kind : EdgeKind) :
    draft.graph.ChangesTo (draft.linked source target kind).graph :=
  .one (.addEdge source target kind ∅)

/-- A construct is a node, with an edge from its owner if it has one. -/
theorem changesTo_withConstruct (draft : Draft) (owner : Option String) (outline : Outline) :
    draft.graph.ChangesTo (draft.withConstruct owner outline).2.graph := by
  have added : draft.graph.ChangesTo
      (draft.graph.addNode outline.kind outline.label outline.attributes).2 :=
    .one (.addNode outline.kind outline.label outline.attributes)
  cases owner with
  | none => exact added
  | some owner => exact added.trans (.one (.addEdge owner _ .contains ∅))

mutual

/-- A construct is placed with all that it contains. -/
theorem changesTo_placed : ∀ (outline : Outline) (draft : Draft) (owner : Option String),
    draft.graph.ChangesTo (draft.placed owner outline).graph
  | ⟨kind, label, attributes, callees, children⟩, draft, owner => by
    unfold placed
    exact (changesTo_withConstruct draft owner ⟨kind, label, attributes, callees, []⟩).trans
      (changesTo_placedAll children _ _)

/-- Constructs are placed one after another. -/
theorem changesTo_placedAll : ∀ (outlines : List Outline) (draft : Draft) (owner : Option String),
    draft.graph.ChangesTo (draft.placedAll owner outlines).graph
  | [], draft, _ => by
    unfold placedAll
    exact .refl draft.graph
  | outline :: rest, draft, owner => by
    unfold placedAll
    exact (changesTo_placed outline draft owner).trans (changesTo_placedAll rest _ _)

end

/-- What each step of a loop over a draft comes to by changes, the loop does. -/
theorem changesTo_foldl {α : Type} {step : Draft → α → Draft}
    (each : ∀ draft item, (draft : Draft).graph.ChangesTo (step draft item).graph) (items : List α)
    (draft : Draft) : draft.graph.ChangesTo (items.foldl step draft).graph :=
  List.foldlRecOn (motive := fun after : Draft => draft.graph.ChangesTo after.graph) items step
    (.refl draft.graph) fun after leads item _ => leads.trans (each after item)

end Draft

/-- **Building a graph** is a sequence of changes of an empty graph. -/
theorem changesTo_buildGraph {tree : SyntaxTree} {graph : CodeGraph}
    (built : buildGraph tree = .ok graph) : (CodeGraph.withNamespace "").ChangesTo graph := by
  rw [buildGraph_eq] at built
  split at built
  · rename_i outlines _
    cases built
    have placed := Draft.changesTo_placedAll outlines {} none
    have linked (draft : Draft) : draft.graph.ChangesTo draft.withCalls.withSupertypes.graph :=
      (Draft.changesTo_foldl (fun draft _ => draft.changesTo_linked _ _ _) _ draft).trans
        (Draft.changesTo_foldl (fun draft _ => draft.changesTo_linked _ _ _) _ _)
    exact placed.trans (linked _)
  · cases built

end Transcode
