import Transcode.Proofs.Forwarding
import Transcode.Proofs.Matches
import Transcode.Proofs.Splitting

/-!
# Parts that mirror a whole graph

A part of a graph that is transformed apart has the nodes and edges that the whole graph has in the
territory of the part, under names of its own (`Mirrors`). What a pattern looks at is the same in
both, so the matches of the part are those of the whole graph in its territory, in the same order
(`Mirrors.forall₂_findMatches`).
-/

namespace Transcode

/-! ### What patterns and templates see of nodes -/

section Specs

variable {first second : String → Option Node}

/-- A filter sees of a node what it is, and not its id. -/
theorem NodeFilter.accepts_of_spec {node other : Node} (same : node.spec = other.spec)
    (filter : NodeFilter) : filter.accepts node = filter.accepts other := by
  obtain ⟨kind, label, attributes⟩ := NodeSpec.mk.inj same
  simp only [NodeFilter.accepts, Node.get?, kind, label, attributes]

/-- A filter accepts nodes alike that are alike. -/
theorem NodeFilter.all_accepts_of_spec {nodes others : List Node}
    (same : nodes.map Node.spec = others.map Node.spec) (filter : NodeFilter) :
    nodes.all filter.accepts = others.all filter.accepts := by
  induction nodes generalizing others with
  | nil => rw [List.map_eq_nil_iff.mp same.symm]
  | cons node rest ih =>
      obtain ⟨other, later, rfl, first, same⟩ := List.map_eq_cons_iff.mp same.symm
      rw [List.all_cons, List.all_cons, accepts_of_spec first, ih same.symm]

/-- A test of children sees what they are. -/
theorem ChildrenTest.accepts_of_spec {nodes others : List Node}
    (same : nodes.map Node.spec = others.map Node.spec) (test : ChildrenTest) :
    test.accepts nodes = test.accepts others := by
  have size := congrArg List.length same
  rw [List.length_map, List.length_map] at size
  simp only [accepts, size, NodeFilter.all_accepts_of_spec same]

variable (same : ∀ name, (first name).map Node.spec = (second name).map Node.spec)

include same

/-- A part of a template sees what the bound nodes are. -/
theorem TemplatePart.render_of_spec (part : TemplatePart) :
    part.render first = part.render second := by
  cases part with
  | plain text => rfl
  | value name part filters =>
      have seen := same name
      simp only [render]
      cases left : first name <;> cases right : second name <;> rw [left, right] at seen
      · cases seen
      · cases seen
      · obtain ⟨kind, label, attributes⟩ := NodeSpec.mk.inj (Option.some.inj seen)
        cases part <;> simp only [label, Node.textAt, attributes]

/-- A template sees what the bound nodes are. -/
theorem Template.render_of_spec (template : Template) :
    template.render first = template.render second := by
  have parts := funext (TemplatePart.render_of_spec same)
  rw [render, render, parts]

theorem Constraint.holds_of_spec (constraint : Constraint) :
    constraint.holds first = constraint.holds second := by
  cases constraint <;> simp only [holds, Template.render_of_spec same]

/-- What a template makes depends only on the specs of the bound nodes. -/
theorem TemplateNode.instantiate_of_spec (template : TemplateNode) :
    template.instantiate first = template.instantiate second := by
  have origin : (template.copyFrom.bind first).map Node.spec =
      (template.copyFrom.bind second).map Node.spec := by
    cases template.copyFrom with
    | none => rfl
    | some name => exact same name
  have changed (attributes : Attributes) :
      template.change first attributes = template.change second attributes := by
    simp only [change, Template.render_of_spec same]
  have labels : template.label.map (·.render first) = template.label.map (·.render second) := by
    cases template.label with
    | none => rfl
    | some label => exact congrArg some (Template.render_of_spec same label)
  unfold instantiate
  simp only [changed, labels]
  cases left : template.copyFrom.bind first <;> cases right : template.copyFrom.bind second <;>
    rw [left, right] at origin
  · cases origin
  · cases origin
  · obtain ⟨kind, label, attributes⟩ := NodeSpec.mk.inj (Option.some.inj origin)
    simp only [Option.map_some, kind, label, attributes]

end Specs

/-! ### Names in the whole graph -/

/-- What data shows of an edge. -/
def Edge.data (edge : Edge) : EdgeData :=
  ⟨edge.id, edge.source, edge.target, edge.kind, edge.attributes⟩

/-- What the nodes and edges of a part are called in the whole graph, for all that have been in the
part so far. -/
structure Naming where
  node : String → String
  edge : String → String
  nodeIds : List String
  edgeIds : List String

namespace Naming

/-- The ids in the whole graph of the nodes that have been in the part. -/
def territory (naming : Naming) : List String := naming.nodeIds.map naming.node

/-- The ids in the whole graph of the edges that have been in the part. -/
def routes (naming : Naming) : List String := naming.edgeIds.map naming.edge

/-- What data shows of a node of the part in the whole graph. -/
def nodeData (naming : Naming) (node : Node) : NodeData :=
  ⟨naming.node node.id, node.label, node.kind, node.attributes⟩

/-- What data shows of an edge of the part in the whole graph. -/
def edgeData (naming : Naming) (edge : Edge) : EdgeData :=
  ⟨naming.edge edge.id, naming.node edge.source, naming.node edge.target, edge.kind,
    edge.attributes⟩

variable {naming : Naming}

/-- A node of the whole graph is what its counterpart is. -/
theorem spec_of_data {node other : Node} (same : other.data = naming.nodeData node) :
    other.spec = node.spec :=
  congrArg (fun data : NodeData => (⟨data.kind, data.label, data.attributes⟩ : NodeSpec)) same

/-- Nodes of the whole graph are what their counterparts are. -/
theorem map_spec_of_data {nodes others : List Node}
    (same : others.map Node.data = nodes.map naming.nodeData) :
    others.map Node.spec = nodes.map Node.spec := by
  have specs := congrArg (List.map fun data : NodeData =>
    (⟨data.kind, data.label, data.attributes⟩ : NodeSpec)) same
  rwa [List.map_map, List.map_map] at specs

end Naming

open Naming

/-- A part has what a whole graph has in the territory of the part, which is closed under
containment. -/
structure Mirrors (naming : Naming) (part whole : CodeGraph) : Prop where
  partFormed : part.WellFormed
  wholeFormed : whole.WellFormed
  partSettled : part.Settled
  wholeSettled : whole.Settled
  nodes : (whole.nodes.filter (·.id ∈ naming.territory)).map Node.data =
    part.nodes.map naming.nodeData
  edges : (whole.edges.filter (·.id ∈ naming.routes)).map Edge.data =
    part.edges.map naming.edgeData
  nodesKnown : ∀ node ∈ part.nodes, node.id ∈ naming.nodeIds
  edgesKnown : ∀ edge ∈ part.edges, edge.id ∈ naming.edgeIds
  nodesApart : ∀ first ∈ naming.nodeIds, ∀ second ∈ naming.nodeIds,
    naming.node first = naming.node second → first = second
  edgesApart : ∀ first ∈ naming.edgeIds, ∀ second ∈ naming.edgeIds,
    naming.edge first = naming.edge second → first = second
  nodesSpent : ∀ id ∈ naming.nodeIds, part.NodeSpent id ∧ whole.NodeSpent (naming.node id)
  edgesSpent : ∀ id ∈ naming.edgeIds, part.EdgeSpent id ∧ whole.EdgeSpent (naming.edge id)
  enclosed : ∀ edge ∈ whole.edges, edge.source ∈ naming.territory →
    edge.target ∈ naming.territory → edge.id ∈ naming.routes
  contained : ∀ edge ∈ whole.edges, edge.kind = .contains →
    (edge.source ∈ naming.territory ↔ edge.target ∈ naming.territory)

namespace Mirrors

variable {naming : Naming} {part whole : CodeGraph} (mirrors : Mirrors naming part whole)

include mirrors

/-! ### Nodes and edges -/

/-- Each node of a part is one of the whole graph under its name. -/
theorem exists_shown {node : Node} (member : node ∈ part.nodes) :
    ∃ other ∈ whole.nodes, other.data = naming.nodeData node := by
  have listed : naming.nodeData node ∈ part.nodes.map naming.nodeData :=
    List.mem_map_of_mem member
  rw [← mirrors.nodes] at listed
  obtain ⟨other, there, same⟩ := List.mem_map.mp listed
  exact ⟨other, (List.mem_filter.mp there).1, same⟩

/-- Each node in the territory is one of the part. -/
theorem exists_shows {other : Node} (member : other ∈ whole.nodes)
    (inside : other.id ∈ naming.territory) :
    ∃ node ∈ part.nodes, other.data = naming.nodeData node := by
  have listed : other.data ∈ (whole.nodes.filter (·.id ∈ naming.territory)).map Node.data :=
    List.mem_map_of_mem (List.mem_filter.mpr ⟨member, decide_eq_true inside⟩)
  rw [mirrors.nodes] at listed
  obtain ⟨node, there, same⟩ := List.mem_map.mp listed
  exact ⟨node, there, same.symm⟩

/-- Each edge of a part is one of the whole graph under its name. -/
theorem exists_shownEdge {edge : Edge} (member : edge ∈ part.edges) :
    ∃ other ∈ whole.edges, other.data = naming.edgeData edge := by
  have listed : naming.edgeData edge ∈ part.edges.map naming.edgeData :=
    List.mem_map_of_mem member
  rw [← mirrors.edges] at listed
  obtain ⟨other, there, same⟩ := List.mem_map.mp listed
  exact ⟨other, (List.mem_filter.mp there).1, same⟩

/-- Each edge on the routes is one of the part. -/
theorem exists_showsEdge {other : Edge} (member : other ∈ whole.edges)
    (inside : other.id ∈ naming.routes) :
    ∃ edge ∈ part.edges, other.data = naming.edgeData edge := by
  have listed : other.data ∈ (whole.edges.filter (·.id ∈ naming.routes)).map Edge.data :=
    List.mem_map_of_mem (List.mem_filter.mpr ⟨member, decide_eq_true inside⟩)
  rw [mirrors.edges] at listed
  obtain ⟨edge, there, same⟩ := List.mem_map.mp listed
  exact ⟨edge, there, same.symm⟩

/-- Looking up a node of the part, and what it is called in the whole graph. -/
theorem node?_eq {id : String} (known : id ∈ naming.nodeIds) :
    (whole.node? (naming.node id)).map Node.data = (part.node? id).map naming.nodeData :=
  map_find?_key_of_mirror NodeData.id mirrors.nodes (fun _ => rfl) (fun _ => rfl)
    mirrors.nodesKnown mirrors.nodesApart known

/-- An edge is found under its name as it is in the part. -/
theorem edge?_eq {id : String} (known : id ∈ naming.edgeIds) :
    (whole.edge? (naming.edge id)).map Edge.data = (part.edge? id).map naming.edgeData :=
  map_find?_key_of_mirror EdgeData.id mirrors.edges (fun _ => rfl) (fun _ => rfl)
    mirrors.edgesKnown mirrors.edgesApart known

/-- A node is there under its name if it is in the part. -/
theorem hasNode_iff {id : String} (known : id ∈ naming.nodeIds) :
    whole.hasNode (naming.node id) ↔ part.hasNode id := by
  have same := congrArg Option.isSome (mirrors.node?_eq known)
  rw [Option.isSome_map, Option.isSome_map, CodeGraph.node?_isSome, CodeGraph.node?_isSome] at same
  rw [same]

/-! ### What the rest of the whole graph does not change -/

/-- Names of known nodes are different for different nodes. -/
theorem node_eq_iff {first second : String} (firstKnown : first ∈ naming.nodeIds)
    (secondKnown : second ∈ naming.nodeIds) :
    naming.node first = naming.node second ↔ first = second :=
  ⟨mirrors.nodesApart first firstKnown second secondKnown, congrArg naming.node⟩

/-- The ends of an edge are known. -/
theorem endsKnown {edge : Edge} (member : edge ∈ part.edges) :
    edge.source ∈ naming.nodeIds ∧ edge.target ∈ naming.nodeIds := by
  have known {id : String} (there : part.hasNode id) : id ∈ naming.nodeIds := by
    obtain ⟨node, nodeMember, rfl⟩ := List.mem_map.mp (CodeGraph.hasNode_iff.mp there)
    exact mirrors.nodesKnown node nodeMember
  have ends := mirrors.partFormed.endpoints edge member
  exact ⟨known ends.1, known ends.2⟩

/-- The edges of the territory that start at a node are those of the part. -/
theorem outgoingOf_eq (kind : EdgeKind) {id : String} (known : id ∈ naming.nodeIds) :
    ((whole.outgoingOf kind (naming.node id)).filter (·.id ∈ naming.routes)).map Edge.data =
      (part.outgoingOf kind id).map naming.edgeData := by
  let starts (data : EdgeData) : Bool := data.source = naming.node id && data.kind = kind
  calc ((whole.outgoingOf kind (naming.node id)).filter (·.id ∈ naming.routes)).map Edge.data
      = ((whole.edges.filter (·.id ∈ naming.routes)).map Edge.data).filter starts := by
        rw [List.filter_map, CodeGraph.outgoingOf, CodeGraph.outgoing, List.filter_filter,
          List.filter_filter, List.filter_filter]
        refine congrArg (List.map Edge.data) (List.filter_congr fun edge _ => ?_)
        simp only [starts, Edge.data, Function.comp_apply]
        grind
    _ = (part.edges.filter (starts ∘ naming.edgeData)).map naming.edgeData := by
        rw [mirrors.edges, List.filter_map]
    _ = (part.outgoingOf kind id).map naming.edgeData := by
        rw [CodeGraph.outgoingOf, CodeGraph.outgoing, List.filter_filter]
        refine congrArg (List.map naming.edgeData) (List.filter_congr fun edge member => ?_)
        have same := mirrors.node_eq_iff (mirrors.endsKnown member).1 known
        simp only [starts, Naming.edgeData, Function.comp_apply, same]
        exact Bool.and_comm ..

/-- All that a node of the part contains in the whole graph, it contains in the part. -/
theorem outgoingOf_contains_eq {id : String} (known : id ∈ naming.nodeIds) :
    (whole.outgoingOf .contains (naming.node id)).map Edge.data =
      (part.outgoingOf .contains id).map naming.edgeData := by
  rw [← mirrors.outgoingOf_eq .contains known]
  refine congrArg (List.map Edge.data) (List.filter_eq_self.mpr fun edge member => ?_).symm
  have leads := CodeGraph.mem_outgoingOf.mp member
  have inside : edge.source ∈ naming.territory :=
    leads.source ▸ List.mem_map_of_mem known
  exact decide_eq_true (mirrors.enclosed edge leads.member inside
    ((mirrors.contained edge leads.member leads.kind).mp inside))

/-- A node contains the same nodes in the whole graph, in the same order. -/
theorem successors_contains_eq {id : String} (known : id ∈ naming.nodeIds) :
    (whole.successors .contains (naming.node id)).map Node.data =
      (part.successors .contains id).map naming.nodeData := by
  let ending (data : EdgeData) : Option NodeData := (whole.node? data.target).map Node.data
  calc (whole.successors .contains (naming.node id)).map Node.data
      = ((whole.outgoingOf .contains (naming.node id)).map Edge.data).filterMap ending := by
        rw [CodeGraph.successors, List.map_filterMap, List.filterMap_map]
        rfl
    _ = (part.outgoingOf .contains id).filterMap (ending ∘ naming.edgeData) := by
        rw [mirrors.outgoingOf_contains_eq known, List.filterMap_map]
    _ = (part.outgoingOf .contains id).filterMap
        fun edge => (part.node? edge.target).map naming.nodeData :=
        List.filterMap_congr fun edge member => mirrors.node?_eq
          (mirrors.endsKnown (CodeGraph.mem_outgoingOf.mp member).member).2
    _ = (part.successors .contains id).map naming.nodeData := by
        rw [CodeGraph.successors, List.map_filterMap]

/-- A pattern node whose children are tested over containment accepts a node of the part as it
accepts the node in the whole graph. -/
theorem accepts_eq {place : PatternNode}
    (tests : ∀ test ∈ place.children, test.edge = .contains) {node other : Node}
    (member : node ∈ part.nodes) (same : other.data = naming.nodeData node) :
    whole.accepts place other = part.accepts place node := by
  have named : other.id = naming.node node.id := congrArg NodeData.id same
  unfold CodeGraph.accepts
  refine congrArg₂ (· && ·) (NodeFilter.accepts_of_spec (spec_of_data same) _) ?_
  cases tested : place.children with
  | none => rfl
  | some test =>
      have children := mirrors.successors_contains_eq (mirrors.nodesKnown node member)
      rw [Option.all_some, Option.all_some, tests test tested, named]
      exact ChildrenTest.accepts_of_spec (map_spec_of_data children) test

end Mirrors

end Transcode
