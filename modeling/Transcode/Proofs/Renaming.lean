import Mathlib.Logic.Equiv.Basic
import Transcode.Proofs.Counterparts

/-!
# Graphs under other names

Ids only tell nodes and edges apart, and sequence numbers only put them in order. A graph under
other names, with its nodes and edges in the same order (`Renamed`), shows the same at every
look-up, and a search in it comes to the same embeddings in the same order
(`Renamed.embeddings_eq`). So it has the same matches (`Renamed.findMatches_eq`). A graph with other
sequence numbers in the same order (`Relocated`) is the same graph under the same names.

Names are permutations of all ids: whatever is named in a graph, nothing else takes its name.
-/

namespace Transcode

/-- Other names for ids, and other sequence numbers. -/
structure Renaming where
  node : Equiv.Perm String
  edge : Equiv.Perm String
  place : Nat → Nat
  edgePlace : Nat → Nat

namespace Renaming

variable (names : Renaming)

/-- A node under its other name. -/
def onNode (node : Node) : Node :=
  { node with id := names.node node.id, seq := names.place node.seq }

/-- An edge under its other name, between the same nodes under theirs. -/
def onEdge (edge : Edge) : Edge :=
  { edge with
    id := names.edge edge.id
    source := names.node edge.source
    target := names.node edge.target
    seq := names.edgePlace edge.seq }

@[simp] theorem onNode_id (node : Node) : (names.onNode node).id = names.node node.id := rfl

@[simp] theorem onNode_kind (node : Node) : (names.onNode node).kind = node.kind := rfl

@[simp] theorem onNode_label (node : Node) : (names.onNode node).label = node.label := rfl

@[simp] theorem onNode_spec (node : Node) : (names.onNode node).spec = node.spec := rfl

@[simp] theorem onEdge_id (edge : Edge) : (names.onEdge edge).id = names.edge edge.id := rfl

@[simp] theorem onEdge_kind (edge : Edge) : (names.onEdge edge).kind = edge.kind := rfl

@[simp] theorem onEdge_source (edge : Edge) :
    (names.onEdge edge).source = names.node edge.source := rfl

@[simp] theorem onEdge_target (edge : Edge) :
    (names.onEdge edge).target = names.node edge.target := rfl

/-- Other names change nothing of what nodes are. -/
theorem map_spec_onNode (nodes : List Node) :
    (nodes.map names.onNode).map Node.spec = nodes.map Node.spec := by
  rw [List.map_map]
  rfl

theorem node_eq_iff {first second : String} :
    names.node first = names.node second ↔ first = second := names.node.apply_eq_iff_eq

/-- The names of all that is in a graph. -/
def naming (graph : CodeGraph) : Naming where
  node := names.node
  edge := names.edge
  nodeIds := graph.nodes.map (·.id)
  edgeIds := graph.edges.map (·.id)

end Renaming

/-- A graph has the nodes and edges of another under other names and in the same order. -/
structure Renamed (first : CodeGraph) (names : Renaming) (second : CodeGraph) : Prop where
  nodes : second.nodes = first.nodes.map names.onNode
  edges : second.edges = first.edges.map names.onEdge
  order : ∀ one ∈ first.nodes, ∀ other ∈ first.nodes,
    names.place one.seq ≤ names.place other.seq ↔ one.seq ≤ other.seq

namespace Renamed

variable {first second : CodeGraph} {names : Renaming}
  (renamed : Renamed first names second)

include renamed

/-! ### Looking up -/

theorem nodeCount_eq : second.nodeCount = first.nodeCount := by
  rw [CodeGraph.nodeCount, renamed.nodes, List.length_map, CodeGraph.nodeCount]

theorem map_id : second.nodes.map (·.id) = (first.nodes.map (·.id)).map names.node := by
  rw [renamed.nodes, List.map_map, List.map_map]
  rfl

theorem hasNode_eq (id : String) : second.hasNode (names.node id) = first.hasNode id := by
  simp [CodeGraph.hasNode, renamed.nodes, List.any_map, Function.comp_def]

/-- What is found by a name is what is found by its id. -/
theorem node?_eq (id : String) :
    second.node? (names.node id) = (first.node? id).map names.onNode := by
  rw [CodeGraph.node?, renamed.nodes, List.find?_map]
  exact congrArg (Option.map _) (find?_congr_of_mem fun node _ => by simp)

/-- The edge found by a name is the one found by its id. -/
theorem edge?_eq (id : String) :
    second.edge? (names.edge id) = (first.edge? id).map names.onEdge := by
  rw [CodeGraph.edge?, renamed.edges, List.find?_map]
  exact congrArg (Option.map _) (find?_congr_of_mem fun edge _ => by simp)

/-- Nodes of a kind come in the same order. -/
theorem nodesOf_eq (kind : NodeKind) :
    second.nodesOf kind = (first.nodesOf kind).map names.onNode := by
  rw [CodeGraph.nodesOf, renamed.nodes, List.filter_map]
  rfl

theorem outgoing_eq (id : String) :
    second.outgoing (names.node id) = (first.outgoing id).map names.onEdge := by
  simp [CodeGraph.outgoing, renamed.edges, List.filter_map, Function.comp_def]

theorem incoming_eq (id : String) :
    second.incoming (names.node id) = (first.incoming id).map names.onEdge := by
  simp [CodeGraph.incoming, renamed.edges, List.filter_map, Function.comp_def]

/-- So do the edges of one kind from a node. -/
theorem outgoingOf_eq (kind : EdgeKind) (id : String) :
    second.outgoingOf kind (names.node id) = (first.outgoingOf kind id).map names.onEdge := by
  rw [CodeGraph.outgoingOf, renamed.outgoing_eq, List.filter_map]
  rfl

/-- So do the edges of one kind to a node. -/
theorem incomingOf_eq (kind : EdgeKind) (id : String) :
    second.incomingOf kind (names.node id) = (first.incomingOf kind id).map names.onEdge := by
  rw [CodeGraph.incomingOf, renamed.incoming_eq, List.filter_map]
  rfl

/-- Successors come in the same order. -/
theorem successors_eq (kind : EdgeKind) (id : String) :
    second.successors kind (names.node id) = (first.successors kind id).map names.onNode := by
  rw [CodeGraph.successors, renamed.outgoingOf_eq, List.filterMap_map, CodeGraph.successors,
    List.map_filterMap]
  exact congrArg (List.filterMap · _) (funext fun edge => renamed.node?_eq edge.target)

/-- Predecessors come in the same order. -/
theorem predecessors_eq (kind : EdgeKind) (id : String) :
    second.predecessors kind (names.node id) = (first.predecessors kind id).map names.onNode := by
  rw [CodeGraph.predecessors, renamed.incomingOf_eq, List.filterMap_map, CodeGraph.predecessors,
    List.map_filterMap]
  exact congrArg (List.filterMap · _) (funext fun edge => renamed.node?_eq edge.source)

/-- A node keeps its parent. -/
theorem parent?_eq (id : String) :
    second.parent? (names.node id) = (first.parent? id).map names.onNode := by
  rw [CodeGraph.parent?, renamed.incomingOf_eq, List.head?_map, CodeGraph.parent?]
  cases (first.incomingOf .contains id).head? with
  | none => rfl
  | some edge => exact renamed.node?_eq edge.source

/-- Nodes of the graph are sorted alike. -/
theorem map_mergeSort {nodes : List Node} (within : ∀ node ∈ nodes, node ∈ first.nodes) :
    (nodes.map names.onNode).mergeSort (·.seq ≤ ·.seq) =
      (nodes.mergeSort (·.seq ≤ ·.seq)).map names.onNode := by
  refine (List.map_mergeSort fun one oneMember other otherMember => ?_).symm
  exact decide_eq_decide.mpr
    (renamed.order one (within one oneMember) other (within other otherMember)).symm

omit renamed in
/-- Successors are nodes of the graph. -/
theorem mem_nodes_of_successors {kind : EdgeKind} {id : String} :
    ∀ node ∈ first.successors kind id, node ∈ first.nodes := by
  intro node member
  obtain ⟨edge, _, looked⟩ := List.mem_filterMap.mp member
  exact List.mem_of_find?_eq_some looked

omit renamed in
/-- Predecessors are nodes of the graph. -/
theorem mem_nodes_of_predecessors {kind : EdgeKind} {id : String} :
    ∀ node ∈ first.predecessors kind id, node ∈ first.nodes := by
  intro node member
  obtain ⟨edge, _, looked⟩ := List.mem_filterMap.mp member
  exact List.mem_of_find?_eq_some looked

/-- A node keeps its children in their order. -/
theorem children_eq (id : String) :
    second.children (names.node id) = (first.children id).map names.onNode := by
  rw [CodeGraph.children, renamed.successors_eq,
    renamed.map_mergeSort mem_nodes_of_successors]
  rfl

/-! ### Searching -/

/-- A node pattern accepts the same nodes. -/
theorem accepts_eq (pattern : PatternNode) (node : Node) :
    second.accepts pattern (names.onNode node) = first.accepts pattern node := by
  unfold CodeGraph.accepts
  refine congrArg₂ (· && ·) (NodeFilter.accepts_of_spec rfl _) ?_
  cases pattern.children with
  | none => rfl
  | some test =>
      rw [Option.all_some, Option.all_some, Renaming.onNode_id, renamed.successors_eq]
      exact ChildrenTest.accepts_of_spec (names.map_spec_onNode _) test

/-- Edges of a kind connect the same nodes. -/
theorem connects_eq (kind : EdgeKind) (source target : Node) :
    second.connects kind (names.onNode source) (names.onNode target) =
      first.connects kind source target := by
  simp [CodeGraph.connects, renamed.outgoingOf_eq, List.any_map, Function.comp_def]

/-- Nodes that come more than once are left out alike. -/
theorem distinctBySeq_eq {nodes : List Node} (within : ∀ node ∈ nodes, node ∈ first.nodes) :
    distinctBySeq (nodes.map names.onNode) = (distinctBySeq nodes).map names.onNode := by
  unfold distinctBySeq
  rw [renamed.map_mergeSort within, List.foldr_map]
  induction nodes.mergeSort (·.seq ≤ ·.seq) with
  | nil => rfl
  | cons node rest ih =>
      rw [List.foldr_cons, List.foldr_cons, ih]
      generalize rest.foldr _ [] = kept
      have same : (kept.map names.onNode).head?.map (·.id) = some (names.node node.id) ↔
          kept.head?.map (·.id) = some node.id := by
        cases kept <;> simp
      rw [Renaming.onNode_id, apply_ite (List.map names.onNode), List.map_cons]
      exact if_congr same rfl rfl

section Search

variable {pattern : SourcePattern} {edges : List PlacedEdge} {bound : List Node}

/-- A search has the same neighbours to choose from where an edge leads to a bound node. -/
theorem anchored?_eq (edge : PlacedEdge) :
    (Search.mk second pattern edges).anchored? (bound.map names.onNode) edge =
      ((Search.mk first pattern edges).anchored? bound edge).map
        (List.map names.onNode) := by
  unfold Search.anchored?
  rw [List.length_map, List.getElem?_map, List.getElem?_map]
  dsimp only
  split
  · cases bound[edge.source]? with
    | none => rfl
    | some node => exact congrArg some (renamed.successors_eq edge.kind node.id)
  · split
    · cases bound[edge.target]? with
      | none => rfl
      | some node => exact congrArg some (renamed.predecessors_eq edge.kind node.id)
    · rfl

omit renamed in
/-- Neighbours that a search may choose from are nodes of the graph. -/
theorem mem_nodes_of_anchored? {edge : PlacedEdge} {neighbours : List Node}
    (anchored : (Search.mk first pattern edges).anchored? bound edge = some neighbours) :
    ∀ node ∈ neighbours, node ∈ first.nodes := by
  unfold Search.anchored? at anchored
  dsimp only at anchored
  split at anchored
  · obtain ⟨source, _, rfl⟩ := Option.map_eq_some_iff.mp anchored
    exact mem_nodes_of_successors
  · split at anchored
    · obtain ⟨target, _, rfl⟩ := Option.map_eq_some_iff.mp anchored
      exact mem_nodes_of_predecessors
    · cases anchored

/-- A search has the same nodes to choose from. -/
theorem options_eq (candidates : List Node) :
    (Search.mk second pattern edges).options (bound.map names.onNode)
        (candidates.map names.onNode) =
      ((Search.mk first pattern edges).options bound candidates).map names.onNode := by
  have found : edges.findSome? ((Search.mk second pattern edges).anchored?
        (bound.map names.onNode)) =
      (edges.findSome? ((Search.mk first pattern edges).anchored? bound)).map
        (List.map names.onNode) := by
    rw [List.map_findSome?]
    exact congrArg (List.findSome? · edges) (funext fun edge => renamed.anchored?_eq edge)
  unfold Search.options
  dsimp only
  rw [found]
  cases anchored : edges.findSome? ((Search.mk first pattern edges).anchored? bound) with
  | none => rfl
  | some neighbours =>
      obtain ⟨edge, _, anchored⟩ := List.exists_of_findSome?_eq_some anchored
      rw [Option.map_some]
      dsimp only
      rw [List.filter_map, ← renamed.distinctBySeq_eq fun node member =>
        mem_nodes_of_anchored? anchored node (List.mem_filter.mp member).1]
      refine congrArg (fun nodes => distinctBySeq (List.map _ nodes))
        (List.filter_congr fun node _ => ?_)
      simp [List.any_map, Function.comp_def]

/-- The edges of a pattern hold alike. -/
theorem edgesHold_eq :
    (Search.mk second pattern edges).edgesHold (bound.map names.onNode) =
      (Search.mk first pattern edges).edgesHold bound := by
  unfold Search.edgesHold
  dsimp only
  rw [List.length_map]
  refine List.all_congr rfl fun edge => congrArg _ ?_
  rw [List.getElem?_map, List.getElem?_map]
  cases bound[edge.source]? with
  | none => rfl
  | some source =>
      cases bound[edge.target]? with
      | none => rfl
      | some target => exact renamed.connects_eq edge.kind source target

omit renamed in
/-- The constraints of a pattern hold alike. -/
theorem constraintsHold_eq :
    pattern.constraintsHold (bound.map names.onNode) = pattern.constraintsHold bound := by
  have seen (name : String) : (pattern.lookup (bound.map names.onNode) name).map Node.spec =
      (pattern.lookup bound name).map Node.spec := by
    unfold SourcePattern.lookup
    cases pattern.position? name with
    | none => rfl
    | some position =>
        change (bound.map names.onNode)[position]?.map Node.spec = bound[position]?.map Node.spec
        rw [List.getElem?_map, Option.map_map]
        rfl
  simp only [SourcePattern.constraintsHold, Constraint.holds_of_spec seen]

/-- **The same search.** It goes through the same nodes in the same order. -/
theorem all_eq (places : List (List Node)) (bound : List Node) :
    (Search.mk second pattern edges).all (places.map (List.map names.onNode))
        (bound.map names.onNode) =
      ((Search.mk first pattern edges).all places bound).map (List.map names.onNode) := by
  induction places generalizing bound with
  | nil =>
      unfold Search.all
      rw [List.map_nil]
      dsimp only
      rw [constraintsHold_eq]
      split <;> rfl
  | cons candidates rest ih =>
      -- The options are the same nodes in the same order, and so is what comes after each of them.
      unfold Search.all
      rw [List.map_cons]
      dsimp only
      rw [renamed.options_eq, List.flatMap_map, List.map_flatMap]
      refine List.flatMap_congr fun node _ => ?_
      have extended : bound.map names.onNode ++ [names.onNode node] =
          (bound ++ [node]).map names.onNode := by
        rw [List.map_append, List.map_singleton]
      have used : (bound.map names.onNode).any (·.id = (names.onNode node).id) =
          bound.any (·.id = node.id) := by
        simp [List.any_map, Function.comp_def]
      rw [extended, used, renamed.edgesHold_eq, ih]
      split <;> rfl

end Search

variable (rule : Rule)

/-- A search starts with the same candidates. -/
theorem candidates_eq : (rule.search second).candidates =
    (rule.search first).candidates.map (List.map names.onNode) := by
  unfold Search.candidates Rule.search
  dsimp only
  rw [List.map_map]
  refine List.map_congr_left fun pattern _ => ?_
  rw [renamed.nodes, List.filter_map, Function.comp_apply]
  exact congrArg _ (List.filter_congr fun node _ => renamed.accepts_eq pattern node)

/-- A search comes to the same embeddings. -/
theorem embeddings_eq : (rule.search second).embeddings =
    (rule.search first).embeddings.map (List.map names.onNode) := by
  have hopeless : (rule.search second).candidates.any (·.isEmpty) =
      (rule.search first).candidates.any (·.isEmpty) := by
    rw [renamed.candidates_eq, List.any_map]
    exact List.any_congr rfl fun nodes => by simp
  have all : (rule.search second).all _ [] = ((rule.search first).all _ []).map _ :=
    renamed.all_eq (rule.search first).candidates []
  unfold Search.embeddings
  rw [hopeless]
  split
  · rfl
  · rw [Search.toList_extend _ _ _ (Nat.zero_le _), Search.toList_extend _ _ _ (Nat.zero_le _),
      renamed.candidates_eq, List.nil_append, List.nil_append, List.map_take]
    exact congrArg (List.take embeddingLimit) all

/-- Edges are assigned alike to the edges of a pattern. -/
theorem assignEdges_eq (bound : List Node) (used : List String) (edges : List PlacedEdge) :
    (rule.search second).assignEdges (bound.map names.onNode) (used.map names.edge) edges =
      ((rule.search first).assignEdges bound used edges).map
        (List.map (names.naming first).matchedEdge) := by
  induction edges generalizing used with
  | nil => rfl
  | cons edge rest ih =>
      unfold Search.assignEdges
      simp only [List.getElem?_map]
      cases bound[edge.source]? with
      | none => rfl
      | some source =>
          cases bound[edge.target]? with
          | none => rfl
          | some target =>
              have chosen : (second.outgoingOf edge.kind (names.node source.id)).find?
                    (fun candidate => candidate.target = names.node target.id &&
                      !(used.map names.edge).contains candidate.id) =
                  ((first.outgoingOf edge.kind source.id).find?
                    (fun candidate => candidate.target = target.id &&
                      !used.contains candidate.id)).map names.onEdge := by
                rw [renamed.outgoingOf_eq, List.find?_map]
                exact congrArg (Option.map _) (find?_congr_of_mem fun candidate _ => by simp)
              simp only [Option.map_some, Option.bind_eq_bind, Option.bind_some]
              refine (congrArg (Option.bind · _) chosen).trans ?_
              rw [Option.bind_map, Option.map_bind]
              refine congrArg (Option.bind _) (funext fun candidate => ?_)
              have later := ih (candidate.id :: used)
              rw [List.map_cons] at later
              simp only [Function.comp_apply, Renaming.onEdge_id, later, Option.map_bind,
                Option.bind_map]
              rfl

/-- A rule has as many matches in both. -/
theorem length_matchesAt (index : Nat) :
    (rule.matchesAt index second).length = (rule.matchesAt index first).length := by
  change ((rule.search second).embeddings.filterMap
    (rule.matchOf? index (rule.search second))).length =
    ((rule.search first).embeddings.filterMap (rule.matchOf? index (rule.search first))).length
  rw [renamed.embeddings_eq, List.filterMap_map, List.length_filterMap_eq_countP,
    List.length_filterMap_eq_countP]
  refine List.countP_congr fun bound _ => ?_
  have assigned := renamed.assignEdges_eq rule bound [] rule.sourcePattern.placedEdges
  rw [List.map_nil] at assigned
  simp only [Function.comp_apply, Rule.matchOf?, Option.isSome_map]
  change ((rule.search second).assignEdges _ [] rule.sourcePattern.placedEdges).isSome = true ↔
    ((rule.search first).assignEdges _ _ rule.sourcePattern.placedEdges).isSome = true
  rw [assigned, Option.isSome_map]

omit rule in
/-- A list of rules has as many matches in both. -/
theorem length_findMatches (rules : List Rule) :
    (second.findMatches rules).length = (first.findMatches rules).length := by
  unfold CodeGraph.findMatches
  rw [(Match.ranked_perm _).length_eq, (Match.ranked_perm _).length_eq, List.length_flatMap,
    List.length_flatMap]
  exact congrArg List.sum (List.map_congr_left fun entry _ =>
    renamed.length_matchesAt entry.1 entry.2)

/-! ### Matches -/

/-- Places are in the same order. -/
theorem place_lt {one other : Node} (oneThere : one ∈ first.nodes)
    (otherThere : other ∈ first.nodes)
    (before : one.seq < other.seq) : names.place one.seq < names.place other.seq := by
  have later := mt (renamed.order other otherThere one oneThere).mp (Nat.not_le.mpr before)
  exact Nat.not_le.mp later

section Matches

variable (firstFormed : first.WellFormed) {rule}

include firstFormed

/-- An embedding gives the same match in both. -/
theorem matchesAt_eq (valid : rule.Valid) (index : Nat) :
    rule.matchesAt index second =
      (rule.matchesAt index first).map ((names.naming first).matchAt names.place) := by
  change (rule.search second).embeddings.filterMap (rule.matchOf? index (rule.search second)) =
    ((rule.search first).embeddings.filterMap (rule.matchOf? index (rule.search first))).map _
  rw [renamed.embeddings_eq, List.filterMap_map, List.map_filterMap]
  refine List.filterMap_congr fun bound member => ?_
  rw [Search.embeddings_eq_take firstFormed] at member
  obtain ⟨size, _⟩ := Rule.length_of_mem_assignments (List.mem_of_mem_take member)
  have assigned := renamed.assignEdges_eq rule bound [] rule.sourcePattern.placedEdges
  exact (names.naming first).matchOf?_map names.place valid size index assigned

omit rule in
/-- **The same matches**, in the same order. -/
theorem findMatches_eq (secondFormed : second.WellFormed) {rules : List Rule}
    (valid : ∀ rule ∈ rules, rule.Valid) :
    second.findMatches rules =
      (first.findMatches rules).map ((names.naming first).matchAt names.place) := by
  have order := (names.naming first).pairwise_matchAt firstFormed valid
    fun one oneThere other otherThere => renamed.place_lt oneThere otherThere
  refine (secondFormed.pairwise_findMatches rules).eq_of_mem_iff order fun found => ?_
  simp only [List.mem_map, CodeGraph.mem_findMatches_iff]
  constructor
  · rintro ⟨rule, index, at_, member⟩
    rw [renamed.matchesAt_eq firstFormed (valid rule (List.mem_of_getElem? at_)), List.mem_map]
      at member
    obtain ⟨other, otherMember, same⟩ := member
    exact ⟨other, ⟨rule, index, at_, otherMember⟩, same⟩
  · rintro ⟨other, ⟨rule, index, at_, member⟩, rfl⟩
    refine ⟨rule, index, at_, ?_⟩
    rw [renamed.matchesAt_eq firstFormed (valid rule (List.mem_of_getElem? at_))]
    exact List.mem_map_of_mem member

end Matches

end Renamed

/-! ### Other numbers -/

/-- A node with another sequence number. -/
def Node.placed (place : Nat → Nat) (node : Node) : Node := { node with seq := place node.seq }

/-- An edge with another sequence number. -/
def Edge.placed (place : Nat → Nat) (edge : Edge) : Edge := { edge with seq := place edge.seq }

/-- A graph has the nodes and edges of another with other sequence numbers, the nodes in the same
order. -/
structure Relocated (first : CodeGraph) (place edgePlace : Nat → Nat) (second : CodeGraph) :
    Prop where
  nodes : second.nodes = first.nodes.map (Node.placed place)
  edges : second.edges = first.edges.map (Edge.placed edgePlace)
  history : second.history = first.history
  order : ∀ one ∈ first.nodes, ∀ other ∈ first.nodes,
    place one.seq ≤ place other.seq ↔ one.seq ≤ other.seq

/-- The same names for ids. -/
def Renaming.moving (place edgePlace : Nat → Nat) : Renaming := ⟨.refl _, .refl _, place, edgePlace⟩

namespace Relocated

variable {first second : CodeGraph} {place edgePlace : Nat → Nat}
  (relocated : Relocated first place edgePlace second)

include relocated

theorem renamed : Renamed first (.moving place edgePlace) second :=
  ⟨relocated.nodes, relocated.edges, relocated.order⟩

/-- Sequence numbers are not written out. -/
theorem toData_eq : second.toData = first.toData := by
  unfold CodeGraph.toData
  rw [relocated.nodes, relocated.edges, relocated.history, List.map_map, List.map_map]
  rfl

theorem length_findMatches (rules : List Rule) :
    (second.findMatches rules).length = (first.findMatches rules).length :=
  relocated.renamed.length_findMatches rules

end Relocated

end Transcode
