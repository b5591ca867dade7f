import Transcode.Proofs.Mirroring

/-!
# The matches of a part

If a part mirrors a whole graph, then its matches are those of the whole graph that bind nodes of
its territory, and they are ranked in the same order (`Mirrors.forall₂_findMatches`).
-/

namespace Transcode

/-- A match of a valid rule has a replaced node. -/
theorem Rule.exists_replaced_binding (rule : Rule) (valid : rule.Valid) {bound : List Node}
    (size : bound.length = rule.sourcePattern.nodes.length) :
    ∃ first, (rule.bindings bound).find? (·.replaced) = some first := by
  obtain ⟨node, member, role⟩ := valid.hasReplaced
  obtain ⟨binding, there, same⟩ := exists_left_of_forall₂ (forall₂_bindings size).flip node member
  rw [← Option.isSome_iff_exists, List.find?_isSome]
  exact ⟨binding, there, by simp [same.2, role]⟩

/-- The places that a match names are those of nodes. -/
theorem Rule.places_of_mem_matchesAt {graph : CodeGraph} (wellFormed : graph.WellFormed)
    {rule : Rule} (valid : rule.Valid) {index : Nat} {found : Match}
    (member : found ∈ rule.matchesAt index graph) :
    ∀ seq ∈ found.rootSeq :: found.bindings.map (·.seq), ∃ node ∈ graph.nodes, node.seq = seq := by
  obtain ⟨bound, assignment, made⟩ := exists_of_mem_matchesAt member
  obtain ⟨matched, _, rfl⟩ := matchOf?_eq_some_iff.mp made
  obtain ⟨size, _⟩ := length_of_mem_assignments assignment
  have bindings : ∀ seq ∈ (rule.bindings bound).map (·.seq), ∃ node ∈ graph.nodes,
      node.seq = seq := by
    rw [map_seq_bindings size]
    intro seq listed
    obtain ⟨node, member, rfl⟩ := List.mem_map.mp listed
    exact ⟨node, mem_nodes_of_mem_assignments wellFormed assignment node member, rfl⟩
  refine List.forall_mem_cons.mpr ⟨?_, bindings⟩
  obtain ⟨first, isFirst⟩ := rule.exists_replaced_binding valid size
  simp only [matchOf, isFirst, Option.map_some, Option.getD_some]
  exact bindings _ (List.mem_map_of_mem (List.mem_of_find?_eq_some isFirst))

/-- A node looked up is one of the bound ones. -/
theorem SourcePattern.mem_of_lookup {pattern : SourcePattern} {bound : List Node} {name : String}
    {node : Node} (found : pattern.lookup bound name = some node) : node ∈ bound := by
  obtain ⟨place, _, at_⟩ := Option.bind_eq_some_iff.mp found
  exact List.mem_of_getElem? at_

/-- All that a match names is in a graph: its bindings are to nodes, and its edges are edges between
nodes that it binds. -/
structure Match.Within (found : Match) (graph : CodeGraph) : Prop where
  bindings : ∀ binding ∈ found.bindings, ∃ node ∈ graph.nodes,
    node.id = binding.node ∧ node.seq = binding.seq
  edges : ∀ matched ∈ found.edges, ∃ edge ∈ graph.edges, Search.matchedEdge edge = matched
  ends : ∀ matched ∈ found.edges, (∃ binding ∈ found.bindings, binding.node = matched.source) ∧
    ∃ binding ∈ found.bindings, binding.node = matched.target

/-- A match found in a graph stays within it. -/
theorem CodeGraph.WellFormed.within_of_mem {graph : CodeGraph} (wellFormed : graph.WellFormed)
    {rules : List Rule} (valid : ∀ rule ∈ rules, rule.Valid) {found : Match}
    (member : found ∈ graph.findMatches rules) : found.Within graph := by
  obtain ⟨rule, index, at_, member⟩ := mem_findMatches_iff.mp member
  obtain ⟨bound, mapped, embeds, maps, rfl⟩ :=
    wellFormed.exists_embeds (valid rule (List.mem_of_getElem? at_)) member
  have size := embeds.accepted.length_eq
  have bindingOf {name id : String}
      (looked : (rule.sourcePattern.lookup bound name).map (·.id) = some id) :
      ∃ binding ∈ rule.bindings bound, binding.node = id := by
    obtain ⟨node, isBound, rfl⟩ := Option.map_eq_some_iff.mp looked
    have listed : node.id ∈ bound.map (·.id) :=
      List.mem_map_of_mem (SourcePattern.mem_of_lookup isBound)
    rw [← Rule.map_node_bindings size] at listed
    exact List.mem_map.mp listed
  refine ⟨fun binding bindingMember => ?_, fun matched matchedMember => ?_,
    fun matched matchedMember => ?_⟩
  · obtain ⟨⟨place, node⟩, paired, rfl⟩ := List.mem_map.mp bindingMember
    obtain ⟨_, _, there, _⟩ :=
      exists_left_of_forall₂ embeds.accepted.flip node (List.of_mem_zip paired).2
    exact ⟨node, there, rfl, rfl⟩
  · obtain ⟨there, thereMember, rfl⟩ := List.mem_map.mp matchedMember
    obtain ⟨_, _, stands⟩ := exists_left_of_forall₂ maps.stand there thereMember
    exact ⟨there, stands.member, rfl⟩
  · obtain ⟨there, thereMember, rfl⟩ := List.mem_map.mp matchedMember
    obtain ⟨_, _, stands⟩ := exists_left_of_forall₂ maps.stand there thereMember
    exact ⟨bindingOf stands.source, bindingOf stands.target⟩

instance : Std.Irrefl Match.Precedes where
  irrefl found before := by
    have same : Match.compareRank found found = .eq := Std.ReflCmp.compare_self
    rw [← Match.compareRank_eq_lt_iff, same] at before
    cases before

instance : Std.Antisymm Match.Precedes where
  antisymm first second before after := by
    have swap : Match.compareRank second first = (Match.compareRank first second).swap :=
      Std.OrientedCmp.eq_swap
    rw [← Match.compareRank_eq_lt_iff] at before after
    rw [swap, before] at after
    cases after

namespace Naming

variable (naming : Naming) (place : Nat → Nat)

/-- The node of the whole graph for one of the part, given what places are in the whole graph. -/
def nodeAt (node : Node) : Node :=
  ⟨naming.node node.id, node.kind, node.label, node.attributes, place node.seq⟩

/-- A binding of the part as one of the whole graph. -/
def bindingAt (binding : Binding) : Binding :=
  { binding with node := naming.node binding.node, seq := place binding.seq }

/-- An edge of a match in the part as one in the whole graph. -/
def matchedEdge (edge : MatchedEdge) : MatchedEdge :=
  ⟨naming.edge edge.edge, naming.node edge.source, naming.node edge.target⟩

/-- A match in the part as one in the whole graph. -/
def matchAt (found : Match) : Match :=
  { found with
    bindings := found.bindings.map (naming.bindingAt place)
    edges := found.edges.map naming.matchedEdge
    rootSeq := place found.rootSeq }

/-- Whether all that a match binds is in the territory. -/
def covers (found : Match) : Bool :=
  found.bindings.all fun binding => binding.node ∈ naming.territory

/-- A binding of the part and one of the whole graph to what the node is called there. -/
structure Binds (binding other : Binding) : Prop where
  known : binding.node ∈ naming.nodeIds
  node : other.node = naming.node binding.node
  name : other.name = binding.name
  replaced : other.replaced = binding.replaced

/-- An edge of a match in the part and one of a match in the whole graph that is called so there. -/
structure Carries (edge other : MatchedEdge) : Prop where
  known : edge.edge ∈ naming.edgeIds
  sourceKnown : edge.source ∈ naming.nodeIds
  targetKnown : edge.target ∈ naming.nodeIds
  source : other.source = naming.node edge.source
  target : other.target = naming.node edge.target
  edge : other.edge = naming.edge edge.edge

/-- A match in the part and the same match in the whole graph, places apart. -/
structure Relates (found other : Match) : Prop where
  rule : other.ruleIndex = found.ruleIndex
  bindings : List.Forall₂ naming.Binds found.bindings other.bindings
  edges : List.Forall₂ naming.Carries found.edges other.edges

variable {naming : Naming} {place : Nat → Nat}

/-- A match under other names is the same match under names that agree on what it binds. -/
theorem relates_matchAt {further : Naming} {found : Match} (place : Nat → Nat)
    (nodes : ∀ binding ∈ found.bindings, binding.node ∈ further.nodeIds ∧
      naming.node binding.node = further.node binding.node)
    (edges : ∀ matched ∈ found.edges, matched.edge ∈ further.edgeIds ∧
      naming.edge matched.edge = further.edge matched.edge)
    (ends : ∀ matched ∈ found.edges, (∃ binding ∈ found.bindings, binding.node = matched.source) ∧
      ∃ binding ∈ found.bindings, binding.node = matched.target) :
    further.Relates found (naming.matchAt place found) := by
  refine ⟨rfl, List.forall₂_map_right_iff.mpr (List.forall₂_same.mpr fun binding member => ?_),
    List.forall₂_map_right_iff.mpr (List.forall₂_same.mpr fun matched member => ?_)⟩
  · obtain ⟨known, agrees⟩ := nodes binding member
    exact ⟨known, agrees, rfl, rfl⟩
  · obtain ⟨known, agrees⟩ := edges matched member
    obtain ⟨⟨source, sourceMember, sourceEq⟩, target, targetMember, targetEq⟩ := ends matched member
    obtain ⟨sourceKnown, sourceAgrees⟩ := nodes source sourceMember
    obtain ⟨targetKnown, targetAgrees⟩ := nodes target targetMember
    rw [sourceEq] at sourceKnown sourceAgrees
    rw [targetEq] at targetKnown targetAgrees
    exact ⟨known, sourceKnown, targetKnown, sourceAgrees, targetAgrees, agrees⟩

/-- A naming covers a match when all its nodes are in the territory. -/
theorem covers_iff {found : Match} :
    naming.covers found ↔ ∀ id ∈ found.bindings.map (·.node), id ∈ naming.territory := by
  simp [covers]

end Naming

/-- A lexicographic order is kept by what keeps the order of the elements. -/
theorem map_lt_map {change : Nat → Nat} {first second : List Nat}
    (keeps : ∀ one ∈ first, ∀ other ∈ second, one < other → change one < change other)
    (before : first < second) : first.map change < second.map change := by
  induction first generalizing second with
  | nil =>
      cases second with
      | nil => exact absurd before (List.lt_irrefl _)
      | cons head rest => exact List.nil_lt_cons ..
  | cons head rest ih =>
      cases second with
      | nil => exact absurd before (List.not_lt_nil _)
      | cons head' rest' =>
          rw [List.map_cons, List.map_cons]
          rw [List.cons_lt_cons_iff] at before ⊢
          refine before.imp (keeps head List.mem_cons_self head' List.mem_cons_self) ?_
          exact fun ⟨same, later⟩ => ⟨congrArg change same,
            ih (fun one oneMember other otherMember =>
            keeps one (List.mem_cons_of_mem _ oneMember) other
              (List.mem_cons_of_mem _ otherMember)) later⟩

/-- What goes before another match goes before it at other places in the same order. -/
theorem Naming.precedes_matchAt {naming : Naming} {place : Nat → Nat} {first second : Match}
    (keeps : ∀ one ∈ first.rootSeq :: first.bindings.map (·.seq),
      ∀ other ∈ second.rootSeq :: second.bindings.map (·.seq), one < other →
        place one < place other)
    (before : first.Precedes second) :
    (naming.matchAt place first).Precedes (naming.matchAt place second) := by
  have seqs (found : Match) : (naming.matchAt place found).bindings.map (·.seq) =
      (found.bindings.map (·.seq)).map place := by
    simp [Naming.matchAt, Naming.bindingAt]
  unfold Match.Precedes at before ⊢
  rw [seqs, seqs]
  refine before.imp_right fun ⟨confidence, later⟩ => ⟨confidence, later.imp_right
    fun ⟨index, later⟩ => ⟨index, later.imp ?_ fun ⟨root, bindings⟩ => ⟨congrArg place root, ?_⟩⟩⟩
  · exact keeps _ List.mem_cons_self _ List.mem_cons_self
  · exact map_lt_map (fun one oneMember other otherMember => keeps one
      (List.mem_cons_of_mem _ oneMember) other (List.mem_cons_of_mem _ otherMember)) bindings

/-- The matches of a graph stay in order at other places in the same order. -/
theorem Naming.pairwise_matchAt (naming : Naming) {place : Nat → Nat} {graph : CodeGraph}
    (wellFormed : graph.WellFormed) {rules : List Rule} (valid : ∀ rule ∈ rules, rule.Valid)
    (keeps : ∀ first ∈ graph.nodes, ∀ second ∈ graph.nodes, first.seq < second.seq →
      place first.seq < place second.seq) :
    ((graph.findMatches rules).map (naming.matchAt place)).Pairwise Match.Precedes := by
  have places {found : Match} (member : found ∈ graph.findMatches rules) :
      ∀ seq ∈ found.rootSeq :: found.bindings.map (·.seq), ∃ node ∈ graph.nodes,
        node.seq = seq := by
    obtain ⟨rule, index, at_, member⟩ := CodeGraph.mem_findMatches_iff.mp member
    exact Rule.places_of_mem_matchesAt wellFormed (valid rule (List.mem_of_getElem? at_)) member
  refine List.pairwise_map.mpr ((wellFormed.pairwise_findMatches rules).imp_of_mem ?_)
  intro first second firstMember secondMember
  refine precedes_matchAt fun one oneListed other otherListed less => ?_
  obtain ⟨left, leftMember, rfl⟩ := places firstMember one oneListed
  obtain ⟨right, rightMember, rfl⟩ := places secondMember other otherListed
  exact keeps left leftMember right rightMember less

/-- Looking up a name commutes with a change of the bound nodes. -/
theorem SourcePattern.lookup_map (pattern : SourcePattern) (change : Node → Node)
    (bound : List Node) (name : String) :
    pattern.lookup (bound.map change) name = (pattern.lookup bound name).map change := by
  unfold lookup
  cases pattern.position? name with
  | none => rfl
  | some place => exact List.getElem?_map

namespace Naming

/-- Bindings of renamed nodes are the renamed bindings. -/
theorem bindings_map (naming : Naming) (place : Nat → Nat) (rule : Rule) (bound : List Node) :
    rule.bindings (bound.map (naming.nodeAt place)) =
      (rule.bindings bound).map (naming.bindingAt place) := by
  unfold Rule.bindings
  rw [List.zip_map_right, List.map_map, List.map_map]
  rfl

/-- Nodes that show the same are the same nodes at other places. -/
theorem exists_place (naming : Naming) {nodes others : List Node}
    (distinct : (nodes.map (·.seq)).Nodup)
    (shown : others.map Node.data = nodes.map naming.nodeData) :
    ∃ place : Nat → Nat, others = nodes.map (naming.nodeAt place) := by
  have size := congrArg List.length shown
  rw [List.length_map, List.length_map] at size
  obtain ⟨place, places, -⟩ := exists_extension id distinct
    (show _ = (others.map (·.seq)).length by rw [List.length_map, List.length_map, size])
  refine ⟨place, ?_⟩
  rw [List.map_map] at places
  clear size distinct
  induction others generalizing nodes with
  | nil =>
      rw [List.map_nil, eq_comm, List.map_eq_nil_iff] at shown
      rw [shown, List.map_nil]
  | cons other rest ih =>
      obtain ⟨node, later, rfl, same, shown⟩ := List.map_eq_cons_iff.mp shown.symm
      obtain ⟨here, places⟩ := List.cons.inj places
      rw [List.map_cons, ← ih shown.symm places]
      refine congrArg (· :: rest) ?_
      obtain ⟨id, label, kind, attributes⟩ := NodeData.mk.inj same
      cases other
      simp only [nodeAt, Node.mk.injEq]
      exact ⟨id.symm, kind.symm, label.symm, attributes.symm, here.symm⟩

/-- Nodes under other names give the match under other names if the edges are called so. -/
theorem matchOf?_map (naming : Naming) (place : Nat → Nat) {rule : Rule} (valid : rule.Valid)
    {bound : List Node} (size : bound.length = rule.sourcePattern.nodes.length) (index : Nat)
    {part whole : CodeGraph}
    (assigned : (rule.search whole).assignEdges (bound.map (naming.nodeAt place)) []
        rule.sourcePattern.placedEdges =
      ((rule.search part).assignEdges bound [] rule.sourcePattern.placedEdges).map
        (List.map naming.matchedEdge)) :
    rule.matchOf? index (rule.search whole) (bound.map (naming.nodeAt place)) =
      (rule.matchOf? index (rule.search part) bound).map (naming.matchAt place) := by
  obtain ⟨first, isFirst⟩ := rule.exists_replaced_binding valid size
  have root : (((rule.bindings bound).map (naming.bindingAt place)).find? (·.replaced)) =
      some (naming.bindingAt place first) := by
    rw [List.find?_map]
    exact congrArg (Option.map _) isFirst
  unfold Rule.matchOf?
  change Option.map _ ((rule.search whole).assignEdges _ [] rule.sourcePattern.placedEdges) =
    (((rule.search part).assignEdges _ [] rule.sourcePattern.placedEdges).map _).map _
  rw [assigned, Option.map_map, Option.map_map]
  refine congrArg (Option.map · _) (funext fun edges => ?_)
  simp only [Function.comp_apply, Naming.matchAt, naming.bindings_map, root, isFirst]
  rfl

variable {naming : Naming} {part whole : CodeGraph} {place : Nat → Nat}
  (placed : whole.nodes.filter (·.id ∈ naming.territory) = part.nodes.map (naming.nodeAt place))

include placed

/-- The counterpart of a node of the part is a node of the whole. -/
theorem nodeAt_mem {node : Node} (member : node ∈ part.nodes) :
    naming.nodeAt place node ∈ whole.nodes := by
  have listed : naming.nodeAt place node ∈ part.nodes.map (naming.nodeAt place) :=
    List.mem_map_of_mem member
  rw [← placed] at listed
  exact (List.mem_filter.mp listed).1

/-- Every node of the whole inside the territory is the counterpart of one of the part. -/
theorem exists_nodeAt {other : Node} (member : other ∈ whole.nodes)
    (inside : other.id ∈ naming.territory) :
    ∃ node ∈ part.nodes, naming.nodeAt place node = other := by
  have listed : other ∈ whole.nodes.filter (·.id ∈ naming.territory) :=
    List.mem_filter.mpr ⟨member, decide_eq_true inside⟩
  rw [placed] at listed
  exact List.mem_map.mp listed

end Naming

namespace Mirrors

variable {naming : Naming} {part whole : CodeGraph} (mirrors : Mirrors naming part whole)

include mirrors

/-- The nodes of the territory are those of the part at other places. -/
theorem exists_place : ∃ place : Nat → Nat,
    whole.nodes.filter (·.id ∈ naming.territory) = part.nodes.map (naming.nodeAt place) :=
  naming.exists_place (nodup_map_of_pairwise mirrors.partFormed.nodeOrder) mirrors.nodes

/-- Places are taken over in their order. -/
theorem place_lt {place : Nat → Nat}
    (placed : whole.nodes.filter (·.id ∈ naming.territory) = part.nodes.map (naming.nodeAt place))
    {first second : Node} (firstMember : first ∈ part.nodes)
    (secondMember : second ∈ part.nodes) (before : first.seq < second.seq) :
    place first.seq < place second.seq := by
  have order : part.nodes.Pairwise fun one other => place one.seq < place other.seq := by
    have sorted := mirrors.wholeFormed.nodeOrder.filter (·.id ∈ naming.territory)
    rw [placed, List.pairwise_map] at sorted
    exact sorted
  let Agree (one other : Node) : Prop :=
    (one.seq < other.seq → place one.seq < place other.seq) ∧
      (other.seq < one.seq → place other.seq < place one.seq)
  have : Std.Symm Agree := ⟨fun _ _ agree => agree.symm⟩
  have agree : part.nodes.Pairwise Agree :=
    (mirrors.partFormed.nodeOrder.and order).imp fun both =>
      ⟨fun _ => both.2, fun after => absurd after (Nat.lt_asymm both.1)⟩
  have reflexive : ∀ one ∈ part.nodes, Agree one one := fun one _ =>
    ⟨fun same => absurd same (Nat.lt_irrefl _), fun same => absurd same (Nat.lt_irrefl _)⟩
  exact (agree.forall_of_forall reflexive firstMember secondMember).1 before

/-- The first unused edge between two nodes of the part is the one in the whole graph. -/
theorem find?_outgoingOf_eq (kind : EdgeKind) {source target : Node}
    (sourceMember : source ∈ part.nodes) (targetMember : target ∈ part.nodes) {used : List String}
    (usedKnown : ∀ id ∈ used, id ∈ naming.edgeIds) :
    ((whole.outgoingOf kind (naming.node source.id)).find? fun candidate =>
        candidate.target = naming.node target.id &&
          !(used.map naming.edge).contains candidate.id).map Edge.data =
      ((part.outgoingOf kind source.id).find? fun candidate =>
        candidate.target = target.id && !used.contains candidate.id).map naming.edgeData := by
  have sourceKnown := mirrors.nodesKnown source sourceMember
  have targetKnown := mirrors.nodesKnown target targetMember
  let fits (data : EdgeData) : Bool :=
    data.target = naming.node target.id && !(used.map naming.edge).contains data.id
  calc ((whole.outgoingOf kind (naming.node source.id)).find? (fits ∘ Edge.data)).map Edge.data
      = (((whole.outgoingOf kind (naming.node source.id)).filter (·.id ∈ naming.routes)).find?
          (fits ∘ Edge.data)).map Edge.data := by
        rw [List.find?_filter]
        refine congrArg (Option.map Edge.data) (find?_congr_of_mem fun edge member => ?_)
        by_cases isTarget : edge.target = naming.node target.id
        · have leads := CodeGraph.mem_outgoingOf.mp member
          have inside := mirrors.enclosed edge leads.member
            (leads.source ▸ List.mem_map_of_mem sourceKnown)
            (isTarget ▸ List.mem_map_of_mem targetKnown)
          simp [inside]
        · have unfit : fits edge.data = false := by
            simp [fits, Edge.data, isTarget]
          simp [unfit]
    _ = ((part.outgoingOf kind source.id).find? (fits ∘ naming.edgeData)).map naming.edgeData := by
        rw [← List.find?_map, mirrors.outgoingOf_eq kind sourceKnown, List.find?_map]
    _ = _ := by
        refine congrArg (Option.map naming.edgeData) (find?_congr_of_mem fun edge member => ?_)
        have there := (CodeGraph.mem_outgoingOf.mp member).member
        have isTarget := mirrors.node_eq_iff (mirrors.endsKnown there).2 targetKnown
        have isUsed : naming.edge edge.id ∈ used.map naming.edge ↔ edge.id ∈ used := by
          rw [List.mem_map]
          constructor
          · intro listed
            obtain ⟨id, inUsed, same⟩ := listed
            rwa [← mirrors.edgesApart _ (usedKnown id inUsed) _ (mirrors.edgesKnown edge there)
              same]
          · intro inUsed
            exact ⟨edge.id, inUsed, rfl⟩
        simp only [fits, Function.comp_apply, Naming.edgeData, isTarget, List.contains_eq_mem,
          isUsed]

/-! ### Assignments -/

variable {pattern : SourcePattern} {bound : List Node}

section Within

variable (within : ∀ node ∈ bound, node ∈ part.nodes)

include within

/-- An edge of a pattern stands in the whole between counterparts as it does in the part. -/
theorem stands_map_iff (place : Nat → Nat) (edge : PatternEdge) :
    (∃ there, pattern.Stands whole (bound.map (naming.nodeAt place)) edge there) ↔
      ∃ there, pattern.Stands part bound edge there := by
  have ends (name : String) : (pattern.lookup (bound.map (naming.nodeAt place)) name).map (·.id) =
      ((pattern.lookup bound name).map (·.id)).map naming.node := by
    rw [pattern.lookup_map, Option.map_map, Option.map_map]
    rfl
  have known {name id : String} (found : (pattern.lookup bound name).map (·.id) = some id) :
      id ∈ naming.nodeIds := by
    obtain ⟨node, looked, rfl⟩ := Option.map_eq_some_iff.mp found
    exact mirrors.nodesKnown node (within node (SourcePattern.mem_of_lookup looked))
  constructor
  · rintro ⟨other, member, kind, source, target⟩
    rw [ends] at source target
    obtain ⟨first, firstEq, firstNamed⟩ := Option.map_eq_some_iff.mp source
    obtain ⟨second, secondEq, secondNamed⟩ := Option.map_eq_some_iff.mp target
    have inside := mirrors.enclosed other member
      (firstNamed ▸ List.mem_map_of_mem (known firstEq))
      (secondNamed ▸ List.mem_map_of_mem (known secondEq))
    obtain ⟨there, thereMember, same⟩ := mirrors.exists_showsEdge member inside
    obtain ⟨_, sourceSame, targetSame, kindSame, _⟩ := EdgeData.mk.inj same
    have threadEnds := mirrors.endsKnown thereMember
    refine ⟨there, thereMember, kindSame.symm.trans kind, ?_, ?_⟩
    · rw [firstEq]
      exact congrArg some (mirrors.nodesApart _ (known firstEq) _ threadEnds.1
        (firstNamed.trans sourceSame))
    · rw [secondEq]
      exact congrArg some (mirrors.nodesApart _ (known secondEq) _ threadEnds.2
        (secondNamed.trans targetSame))
  · rintro ⟨there, member, kind, source, target⟩
    obtain ⟨other, otherMember, same⟩ := mirrors.exists_shownEdge member
    obtain ⟨_, sourceSame, targetSame, kindSame, _⟩ := EdgeData.mk.inj same
    refine ⟨other, otherMember, kindSame.trans kind, ?_, ?_⟩
    · rw [ends, source, sourceSame]
      rfl
    · rw [ends, target, targetSame]
      rfl

/-- Nodes of the part are an assignment in the part if they are one in the whole graph. -/
theorem assigns_map_iff {place : Nat → Nat}
    (placed : whole.nodes.filter (·.id ∈ naming.territory) = part.nodes.map (naming.nodeAt place))
    (tests : ∀ node ∈ pattern.nodes, ∀ test ∈ node.children, test.edge = .contains) :
    pattern.Assigns whole (bound.map (naming.nodeAt place)) ↔ pattern.Assigns part bound := by
  have accepted : List.Forall₂ (fun node place => node ∈ whole.nodes ∧ whole.accepts place node)
      (bound.map (naming.nodeAt place)) pattern.nodes ↔
      List.Forall₂ (fun node place => node ∈ part.nodes ∧ part.accepts place node)
        bound pattern.nodes := by
    rw [List.forall₂_map_left_iff]
    refine forall₂_congr_of_mem fun node member test testMember => ?_
    have there := within node member
    have accepts : whole.accepts test (naming.nodeAt place node) = part.accepts test node :=
      mirrors.accepts_eq (tests test testMember) there rfl
    rw [accepts]
    exact and_congr_left fun _ => iff_of_true (Naming.nodeAt_mem placed there) there
  have distinct : ((bound.map (naming.nodeAt place)).map (·.id)).Nodup ↔
      (bound.map (·.id)).Nodup := by
    have ids : (bound.map (naming.nodeAt place)).map (·.id) =
        (bound.map (·.id)).map naming.node := by
      rw [List.map_map, List.map_map]
      rfl
    rw [ids]
    refine ⟨List.Nodup.of_map _, fun apart => apart.map_on fun first firstMember second
      secondMember => ?_⟩
    obtain ⟨one, oneMember, rfl⟩ := List.mem_map.mp firstMember
    obtain ⟨other, otherMember, rfl⟩ := List.mem_map.mp secondMember
    exact mirrors.nodesApart _ (mirrors.nodesKnown one (within one oneMember)) _
      (mirrors.nodesKnown other (within other otherMember))
  have connected (edge : PatternEdge) :
      (∃ there, pattern.Stands whole (bound.map (naming.nodeAt place)) edge there) ↔
        ∃ there, pattern.Stands part bound edge there := mirrors.stands_map_iff within place edge
  have constraints : pattern.constraintsHold (bound.map (naming.nodeAt place)) =
      pattern.constraintsHold bound := by
    have seen (name : String) :
        (pattern.lookup (bound.map (naming.nodeAt place)) name).map Node.spec =
          (pattern.lookup bound name).map Node.spec := by
      rw [pattern.lookup_map, Option.map_map]
      rfl
    simp only [SourcePattern.constraintsHold, Constraint.holds_of_spec seen]
  constructor
  · rintro ⟨fits, ids, edges, holds⟩
    exact ⟨accepted.mp fits, distinct.mp ids, fun edge member => (connected edge).mp
      (edges edge member), constraints ▸ holds⟩
  · rintro ⟨fits, ids, edges, holds⟩
    exact ⟨accepted.mpr fits, distinct.mpr ids, fun edge member => (connected edge).mpr
      (edges edge member), constraints ▸ holds⟩

/-! ### Edges and matches -/

/-- The edges assigned in the whole are the counterparts of those assigned in the part. -/
theorem assignEdges_map (place : Nat → Nat) (rule : Rule) {used : List String}
    (usedKnown : ∀ id ∈ used, id ∈ naming.edgeIds) (edges : List PlacedEdge) :
    (rule.search whole).assignEdges (bound.map (naming.nodeAt place)) (used.map naming.edge) edges =
      ((rule.search part).assignEdges bound used edges).map
        (List.map naming.matchedEdge) := by
  induction edges generalizing used with
  | nil => rfl
  | cons edge rest ih =>
      unfold Search.assignEdges
      simp only [List.getElem?_map]
      cases sourceEq : bound[edge.source]? with
      | none => rfl
      | some source =>
          cases targetEq : bound[edge.target]? with
          | none => rfl
          | some target =>
              have first := mirrors.find?_outgoingOf_eq edge.kind
                (within source (List.mem_of_getElem? sourceEq))
                (within target (List.mem_of_getElem? targetEq)) usedKnown
              simp only [Option.map_some, Option.bind_eq_bind, Option.bind_some]
              change ((whole.outgoingOf edge.kind (naming.node source.id)).find?
                fun candidate => candidate.target = naming.node target.id &&
                  !(used.map naming.edge).contains candidate.id).bind _ =
                (((part.outgoingOf edge.kind source.id).find? fun candidate =>
                  candidate.target = target.id && !used.contains candidate.id).bind _).map _
              cases chosenEq : (part.outgoingOf edge.kind source.id).find? fun candidate =>
                  candidate.target = target.id && !used.contains candidate.id with
              | none =>
                  rw [chosenEq] at first
                  rw [Option.map_eq_none_iff.mp first]
                  rfl
              | some chosen =>
                  rw [chosenEq] at first
                  obtain ⟨other, otherEq, same⟩ := Option.map_eq_some_iff.mp first
                  have there := (CodeGraph.mem_outgoingOf.mp
                    (List.mem_of_find?_eq_some chosenEq)).member
                  have named : other.id = naming.edge chosen.id := congrArg EdgeData.id same
                  have later := ih (List.forall_mem_cons.mpr
                    ⟨mirrors.edgesKnown chosen there, usedKnown⟩)
                  rw [List.map_cons, ← named] at later
                  rw [otherEq, Option.bind_some, Option.bind_some, later, Option.bind_map,
                    Option.map_bind]
                  refine congrArg (Option.bind _) (funext fun others => ?_)
                  simp only [Function.comp_apply, Option.pure_def, Option.map_some, List.map_cons,
                    named]
                  rfl

/-- An assignment of the part gives in the whole graph the match that it gives in the part. -/
theorem matchOf?_map (place : Nat → Nat) {rule : Rule} (valid : rule.Valid)
    (size : bound.length = rule.sourcePattern.nodes.length) (index : Nat) :
    rule.matchOf? index (rule.search whole) (bound.map (naming.nodeAt place)) =
      (rule.matchOf? index (rule.search part) bound).map (naming.matchAt place) := by
  refine naming.matchOf?_map place valid size index ?_
  exact mirrors.assignEdges_map within place rule
    (fun id (member : id ∈ []) => absurd member List.not_mem_nil) (rule.search part).edges

end Within

/-! ### The matches found -/

section Placed

variable {place : Nat → Nat}
  (placed : whole.nodes.filter (·.id ∈ naming.territory) = part.nodes.map (naming.nodeAt place))

include placed

/-- The assignments of the part that a search without a limit finds are assignments of the whole
graph. -/
theorem length_assignments_le {rule : Rule} (valid : rule.Valid)
    (tests : ∀ node ∈ rule.sourcePattern.nodes, ∀ test ∈ node.children, test.edge = .contains) :
    (rule.assignments part).length ≤ (rule.assignments whole).length := by
  have inside := fun bound (member : bound ∈ rule.assignments part) =>
    Rule.mem_nodes_of_mem_assignments mirrors.partFormed member
  have distinct : ((rule.assignments part).map (List.map (naming.nodeAt place))).Nodup := by
    refine (Rule.nodup_assignments mirrors.partFormed).map_on ?_
    intro first firstMember second secondMember same
    refine eq_of_map_eq (fun one oneMember other otherMember equal => ?_) same
    have oneThere := inside first firstMember one oneMember
    have otherThere := inside second secondMember other otherMember
    exact mirrors.partFormed.eq_of_id oneThere otherThere (mirrors.nodesApart _
      (mirrors.nodesKnown one oneThere) _ (mirrors.nodesKnown other otherThere)
      (congrArg Node.id equal))
  have subset : (rule.assignments part).map (List.map (naming.nodeAt place)) ⊆
      rule.assignments whole := by
    intro _ listed
    obtain ⟨bound, member, rfl⟩ := List.mem_map.mp listed
    exact (Rule.mem_assignments_iff mirrors.wholeFormed valid).mpr
      ((mirrors.assigns_map_iff (inside bound member) placed tests).mpr
        ((Rule.mem_assignments_iff mirrors.partFormed valid).mp member))
  have size := (distinct.subperm subset).length_le
  rwa [List.length_map] at size

/-- The matches of a rule in the territory are those in the part. -/
theorem mem_matchesAt_iff {rule : Rule} (valid : rule.Valid)
    (tests : ∀ node ∈ rule.sourcePattern.nodes, ∀ test ∈ node.children, test.edge = .contains)
    (few : (rule.assignments whole).length ≤ embeddingLimit) {index : Nat} {other : Match} :
    other ∈ rule.matchesAt index whole ∧ naming.covers other ↔
      ∃ found ∈ rule.matchesAt index part, naming.matchAt place found = other := by
  have fewer := Nat.le_trans (mirrors.length_assignments_le placed valid tests) few
  rw [Rule.matchesAt_eq mirrors.wholeFormed, Rule.matchesAt_eq mirrors.partFormed,
    List.take_of_length_le few, List.take_of_length_le fewer]
  constructor
  · rintro ⟨member, inside⟩
    obtain ⟨bound, assignment, made⟩ := List.mem_filterMap.mp member
    have assigns := (Rule.mem_assignments_iff mirrors.wholeFormed valid).mp assignment
    obtain ⟨own, within, rfl⟩ : ∃ own : List Node, (∀ node ∈ own, node ∈ part.nodes) ∧
        own.map (naming.nodeAt place) = bound := by
      obtain ⟨matched, _, rfl⟩ := Rule.matchOf?_eq_some_iff.mp made
      have nodes : (rule.bindings bound).map (·.node) = bound.map (·.id) :=
        Rule.map_node_bindings assigns.accepted.length_eq
      have inTerritory := Naming.covers_iff.mp inside
      rw [show (rule.matchOf index bound matched).bindings = rule.bindings bound from rfl, nodes]
        at inTerritory
      refine exists_map_eq fun node nodeMember => ?_
      obtain ⟨_, _, there, _⟩ := exists_left_of_forall₂ assigns.accepted.flip node nodeMember
      exact Naming.exists_nodeAt placed there
        (inTerritory node.id (List.mem_map_of_mem nodeMember))
    have size := assigns.accepted.length_eq
    rw [List.length_map] at size
    rw [mirrors.matchOf?_map within place valid size] at made
    obtain ⟨found, foundMade, rfl⟩ := Option.map_eq_some_iff.mp made
    refine ⟨found, List.mem_filterMap.mpr ⟨own, ?_, foundMade⟩, rfl⟩
    exact (Rule.mem_assignments_iff mirrors.partFormed valid).mpr
      ((mirrors.assigns_map_iff within placed tests).mp assigns)
  · rintro ⟨found, member, rfl⟩
    obtain ⟨bound, assignment, made⟩ := List.mem_filterMap.mp member
    have assigns := (Rule.mem_assignments_iff mirrors.partFormed valid).mp assignment
    have within := Rule.mem_nodes_of_mem_assignments mirrors.partFormed assignment
    have size := assigns.accepted.length_eq
    refine ⟨List.mem_filterMap.mpr ⟨bound.map (naming.nodeAt place), ?_, ?_⟩, ?_⟩
    · exact (Rule.mem_assignments_iff mirrors.wholeFormed valid).mpr
        ((mirrors.assigns_map_iff within placed tests).mpr assigns)
    · rw [mirrors.matchOf?_map within place valid size, made]
      rfl
    · obtain ⟨matched, _, rfl⟩ := Rule.matchOf?_eq_some_iff.mp made
      refine Naming.covers_iff.mpr fun id listed => ?_
      obtain ⟨binding, bindingMember, rfl⟩ := List.mem_map.mp listed
      obtain ⟨before, beforeMember, rfl⟩ := List.mem_map.mp bindingMember
      have bindingNode : before.node ∈ (rule.bindings bound).map (·.node) :=
        List.mem_map_of_mem beforeMember
      rw [Rule.map_node_bindings size] at bindingNode
      obtain ⟨node, nodeMember, same⟩ := List.mem_map.mp bindingNode
      exact List.mem_map_of_mem (same ▸ mirrors.nodesKnown node (within node nodeMember))

/-- The matches of a list of rules in the territory are those in the part, in the same order. -/
theorem filter_findMatches {rules : List Rule} (valid : ∀ rule ∈ rules, rule.Valid)
    (tests : ∀ rule ∈ rules, ∀ node ∈ rule.sourcePattern.nodes, ∀ test ∈ node.children,
      test.edge = .contains)
    (few : ∀ rule ∈ rules, (rule.assignments whole).length ≤ embeddingLimit) :
    (whole.findMatches rules).filter naming.covers =
      (part.findMatches rules).map (naming.matchAt place) := by
  have order := (mirrors.wholeFormed.pairwise_findMatches rules).filter naming.covers
  have partOrder := naming.pairwise_matchAt mirrors.partFormed valid
    fun first firstThere second secondThere => mirrors.place_lt placed firstThere secondThere
  refine order.eq_of_mem_iff partOrder fun other => ?_
  rw [List.mem_filter, List.mem_map, CodeGraph.mem_findMatches_iff]
  simp only [CodeGraph.mem_findMatches_iff]
  constructor
  · rintro ⟨⟨rule, index, at_, member⟩, inside⟩
    have listed := List.mem_of_getElem? at_
    obtain ⟨found, there, same⟩ := (mirrors.mem_matchesAt_iff placed (valid rule listed)
      (tests rule listed) (few rule listed)).mp ⟨member, inside⟩
    exact ⟨found, ⟨rule, index, at_, there⟩, same⟩
  · rintro ⟨found, ⟨rule, index, at_, member⟩, same⟩
    have listed := List.mem_of_getElem? at_
    obtain ⟨there, inside⟩ := (mirrors.mem_matchesAt_iff placed (valid rule listed)
      (tests rule listed) (few rule listed)).mpr ⟨found, member, same⟩
    exact ⟨⟨rule, index, at_, there⟩, inside⟩

end Placed

/-- **The matches of a part.** They are those of the whole graph in the territory of the part, in
the same order, unless the search in the whole graph stops at its limit. -/
theorem forall₂_findMatches {rules : List Rule} (valid : ∀ rule ∈ rules, rule.Valid)
    (tests : ∀ rule ∈ rules, ∀ node ∈ rule.sourcePattern.nodes, ∀ test ∈ node.children,
      test.edge = .contains)
    (few : ∀ rule ∈ rules, (rule.assignments whole).length ≤ embeddingLimit) :
    List.Forall₂ naming.Relates (part.findMatches rules)
      ((whole.findMatches rules).filter naming.covers) := by
  obtain ⟨place, placed⟩ := mirrors.exists_place
  rw [mirrors.filter_findMatches placed valid tests few, List.forall₂_map_right_iff,
    List.forall₂_same]
  intro found member
  have within := mirrors.partFormed.within_of_mem valid member
  refine Naming.relates_matchAt place (fun binding bindingMember => ?_)
    (fun matched matchedMember => ?_)
    within.ends
  · obtain ⟨node, there, same, _⟩ := within.bindings binding bindingMember
    exact ⟨same ▸ mirrors.nodesKnown node there, rfl⟩
  · obtain ⟨edge, there, rfl⟩ := within.edges matched matchedMember
    exact ⟨mirrors.edgesKnown edge there, rfl⟩

end Mirrors

end Transcode
