import Transcode.Proofs.Abreast
import Transcode.Proofs.Rendering

/-!
# What ids and sequence numbers mean

Ids and sequence numbers say which node is which and what comes first, and nothing else. Two graphs
that correspond node by node and edge by edge, in the same order (`Isomorphism`), cannot be told
apart by searching, transforming or writing them (`Isomorphism.indistinguishable`).
-/

namespace Transcode

/-- Two graphs correspond: a bijection of their nodes and one of their edges keep what nodes and
edges show, which nodes edges connect, and the order of creation. -/
structure Isomorphism (first second : CodeGraph) where
  node : {node // node ∈ first.nodes} ≃ {node // node ∈ second.nodes}
  edge : {edge // edge ∈ first.edges} ≃ {edge // edge ∈ second.edges}
  spec : ∀ one, (node one).1.spec = one.1.spec
  kind : ∀ one, (edge one).1.kind = one.1.kind
  attributes : ∀ one, (edge one).1.attributes = one.1.attributes
  source : ∀ one there, one.1.source = there.1.id → (edge one).1.source = (node there).1.id
  target : ∀ one there, one.1.target = there.1.id → (edge one).1.target = (node there).1.id
  nodeOrder : ∀ one other, (node one).1.seq < (node other).1.seq ↔ one.1.seq < other.1.seq
  edgeOrder : ∀ one other, (edge one).1.seq < (edge other).1.seq ↔ one.1.seq < other.1.seq

namespace Isomorphism

variable {first second : CodeGraph}

/-- Matches that bind corresponding nodes and edges. -/
structure Corresponds (iso : Isomorphism first second) (found other : Match) : Prop where
  rule : other.rule = found.rule
  ruleIndex : other.ruleIndex = found.ruleIndex
  confidence : other.confidence = found.confidence
  bindings : List.Forall₂ (fun binding another : Binding => ∃ node replaced name,
    binding = ⟨name, node.1.id, node.1.seq, replaced⟩ ∧
      another = ⟨name, (iso.node node).1.id, (iso.node node).1.seq, replaced⟩)
    found.bindings other.bindings
  edges : List.Forall₂ (fun matched another : MatchedEdge => ∃ edge,
    matched = Search.matchedEdge edge.1 ∧ another = Search.matchedEdge (iso.edge edge).1)
    found.edges other.edges
  rootSeq : ∃ node, found.rootSeq = node.1.seq ∧ other.rootSeq = (iso.node node).1.seq

/-- What is left of two graphs in two others still corresponds: nodes, which never change, and
edges, which keep their ids and places when their ends move. -/
structure Extends {later other : CodeGraph} (iso : Isomorphism first second)
    (after : Isomorphism later other) : Prop where
  node : ∀ node there left, (after.node ⟨node, left⟩).1 = (iso.node ⟨node, there⟩).1
  edge : ∀ old there edge left, edge.id = old.id → edge.seq = old.seq →
    (after.edge ⟨edge, left⟩).1.id = (iso.edge ⟨old, there⟩).1.id ∧
      (after.edge ⟨edge, left⟩).1.seq = (iso.edge ⟨old, there⟩).1.seq

/-! ### Correspondences and other names -/

/-- Things in the same order as others that they correspond to one by one stand where these do. -/
theorem eq_map_of_order {α : Type} {number : α → Nat} {items others : List α}
    (order : items.Pairwise (number · < number ·))
    (otherOrder : others.Pairwise (number · < number ·))
    (matched : {item // item ∈ items} ≃ {item // item ∈ others})
    (keeps : ∀ one other, number (matched one).1 < number (matched other).1 ↔
      number one.1 < number other.1) :
    others = items.attach.map fun item => (matched item).1 := by
  refine eq_of_pairwise_lt number otherOrder (List.pairwise_map.mpr ?_) fun other => ?_
  · have attached :=
      (List.pairwise_map (f := Subtype.val)).mp (items.attach_map_subtype_val ▸ order)
    exact attached.imp fun before => (keeps _ _).mpr before
  · constructor
    · intro member
      refine List.mem_map.mpr ⟨matched.symm ⟨other, member⟩, List.mem_attach _ _, ?_⟩
      rw [Equiv.apply_symm_apply]
    · intro listed
      obtain ⟨item, _, rfl⟩ := List.mem_map.mp listed
      exact (matched item).2

/-- What corresponds to things of some kind is named by their ids. -/
theorem exists_name {α : Type} {key : α → String} {items : List α}
    (distinct : (items.map key).Nodup) (name : {item // item ∈ items} → String) :
    ∃ named : String → String, ∀ item, named (key item.1) = name item := by
  have apart : Function.Injective fun item : {item // item ∈ items} => key item.1 :=
    fun first second same => Subtype.ext (List.inj_on_of_nodup_map distinct first.2 second.2 same)
  exact ⟨Function.extend (fun item : {item // item ∈ items} => key item.1) name id,
    apart.extend_apply name id⟩

section Names

variable (iso : Isomorphism first second) (firstFormed : first.WellFormed)
  (secondFormed : second.WellFormed)

include firstFormed secondFormed

/-- **Graphs that correspond are one graph under two names.** -/
theorem exists_renamed : ∃ names, Renamed first names second ∧
    (∀ node, (iso.node node).1 = names.onNode node.1) ∧
    ∀ edge, (iso.edge edge).1 = names.onEdge edge.1 := by
  have nodes := eq_map_of_order firstFormed.nodeOrder secondFormed.nodeOrder iso.node iso.nodeOrder
  have edges := eq_map_of_order firstFormed.edgeOrder secondFormed.edgeOrder iso.edge iso.edgeOrder
  obtain ⟨node, named⟩ := exists_name firstFormed.nodeIds fun node => (iso.node node).1.id
  obtain ⟨edge, edgeNamed⟩ := exists_name firstFormed.edgeIds fun edge => (iso.edge edge).1.id
  have ends {id : String} (there : first.hasNode id) :
      ∃ one : {node // node ∈ first.nodes}, id = one.1.id := by
    obtain ⟨node, member, rfl⟩ := List.mem_map.mp (CodeGraph.hasNode_iff.mp there)
    exact ⟨⟨node, member⟩, rfl⟩
  let naming : Naming := ⟨node, edge, [], []⟩
  have nodesShow : second.nodes.map Node.data = first.nodes.map naming.nodeData := by
    rw [nodes, ← List.attach_map_val (f := naming.nodeData), List.map_map]
    refine List.map_congr_left fun one _ => ?_
    obtain ⟨kind, label, attributes⟩ := NodeSpec.mk.inj (iso.spec one)
    exact NodeData.mk.injEq .. ▸ ⟨(named one).symm, label, kind, attributes⟩
  have edgesShow : second.edges.map Edge.data = first.edges.map naming.edgeData := by
    rw [edges, ← List.attach_map_val (f := naming.edgeData), List.map_map]
    refine List.map_congr_left fun one _ => ?_
    obtain ⟨hasSource, hasTarget⟩ := firstFormed.endpoints one.1 one.2
    obtain ⟨source, sourceEq⟩ := ends hasSource
    obtain ⟨target, targetEq⟩ := ends hasTarget
    refine EdgeData.mk.injEq .. ▸ ⟨(edgeNamed one).symm, ?_, ?_, iso.kind one, iso.attributes one⟩
    · exact (iso.source one source sourceEq).trans (sourceEq ▸ (named source).symm)
    · exact (iso.target one target targetEq).trans (targetEq ▸ (named target).symm)
  obtain ⟨names, renamed, _⟩ := firstFormed.exists_renamed secondFormed naming nodesShow edgesShow
  refine ⟨names, renamed, fun one => ?_, fun one => ?_⟩
  · have same := renamed.nodes
    rw [nodes, ← List.attach_map_val (f := names.onNode)] at same
    exact List.map_inj_left.mp same one (List.mem_attach _ _)
  · have same := renamed.edges
    rw [edges, ← List.attach_map_val (f := names.onEdge)] at same
    exact List.map_inj_left.mp same one (List.mem_attach _ _)

end Names

/-- A map from one list onto another that tells their elements apart. -/
theorem exists_equiv {α : Type} {items others : List α} {f : α → α} (mapped : others = items.map f)
    (apart : ∀ one ∈ items, ∀ other ∈ items, f one = f other → one = other) :
    ∃ matched : {item // item ∈ items} ≃ {item // item ∈ others},
      ∀ item, (matched item).1 = f item.1 := by
  subst mapped
  let onto (item : {item // item ∈ items}) : {item // item ∈ items.map f} :=
    ⟨f item.1, List.mem_map_of_mem item.2⟩
  refine ⟨Equiv.ofBijective onto ⟨fun one other same => ?_, fun ⟨other, member⟩ => ?_⟩,
    fun _ => rfl⟩
  · exact Subtype.ext (apart one.1 one.2 other.1 other.2 (congrArg Subtype.val same))
  · obtain ⟨item, itemMember, rfl⟩ := List.mem_map.mp member
    exact ⟨⟨item, itemMember⟩, rfl⟩

end Isomorphism

namespace Renamed

variable {first second : CodeGraph} {names : Renaming}
  (renamed : Renamed first names second) (firstFormed : first.WellFormed)
  (secondFormed : second.WellFormed)

include renamed firstFormed secondFormed

/-- **One graph under two names corresponds to itself.** -/
theorem exists_isomorphism : ∃ iso : Isomorphism first second,
    (∀ node, (iso.node node).1 = names.onNode node.1) ∧
    ∀ edge, (iso.edge edge).1 = names.onEdge edge.1 := by
  obtain ⟨node, nodes⟩ := Isomorphism.exists_equiv renamed.nodes
    fun one oneMember other otherMember same =>
      firstFormed.eq_of_id oneMember otherMember (names.node.injective (congrArg Node.id same))
  obtain ⟨edge, edges⟩ := Isomorphism.exists_equiv renamed.edges
    fun one oneMember other otherMember same =>
      firstFormed.edge_eq_of_id oneMember otherMember (names.edge.injective (congrArg Edge.id same))
  have edgeOrder := secondFormed.edgeOrder
  rw [renamed.edges, List.pairwise_map] at edgeOrder
  refine ⟨⟨node, edge, ?_, ?_, ?_, ?_, ?_, ?_, ?_⟩, nodes, edges⟩
  · exact fun one => (congrArg Node.spec (nodes one)).trans (names.onNode_spec one.1)
  · exact fun one => (congrArg Edge.kind (edges one)).trans (names.onEdge_kind one.1)
  · exact fun one => by rw [edges, Renaming.onEdge]
  · intro one there source
    rw [edges, nodes]
    exact congrArg names.node source
  · intro one there target
    rw [edges, nodes]
    exact congrArg names.node target
  · intro one other
    rw [nodes, nodes, ← Nat.not_le, ← Nat.not_le]
    exact not_congr (renamed.order other.1 other.2 one.1 one.2)
  · intro one other
    rw [edges, edges, ← Nat.not_le, ← Nat.not_le]
    exact not_congr (le_iff_of_pairwise firstFormed.edgeOrder edgeOrder other.2 one.2)

/-- The matches of a graph under other names correspond to those of the graph. -/
theorem corresponds {iso : Isomorphism first second}
    (nodes : ∀ node, (iso.node node).1 = names.onNode node.1)
    (edges : ∀ edge, (iso.edge edge).1 = names.onEdge edge.1) {rules : List Rule}
    (valid : ∀ rule ∈ rules, rule.Valid) :
    List.Forall₂ iso.Corresponds (first.findMatches rules) (second.findMatches rules) := by
  rw [renamed.findMatches_eq firstFormed secondFormed valid, List.forall₂_map_right_iff,
    List.forall₂_same]
  intro found member
  have within := firstFormed.within_of_mem valid member
  refine ⟨rfl, rfl, rfl, ?_, ?_, ?_⟩
  · refine List.forall₂_map_right_iff.mpr (List.forall₂_same.mpr fun binding bindingMember => ?_)
    obtain ⟨node, there, id, seq⟩ := within.bindings binding bindingMember
    refine ⟨⟨node, there⟩, binding.replaced, binding.name, ?_, ?_⟩
    · rw [id, seq]
    · rw [nodes, Naming.bindingAt, ← id, ← seq]
      rfl
  · refine List.forall₂_map_right_iff.mpr (List.forall₂_same.mpr fun matched matchedMember => ?_)
    obtain ⟨edge, there, rfl⟩ := within.edges matched matchedMember
    refine ⟨⟨edge, there⟩, rfl, ?_⟩
    rw [edges]
    rfl
  · obtain ⟨rule, index, at_, atMember⟩ := CodeGraph.mem_findMatches_iff.mp member
    obtain ⟨node, there, seq⟩ := Rule.places_of_mem_matchesAt firstFormed
      (valid rule (List.mem_of_getElem? at_)) atMember _ List.mem_cons_self
    refine ⟨⟨node, there⟩, seq.symm, ?_⟩
    rw [nodes]
    exact congrArg names.place seq.symm

end Renamed

namespace Isomorphism

variable {first second : CodeGraph}

/-- **Ids and sequence numbers do not matter.** Two well-formed graphs that correspond have
corresponding matches in the same order. A run of the same rules gives graphs that correspond again,
as what is left of the two did, and counts the same. And both are written as the same text, or
neither can be written for a cycle. -/
theorem indistinguishable (iso : Isomorphism first second) (firstFormed : first.WellFormed)
    (secondFormed : second.WellFormed) {rules : List Rule}
    (valid : ∀ rule ∈ rules, rule.validate = .ok ()) (mode : RunMode) :
    List.Forall₂ iso.Corresponds (first.findMatches rules) (second.findMatches rules) ∧
    (∃ result other, transform first rules mode = .ok result ∧
      transform second rules mode = .ok other ∧ other.passes = result.passes ∧
      other.applied = result.applied ∧ other.warnings = result.warnings ∧
      ∃ after : Isomorphism result.graph other.graph, iso.Extends after) ∧
    ((∃ text, Output.generate first = .ok text ∧ Output.generate second = .ok text) ∨
      ∃ node other, Output.generate first = .error (.cyclic node) ∧
        Output.generate second = .error (.cyclic other)) := by
  obtain ⟨names, renamed, nodes, edges⟩ := iso.exists_renamed firstFormed secondFormed
  have rulesValid : ∀ rule ∈ rules, rule.Valid :=
    fun rule member => Rule.valid_of_validate (valid rule member)
  refine ⟨renamed.corresponds firstFormed secondFormed nodes edges rulesValid, ?_, ?_⟩
  · obtain ⟨later, result, other, done, otherDone, alike, continues⟩ :=
      renamed.exists_transform rulesValid firstFormed secondFormed mode
    obtain ⟨after, afterNodes, afterEdges⟩ :=
      alike.renamed.exists_isomorphism alike.formed alike.otherFormed
    refine ⟨result, other, done, otherDone, alike.passes, alike.applied, alike.warnings, after,
      fun node there left => ?_, fun old there edge left id seq => ?_⟩
    · rw [afterNodes, nodes]
      rcases continues.nodes node left with ⟨_, kept⟩ | new
      · exact kept
      · exact absurd (firstFormed.nodeBound node there) (Nat.not_lt.mpr new)
    · rw [afterEdges, edges]
      rcases continues.edges edge left with ⟨_, _, _, _, named, placed⟩ | new
      · exact ⟨named.trans (congrArg names.edge id), placed.trans (congrArg names.edgePlace seq)⟩
      · rw [seq] at new
        exact absurd (firstFormed.edgeBound old there) (Nat.not_lt.mpr new)
  · rw [renamed.generate_eq firstFormed secondFormed]
    refine (Output.generate_cases first).imp ?_ ?_
    · rintro ⟨text, written⟩
      exact ⟨text, written, by rw [written]; rfl⟩
    · rintro ⟨node, failed⟩
      exact ⟨node, names.node node, failed, by rw [failed]; rfl⟩

/-- A class with a static method, and the same class and method with other ids, some of which are
those that a rewrite makes up first, and with other sequence numbers. -/
theorem indistinguishable_staticMethod :
    ∃ (first second : CodeGraph) (iso : Isomorphism first second),
      first.WellFormed ∧ second.WellFormed ∧
      first.nodes.map (·.id) = ["n0", "n1"] ∧ second.nodes.map (·.id) = ["n2", "n0"] ∧
      Builtin.staticToFunction.validate = .ok () ∧
      first.findMatches [Builtin.staticToFunction] ≠ [] ∧
      List.Forall₂ iso.Corresponds (first.findMatches [Builtin.staticToFunction])
        (second.findMatches [Builtin.staticToFunction]) ∧
      ∃ result other, transform first [Builtin.staticToFunction] (.fixpoint 10) = .ok result ∧
        transform second [Builtin.staticToFunction] (.fixpoint 10) = .ok other ∧
        other.passes = result.passes ∧
        ∃ after : Isomorphism result.graph other.graph, iso.Extends after := by
  let static : Attributes := Dict.empty.insert "modifiers" "static"
  let first : CodeGraph := {
    nodes := [⟨"n0", .classType, "A", ∅, 0⟩, ⟨"n1", .method, "f", static, 1⟩]
    edges := [⟨"e0", .contains, "n0", "n1", ∅, 0⟩]
    nextSeq := 2, nextEdgeSeq := 1, nextNodeId := 2, nextEdgeId := 1 }
  let second : CodeGraph := {
    nodes := [⟨"n2", .classType, "A", ∅, 4⟩, ⟨"n0", .method, "f", static, 7⟩]
    edges := [⟨"e1", .contains, "n2", "n0", ∅, 3⟩]
    nextSeq := 9, nextEdgeSeq := 4, nextNodeId := 0, nextEdgeId := 0 }
  have firstFormed : first.WellFormed := by
    constructor <;> decide +kernel
  have secondFormed : second.WellFormed := by
    constructor <;> decide +kernel
  have valid : Builtin.staticToFunction.validate = .ok () := by decide +kernel
  have rulesValid : ∀ rule ∈ [Builtin.staticToFunction], rule.validate = .ok () := by
    simpa using valid
  let naming : Naming := ⟨fun id => if id = "n0" then "n2" else "n0", fun _ => "e1", [], []⟩
  obtain ⟨names, renamed, _⟩ := firstFormed.exists_renamed secondFormed naming
    (by decide +kernel) (by decide +kernel)
  obtain ⟨iso, _⟩ := renamed.exists_isomorphism firstFormed secondFormed
  obtain ⟨found, ⟨result, other, done, otherDone, passes, _, _, after⟩, _⟩ :=
    iso.indistinguishable firstFormed secondFormed rulesValid (.fixpoint 10)
  exact ⟨first, second, iso, firstFormed, secondFormed, rfl, rfl, valid, by decide +kernel, found,
    result, other, done, otherDone, passes, after⟩

end Isomorphism

end Transcode
