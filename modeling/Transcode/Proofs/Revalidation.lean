import Transcode.Proofs.Success

/-!
# Matches in a later graph

A match may be kept while its graph is edited in any way, also so that ids are given out again, and
checked later. The check finds what is bound, its tests, the conditions and the ends of the edges,
but does not ask of which kind the edges are. So a match that is still valid is an embedding exactly
if each of its edges still has the kind of its edge in the pattern
(`embedsIn_iff_stillValid`).
-/

namespace Transcode

namespace Match

variable {found : Match} {rule : Rule} {graph : CodeGraph}

/-- What a match binds, by the ids it has noted, embeds the pattern of a rule in a graph. -/
def EmbedsIn (found : Match) (rule : Rule) (graph : CodeGraph) : Prop :=
  ∃ bound mapped, rule.sourcePattern.Embeds graph bound ∧
    rule.sourcePattern.Maps graph bound mapped ∧
    found.bindings.map (·.node) = bound.map (·.id) ∧
    found.edges = mapped.map Search.matchedEdge

/-- Each matched edge is there with the kind of its edge in the pattern. -/
def KindsKept (found : Match) (rule : Rule) (graph : CodeGraph) : Prop :=
  List.Forall₂ (fun edge matched => (graph.edge? matched.edge).map (·.kind) = some edge.kind)
    rule.sourcePattern.edges found.edges

instance : Decidable (found.KindsKept rule graph) :=
  inferInstanceAs (Decidable (List.Forall₂ _ _ _))

end Match

namespace CodeGraph

variable {start graph : CodeGraph} {rule : Rule} {found : Match} {consumed : List String}

/-- A matched edge still connects when the edge of its id has the ends it had. -/
theorem stillConnects_iff {matched : MatchedEdge} :
    graph.stillConnects matched ↔ ∃ there, graph.edge? matched.edge = some there ∧
      there.source = matched.source ∧ there.target = matched.target := by
  simp [stillConnects, Option.any_eq_true]

/-- The names of a pattern stand for the same ids when the nodes bound have the same. -/
theorem map_lookup_eq {pattern : SourcePattern} {bound other : List Node}
    (same : bound.map (·.id) = other.map (·.id)) (name : String) :
    (pattern.lookup bound name).map (·.id) = (pattern.lookup other name).map (·.id) := by
  cases at_ : pattern.position? name with
  | none => rw [SourcePattern.lookup, SourcePattern.lookup, at_]; rfl
  | some place =>
      rw [SourcePattern.lookup_of_position? at_, SourcePattern.lookup_of_position? at_,
        ← List.getElem?_map, ← List.getElem?_map, same]

namespace WellFormed

/-- The nodes found again are those with the ids of the bindings, and pass the tests. -/
theorem forall₂_stillBound_iff (wellFormed : graph.WellFormed) {places : List PatternNode}
    {bindings : List Binding} {bound : List Node} (size : bindings.length = places.length) :
    List.Forall₂ (fun entry node => graph.stillBound? consumed entry.1 entry.2 = some node)
        (places.zip bindings) bound ↔
      (∀ id ∈ bindings.map (·.node), id ∉ consumed) ∧
        bindings.map (·.node) = bound.map (·.id) ∧
        List.Forall₂ (fun node place => node ∈ graph.nodes ∧ graph.accepts place node)
          bound places := by
  induction places generalizing bindings bound with
  | nil =>
      obtain rfl := List.eq_nil_of_length_eq_zero size
      cases bound <;> simp
  | cons place places ih =>
      cases bindings with
      | nil => cases size
      | cons binding bindings =>
          cases bound with
          | nil => simp
          | cons node bound =>
              rw [List.zip_cons_cons, List.forall₂_cons, List.forall₂_cons,
                stillBound?_eq_some_iff, wellFormed.node?_eq_some_iff, ih (Nat.succ.inj size),
                List.map_cons, List.map_cons, List.forall_mem_cons, List.cons.injEq,
                eq_comm (a := node.id)]
              tauto

/-- Edges that are still connected, and have kept their kinds, stand for the edges of the
pattern. -/
theorem exists_stands (wellFormed : graph.WellFormed) {pattern : SourcePattern}
    {old bound : List Node} (same : old.map (·.id) = bound.map (·.id)) {edges : List PatternEdge}
    {was : List Edge} (stood : List.Forall₂ (pattern.Stands start old) edges was)
    (connected : ∀ there ∈ was, graph.stillConnects (Search.matchedEdge there))
    (kinds : List.Forall₂ (fun (edge : PatternEdge) (there : Edge) =>
      (graph.edge? there.id).map (·.kind) = some edge.kind) edges was) :
    ∃ now, List.Forall₂ (pattern.Stands graph bound) edges now ∧
      now.map Search.matchedEdge = was.map Search.matchedEdge := by
  induction stood with
  | nil => exact ⟨[], .nil, rfl⟩
  | @cons edge there _ _ stands _ ih =>
      obtain ⟨joins, laterConnected⟩ := List.forall_mem_cons.mp connected
      obtain ⟨kind, laterKinds⟩ := List.forall₂_cons.mp kinds
      obtain ⟨current, looked, source, target⟩ := stillConnects_iff.mp joins
      change graph.edge? there.id = some current at looked
      change current.source = there.source at source
      change current.target = there.target at target
      obtain ⟨member, id⟩ := wellFormed.edge?_eq_some_iff.mp looked
      rw [looked, Option.map_some, Option.some.injEq] at kind
      obtain ⟨now, stand, shows⟩ := ih laterConnected laterKinds
      refine ⟨current :: now, .cons ⟨member, kind, ?_, ?_⟩ stand, ?_⟩
      · rw [← map_lookup_eq same, stands.source, source]
      · rw [← map_lookup_eq same, stands.target, target]
      · rw [List.map_cons, List.map_cons, shows, Search.matchedEdge, id, source, target]
        rfl

/-- Whatever has become of the graph: a match that was found embeds its pattern, and binds nothing
that is consumed, exactly if it is still valid and its edges have kept their kinds. -/
theorem embedsIn_iff_of_mem (startFormed : start.WellFormed) (wellFormed : graph.WellFormed)
    (valid : rule.Valid) {index : Nat} (member : found ∈ rule.matchesAt index start) :
    found.EmbedsIn rule graph ∧ (∀ id ∈ found.bindings.map (·.node), id ∉ consumed) ↔
      graph.stillValid rule found consumed ∧ found.KindsKept rule graph := by
  obtain ⟨old, was, embedded, mapped, rfl⟩ := startFormed.exists_embeds valid member
  have size := embedded.accepted.length_eq
  have ids : (rule.bindings old).map (·.node) = old.map (·.id) := Rule.map_node_bindings size
  have bindingsSize : (rule.bindings old).length = rule.sourcePattern.nodes.length := by
    rw [← size, ← List.length_map (·.node), ids, List.length_map]
  constructor
  · rintro ⟨⟨bound, edges, embeds, maps, nodes, matched⟩, unconsumed⟩
    refine ⟨stillValid_iff.mpr ⟨bound, ?_, ?_, embeds.constraints⟩, ?_⟩
    · exact (wellFormed.forall₂_stillBound_iff bindingsSize).mpr
        ⟨unconsumed, nodes, embeds.accepted⟩
    · rw [matched, List.all_map, List.all_eq_true]
      intro there listed
      obtain ⟨edge, _, stands⟩ := exists_left_of_forall₂ maps.stand there listed
      exact stillConnects_iff.mpr
        ⟨there, wellFormed.edge?_eq_some_iff.mpr ⟨stands.member, rfl⟩, rfl, rfl⟩
    · unfold Match.KindsKept
      rw [matched, List.forall₂_map_right_iff]
      refine maps.stand.imp fun edge there stands => ?_
      have looked := wellFormed.edge?_eq_some_iff.mpr ⟨stands.member, rfl⟩
      rw [Search.matchedEdge, looked, Option.map_some, stands.kind]
  · rintro ⟨still, kinds⟩
    obtain ⟨bound, all, connected, constraints⟩ := stillValid_iff.mp still
    obtain ⟨unconsumed, nodes, accepted⟩ :=
      (wellFormed.forall₂_stillBound_iff bindingsSize).mp all
    obtain ⟨now, stand, matched⟩ := wellFormed.exists_stands (ids.symm.trans nodes) mapped.stand
      (fun there listed => List.all_eq_true.mp connected _ (List.mem_map_of_mem listed))
      (List.forall₂_map_right_iff.mp kinds)
    have distinct : (now.map (·.id)).Nodup := by
      have names := congrArg (List.map (·.edge)) matched
      rw [List.map_map, List.map_map] at names
      exact names ▸ mapped.distinct
    have maps : rule.sourcePattern.Maps graph bound now := ⟨stand, distinct⟩
    refine ⟨⟨bound, now, ⟨⟨accepted, ?_, ?_, constraints⟩, now, maps⟩, maps, nodes, matched.symm⟩,
      unconsumed⟩
    · rw [← nodes, ids]
      exact embedded.distinct
    · intro edge listed
      obtain ⟨there, _, stands⟩ := exists_left_of_forall₂ stand.flip edge listed
      exact ⟨there, stands⟩

end WellFormed

end CodeGraph

section Sessions

variable {start : CodeGraph} {rule : Rule} {index : Nat} {found : Match}

/-- **Still valid matches.** After any operations, a match that was found before is an embedding of
its rule that binds nothing consumed exactly if it is still valid and each of its edges has the kind
that the pattern asks for. -/
theorem embedsIn_iff_stillValid (startFormed : start.WellFormed) (valid : rule.Valid)
    (member : found ∈ rule.matchesAt index start) (operations : List Operation)
    (consumed : List String) :
    found.EmbedsIn rule (Operation.runAll operations start) ∧
        (∀ id ∈ found.bindings.map (·.node), id ∉ consumed) ↔
      (Operation.runAll operations start).stillValid rule found consumed ∧
        found.KindsKept rule (Operation.runAll operations start) :=
  startFormed.embedsIn_iff_of_mem (Operation.wellFormed_runAll startFormed operations) valid member

end Sessions

/-- A class with a static method. -/
def staticMethodData : GraphData where
  nodes := [⟨"n0", "A", .classType, ∅⟩,
    ⟨"n1", "f", .method, Dict.empty.insert "modifiers" "static"⟩]
  edges := [⟨"e0", "n0", "n1", .contains, ∅⟩]

/-- Data that can be loaded gives a well-formed graph with a match to test. -/
theorem exists_found_ofData (data : GraphData) (rule : Rule) (test : CodeGraph → Match → Bool)
    (passes : (CodeGraph.ofData data).toOption.any fun start =>
      (rule.matchesAt 0 start).head?.any (test start)) :
    ∃ start found, start.WellFormed ∧ found ∈ rule.matchesAt 0 start ∧ test start found := by
  obtain ⟨start, startFormed, tested⟩ := CodeGraph.WellFormed.exists_ofData data _ passes
  obtain ⟨found, first, tested⟩ := (Option.any_eq_true _ _).mp tested
  exact ⟨start, found, startFormed, List.mem_of_mem_head? first, tested⟩

/-- The edge of a match is removed and put back under its id: the match is an embedding again. -/
theorem embedsIn_iff_stillValid_recreatedEdge :
    ∃ (start : CodeGraph) (found : Match), start.WellFormed ∧ Builtin.staticToFunction.Valid ∧
      found ∈ Builtin.staticToFunction.matchesAt 0 start ∧
      found.EmbedsIn Builtin.staticToFunction (Operation.runAll
        [.removeEdge "e0", .addEdgeWithId "e0" "n0" "n1" .contains ∅] start) := by
  have valid : Builtin.staticToFunction.Valid := Rule.valid_of_validate (by decide +kernel)
  obtain ⟨start, found, startFormed, member, tested⟩ :=
    exists_found_ofData staticMethodData Builtin.staticToFunction
      (fun start found =>
        let graph := Operation.runAll
          [.removeEdge "e0", .addEdgeWithId "e0" "n0" "n1" .contains ∅] start
        graph.stillValid Builtin.staticToFunction found [] ∧
          found.KindsKept Builtin.staticToFunction graph) (by decide +kernel)
  have still := of_decide_eq_true tested
  have embeds := (embedsIn_iff_stillValid startFormed valid member _ []).mpr still
  exact ⟨start, found, startFormed, valid, member, embeds.1⟩

/-- The edge of a match is removed, and its id given to an edge of another kind between the same
nodes: the match is still valid, but no embedding. -/
theorem not_embedsIn_of_reusedEdge :
    ∃ (start : CodeGraph) (found : Match), start.WellFormed ∧ Builtin.staticToFunction.Valid ∧
      found ∈ Builtin.staticToFunction.matchesAt 0 start ∧
      (Operation.runAll [.removeEdge "e0", .addEdgeWithId "e0" "n0" "n1" .calls ∅]
        start).stillValid Builtin.staticToFunction found [] ∧
      ¬ found.EmbedsIn Builtin.staticToFunction
        (Operation.runAll [.removeEdge "e0", .addEdgeWithId "e0" "n0" "n1" .calls ∅] start) := by
  have valid : Builtin.staticToFunction.Valid := Rule.valid_of_validate (by decide +kernel)
  obtain ⟨start, found, startFormed, member, tested⟩ :=
    exists_found_ofData staticMethodData Builtin.staticToFunction
      (fun start found =>
        let graph := Operation.runAll
          [.removeEdge "e0", .addEdgeWithId "e0" "n0" "n1" .calls ∅] start
        graph.stillValid Builtin.staticToFunction found [] ∧
          ¬ found.KindsKept Builtin.staticToFunction graph) (by decide +kernel)
  obtain ⟨still, changed⟩ := of_decide_eq_true tested
  refine ⟨start, found, startFormed, valid, member, still, fun embeds => changed ?_⟩
  have graphFormed := Operation.wellFormed_runAll startFormed
    [.removeEdge "e0", .addEdgeWithId "e0" "n0" "n1" .calls ∅]
  have nothing : ∀ id ∈ found.bindings.map (·.node), id ∉ ([] : List String) := by simp
  exact ((startFormed.embedsIn_iff_of_mem graphFormed valid member).mp ⟨embeds, nothing⟩).2

end Transcode
