import Transcode.Proofs.Rounds

/-!
# Matches that have grown stale

The matches of a pass are found once, and applied to a graph that keeps changing. What the pass has
not consumed is as it was at the start (`CodeGraph.Untouched`). So a match that is still valid
embeds its pattern in the graph at the moment at which it is applied
(`CodeGraph.Untouched.exists_embeds`), and a pass does nothing but apply embeddings
(`Pass.Since.step`).
-/

namespace Transcode

namespace CodeGraph

/-- What has not been consumed since the start is as it was. -/
structure Untouched (start : CodeGraph) (consumed : List String) (graph : CodeGraph) : Prop where
  nodes : ∀ node ∈ start.nodes, node.id ∉ consumed → node ∈ graph.nodes
  edges : ∀ edge ∈ start.edges, edge.touches consumed = false → edge ∈ graph.edges

namespace Untouched

variable {start graph : CodeGraph} {consumed : List String} {rule : Rule} {found : Match}

theorem refl (graph : CodeGraph) : Untouched graph [] graph :=
  ⟨fun _ member _ => member, fun _ member _ => member⟩

/-- Applying a match changes nothing apart from the nodes that it replaces. -/
theorem result (untouched : Untouched start consumed graph) (addition : Addition) :
    Untouched start (found.replaced.map (·.node) ++ consumed)
      (addition.result graph rule found) where
  nodes node member apart := by
    rw [List.mem_append, not_or] at apart
    have there := untouched.nodes node member apart.2
    exact List.mem_append_left _ (List.mem_filter.mpr ⟨there, decide_eq_true apart.1⟩)
  edges edge member apart := by
    simp only [Edge.touches_eq_false_iff, List.mem_append, not_or] at apart
    obtain ⟨⟨source, earlierSource⟩, target, earlierTarget⟩ := apart
    have there := untouched.edges edge member
      (Edge.touches_eq_false_iff.mpr ⟨earlierSource, earlierTarget⟩)
    apply List.mem_append_left
    refine List.mem_filterMap.mpr ⟨edge, there, Edge.rewritten?_eq_some_iff.mpr (.inl ⟨?_, rfl⟩)⟩
    rw [map_fst_additionReplacements]
    exact Edge.touches_eq_false_iff.mpr ⟨source, target⟩

/-- The nodes bound by a match that is still valid are those that it was found with. -/
theorem bound_of_stillBound (untouched : Untouched start consumed graph)
    (wellFormed : graph.WellFormed) {places : List PatternNode} {bound current : List Node}
    (accepted : List.Forall₂ (fun node place => node ∈ start.nodes ∧ start.accepts place node)
      bound places)
    (still : List.Forall₂
      (fun entry node => graph.stillBound? consumed entry.1 entry.2 = some node)
      (places.zip ((places.zip bound).map fun (place, node) =>
        (⟨place.name, node.id, node.seq, place.role = .replaced⟩ : Binding))) current) :
    current = bound ∧ (∀ node ∈ bound, node.id ∉ consumed) ∧
      List.Forall₂ (fun node place => node ∈ graph.nodes ∧ graph.accepts place node)
        bound places := by
  -- The places, their bindings and the nodes found again are aligned, so they are followed
  -- together.
  induction accepted generalizing current with
  | nil =>
      cases still
      exact ⟨rfl, by simp, .nil⟩
  | @cons node place nodes places first _ ih =>
      cases still with
      | @cons _ now _ later here still =>
          obtain ⟨rfl, unconsumed, others⟩ := ih still
          obtain ⟨apart, looked, passes⟩ := stillBound?_eq_some_iff.mp here
          have there := untouched.nodes node first.1 apart
          rw [wellFormed.node?_of_mem there] at looked
          cases looked
          exact ⟨rfl, List.forall_mem_cons.mpr ⟨apart, unconsumed⟩, .cons ⟨there, passes⟩ others⟩

/-- **A match that is still valid is an embedding.** It binds the nodes and edges that it was found
with, and these embed its pattern in the graph as it is now. -/
theorem exists_embeds (untouched : Untouched start consumed graph) (startFormed : start.WellFormed)
    (wellFormed : graph.WellFormed) (valid : rule.Valid) {index : Nat}
    (member : found ∈ rule.matchesAt index start)
    (still : graph.stillValid rule found consumed) :
    ∃ bound mapped, rule.sourcePattern.Embeds graph bound ∧
      rule.sourcePattern.Maps graph bound mapped ∧
      found = rule.matchOf index bound (mapped.map Search.matchedEdge) := by
  obtain ⟨bound, mapped, embeds, maps, rfl⟩ := startFormed.exists_embeds valid member
  obtain ⟨current, all, _, constraints⟩ := stillValid_iff.mp still
  obtain ⟨rfl, unconsumed, accepted⟩ :=
    untouched.bound_of_stillBound wellFormed embeds.accepted all
  -- Edges of the match end at bound nodes, of which none is consumed, so they are still there.
  have bound_apart {name : String} {id : String}
      (isBound : (rule.sourcePattern.lookup current name).map (·.id) = some id) :
      id ∉ consumed := by
    obtain ⟨node, looked, rfl⟩ := Option.map_eq_some_iff.mp isBound
    obtain ⟨place, _, at_⟩ := Option.bind_eq_some_iff.mp looked
    exact unconsumed node (List.mem_of_getElem? at_)
  have stands : List.Forall₂ (rule.sourcePattern.Stands graph current)
      rule.sourcePattern.edges mapped := by
    refine maps.stand.imp fun edge there stand => ⟨?_, stand.kind, stand.source, stand.target⟩
    exact untouched.edges there stand.member
      (Edge.touches_eq_false_iff.mpr ⟨bound_apart stand.source, bound_apart stand.target⟩)
  have now : rule.sourcePattern.Maps graph current mapped := ⟨stands, maps.distinct⟩
  refine ⟨current, mapped, ⟨⟨accepted, embeds.distinct, fun edge member => ?_, constraints⟩,
    mapped, now⟩, now, rfl⟩
  obtain ⟨there, _, stand⟩ := exists_left_of_forall₂ stands.flip edge member
  exact ⟨there, stand⟩

end Untouched

end CodeGraph

namespace Pass

/-- A pass that started at a graph. -/
structure Since (start : CodeGraph) (pass : Pass) : Prop where
  formed : pass.graph.WellFormed
  untouched : CodeGraph.Untouched start pass.consumed pass.graph

/-- What a step of a pass does with a match that it does not skip: the match is an embedding in the
graph of the pass, and is applied. -/
def Applied (rules : List Rule) (pass : Pass) (found : Match) (after : Pass) : Prop :=
  ∃ rule bound mapped addition, rules[found.ruleIndex]? = some rule ∧
    rule.sourcePattern.Embeds pass.graph bound ∧ rule.sourcePattern.Maps pass.graph bound mapped ∧
    found = rule.matchOf found.ruleIndex bound (mapped.map Search.matchedEdge) ∧
    pass.graph.Applies rule found addition ∧ after = pass.afterMatch rule found addition

namespace Since

variable {start : CodeGraph} {rules : List Rule} {pass : Pass} {found : Match}

theorem refl (wellFormed : start.WellFormed) : Since start { graph := start } :=
  ⟨wellFormed, .refl start⟩

/-- **A step of a pass.** It skips a match, or applies it as an embedding in the graph that the pass
has come to. -/
theorem step (since : pass.Since start) (startFormed : start.WellFormed)
    (valid : ∀ rule ∈ rules, rule.Valid) (member : found ∈ start.findMatches rules) :
    ∃ after, pass.step rules found = .ok after ∧ after.Since start ∧
      (after = pass ∨ pass.Applied rules found after) := by
  obtain ⟨rule, index, at_, member⟩ := CodeGraph.mem_findMatches_iff.mp member
  obtain ⟨fits, rfl⟩ := Rule.fits_of_mem_matchesAt member
  have ruleValid := valid rule (List.mem_of_getElem? at_)
  cases still : pass.graph.stillValid rule found pass.consumed with
  | false => exact ⟨pass, step_of_stale at_ still, since, .inl rfl⟩
  | true =>
      obtain ⟨bound, mapped, embeds, maps, same⟩ :=
        since.untouched.exists_embeds startFormed since.formed ruleValid member still
      obtain ⟨addition, applies⟩ := since.formed.exists_applies ruleValid fits
        (CodeGraph.hasNode_of_stillValid fits still)
      refine ⟨_, step_of_applies at_ still applies, ⟨applies.formed, ?_⟩, .inr ?_⟩
      · exact since.untouched.result addition
      · exact ⟨rule, bound, mapped, addition, at_, embeds, maps, same, applies, rfl⟩

end Since

end Pass

end Transcode
