import Transcode.Proofs.Rewrites
import Transcode.Proofs.Termination

/-!
# Relations under rewriting

Rules that ask for containment only and make nothing else leave the calls and supertypes of a graph
alone: a rewrite leads their ends to what is in the place of the nodes that it replaces, and does
nothing else to them (`Rewrite.Genuine.carries`). So after any number of passes each end of a
relation is what the chain of rewrites has put in its place (`CodeGraph.WellFormed.carries_stage`),
which is also what the graph forwards it to.
-/

namespace Transcode

/-- An edge with its ends led to other nodes. -/
def Edge.led (place : String → String) (edge : Edge) : Edge :=
  { edge with source := place edge.source, target := place edge.target }

/-- The edges that do not say what contains what: calls and supertypes. -/
def CodeGraph.relations (graph : CodeGraph) : List Edge := graph.edges.filter (·.kind ≠ .contains)

/-- A rule that has to do with containment only. -/
structure Rule.OnlyContains (rule : Rule) : Prop where
  matched : ∀ edge ∈ rule.sourcePattern.edges, edge.kind = .contains
  made : ∀ edge ∈ rule.targetPattern.edges, edge.kind = .contains

instance (rule : Rule) : Decidable rule.OnlyContains :=
  decidable_of_iff ((∀ edge ∈ rule.sourcePattern.edges, edge.kind = .contains) ∧
    ∀ edge ∈ rule.targetPattern.edges, edge.kind = .contains)
    ⟨fun ⟨matched, made⟩ => ⟨matched, made⟩, fun only => ⟨only.matched, only.made⟩⟩

/-! ### What is in the place of a node -/

namespace Rewrite

/-- What replaces the replaced nodes, by the ids of the nodes that the application makes. -/
def replacements (rewrite : Rewrite) : List (String × String) :=
  match (rewrite.before.graph.applyMatch rewrite.rule rewrite.found).1 with
  | .ok ids =>
    let fragment : Fragment := rewrite.rule.targetPattern.names.zip ids
    match rewrite.rule.targetPattern.rootName?.bind fun name => fragment.lookup name with
    | some root => rewrite.rule.replacements fragment root rewrite.found
    | none => []
  | .error _ => []

/-- The node in the place of a node after a rewrite: what has replaced it, or itself. -/
def inPlace (rewrite : Rewrite) (id : String) : String :=
  (rewrite.replacements.lookup id).getD id

/-- The node in the place of a node after rewrites one after the other. -/
def placeAfter (log : List Rewrite) (id : String) : String :=
  log.foldl (fun place rewrite => rewrite.inPlace place) id

/-- The place of a node behind two logs is found in one after the other. -/
theorem placeAfter_append (first second : List Rewrite) (id : String) :
    placeAfter (first ++ second) id = placeAfter second (placeAfter first id) :=
  List.foldl_append

variable {rewrite : Rewrite} {addition : Addition} {id : String}

/-- What a rewrite puts in place is what its addition does. -/
theorem replacements_eq
    (applies : rewrite.before.graph.Applies rewrite.rule rewrite.found addition) :
    rewrite.replacements = addition.replacements rewrite.rule rewrite.found := by
  rw [replacements, applies.outcome]
  have root := applies.added.root
  unfold Addition.fragment at root
  dsimp only
  rw [root]
  rfl

/-- Where a rewrite leads an id is where its addition does. -/
theorem inPlace_eq (applies : rewrite.before.graph.Applies rewrite.rule rewrite.found addition) :
    rewrite.inPlace = addition.inPlace rewrite.rule rewrite.found := by
  funext id
  rw [inPlace, replacements_eq applies, Addition.inPlace]

end Rewrite

/-! ### Carrying relations over -/

/-- The relations of a graph are carried over to a later graph, in which other nodes are in the
place of its own. Their ids are used up, and the later graph forwards them so. -/
structure CodeGraph.Carries (before : CodeGraph) (place : String → String) (after : CodeGraph) :
    Prop where
  relations : after.relations = before.relations.map (·.led place)
  live : ∀ id, before.hasNode id → after.hasNode (place id)
  settled : before.Settled → after.Settled
  spent : ∀ id, before.NodeSpent id → after.NodeSpent id
  gone : ∀ id, before.NodeSpent id → after.hasNode id → before.hasNode id
  resolved : before.Settled → ∀ id there, before.NodeSpent id → before.resolved? id = some there →
    after.resolved? id = some (place there)
  forwarded : ∀ id, before.NodeSpent id → after.forwarding.get? id ≠ none →
    before.hasNode id ∨ before.forwarding.get? id ≠ none

namespace CodeGraph.Carries

variable {before between after : CodeGraph} {place further : String → String}

/-- A graph carries its own relations over. -/
theorem refl (graph : CodeGraph) : graph.Carries id graph where
  relations := (List.map_id _).symm
  live _ there := there
  settled settled := settled
  spent _ spent := spent
  gone _ _ there := there
  resolved _ _ _ _ resolved := resolved
  forwarded _ _ some := .inr some

/-- Relations carried over twice are carried over. -/
theorem trans (first : before.Carries place between) (second : between.Carries further after) :
    before.Carries (further ∘ place) after where
  relations := by
    rw [second.relations, first.relations, List.map_map]
    rfl
  live id there := second.live _ (first.live id there)
  settled settled := second.settled (first.settled settled)
  spent id spent := second.spent id (first.spent id spent)
  gone id spent there := first.gone id spent (second.gone id (first.spent id spent) there)
  resolved settled id there spent resolved :=
    second.resolved (first.settled settled) id _ (first.spent id spent)
      (first.resolved settled id there spent resolved)
  forwarded id spent some := by
    rcases second.forwarded id (first.spent id spent) some with there | earlier
    · exact .inl (first.gone id spent there)
    · exact first.forwarded id spent earlier

end CodeGraph.Carries

/-! ### Rewriting -/

/-- What a match binds to a name is what is bound at the place of the name. -/
theorem Rule.node?_matchOf {rule : Rule} {bound : List Node}
    (size : bound.length = rule.sourcePattern.nodes.length) (index : Nat)
    (matched : List MatchedEdge) (name : String) :
    (rule.matchOf index bound matched).node? name =
      (rule.sourcePattern.lookup bound name).map (·.id) := by
  have looked := map_find?_zip (fun node : PatternNode => decide (node.name = name)) size.symm
  rw [Match.node?, matchOf, bindings, List.find?_map, Option.map_map]
  change _ = ((rule.sourcePattern.nodes.findIdx? _).bind fun place => bound[place]?).map _
  rw [← looked, Option.map_map]
  rfl

namespace Rewrite

variable {rules : List Rule} {rewrite : Rewrite} {first last : Pass} {log : List Rewrite}

/-- A matched edge of an embedding is one that the pattern asks for, between what is bound to the
ends of that. -/
theorem IsEmbedding.exists_asked (embedding : rewrite.IsEmbedding)
    (formed : rewrite.before.graph.WellFormed) {edge : Edge}
    (member : edge ∈ rewrite.before.graph.edges)
    (matched : rewrite.found.edges.any (·.edge = edge.id)) :
    ∃ asked ∈ rewrite.rule.sourcePattern.edges, edge.kind = asked.kind ∧
      rewrite.found.node? asked.source = some edge.source ∧
      rewrite.found.node? asked.target = some edge.target := by
  obtain ⟨bound, mapped, embeds, maps, made⟩ := embedding
  have node (name : String) : rewrite.found.node? name =
      (rewrite.rule.sourcePattern.lookup bound name).map (·.id) := by
    rw [made]
    exact Rule.node?_matchOf embeds.accepted.length_eq ..
  rw [made, List.any_eq_true] at matched
  obtain ⟨_, listed, same⟩ := matched
  obtain ⟨there, isMapped, rfl⟩ := List.mem_map.mp listed
  obtain ⟨asked, askedMember, stands⟩ := exists_left_of_forall₂ maps.stand there isMapped
  obtain rfl := formed.edge_eq_of_id stands.member member (of_decide_eq_true same)
  exact ⟨asked, askedMember, stands.kind, (node _).trans stands.source,
    (node _).trans stands.target⟩

/-- The matched edges of an embedding of a rule that has to do with containment only are no
relations. -/
theorem IsEmbedding.kind_of_matched (embedding : rewrite.IsEmbedding)
    (formed : rewrite.before.graph.WellFormed) (only : rewrite.rule.OnlyContains) {edge : Edge}
    (member : edge ∈ rewrite.before.graph.edges)
    (matched : rewrite.found.edges.any (·.edge = edge.id)) : edge.kind = .contains := by
  obtain ⟨asked, askedMember, kind, _⟩ := embedding.exists_asked formed member matched
  exact kind.trans (only.matched asked askedMember)

/-- A rewrite by a rule that has to do with containment only leads the ends of relations to what is
in their place. -/
theorem Genuine.relations_after (genuine : rewrite.Genuine rules)
    (only : rewrite.rule.OnlyContains) :
    rewrite.after.graph.relations = rewrite.before.graph.relations.map (·.led rewrite.inPlace) := by
  obtain ⟨addition, applies, made⟩ := genuine.applies
  have noLinks : addition.links.filter (·.kind ≠ .contains) = [] := by
    refine List.filter_eq_nil_iff.mpr fun link listed => ?_
    obtain ⟨edge, asked, links⟩ := exists_left_of_forall₂ applies.added.linked link listed
    simp [links.kind, only.made edge asked]
  have each : ∀ edge ∈ rewrite.before.graph.edges,
      (edge.rewritten? rewrite.found (addition.replacements rewrite.rule rewrite.found)).filter
          (·.kind ≠ .contains) =
        if edge.kind ≠ .contains then some (edge.led rewrite.inPlace) else none := by
    intro edge member
    rw [Addition.rewritten?_eq, inPlace_eq applies]
    by_cases contains : edge.kind = .contains
    · split <;> simp [Option.filter, contains]
    · have unmatched : rewrite.found.edges.any (·.edge = edge.id) = false := by
        rw [← Bool.not_eq_true]
        intro matched
        exact contains (genuine.embedding.kind_of_matched genuine.formed only member matched)
      have noLoop :
          (edge.moved (addition.replacements rewrite.rule rewrite.found)).isContainmentLoop
          = false := by
        simp [Edge.isContainmentLoop, contains]
      simp only [unmatched, noLoop, Bool.or_self, Bool.and_false, Bool.false_eq_true, ↓reduceIte,
        Option.filter, Edge.moved_kind, ne_eq, contains, not_false_eq_true, decide_true]
      rfl
  rw [made]
  change ((rewrite.before.graph.edges.filterMap _) ++ addition.links).filter _ = _
  rw [List.filter_append, noLinks, List.append_nil, List.filter_filterMap,
    List.filterMap_congr each, CodeGraph.relations, ← List.filterMap_eq_map, List.filterMap_filter]
  simp

/-- **One rewrite.** -/
theorem Genuine.carries (genuine : rewrite.Genuine rules) (only : rewrite.rule.OnlyContains)
    (valid : rewrite.rule.Valid) :
    rewrite.before.graph.Carries rewrite.inPlace rewrite.after.graph := by
  have relations := genuine.relations_after only
  obtain ⟨addition, applies, made⟩ := genuine.applies
  rw [made] at relations ⊢
  have replaced := applies.fits.replaced_ne_nil valid
  rw [inPlace_eq applies] at relations ⊢
  refine ⟨relations, fun id there => ?_, applies.settled, fun id => applies.added.nodeSpent_result,
    fun id spent there => ?_, fun settled id there => applies.resolved?_eq settled replaced,
    fun id spent forwarded => ?_⟩
  · by_cases listed : id ∈ rewrite.found.replaced.map (·.node)
    · exact CodeGraph.hasNode_result.mpr (.inr (applies.added.inPlace_mem listed))
    · rw [Addition.inPlace_of_not_mem listed]
      exact CodeGraph.hasNode_result.mpr (.inl ⟨there, listed⟩)
  · exact ((CodeGraph.hasNode_result_of_nodeSpent applies.added spent).mp there).1
  · change (addition.result _ _ _).forwarding.get? id ≠ none at forwarded
    rw [CodeGraph.get?_forwarding_result applies.distinct] at forwarded
    cases looked : (addition.replacements rewrite.rule rewrite.found).lookup id with
    | none =>
        rw [looked, Option.none_or] at forwarded
        exact .inr forwarded
    | some new =>
        have listed := CodeGraph.lookup_replacements_isSome_iff.mp (Option.isSome_of_eq_some looked)
        exact .inl (applies.live_replaced id listed)

/-- The rewrites of a pass. -/
theorem Linked.carries (linked : Linked first log last)
    (genuine : ∀ rewrite ∈ log, rewrite.Genuine rules)
    (only : ∀ rule ∈ rules, rule.OnlyContains) (valid : ∀ rule ∈ rules, rule.Valid) :
    first.graph.Carries (placeAfter log) last.graph := by
  induction linked, genuine using Linked.head_induction_on with
  | ended => exact .refl _
  | step here _ _ ih =>
      have listed := List.mem_of_getElem? here.listed
      exact (here.carries (only _ listed) (valid _ listed)).trans ih

end Rewrite

/-- The rewrites of a number of passes. -/
def CodeGraph.rewritesOver (graph : CodeGraph) (rules : List Rule) (passes : Nat) : List Rewrite :=
  (List.range passes).flatMap fun number => (graph.stage rules number).rewrites rules

/-- One pass more adds its rewrites to the log. -/
theorem CodeGraph.rewritesOver_succ (graph : CodeGraph) (rules : List Rule) (passes : Nat) :
    graph.rewritesOver rules (passes + 1) =
      graph.rewritesOver rules passes ++ (graph.stage rules passes).rewrites rules := by
  rw [rewritesOver, List.range_succ, List.flatMap_append, List.flatMap_singleton]
  rfl

/-- One pass more leads ids on from where the earlier ones did. -/
theorem CodeGraph.placeAfter_rewritesOver_succ (graph : CodeGraph) (rules : List Rule)
    (passes : Nat) : Rewrite.placeAfter (graph.rewritesOver rules (passes + 1)) =
      Rewrite.placeAfter ((graph.stage rules passes).rewrites rules) ∘
        Rewrite.placeAfter (graph.rewritesOver rules passes) := by
  funext id
  rw [rewritesOver_succ, Rewrite.placeAfter_append]
  rfl

/-- **Any number of passes** with rules that have to do with containment only. -/
theorem CodeGraph.WellFormed.carries_stage {graph : CodeGraph} {rules : List Rule}
    (wellFormed : graph.WellFormed) (valid : ∀ rule ∈ rules, rule.Valid)
    (only : ∀ rule ∈ rules, rule.OnlyContains) (passes : Nat) :
    graph.Carries (Rewrite.placeAfter (graph.rewritesOver rules passes))
      (graph.stage rules passes) := by
  induction passes with
  | zero => exact .refl graph
  | succ passes ih =>
      have formed := wellFormed.stage valid passes
      obtain ⟨last, ran, linked, genuine⟩ := formed.exists_rewrites valid
      have carries := linked.carries genuine only valid
      rw [← onePass_eq ran] at carries
      rw [placeAfter_rewritesOver_succ]
      exact ih.trans carries

/-- The automated built-in rules have to do with containment only. -/
theorem Builtin.onlyContains_of_mem : ∀ rule ∈ catalog.automated, rule.OnlyContains := by
  rw [automated_eq]
  decide

end Transcode
