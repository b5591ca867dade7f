import Transcode.Proofs.Matches
import Transcode.Proofs.Merging
import Transcode.Proofs.Session

/-!
# Transforming without failures

With valid rules, a match that is still valid can be applied, so passes and runs never fail, neither
on a whole graph nor on its parts. Applying a match that was found in an earlier graph fails only if
a node that it binds is gone, and then nothing has changed.
-/

namespace Transcode

namespace CodeGraph

variable {graph : CodeGraph} {rule : Rule} {found : Match} {consumed : List String}

/-! ### Matches that are still valid -/

/-- A binding is still there when its node is not used up, is in the graph and is accepted. -/
theorem stillBound?_eq_some_iff {place : PatternNode} {binding : Binding} {node : Node} :
    graph.stillBound? consumed place binding = some node ↔
      binding.node ∉ consumed ∧ graph.node? binding.node = some node ∧
        graph.accepts place node := by
  unfold stillBound?
  split
  · rename_i gone
    simp [List.contains_iff_mem.mp gone]
  · rename_i unconsumed
    rw [List.contains_iff_mem] at unconsumed
    simp [Option.filter_eq_some_iff, unconsumed]

/-- A match is still valid when its nodes, its edges and its constraints still hold. -/
theorem stillValid_iff :
    graph.stillValid rule found consumed ↔
      ∃ bound, List.Forall₂ (fun entry node =>
          graph.stillBound? consumed entry.1 entry.2 = some node)
          (rule.sourcePattern.nodes.zip found.bindings) bound ∧
        found.edges.all graph.stillConnects ∧ rule.sourcePattern.constraintsHold bound := by
  simp only [← mapM_eq_some_iff]
  unfold stillValid
  dsimp only
  split
  · rename_i bound all
    rw [Bool.and_eq_true]
    refine ⟨fun holds => ⟨bound, all, holds⟩, ?_⟩
    rintro ⟨other, otherAll, holds⟩
    rw [all, Option.some.injEq] at otherAll
    exact otherAll ▸ holds
  · rename_i none
    simp [none]

/-- All that a match binds is looked for while it is valid. -/
theorem exists_stillBound? (fits : found.Fits rule)
    (still : graph.stillValid rule found consumed) :
    ∀ binding ∈ found.bindings, ∃ place node,
      graph.stillBound? consumed place binding = some node := by
  obtain ⟨bound, all, _⟩ := stillValid_iff.mp still
  intro binding member
  obtain ⟨place, paired⟩ : ∃ place, (place, binding) ∈
      rule.sourcePattern.nodes.zip found.bindings := by
    rw [← List.map_snd_zip (Nat.le_of_eq fits.bindings.length_eq.symm)] at member
    obtain ⟨⟨place, other⟩, paired, rfl⟩ := List.mem_map.mp member
    exact ⟨place, paired⟩
  obtain ⟨node, _, isBound⟩ := exists_left_of_forall₂ all.flip _ paired
  exact ⟨place, node, isBound⟩

/-- The nodes that a match binds are there while it is valid. -/
theorem hasNode_of_stillValid (fits : found.Fits rule)
    (still : graph.stillValid rule found consumed) :
    ∀ binding ∈ found.bindings, graph.hasNode binding.node := by
  intro binding member
  obtain ⟨place, node, isBound⟩ := exists_stillBound? fits still binding member
  rw [← node?_isSome, (stillBound?_eq_some_iff.mp isBound).2.1]
  rfl

/-! ### Applying one match -/

/-- A match that binds what is gone changes nothing. -/
theorem applyMatch_of_missing {binding : Binding} (member : binding ∈ found.bindings)
    (gone : graph.hasNode binding.node = false) :
    graph.applyMatch rule found = (.error (.lostBinding rule.id), graph) := by
  unfold applyMatch
  rw [if_pos]
  rw [Bool.not_eq_true', List.all_eq_false]
  exact ⟨binding, member, by simp [gone]⟩

/-- A match that fits its rule is applied, or binds what is gone and changes nothing. -/
theorem WellFormed.applyMatch_cases (wellFormed : graph.WellFormed) (valid : rule.Valid)
    (fits : found.Fits rule) :
    ((∀ binding ∈ found.bindings, graph.hasNode binding.node) ∧
        ∃ ids after, graph.applyMatch rule found = (.ok ids, after)) ∨
      (∃ binding ∈ found.bindings, graph.hasNode binding.node = false) ∧
        graph.applyMatch rule found = (.error (.lostBinding rule.id), graph) := by
  by_cases live : ∀ binding ∈ found.bindings, graph.hasNode binding.node
  · obtain ⟨addition, _, _, applied⟩ := wellFormed.applyMatch_eq valid fits live
    exact .inl ⟨live, _, _, applied⟩
  · simp only [not_forall, Bool.not_eq_true] at live
    obtain ⟨binding, member, gone⟩ := live
    exact .inr ⟨⟨binding, member, gone⟩, applyMatch_of_missing member gone⟩

/-- The best match of a valid rule can be applied. -/
theorem WellFormed.exists_applyMatch_of_mem (wellFormed : graph.WellFormed) (valid : rule.Valid)
    (member : found ∈ graph.findMatchesOf rule) :
    ∃ ids after, graph.applyMatch rule found = (.ok ids, after) := by
  obtain ⟨bound, _, embeds, _, rfl⟩ :=
    wellFormed.exists_embeds valid (mem_findMatchesOf_iff.mp member)
  have size := embeds.accepted.length_eq
  refine ((wellFormed.applyMatch_cases valid (fits_of_mem_findMatchesOf member)).resolve_right ?_).2
  rintro ⟨⟨binding, bindingMember, gone⟩, _⟩
  have listed : binding.node ∈ (rule.bindings bound).map (·.node) :=
    List.mem_map_of_mem bindingMember
  rw [Rule.map_node_bindings size] at listed
  obtain ⟨node, nodeMember, same⟩ := List.mem_map.mp listed
  obtain ⟨place, _, there, _⟩ := exists_left_of_forall₂ embeds.accepted.flip node nodeMember
  rw [← same, hasNode_of_mem there] at gone
  cases gone

end CodeGraph

/-! ### Passes and runs -/

section Runs

variable {rules : List Rule}

/-- A step of a pass with a match that fits its rule. -/
theorem Pass.exists_step (valid : ∀ rule ∈ rules, rule.Valid) {pass : Pass} {found : Match}
    (wellFormed : pass.graph.WellFormed)
    (fits : ∃ rule, rules[found.ruleIndex]? = some rule ∧ found.Fits rule) :
    ∃ after, pass.step rules found = .ok after ∧ after.graph.WellFormed := by
  obtain ⟨rule, at_, fits⟩ := fits
  have stepped : ∃ after, pass.step rules found = .ok after := by
    unfold Pass.step
    rw [at_]
    dsimp only
    split
    · rename_i still
      obtain ⟨addition, _, _, applied⟩ := wellFormed.applyMatch_eq
        (valid rule (List.mem_of_getElem? at_)) fits (CodeGraph.hasNode_of_stillValid fits still)
      rw [applied]
      exact ⟨_, rfl⟩
    · exact ⟨pass, rfl⟩
  obtain ⟨after, stepped⟩ := stepped
  exact ⟨after, stepped, wellFormed.passStep stepped⟩

/-- A pass over a well-formed graph succeeds. -/
theorem Pass.exists_run (valid : ∀ rule ∈ rules, rule.Valid) {graph : CodeGraph}
    (wellFormed : graph.WellFormed) :
    ∃ pass, Pass.run rules graph = .ok pass ∧ pass.graph.WellFormed :=
  exists_foldlM_eq_ok (motive := fun pass : Pass => pass.graph.WellFormed)
    (fun _ _ member kept => exists_step valid kept (CodeGraph.fits_of_mem_findMatches member))
    wellFormed

/-- Any number of passes from a well-formed graph succeeds. -/
theorem Transformed.exists_proceed (valid : ∀ rule ∈ rules, rule.Valid) (bound : Nat)
    {result : Transformed} (wellFormed : result.graph.WellFormed) :
    ∃ last, result.proceed rules bound = .ok last := by
  induction bound generalizing result with
  | zero => exact ⟨_, rfl⟩
  | succ bound ih =>
      obtain ⟨pass, ran, kept⟩ := Pass.exists_run valid wellFormed
      unfold proceed
      rw [ran]
      change ∃ last, (if pass.applied = 0 then _ else _) = _
      split
      · exact ⟨_, rfl⟩
      · exact ih kept

/-- A run over the whole of a well-formed graph succeeds. -/
theorem exists_transform (valid : ∀ rule ∈ rules, rule.Valid) {graph : CodeGraph}
    (wellFormed : graph.WellFormed) (mode : RunMode) :
    ∃ result, transform graph rules mode = .ok result := by
  cases mode with
  | singlePass =>
      obtain ⟨pass, ran, _⟩ := Pass.exists_run valid wellFormed
      unfold transform
      rw [ran]
      exact ⟨_, rfl⟩
  | fixpoint bound => exact Transformed.exists_proceed valid bound wellFormed

/-- The parts of a well-formed graph are well-formed. -/
theorem CodeGraph.WellFormed.parts {graph : CodeGraph} (wellFormed : graph.WellFormed) :
    ∀ part ∈ graph.parts, part.WellFormed := by
  intro part member
  obtain ⟨⟨group, index⟩, entry, rfl⟩ := List.mem_map.mp member
  exact wellFormed.part (List.mem_zipIdx_iff_getElem?.mp entry)

/-- The merge of the results of the parts of a graph. -/
def CodeGraph.mergeOf (graph : CodeGraph) (parts : List CodeGraph) : Merge where
  whole := graph
  groups := graph.partGroups
  crossEdges := graph.edges.filter fun edge => (partOfEdge? graph.partGroups edge).isNone
  parts

/-- Transforming the parts of a graph gives the merge of their results. -/
theorem transformParts_eq {graph : CodeGraph} {mode : RunMode} {results : List Transformed}
    (wellFormed : graph.WellFormed)
    (transformed : List.Forall₂ (fun part result => transform part rules mode = .ok result)
      graph.parts results) :
    (graph.mergeOf (results.map (·.graph))).Sound ∧
      transformParts graph rules mode =
        .ok (.combined (graph.mergeOf (results.map (·.graph))).result results) := by
  have sound : (graph.mergeOf (results.map (·.graph))).Sound := by
    refine ⟨wellFormed, fun part member => ?_, rfl⟩
    obtain ⟨result, resultMember, rfl⟩ := List.mem_map.mp member
    obtain ⟨before, beforeMember, done⟩ := exists_left_of_forall₂ transformed result resultMember
    exact (wellFormed.parts before beforeMember).transform done
  refine ⟨sound, ?_⟩
  unfold transformParts
  refine bind_eq_ok_iff.mpr ⟨_, mapError_eq_ok_iff.mpr wellFormed.split_eq, ?_⟩
  refine bind_eq_ok_iff.mpr ⟨results, mapM_eq_ok_iff.mpr transformed, ?_⟩
  exact bind_eq_ok_iff.mpr ⟨_, mapError_eq_ok_iff.mpr sound.graph_eq, rfl⟩

/-- A run over the parts of a well-formed graph succeeds. -/
theorem exists_transformApart (valid : ∀ rule ∈ rules, rule.Valid) {graph : CodeGraph}
    (wellFormed : graph.WellFormed) (mode : RunMode) :
    ∃ result, transformApart graph rules mode = .ok result := by
  unfold transformApart
  split
  · exact exists_transform valid wellFormed mode
  · obtain ⟨results, transformed⟩ := exists_forall₂ fun part member =>
      exists_transform valid (wellFormed.parts part member) mode
    exact ⟨_, (transformParts_eq wellFormed transformed).2⟩

end Runs

/-! ### Catalogs -/

namespace Catalog

variable {catalog : Catalog} {graph : CodeGraph}

/-- What becomes of applying the best match of a rule of a catalog. -/
theorem applyRule_cases (wellFormed : graph.WellFormed) (catalog : Catalog) (id : String) :
    (catalog.rule? id = none ∧ graph.applyRule catalog id = (.error (.unknownRule id), graph)) ∨
      (∃ rule, catalog.rule? id = some rule ∧ graph.findMatchesOf rule = [] ∧
        graph.applyRule catalog id = (.error (.notApplicable id), graph)) ∨
      ∃ rule ids after, catalog.rule? id = some rule ∧ graph.findMatchesOf rule ≠ [] ∧
        graph.applyRule catalog id = (.ok ids, after) := by
  unfold CodeGraph.applyRule
  cases known : catalog.rule? id with
  | none => exact .inl ⟨rfl, rfl⟩
  | some rule =>
      refine .inr ?_
      cases matches_ : graph.findMatchesOf rule with
      | nil => exact .inl ⟨rule, rfl, matches_, by simp only [matches_]⟩
      | cons best rest =>
          have valid := catalog.valid_of_mem (List.mem_of_find?_eq_some known)
          obtain ⟨ids, after, applied⟩ :=
            wellFormed.exists_applyMatch_of_mem valid (matches_ ▸ List.mem_cons_self)
          refine .inr ⟨rule, ids, after, rfl, by simp [matches_], ?_⟩
          simp only [matches_, applied]
          rfl

/-- **Rewriting with a catalog does not fail halfway.** Transforming by rules of the catalog never
fails. Applying the best match of a rule fails only if the catalog has no such rule, or the rule has
no match, and changes nothing then. Applying a match that was found in any graph fails only if a
node that it binds is gone, and changes nothing then. -/
theorem rewriting_never_fails_halfway (catalog : Catalog) (wellFormed : graph.WellFormed) :
    (∀ rules : List Rule, (∀ rule ∈ rules, rule ∈ catalog.rules) → ∀ mode,
      (∃ result, transform graph rules mode = .ok result) ∧
        ∃ result, transformApart graph rules mode = .ok result) ∧
    (∀ id,
      ((graph.applyRule catalog id).1 = .error (.unknownRule id) ↔ catalog.rule? id = none) ∧
      ((graph.applyRule catalog id).1 = .error (.notApplicable id) ↔
        ∃ rule, catalog.rule? id = some rule ∧ graph.findMatchesOf rule = []) ∧
      ∀ failure, (graph.applyRule catalog id).1 = .error failure →
        (failure = .unknownRule id ∨ failure = .notApplicable id) ∧
          (graph.applyRule catalog id).2 = graph) ∧
    ∀ rule ∈ catalog.rules, ∀ (earlier : CodeGraph) (found : Match),
      (found ∈ earlier.findMatchesOf rule ∨ ∃ rules : List Rule, found ∈ earlier.findMatches rules ∧
        rules[found.ruleIndex]? = some rule) →
      ((∃ fault, (graph.applyMatch rule found).1 = .error fault) ↔
        ∃ binding ∈ found.bindings, graph.hasNode binding.node = false) ∧
      ∀ fault, (graph.applyMatch rule found).1 = .error fault →
        (graph.applyMatch rule found).2 = graph := by
  refine ⟨fun rules known mode => ?_, fun id => ?_, fun rule known earlier found from_ => ?_⟩
  · have valid : ∀ rule ∈ rules, rule.Valid := fun rule member =>
      catalog.valid_of_mem (known rule member)
    exact ⟨exists_transform valid wellFormed mode, exists_transformApart valid wellFormed mode⟩
  · rcases applyRule_cases wellFormed catalog id with
      ⟨unknown, outcome⟩ | ⟨rule, known, none, outcome⟩ | ⟨rule, ids, after, known, some, outcome⟩
    · rw [outcome, unknown]
      simp
    · rw [outcome, known]
      simp [none]
    · rw [outcome, known]
      simp [some]
  · have fits : found.Fits rule := by
      rcases from_ with one | ⟨rules, several, at_⟩
      · exact CodeGraph.fits_of_mem_findMatchesOf one
      · obtain ⟨other, otherAt, fits⟩ := CodeGraph.fits_of_mem_findMatches several
        rw [at_] at otherAt
        cases otherAt
        exact fits
    rcases wellFormed.applyMatch_cases (catalog.valid_of_mem known) fits with
      ⟨live, ids, after, applied⟩ | ⟨missing, refused⟩
    · rw [applied]
      refine ⟨⟨fun ⟨fault, impossible⟩ => (by cases impossible), fun ⟨binding, member, gone⟩ => ?_⟩,
        fun fault impossible => (by cases impossible)⟩
      rw [live binding member] at gone
      cases gone
    · rw [refused]
      exact ⟨⟨fun _ => missing, fun _ => ⟨_, rfl⟩⟩, fun _ _ => rfl⟩

/-- A class with a static method is transformed by the built-in rules, as a whole and in parts, and
an unknown rule leaves it as it is. -/
theorem rewriting_never_fails_halfway_staticMethod :
    ∃ graph : CodeGraph, graph.WellFormed ∧ graph.findMatchesOf Builtin.staticToFunction ≠ [] ∧
      (∃ result, transform graph Builtin.catalog.automated (.fixpoint 10) = .ok result) ∧
      (∃ result, transformApart graph Builtin.catalog.automated (.fixpoint 10) = .ok result) ∧
      Builtin.catalog.rule? "rule-0" = none ∧
      graph.applyRule Builtin.catalog "rule-0" = (.error (.unknownRule "rule-0"), graph) := by
  obtain ⟨graph, wellFormed, one⟩ := CodeGraph.WellFormed.exists_ofData {
      nodes := [⟨"n0", "A", .classType, ∅⟩,
        ⟨"n1", "f", .method, Dict.empty.insert "modifiers" "static"⟩]
      edges := [⟨"e0", "n0", "n1", .contains, ∅⟩] }
    (fun graph => !(graph.findMatchesOf Builtin.staticToFunction).isEmpty) (by decide +kernel)
  obtain ⟨runs, rules, _⟩ := rewriting_never_fails_halfway Builtin.catalog wellFormed
  have automated : ∀ rule ∈ Builtin.catalog.automated, rule ∈ Builtin.catalog.rules :=
    fun _ => Builtin.catalog.mem_of_mem_automated
  obtain ⟨whole, apart⟩ := runs Builtin.catalog.automated automated (.fixpoint 10)
  have unknown : Builtin.catalog.rule? "rule-0" = none := by rfl
  have refused := (rules "rule-0").1.mpr unknown
  exact ⟨graph, wellFormed, by simpa using one, whole, apart, unknown,
    Prod.ext refused ((rules "rule-0").2.2 _ refused).2⟩

end Catalog

end Transcode
