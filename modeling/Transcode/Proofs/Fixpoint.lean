import Transcode.Proofs.Reload
import Transcode.Proofs.Rounds

/-!
# Runs to a fixpoint

A run that makes passes until one applies nothing reports the matches that are left, and nothing if
there are none (`Transformed.exists_proceed_warnings`). A graph without matches stays as it is, also
after it was written and loaded (`transform_fixpoint_spec`).
-/

namespace Transcode

/-- What a run reports of the matches left at its bound on passes. -/
def leftWarnings (bound : Nat) (left : List Match) : List Warning :=
  if left = [] then [] else [.nonTermination bound left.length]

/-- There is a warning exactly when a match is left. -/
theorem leftWarnings_eq_nil_iff {bound : Nat} {left : List Match} :
    leftWarnings bound left = [] ↔ left = [] := by
  unfold leftWarnings
  split <;> simp [*]

section Runs

variable {rules : List Rule} {graph : CodeGraph}

/-- At its bound a run warns of the matches left. -/
theorem Transformed.atBound_eq (rules : List Rule) (graph : CodeGraph) (passes applied : Nat) :
    Transformed.atBound rules ⟨graph, passes, applied, []⟩ =
      ⟨graph, passes, applied, leftWarnings passes (graph.findMatches rules)⟩ := by
  unfold atBound leftWarnings
  dsimp only
  cases graph.findMatches rules with
  | nil => rfl
  | cons found rest => rfl

/-- Passes until one applies nothing end with a report of the matches left, which are none unless
the bound was reached. -/
theorem Transformed.exists_proceed_warnings (valid : ∀ rule ∈ rules, rule.Valid)
    (wellFormed : graph.WellFormed) (bound passes applied : Nat) :
    ∃ result, Transformed.proceed rules bound ⟨graph, passes, applied, []⟩ = .ok result ∧
      result.graph.WellFormed ∧
      result.warnings = leftWarnings (passes + bound) (result.graph.findMatches rules) := by
  induction bound generalizing graph passes applied with
  | zero => exact ⟨_, congrArg Except.ok (atBound_eq rules graph passes applied), wellFormed, rfl⟩
  | succ bound ih =>
      unfold proceed
      rw [wellFormed.run_eq valid]
      change ∃ result, (if (graph.onePass rules).applied = 0 then _ else _) = _ ∧ _
      by_cases nothing : (graph.onePass rules).applied = 0
      · rw [if_pos nothing]
        have same := Pass.graph_eq_of_applied_eq_zero (wellFormed.run_eq valid) nothing
        have none : (graph.onePass rules).graph.findMatches rules = [] := by
          rw [same]
          exact wellFormed.findMatches_eq_nil valid nothing
        exact ⟨_, rfl, wellFormed.onePass valid, (leftWarnings_eq_nil_iff.mpr none).symm⟩
      · rw [if_neg nothing]
        have later := ih (wellFormed.onePass valid) (passes + 1)
          (applied + (graph.onePass rules).applied)
        rwa [Nat.add_right_comm] at later

/-- A graph without matches stays as it is, whatever the mode, and one pass shows it. -/
theorem transform_of_findMatches_eq_nil (none : graph.findMatches rules = []) {mode : RunMode}
    (some : 0 < mode.passes) : transform graph rules mode = .ok ⟨graph, 1, 0, []⟩ := by
  have ran : Pass.run rules graph = .ok { graph } := by
    rw [Pass.run, none]
    rfl
  cases mode with
  | singlePass =>
      rw [transform, ran]
      rfl
  | fixpoint bound =>
      obtain ⟨less, rfl⟩ : ∃ less, bound = less + 1 :=
        ⟨bound - 1, by change 0 < bound at some; omega⟩
      rw [transform, Transformed.proceed, ran]
      rfl

/-- **Fixpoints.** A run to a fixpoint reports nothing exactly if no matches are left in its result,
and else how many there are after all the passes that it was allowed. If it reports nothing, another
run changes nothing, neither on the result nor on the graph that its text denotes. -/
theorem transform_fixpoint_spec (wellFormed : graph.WellFormed)
    (valid : ∀ rule ∈ rules, rule.Valid) (bound : Nat) :
    ∃ result, transform graph rules (.fixpoint bound) = .ok result ∧
      (result.warnings = [] ↔ result.graph.findMatches rules = []) ∧
      (result.graph.findMatches rules ≠ [] → result.warnings =
        [.nonTermination bound (result.graph.findMatches rules).length]) ∧
      (result.warnings = [] → ∀ mode : RunMode, 0 < mode.passes →
        transform result.graph rules mode = .ok ⟨result.graph, 1, 0, []⟩ ∧
        ∃ loaded, CodeGraph.ofJsonText result.graph.toData.toJson.pretty = .ok loaded ∧
          transform loaded rules mode = .ok ⟨loaded, 1, 0, []⟩ ∧
          loaded.toData = result.graph.toData) := by
  obtain ⟨result, ran, formed, reported⟩ :=
    Transformed.exists_proceed_warnings valid wellFormed bound 0 0
  rw [Nat.zero_add] at reported
  refine ⟨result, ran, ?_, fun left => ?_, fun quiet mode passes => ?_⟩
  · rw [reported, leftWarnings_eq_nil_iff]
  · rw [reported, leftWarnings, if_neg left]
  · have none : result.graph.findMatches rules = [] := by
      rwa [reported, leftWarnings_eq_nil_iff] at quiet
    obtain ⟨place, edgePlace, relocated⟩ := formed.relocated
    -- Loading gives new numbers, so the matches are not the same, but there are as many.
    have noneLoaded : result.graph.reloaded.findMatches rules = [] := by
      apply List.eq_nil_of_length_eq_zero
      rw [relocated.length_findMatches, none]
      rfl
    exact ⟨transform_of_findMatches_eq_nil none passes, result.graph.reloaded,
      formed.ofJsonText_pretty (by simp), transform_of_findMatches_eq_nil noneLoaded passes,
      relocated.toData_eq⟩

/-- A class with a static method is brought to a fixpoint. -/
theorem transform_fixpoint_spec_staticMethod :
    ∃ (graph : CodeGraph) (result : Transformed), graph.WellFormed ∧
      Builtin.staticToFunction.Valid ∧ graph.findMatches [Builtin.staticToFunction] ≠ [] ∧
      transform graph [Builtin.staticToFunction] (.fixpoint 10) = .ok result ∧
      result.warnings = [] ∧ result.graph.findMatches [Builtin.staticToFunction] = [] ∧
      transform result.graph [Builtin.staticToFunction] .singlePass =
        .ok ⟨result.graph, 1, 0, []⟩ := by
  have valid : Builtin.staticToFunction.Valid := Rule.valid_of_validate (by decide +kernel)
  obtain ⟨graph, wellFormed, tested⟩ := CodeGraph.WellFormed.exists_ofData {
      nodes := [⟨"n0", "A", .classType, ∅⟩,
        ⟨"n1", "f", .method, Dict.empty.insert "modifiers" "static"⟩]
      edges := [⟨"e0", "n0", "n1", .contains, ∅⟩] }
    (fun graph => !(graph.findMatches [Builtin.staticToFunction]).isEmpty &&
      (transform graph [Builtin.staticToFunction] (.fixpoint 10)).toOption.any (·.warnings = []))
    (by decide +kernel)
  obtain ⟨result, ran, iff, _, again⟩ :=
    transform_fixpoint_spec wellFormed (List.forall_mem_singleton.mpr valid) 10
  rw [ran] at tested
  obtain ⟨some, quiet⟩ : graph.findMatches [Builtin.staticToFunction] ≠ [] ∧
      result.warnings = [] := by
    simpa [Except.toOption] using tested
  exact ⟨graph, result, wellFormed, valid, some, ran, quiet, iff.mp quiet,
    (again quiet .singlePass Nat.one_pos).1⟩

end Runs

end Transcode
