import Mathlib.Algebra.BigOperators.Intervals
import Transcode.Proofs.Passes

/-!
# Runs pass by pass

A graph is followed through any number of passes (`CodeGraph.stage`). A pass that applies nothing
leaves nothing to do, so a run that stops there ends with the same graph as one that went on
(`exists_transform_describes`). The stages of parts that agree with a whole graph agree with its
stages (`Accord.exists_stage`).
-/

namespace Transcode

/-- How many matches a warning reports as left. -/
def Warning.pending : Warning → Nat
  | .nonTermination _ pending => pending

/-- How many passes a run makes at most. -/
def RunMode.passes : RunMode → Nat
  | .singlePass => 1
  | .fixpoint bound => bound

/-- How many matches a run reports of those left after its passes. -/
def RunMode.reported : RunMode → Nat → Nat
  | .singlePass, _ => 0
  | .fixpoint _, left => left

namespace CodeGraph

/-- A pass over a graph. If it fails, nothing has happened. -/
def onePass (graph : CodeGraph) (rules : List Rule) : Pass :=
  match Pass.run rules graph with
  | .ok pass => pass
  | .error _ => { graph }

/-- The graph after a number of passes. -/
def stage (graph : CodeGraph) (rules : List Rule) : Nat → CodeGraph
  | 0 => graph
  | number + 1 => ((graph.stage rules number).onePass rules).graph

/-- How many matches the pass with a number applies. -/
def appliedAt (graph : CodeGraph) (rules : List Rule) (number : Nat) : Nat :=
  ((graph.stage rules number).onePass rules).applied

variable {graph : CodeGraph} {rules : List Rule}

theorem onePass_eq {pass : Pass} (ran : Pass.run rules graph = .ok pass) :
    graph.onePass rules = pass := by
  rw [onePass, ran]

/-- Passes made in two goes are as many made in one. -/
theorem stage_add (graph : CodeGraph) (rules : List Rule) (first second : Nat) :
    graph.stage rules (first + second) = (graph.stage rules first).stage rules second := by
  induction second with
  | zero => rfl
  | succ second ih => rw [← Nat.add_assoc, stage, ih, stage]

/-- The first of many passes comes before the others. -/
theorem stage_succ (graph : CodeGraph) (rules : List Rule) (number : Nat) :
    graph.stage rules (number + 1) = (graph.onePass rules).graph.stage rules number := by
  rw [Nat.add_comm, stage_add]
  rfl

/-- What a later pass applies is what it does behind the first. -/
theorem appliedAt_succ (graph : CodeGraph) (rules : List Rule) (number : Nat) :
    graph.appliedAt rules (number + 1) = (graph.onePass rules).graph.appliedAt rules number := by
  rw [appliedAt, stage_succ, appliedAt]

/-- A pass over a well-formed graph never fails. -/
theorem WellFormed.run_eq (wellFormed : graph.WellFormed) (valid : ∀ rule ∈ rules, rule.Valid) :
    Pass.run rules graph = .ok (graph.onePass rules) := by
  obtain ⟨pass, ran, _⟩ := Pass.exists_run valid wellFormed
  rw [onePass_eq ran, ran]

theorem WellFormed.onePass (wellFormed : graph.WellFormed) (valid : ∀ rule ∈ rules, rule.Valid) :
    (graph.onePass rules).graph.WellFormed :=
  wellFormed.passRun (wellFormed.run_eq valid)

/-- Any number of passes leaves a well-formed graph. -/
theorem WellFormed.stage (wellFormed : graph.WellFormed) (valid : ∀ rule ∈ rules, rule.Valid)
    (number : Nat) : (graph.stage rules number).WellFormed := by
  induction number with
  | zero => exact wellFormed
  | succ number ih => exact ih.onePass valid

end CodeGraph

/-! ### Passes that apply nothing -/

namespace Pass

variable {rules : List Rule} {pass after : Pass} {found : Match}

/-- A step applies nothing and changes nothing, or it applies one match. -/
theorem step_cases (stepped : pass.step rules found = .ok after) :
    after = pass ∨ after.applied = pass.applied + 1 := by
  unfold step at stepped
  split at stepped
  · cases stepped
    exact .inl rfl
  · split at stepped
    · split at stepped <;> cases stepped
      exact .inr rfl
    · cases stepped
      exact .inl rfl

/-- The number of applications only grows during a pass. -/
theorem applied_le_of_foldlM {items : List Match}
    (done : items.foldlM (step rules) pass = .ok after) : pass.applied ≤ after.applied := by
  refine foldlM_induction (motive := fun other : Pass => pass.applied ≤ other.applied)
    (fun before _ _ next kept stepped => ?_) (Nat.le_refl _) done
  rcases step_cases stepped with rfl | more
  · exact kept
  · exact Nat.le_trans kept (more ▸ Nat.le_succ _)

/-- A pass that applies nothing changes nothing. -/
theorem graph_eq_of_applied_eq_zero {graph : CodeGraph} (ran : run rules graph = .ok pass)
    (none : pass.applied = 0) : pass.graph = graph := by
  refine foldlM_induction (motive := fun other : Pass => other.applied = 0 → other.graph = graph)
    (fun before _ _ next kept stepped empty => ?_) (fun _ => rfl) ran none
  rcases step_cases stepped with rfl | more
  · exact kept empty
  · rw [more] at empty
    cases empty

end Pass

namespace CodeGraph.WellFormed

variable {graph : CodeGraph} {rules : List Rule}

/-- A match is valid in the graph in which it was found. -/
theorem stillValid_of_mem (wellFormed : graph.WellFormed) {rule : Rule} (valid : rule.Valid)
    {index : Nat} {found : Match} (member : found ∈ rule.matchesAt index graph) :
    graph.stillValid rule found [] = true := by
  obtain ⟨bound, mapped, embeds, maps, rfl⟩ := wellFormed.exists_embeds valid member
  refine stillValid_iff.mpr ⟨bound, ?_, ?_, embeds.constraints⟩
  · have accepted := embeds.accepted
    change List.Forall₂ _ (rule.sourcePattern.nodes.zip (rule.bindings bound)) bound
    clear member maps embeds
    unfold Rule.bindings
    generalize rule.sourcePattern.nodes = places at accepted ⊢
    induction accepted with
    | nil => exact .nil
    | @cons node place _ _ first _ ih =>
        refine .cons ?_ ih
        exact stillBound?_eq_some_iff.mpr ⟨List.not_mem_nil,
          wellFormed.node?_of_mem first.1, first.2⟩
  · change (mapped.map Search.matchedEdge).all graph.stillConnects = true
    rw [List.all_map, List.all_eq_true]
    intro there member
    obtain ⟨edge, _, stands⟩ := exists_left_of_forall₂ maps.stand there member
    have looked := wellFormed.edge?_eq_some_iff.mpr ⟨stands.member, rfl⟩
    simp [stillConnects, Search.matchedEdge, looked]

/-- A pass that applies nothing has found nothing. -/
theorem findMatches_eq_nil (wellFormed : graph.WellFormed) (valid : ∀ rule ∈ rules, rule.Valid)
    (none : (graph.onePass rules).applied = 0) : graph.findMatches rules = [] := by
  have ran := wellFormed.run_eq valid
  cases listed : graph.findMatches rules with
  | nil => rfl
  | cons found rest =>
      have member : found ∈ graph.findMatches rules := listed ▸ List.mem_cons_self
      obtain ⟨rule, index, at_, atMember⟩ := mem_findMatches_iff.mp member
      obtain ⟨fits, rfl⟩ := Rule.fits_of_mem_matchesAt atMember
      have still := wellFormed.stillValid_of_mem (valid rule (List.mem_of_getElem? at_)) atMember
      obtain ⟨addition, applies⟩ := wellFormed.exists_applies
        (valid rule (List.mem_of_getElem? at_)) fits (hasNode_of_stillValid fits still)
      have first : ({ graph } : Pass).step rules found = _ :=
        Pass.step_of_applies at_ still applies
      unfold Pass.run at ran
      rw [listed, List.foldlM_cons] at ran
      obtain ⟨next, stepped, later⟩ := bind_eq_ok_iff.mp ran
      rw [first] at stepped
      cases stepped
      have grown := Pass.applied_le_of_foldlM later
      rw [none] at grown
      cases grown

/-- After a pass that applies nothing, the graph stays as it is. -/
theorem stage_eq_of_zero (wellFormed : graph.WellFormed) (valid : ∀ rule ∈ rules, rule.Valid)
    (none : (graph.onePass rules).applied = 0) (number : Nat) :
    graph.stage rules number = graph := by
  have same := Pass.graph_eq_of_applied_eq_zero (wellFormed.run_eq valid) none
  induction number with
  | zero => rfl
  | succ number ih => rw [CodeGraph.stage, ih, same]

/-- Behind a pass that applies nothing none applies anything. -/
theorem appliedAt_eq_zero (wellFormed : graph.WellFormed) (valid : ∀ rule ∈ rules, rule.Valid)
    (none : (graph.onePass rules).applied = 0) (number : Nat) :
    graph.appliedAt rules number = 0 := by
  rw [CodeGraph.appliedAt, wellFormed.stage_eq_of_zero valid none, none]

/-- A pass that applies nothing is followed by such passes only. -/
theorem appliedAt_eq_zero_of_le (wellFormed : graph.WellFormed)
    (valid : ∀ rule ∈ rules, rule.Valid) {first second : Nat} (order : first ≤ second)
    (none : graph.appliedAt rules first = 0) : graph.appliedAt rules second = 0 := by
  have later := (wellFormed.stage valid first).appliedAt_eq_zero valid none (second - first)
  rwa [CodeGraph.appliedAt, ← CodeGraph.stage_add, Nat.add_sub_cancel' order] at later

end CodeGraph.WellFormed

/-! ### Runs -/

/-- What a run gives, told by the stages of the graph. -/
structure Transformed.Describes (result : Transformed) (graph : CodeGraph) (rules : List Rule)
    (mode : RunMode) : Prop where
  last : result.graph = graph.stage rules mode.passes
  applied : result.applied = ∑ number ∈ Finset.range mode.passes, graph.appliedAt rules number
  pending : (result.warnings.map Warning.pending).sum =
    mode.reported ((graph.stage rules mode.passes).findMatches rules).length
  passes : ∀ number, number < result.passes ↔
    number < mode.passes ∧ ∀ earlier < number, graph.appliedAt rules earlier ≠ 0

section Runs

variable {rules : List Rule} (valid : ∀ rule ∈ rules, rule.Valid)

include valid

/-- Passes until one applies nothing, told by the stages of the graph from which they start. -/
theorem Transformed.exists_proceed_eq {graph : CodeGraph} (wellFormed : graph.WellFormed)
    (bound passes applied : Nat) :
    ∃ result, Transformed.proceed rules bound ⟨graph, passes, applied, []⟩ = .ok result ∧
      result.graph = graph.stage rules bound ∧
      result.applied = applied + ∑ number ∈ Finset.range bound, graph.appliedAt rules number ∧
      (result.warnings.map Warning.pending).sum =
        ((graph.stage rules bound).findMatches rules).length ∧
      passes ≤ result.passes ∧
      ∀ number, passes + number < result.passes ↔
        number < bound ∧ ∀ earlier < number, graph.appliedAt rules earlier ≠ 0 := by
  induction bound generalizing graph passes applied with
  | zero =>
      refine ⟨_, rfl, ?_⟩
      unfold atBound
      dsimp only
      split
      · rename_i none
        exact ⟨rfl, by simp, by simp [CodeGraph.stage, none], Nat.le_refl _, by simp⟩
      · exact ⟨rfl, by simp, by simp [CodeGraph.stage, Warning.pending], Nat.le_refl _, by simp⟩
  | succ bound ih =>
      unfold proceed
      rw [wellFormed.run_eq valid]
      change ∃ result, (if (graph.onePass rules).applied = 0 then _ else _) = _ ∧ _
      by_cases none : (graph.onePass rules).applied = 0
      · rw [if_pos none]
        have stays := wellFormed.stage_eq_of_zero valid none
        have zero := wellFormed.appliedAt_eq_zero valid none
        refine ⟨_, rfl, ?_, ?_, ?_, Nat.le_succ _, fun number => ?_⟩
        · exact (stays 1).trans (stays (bound + 1)).symm
        · simp [none, zero]
        · rw [stays, wellFormed.findMatches_eq_nil valid none]
          rfl
        · change passes + number < passes + 1 ↔ _
          constructor
          · intro within
            obtain rfl : number = 0 := by omega
            exact ⟨Nat.succ_pos _, fun _ before => absurd before (Nat.not_lt_zero _)⟩
          · rintro ⟨_, active⟩
            by_contra late
            exact active 0 (by omega) (zero 0)
      · rw [if_neg none]
        obtain ⟨result, ran, last, total, left, more, passed⟩ :=
          ih (wellFormed.onePass valid) (passes + 1) (applied + (graph.onePass rules).applied)
        refine ⟨result, ran, ?_, ?_, ?_, by omega, fun number => ?_⟩
        · rw [last, CodeGraph.stage_succ]
        · rw [total, Finset.sum_range_succ']
          simp only [CodeGraph.appliedAt_succ]
          have first : graph.appliedAt rules 0 = (graph.onePass rules).applied := rfl
          omega
        · rw [left, CodeGraph.stage_succ]
        · cases number with
          | zero =>
              refine iff_of_true (by omega) ⟨Nat.succ_pos _, ?_⟩
              exact fun _ before => absurd before (Nat.not_lt_zero _)
          | succ number =>
              rw [show passes + (number + 1) = passes + 1 + number by omega, passed number,
                Nat.forall_lt_succ_left, Nat.add_lt_add_iff_right]
              simp only [CodeGraph.appliedAt_succ]
              exact and_congr_right fun _ => (and_iff_right none).symm

/-- **Runs.** A run with valid rules gives the graph after its passes, and counts what they applied,
those that were needed, and the matches left after the last. -/
theorem exists_transform_describes {graph : CodeGraph} (wellFormed : graph.WellFormed)
    (mode : RunMode) :
    ∃ result, transform graph rules mode = .ok result ∧ result.Describes graph rules mode := by
  cases mode with
  | singlePass =>
      refine ⟨⟨(graph.onePass rules).graph, 1, (graph.onePass rules).applied, []⟩, ?_, ?_⟩
      · unfold transform
        rw [wellFormed.run_eq valid]
        rfl
      · refine ⟨rfl, by simp [RunMode.passes, CodeGraph.appliedAt, CodeGraph.stage], rfl, ?_⟩
        intro number
        refine ⟨fun within => ⟨within, fun earlier before => ?_⟩, fun within => within.1⟩
        change number < 1 at within
        omega
  | fixpoint bound =>
      obtain ⟨result, ran, last, total, left, _, passed⟩ :=
        Transformed.exists_proceed_eq valid wellFormed bound 0 0
      refine ⟨result, ran, last, total.trans (Nat.zero_add _), left, fun number => ?_⟩
      have counted := passed number
      rwa [Nat.zero_add] at counted

end Runs

/-! ### Runs of parts -/

namespace Accord

variable {ι : Type} [Fintype ι] [DecidableEq ι] {between : List Edge} {start : ι → CodeGraph}
  {naming : ι → Naming} {part : ι → CodeGraph} {whole : CodeGraph} {rules : List Rule}
  (accord : Accord between start naming part whole) (valid : ∀ rule ∈ rules, rule.Valid)
  (isLocal : ∀ rule ∈ rules, rule.sourcePattern.Local)
  (noContainment : ∀ edge ∈ between, edge.kind ≠ .contains)

include accord valid isLocal noContainment

/-- **Stages.** The stages of the parts agree with those of the whole graph, and each pass applies
as many matches in the parts as in the whole graph, as long as no search stops at its limit. -/
theorem exists_stage {number : Nat}
    (few : ∀ earlier < number, ∀ rule ∈ rules,
      (rule.assignments (whole.stage rules earlier)).length ≤ embeddingLimit) :
    (∃ naming', Accord between start naming' (fun index => (part index).stage rules number)
      (whole.stage rules number)) ∧
    ∀ earlier < number, whole.appliedAt rules earlier =
      ∑ index, (part index).appliedAt rules earlier := by
  induction number with
  | zero => exact ⟨⟨naming, accord⟩, fun _ before => absurd before (Nat.not_lt_zero _)⟩
  | succ number ih =>
      obtain ⟨⟨naming', here⟩, counts⟩ := ih fun earlier before => few earlier (by omega)
      obtain ⟨naming'', parts, pass, ran, wholeRan, after, applied⟩ :=
        here.exists_pass valid isLocal (few number (Nat.lt_succ_self _)) noContainment
      have partPass (index : ι) : ((part index).stage rules number).onePass rules = parts index :=
        CodeGraph.onePass_eq (ran index)
      have wholePass : (whole.stage rules number).onePass rules = pass :=
        CodeGraph.onePass_eq wholeRan
      refine ⟨⟨naming'', ?_⟩, fun earlier before => ?_⟩
      · simp only [CodeGraph.stage, partPass, wholePass]
        exact after
      · rcases Nat.lt_succ_iff_lt_or_eq.mp before with less | rfl
        · exact counts earlier less
        · simp only [CodeGraph.appliedAt, partPass, wholePass, applied]

end Accord

end Transcode
