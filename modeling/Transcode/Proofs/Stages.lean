import Mathlib.Algebra.Order.BigOperators.Group.List
import Transcode.Engine
import Transcode.Proofs.Fixpoint
import Transcode.Proofs.Numbering
import Transcode.Proofs.Rendering
import Transcode.Proofs.Success

/-!
# Conversions in stages

A conversion can be made stage by stage, with the graph written as JSON text after each stage and
read again before the next (`Engine.staged`). That gives the code and the statistics of the
conversion made in one go, or fails for the same reason (`Engine.staged_eq_convert`): a built graph
comes back as it is, and a transformed one with other sequence numbers, which neither the output nor
the statistics depend on.

The numbers of warnings are written as well, and only numbers of 64 bits are read back.
`Engine.fits_of_transform` bounds them by the engine.
-/

namespace Transcode

/-! ### Warnings of runs -/

/-- A search stops at its limit. -/
theorem Search.length_embeddings_le (search : Search) :
    search.embeddings.length ≤ embeddingLimit := by
  unfold embeddings
  split
  · exact Nat.zero_le _
  · rw [toList_extend _ _ _ (Nat.zero_le _)]
    exact List.length_take_le _ _

theorem Rule.length_matchesAt_le (rule : Rule) (index : Nat) (graph : CodeGraph) :
    (rule.matchesAt index graph).length ≤ embeddingLimit :=
  Nat.le_trans (List.length_filterMap_le _ _) (rule.search graph).length_embeddings_le

/-- A list of rules has no more matches than the limit for each. -/
theorem CodeGraph.length_findMatches_le (graph : CodeGraph) (rules : List Rule) :
    (graph.findMatches rules).length ≤ rules.length * embeddingLimit := by
  unfold findMatches
  rw [(Match.ranked_perm _).length_eq, List.length_flatMap]
  refine (List.sum_le_card_nsmul _ embeddingLimit fun length listed => ?_).trans (Nat.le_of_eq ?_)
  · obtain ⟨entry, _, rfl⟩ := List.mem_map.mp listed
    exact entry.1.length_matchesAt_le entry.2 graph
  · rw [List.length_map, List.length_zipIdx]
    rfl

section Warnings

variable {rules : List Rule} (valid : ∀ rule ∈ rules, rule.Valid)
  (few : rules.length * embeddingLimit < Nat.pow 2 64) {graph : CodeGraph}
  (wellFormed : graph.WellFormed) {mode : RunMode} (within : mode.passes < Nat.pow 2 64)
  {result : Transformed}

include valid few wellFormed within

/-- The warnings of a run over the whole graph can be written. -/
theorem fits_of_transform (done : transform graph rules mode = .ok result) :
    ∀ warning ∈ result.warnings, warning.Fits := by
  cases mode with
  | singlePass =>
      rw [transform, wellFormed.run_eq valid] at done
      cases done
      exact List.forall_mem_nil _
  | fixpoint bound =>
      obtain ⟨other, ran, _, reported⟩ :=
        Transformed.exists_proceed_warnings valid wellFormed bound 0 0
      obtain rfl : other = result := Except.ok.inj (ran.symm.trans done)
      rw [Nat.zero_add] at reported
      rw [reported]
      unfold leftWarnings
      split
      · exact List.forall_mem_nil _
      · have pending := other.graph.length_findMatches_le rules
        exact List.forall_mem_singleton.mpr ⟨within, Nat.lt_of_le_of_lt pending few⟩

/-- The warnings of a run over the parts can be written. -/
theorem fits_of_transformApart (done : transformApart graph rules mode = .ok result) :
    ∀ warning ∈ result.warnings, warning.Fits := by
  unfold transformApart at done
  split at done
  · exact fits_of_transform valid few wellFormed within done
  · unfold transformParts at done
    rw [wellFormed.split_eq] at done
    obtain ⟨split, isSplit, done⟩ := bind_eq_ok_iff.mp done
    cases isSplit
    obtain ⟨results, transformed, done⟩ := bind_eq_ok_iff.mp done
    obtain ⟨merged, _, done⟩ := bind_eq_ok_iff.mp done
    cases done
    -- Each warning comes from the run of one part.
    intro warning member
    obtain ⟨last, listed, member⟩ := List.mem_flatMap.mp member
    obtain ⟨part, isPart, done⟩ :=
      exists_left_of_forall₂ (mapM_eq_ok_iff.mp transformed) last listed
    exact fits_of_transform valid few (wellFormed.parts part isPart) within done warning member

end Warnings

namespace Engine

/-- An engine of sizes that fit 64 bits warns of numbers that fit 64 bits. -/
theorem fits_of_transform {engine : Engine} {graph : CodeGraph} {result : Transformed}
    (wellFormed : graph.WellFormed) (passes : engine.config.maxIterations < Nat.pow 2 64)
    (few : engine.catalog.rules.length * embeddingLimit < Nat.pow 2 64)
    (done : engine.transform graph = .ok result) : ∀ warning ∈ result.warnings, warning.Fits := by
  have valid : ∀ rule ∈ engine.catalog.automated, rule.Valid := fun rule listed =>
    engine.catalog.valid_of_mem (List.mem_filter.mp listed).1
  have automated : engine.catalog.automated.length * embeddingLimit < Nat.pow 2 64 :=
    Nat.lt_of_le_of_lt (Nat.mul_le_mul_right _ (List.length_filter_le _ _)) few
  have within : engine.config.mode.passes < Nat.pow 2 64 := by
    unfold Config.mode
    split
    · exact Nat.one_lt_two_pow (by decide)
    · exact passes
  unfold transform at done
  split at done
  · exact fits_of_transformApart valid automated wellFormed within done
  · exact Transcode.fits_of_transform valid automated wellFormed within done

/-- The run an engine makes leaves a well-formed graph. -/
theorem wellFormed_transform {engine : Engine} {graph : CodeGraph} {result : Transformed}
    (wellFormed : graph.WellFormed) (done : engine.transform graph = .ok result) :
    result.graph.WellFormed := by
  unfold transform at done
  split at done
  · exact wellFormed.transformApart done
  · exact wellFormed.transform done

/-! ### Stages -/

/-- The result of transforming the graph of a source text. -/
def transformedSource (engine : Engine) (source : String) : Except Failure Transformed := do
  engine.transform (← buildGraph (← parseSource source).tree)

/-- The code and the statistics of a source text by one stage after another, each of which reads the
text that the one before has written. -/
def staged (engine : Engine) (source : String) : Except Failure (String × Json) := do
  let built ← graphOfSource source
  let transformed ← engine.transformedData built.pretty
  let code ← outputOfData transformed.pretty
  let stats ← engine.statsOfData transformed.pretty
  return (code, stats)

section Written

variable {graph : CodeGraph} {warnings : List Warning}
  (fits : ∀ warning ∈ warnings, warning.Fits)

/-- The graph that is read for the second stage is the one that the first has built. -/
theorem transformedData_built (engine : Engine) {tree : SyntaxTree}
    (ok : buildGraph tree = .ok graph) :
    engine.transformedData graph.toData.toJson.pretty =
      (engine.transform graph).map fun result =>
        { result.graph.toData with warnings := result.warnings }.toJson := by
  have loaded : CodeGraph.ofJsonText graph.toData.toJson.pretty = .ok graph.reloaded :=
    (buildGraph_built ok).wellFormed.ofJsonText_pretty (List.forall_mem_nil _)
  rw [transformedData, loaded, reloaded_buildGraph ok]
  change (engine.transform graph >>= _) = _
  cases engine.transform graph <;> rfl

include fits

/-- The output made from a graph read back is that of the graph. -/
theorem outputOfData_written (wellFormed : graph.WellFormed) :
    outputOfData { graph.toData with warnings }.toJson.pretty = Output.generate graph := by
  obtain ⟨place, edgePlace, relocated⟩ := wellFormed.relocated
  rw [outputOfData, wellFormed.ofJsonText_pretty fits]
  exact relocated.generate_eq wellFormed (.ofData (wellFormed.ofData_toData warnings))

/-- The statistics made from a graph read back are those of the graph. -/
theorem statsOfData_written (engine : Engine) (wellFormed : graph.WellFormed) :
    engine.statsOfData { graph.toData with warnings }.toJson.pretty =
      .ok (engine.stats graph).toJson := by
  obtain ⟨place, edgePlace, relocated⟩ := wellFormed.relocated
  rw [statsOfData, wellFormed.ofJsonText_pretty fits]
  exact congrArg (fun stats => Except.ok (Stats.toJson stats)) (relocated.stats_eq engine.catalog)

end Written

/-- **Stages and one go.** Taking a source text through the stages on JSON text gives the code and
the statistics that converting it gives, or fails as converting it fails. The warnings of the run,
which are written between the stages, have numbers that can be read back. -/
theorem staged_eq_convert (engine : Engine) (source : String)
    (fits : ∀ result, engine.transformedSource source = .ok result →
      ∀ warning ∈ result.warnings, warning.Fits) :
    engine.staged source =
      (engine.convert source).map fun conversion => (conversion.code, conversion.stats.toJson) := by
  unfold staged convert graphOfSource
  cases read : parseSource source with
  | error failure => rfl
  | ok parsed =>
      dsimp only [bind, Except.bind, pure, Except.pure]
      cases built : buildGraph parsed.tree with
      | error failure => rfl
      | ok graph =>
          dsimp only
          rw [engine.transformedData_built built]
          cases ran : engine.transform graph with
          | error failure => rfl
          | ok result =>
              -- Both go on with the result, but the stages read it from what was written of it.
              have fit := fits result <|
                bind_eq_ok_iff.mpr ⟨parsed, read, bind_eq_ok_iff.mpr ⟨graph, built, ran⟩⟩
              have wellFormed := wellFormed_transform (buildGraph_built built).wellFormed ran
              dsimp only [Except.map]
              rw [outputOfData_written fit wellFormed, statsOfData_written fit engine wellFormed]
              cases Output.generate result.graph <;> rfl

/-- A class that leaves the class around it comes out alike both ways. -/
theorem staged_eq_convert_nestedClass :
    let engine : Engine := ⟨Builtin.catalog, { parallel := true }⟩
    let source := "class A \x7b class C \x7b \x7d \x7d"
    (∀ result, engine.transformedSource source = .ok result →
      ∀ warning ∈ result.warnings, warning.Fits) ∧
    ∃ conversion, engine.convert source = .ok conversion ∧
      conversion.code = "class A \x7b\x7d\n\nclass C \x7b\x7d\n" ∧
      conversion.stats.transformedNodes = 1 ∧
      engine.staged source = .ok (conversion.code, conversion.stats.toJson) := by
  intro engine source
  have fits : ∀ result, engine.transformedSource source = .ok result →
      ∀ warning ∈ result.warnings, warning.Fits := by
    intro result ran
    obtain ⟨_, _, ran⟩ := bind_eq_ok_iff.mp ran
    obtain ⟨_, built, ran⟩ := bind_eq_ok_iff.mp ran
    exact fits_of_transform (buildGraph_built built).wellFormed (by decide) (by decide) ran
  have converted : (engine.convert source).toOption.any (fun conversion =>
      conversion.code = "class A \x7b\x7d\n\nclass C \x7b\x7d\n" &&
        conversion.stats.transformedNodes = 1) := by
    decide +kernel
  have staged := staged_eq_convert engine source fits
  cases ran : engine.convert source with
  | error failure =>
      rw [ran] at converted
      cases converted
  | ok conversion =>
      rw [ran] at converted staged
      rw [Except.toOption, Option.any_some, Bool.and_eq_true, decide_eq_true_eq,
        decide_eq_true_eq] at converted
      exact ⟨fits, conversion, rfl, converted.1, converted.2, staged⟩

end Engine

end Transcode
