import Transcode.Proofs.Declarations
import Transcode.Proofs.Nesting
import Transcode.Proofs.Regrafting
import Transcode.Proofs.UnitOrder
import Transcode.Engine

/-!
# What can make a conversion fail

A text of blanks is refused. Any other text, however malformed, is read, has a graph and is
transformed, and the transformed graph is a forest. So only the order of its units can fail, which
it does if and only if a unit depends on itself, directly or through others
(`Engine.convert_fails_iff`).
-/

namespace Transcode

/-- A graph in which nothing contains itself fails to be written out only for the order of its
units. -/
theorem Output.generate_eq_error_iff {graph : CodeGraph} (wellFormed : graph.WellFormed)
    (acyclic : graph.Acyclic) (failure : Failure) :
    generate graph = .error failure ↔ orderedUnits graph = .error failure := by
  unfold generate
  rw [wellFormed.containmentCulprit?_eq_none_iff.mpr acyclic]
  dsimp only
  cases orderedUnits graph <;> simp [Except.map]

namespace Engine

/-- With the built-in rules, the graph of any syntax tree is transformed to a forest. -/
theorem exists_transform_forest {tree : SyntaxTree} {graph : CodeGraph} (config : Config)
    (ok : buildGraph tree = .ok graph) :
    ∃ result, Engine.transform ⟨Builtin.catalog, config⟩ graph = .ok result ∧
      result.graph.WellFormed ∧ result.graph.Forest := by
  have both := (buildGraph_built ok).exists_forest (buildGraph_forest ok) Builtin.valid_of_mem
    Builtin.keepsForests_of_mem (by decide) config.mode
  unfold Engine.transform
  split
  · exact both.2
  · exact both.1

/-- A text that does not hold blanks only is taken to a forest, and its conversion fails as the
order of the units of that does. -/
theorem exists_forest_of_filled (config : Config) {source : String}
    (filled : ¬Text.isBlankText source) :
    ∃ parsed graph result, parseSource source = .ok parsed ∧ buildGraph parsed.tree = .ok graph ∧
      Engine.transform ⟨Builtin.catalog, config⟩ graph = .ok result ∧
      result.graph.WellFormed ∧ result.graph.Forest ∧
      ∀ failure, Engine.convert ⟨Builtin.catalog, config⟩ source = .error failure ↔
        Output.orderedUnits result.graph = .error failure := by
  obtain ⟨parsed, read⟩ := exists_parseSource filled
  obtain ⟨graph, built⟩ := exists_buildGraph read
  obtain ⟨result, transformed, wellFormed, forest⟩ := exists_transform_forest config built
  refine ⟨parsed, graph, result, read, built, transformed, wellFormed, forest, fun failure => ?_⟩
  rw [← Output.generate_eq_error_iff wellFormed forest.acyclic, convert, read]
  dsimp only [bind, Except.bind]
  rw [built]
  dsimp only
  rw [transformed]
  dsimp only
  cases Output.generate result.graph <;> simp [pure, Except.pure]

/-- **What can make a conversion fail.** With the built-in rules and in any configuration, a text is
refused as empty if and only if it holds nothing but blanks. Any other text is read, has a graph
and is transformed, in the end to a forest. Then a conversion can fail only for the order of the
units of that forest, with the name of one of them, and it does so if and only if there is a cycle
of units that depend on each other. -/
theorem convert_fails_iff (config : Config) (source : String) :
    let engine : Engine := ⟨Builtin.catalog, config⟩
    (engine.convert source = .error .emptyInput ↔ Text.isBlankText source) ∧
    (¬Text.isBlankText source → ∃ parsed graph result,
      parseSource source = .ok parsed ∧ buildGraph parsed.tree = .ok graph ∧
      engine.transform graph = .ok result ∧ result.graph.Forest ∧
      (∀ failure, engine.convert source = .error failure →
        Output.orderedUnits result.graph = .error failure ∧
        ∃ unit ∈ Output.units result.graph, failure = .cyclic unit.id) ∧
      ((∃ failure, engine.convert source = .error failure) ↔
        ∃ unit, Relation.TransGen (Output.DependsOn result.graph) unit unit)) := by
  intro engine
  refine ⟨⟨fun refused => ?_, fun isBlank => ?_⟩, fun filled => ?_⟩
  · by_contra filled
    obtain ⟨_, _, result, _, _, _, wellFormed, forest, fails⟩ :=
      exists_forest_of_filled config filled
    obtain ⟨_, _, other⟩ := (Output.orderedUnits_fails_iff wellFormed forest.acyclic).1 _
      ((fails _).mp refused)
    cases other
  · have refused : parseSource source = .error .emptyInput := if_pos isBlank
    rw [convert, refused]
    rfl
  · obtain ⟨parsed, graph, result, read, built, transformed, wellFormed, forest, fails⟩ :=
      exists_forest_of_filled config filled
    obtain ⟨named, cyclic⟩ := Output.orderedUnits_fails_iff wellFormed forest.acyclic
    refine ⟨parsed, graph, result, read, built, transformed, forest, fun failure failed => ?_, ?_⟩
    · have unordered := (fails failure).mp failed
      exact ⟨unordered, named failure unordered⟩
    · rw [← cyclic]
      exact exists_congr fails

/-- Two classes that extend each other, one inside the other and neither of them closed. -/
theorem convert_fails_iff_unclosed :
    let engine : Engine := ⟨Builtin.catalog, {}⟩
    let source := "class A extends B \x7b class B extends A \x7b"
    ¬Text.isBlankText source ∧ engine.convert source = .error (.cyclic "n0") ∧
    ∃ parsed graph result, parseSource source = .ok parsed ∧ buildGraph parsed.tree = .ok graph ∧
      engine.transform graph = .ok result ∧ result.graph.Forest ∧
      Output.orderedUnits result.graph = .error (.cyclic "n0") ∧
      ∃ unit, Relation.TransGen (Output.DependsOn result.graph) unit unit := by
  intro engine source
  have filled : ¬Text.isBlankText source := by decide +kernel
  have checked : (match engine.convert source with
      | .error failure => failure = .cyclic "n0"
      | .ok _ => false) = true := by
    decide +kernel
  have fails : engine.convert source = .error (.cyclic "n0") := by
    cases ran : engine.convert source with
    | error failure =>
        rw [ran] at checked
        rw [of_decide_eq_true checked]
    | ok conversion =>
        rw [ran] at checked
        cases checked
  obtain ⟨parsed, graph, result, read, built, transformed, forest, only, cyclic⟩ :=
    (convert_fails_iff {} source).2 filled
  exact ⟨filled, fails, parsed, graph, result, read, built, transformed, forest,
    (only _ fails).1, cyclic.mp ⟨_, fails⟩⟩

end Engine

end Transcode
