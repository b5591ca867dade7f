import Transcode.Graph.Data
import Transcode.Transform.Apply

/-!
# Transforming a whole graph

A pass applies the matches of a list of rules by rank. A node that was replaced in a pass is
consumed: later matches that bind it wait for the next pass. A run makes one pass, or passes until
one applies nothing; if a bound on the passes is reached before, the matches left are reported.
-/

namespace Transcode

/-- How many passes a run makes. -/
inductive RunMode where
  | singlePass
  /-- Passes until one applies nothing, at most as many as given. -/
  | fixpoint (bound : Nat)
  deriving DecidableEq, Repr

/-- The result of a run. `passes` counts also the pass that applied nothing. -/
structure Transformed where
  graph : CodeGraph
  passes : Nat
  applied : Nat
  warnings : List Warning := []

/-- A pass under way. -/
structure Pass where
  graph : CodeGraph
  consumed : List String := []
  applied : Nat := 0

namespace Pass

/-- A pass after one more match, which is skipped if it is stale. -/
def step (rules : List Rule) (pass : Pass) (found : Match) : Except Failure Pass :=
  match rules[found.ruleIndex]? with
  | none => .ok pass
  | some rule =>
    if pass.graph.stillValid rule found pass.consumed then
      match pass.graph.applyMatch rule found with
      | (.ok _, graph) => .ok {
          graph
          consumed := found.replaced.map (·.node) ++ pass.consumed
          applied := pass.applied + 1 }
      | (.error fault, _) => .error (.invalidGraph fault)
    else .ok pass

/-- A pass over a graph. -/
def run (rules : List Rule) (graph : CodeGraph) : Except Failure Pass :=
  (graph.findMatches rules).foldlM (step rules) { graph }

end Pass

namespace Transformed

/-- The result at the bound on passes, with a warning if matches are left. -/
def atBound (rules : List Rule) (result : Transformed) : Transformed :=
  match (result.graph.findMatches rules).length with
  | 0 => result
  | pending => { result with warnings := [.nonTermination result.passes pending] }

/-- Makes passes until one applies nothing, at most as many as given. -/
def proceed (rules : List Rule) : Nat → Transformed → Except Failure Transformed
  | 0, result => .ok (result.atBound rules)
  | left + 1, result => do
    let pass ← Pass.run rules result.graph
    let next : Transformed :=
      { graph := pass.graph
        passes := result.passes + 1
        applied := result.applied + pass.applied }
    if pass.applied = 0 then return next else next.proceed rules left

end Transformed

/-- Transforms a graph by a list of rules. -/
def transform (graph : CodeGraph) (rules : List Rule) : RunMode → Except Failure Transformed
  | .singlePass => (Pass.run rules graph).map fun pass => ⟨pass.graph, 1, pass.applied, []⟩
  | .fixpoint bound => Transformed.proceed rules bound ⟨graph, 0, 0, []⟩

end Transcode
