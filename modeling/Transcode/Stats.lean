import Transcode.Rule.Codec

/-!
# Statistics of a transformation

How much of a graph was made by rules, and how far that can be trusted.
-/

namespace Transcode

/-- What a graph's history tells. -/
structure Stats where
  totalNodes : Nat
  /-- How many of the nodes were made by a rule. -/
  transformedNodes : Nat
  /-- The rules that were applied, in order of their first use. -/
  rulesApplied : List String
  /-- The mean confidence of the rules that made nodes, for each node. -/
  confidence : Nat
  deriving DecidableEq, Repr

namespace Stats

/-- The list without repetitions, first occurrences kept. -/
def distinct (names : List String) : List String :=
  names.foldl (fun kept name => if kept.contains name then kept else kept ++ [name]) []

/-- The mean of numbers, a half rounded up; a hundred if there are none. -/
def roundedMean (numbers : List Nat) : Nat :=
  if numbers.isEmpty then 100
  else (2 * numbers.foldr (· + ·) 0 + numbers.length) / (2 * numbers.length)

/-- The history entries of nodes that are still in the graph. -/
def liveEntries (graph : CodeGraph) : List Provenance :=
  graph.history.filter fun entry => graph.hasNode entry.node

/-- The statistics of a graph; rules that the catalog lacks have no confidence to count. -/
def ofGraph (catalog : Catalog) (graph : CodeGraph) : Stats where
  totalNodes := graph.nodeCount
  transformedNodes := (distinct ((liveEntries graph).map (·.node))).length
  rulesApplied := distinct (graph.history.map (·.rule))
  confidence := roundedMean
    ((liveEntries graph).filterMap fun entry => (catalog.rule? entry.rule).map (·.confidence))

/-- Statistics as JSON. -/
def toJson (stats : Stats) : Json :=
  .object [("totalNodes", .natural stats.totalNodes),
    ("transformedNodes", .natural stats.transformedNodes),
    ("rulesApplied", Json.ofTexts stats.rulesApplied), ("confidence", .natural stats.confidence)]

end Stats

end Transcode
