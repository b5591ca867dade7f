import Transcode.Config
import Transcode.Graph.Build
import Transcode.Output.Program
import Transcode.Transform.Partition
import Transcode.Rule.Builtin
import Transcode.Source.Codec
import Transcode.Stats

/-!
# The engine

An engine has a catalog and a configuration. It takes a source text through all stages: syntax tree,
graph, transformed graph, output.
-/

namespace Transcode

/-- A catalog with a valid configuration. -/
structure Engine where
  catalog : Catalog
  config : Config

/-- The output for a source text with all there is to say about it. -/
structure Conversion where
  code : String
  diagnostics : List Diagnostic
  warnings : List Warning
  stats : Stats

/-- A conversion as JSON. -/
def Conversion.toJson (conversion : Conversion) : Json :=
  .object [("code", .text conversion.code),
    ("diagnostics", .array (conversion.diagnostics.map (·.toJson))),
    ("warnings", .array (conversion.warnings.map (·.toJson))),
    ("stats", conversion.stats.toJson)]

namespace Engine

/-- The engine with a catalog and a configuration, which must be valid. -/
def ofParts (catalog : Catalog) (config : Config) : Except Failure Engine := do
  return ⟨catalog, ← config.validate⟩

/-- Transforms a graph by the automated rules in the way that the configuration asks for. -/
def transform (engine : Engine) (graph : CodeGraph) : Except Failure Transformed :=
  if engine.config.parallel then
    transformApart graph engine.catalog.automated engine.config.mode
  else Transcode.transform graph engine.catalog.automated engine.config.mode

/-- The statistics of a graph. -/
def stats (engine : Engine) (graph : CodeGraph) : Stats := .ofGraph engine.catalog graph

/-- Takes a source text through all stages. -/
def convert (engine : Engine) (source : String) : Except Failure Conversion := do
  let parsed ← parseSource source
  let graph ← buildGraph parsed.tree
  let transformed ← engine.transform graph
  let code ← Output.generate transformed.graph
  return {
    code
    diagnostics := parsed.diagnostics
    warnings := transformed.warnings
    stats := engine.stats transformed.graph }

/-! ### Stages on JSON text -/

/-- The syntax tree and the diagnostics of a source text. -/
def treeOfSource (source : String) : Except Failure Json := do
  let parsed ← parseSource source
  return .object [("ast", parsed.tree.toJson),
    ("diagnostics", .array (parsed.diagnostics.map (·.toJson)))]

/-- The graph of a source text. -/
def graphOfSource (source : String) : Except Failure Json := do
  return (← buildGraph (← parseSource source).tree).toData.toJson

/-- The graph of a syntax tree. -/
def graphOfTree (tree : String) : Except Failure Json := do
  return (← buildGraph (← SyntaxTree.ofJsonText tree)).toData.toJson

/-- A transformed graph, with the warnings of the run. -/
def transformedData (engine : Engine) (graph : String) : Except Failure Json := do
  let transformed ← engine.transform (← CodeGraph.ofJsonText graph)
  return { transformed.graph.toData with warnings := transformed.warnings }.toJson

/-- A graph after the best match of one rule. -/
def appliedData (engine : Engine) (graph rule : String) : Except Failure Json := do
  match (← CodeGraph.ofJsonText graph).applyRule engine.catalog rule with
  | (.ok _, graph) => return graph.toData.toJson
  | (.error failure, _) => throw failure

/-- The rules of the catalog. -/
def ruleList (engine : Engine) : Json := .array (engine.catalog.rules.map (·.summary))

/-- The output for a graph. -/
def outputOfData (graph : String) : Except Failure String := do
  Output.generate (← CodeGraph.ofJsonText graph)

/-- The statistics of a graph. -/
def statsOfData (engine : Engine) (graph : String) : Except Failure Json := do
  return (engine.stats (← CodeGraph.ofJsonText graph)).toJson

end Engine

end Transcode
