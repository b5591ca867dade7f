import Transcode.Error
import Transcode.Json.Decode
import Transcode.Json.Reader
import Transcode.Transform.Run

/-!
# Configurations

How whole graphs are transformed, and where more rules are found.
-/

namespace Transcode

/-- The settings of an engine. -/
structure Config where
  /-- The bound on passes of a run to a fixpoint. -/
  maxIterations : Nat := 32
  /-- Whether a run makes one pass only. -/
  singlePass : Bool := false
  /-- Whether declarations are transformed apart. -/
  parallel : Bool := false
  /-- The file of rules that come after the built-in ones. -/
  rulesPath : Option String := none
  deriving DecidableEq, Repr

namespace Config

/-- A bound on passes allows at least one. -/
def validate (config : Config) : Except Failure Config :=
  if config.maxIterations = 0 then .error .noIterations else .ok config

/-- The mode of runs. -/
def mode (config : Config) : RunMode :=
  if config.singlePass then .singlePass else .fixpoint config.maxIterations

/-- Reads a configuration; every field has a default. -/
def decoder : Decoder Config :=
  Field.decoder ["maxIterations", "singlePass", "parallel", "rulesPath"]
    (mk <$> .defaulted "maxIterations" Decoder.natural 32
      <*> .defaulted "singlePass" Decoder.bool false
      <*> .defaulted "parallel" Decoder.bool false
      <*> .optional "rulesPath" Decoder.text)

/-- The configuration that JSON text denotes. -/
def ofJsonText (text : String) : Except Failure Config :=
  match (Json.read? text).map decoder with
  | some (.ok config) => config.validate
  | _ => .error .json

/-- A configuration as JSON. -/
def toJson (config : Config) : Json :=
  .object [("maxIterations", .natural config.maxIterations),
    ("singlePass", .bool config.singlePass),
    ("parallel", .bool config.parallel), ("rulesPath", Json.ofOption .text config.rulesPath)]

end Config

end Transcode
