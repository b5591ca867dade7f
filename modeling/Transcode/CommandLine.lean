import Transcode.CommandLine.Arguments
import Transcode.Engine
import Transcode.Json.Printer

/-!
# The command line

What the program does for its arguments: it reads the configuration, builds the engine, reads the
input, runs the command, and prints the result or writes it to a file. Files are read and written
through functions that are given, so the same program runs on the files of a machine and on any
other store.
-/

namespace Transcode.CommandLine

/-- Why a command fails. -/
inductive Problem where
  | badConfig (path : String)
  | badEngine
  | unreadable (path : String)
  | unwritable (path : String)
  | notApplied (rule : String)
  | failed (failure : Failure)
  deriving DecidableEq, Repr

/-- A character of a quoted path. -/
def quotedChar (c : Char) : List Char :=
  if c = '"' || c = '\'' || c = '\\' then ['\\', c]
  else if c = '\n' then ['\\', 'n']
  else if c = '\r' then ['\\', 'r']
  else if c = '\t' then ['\\', 't']
  else if c = '\x00' then ['\\', '0']
  else if Text.isPrintable c then [c]
  else "\\u\x7b".toList ++ Nat.toDigits 16 c.toNat ++ ['\x7d']

/-- A path in quotes. -/
def quoted (path : String) : String :=
  String.ofList ('"' :: path.toList.flatMap quotedChar ++ ['"'])

/-- The wording of a problem. -/
def Problem.message : Problem → String
  | .badConfig path => "Failed to load config: " ++ quoted path
  | .badEngine => "Failed to initialize the engine"
  | .unreadable path => "Failed to read file: " ++ quoted path
  | .unwritable path => "Failed to write to file: " ++ quoted path
  | .notApplied rule => "Failed to apply " ++ rule
  | .failed failure => failure.message?.getD "JSON error"

/-- What a run of the program leaves behind: its exit code, what it printed, and what went wrong. -/
structure Report where
  exitCode : Nat
  printed : String
  problem : Option String := none
  deriving DecidableEq, Repr

/-- The name of the program and its version. -/
def versionText (command : Option CommandName) : String :=
  match command with
  | none => "codebridge 0.1.0\n"
  | some command => "codebridge-" ++ command.text ++ " 0.1.0\n"

/-- How the program is used. -/
def helpText : String :=
  "codebridge [--config FILE] [--rules FILE] [--max-iterations N] [--single-pass] [--parallel]\n" ++
  "    [-o FILE] parse|graph|transform|apply|rules|generate|stats|convert [INPUT]\n"

/-- What is printed of a text: a line break is added at the end if there is none. -/
def printedText (text : String) : String :=
  if text.toList.getLast? = some '\n' then text else text ++ "\n"

section Files

variable {m : Type → Type} [Monad m]

/-- The configuration that options ask for, starting from that of a file. -/
def configOf (read : String → m (Option String)) (options : Options) :
    m (Except Problem Config) := do
  let change (config : Config) : Config :=
    { maxIterations := options.maxIterations.getD config.maxIterations
      singlePass := config.singlePass || options.singlePass
      parallel := config.parallel || options.parallel
      rulesPath := options.rules.or config.rulesPath }
  match options.config with
  | none => return .ok (change {})
  | some path =>
    match (← read path).map Config.ofJsonText with
    | some (.ok config) => return .ok (change config)
    | _ => return .error (.badConfig path)

/-- The engine of a configuration, with the rules of the file that it names. -/
def engineOf (read : String → m (Option String)) (config : Config) :
    m (Except Problem Engine) := do
  let catalog ← match config.rulesPath with
    | none => pure (Except.ok Builtin.catalog)
    | some path => do
      match ← read path with
      | some text => pure (Builtin.catalog.appendJsonText text)
      | none => pure (.error .file)
  return (catalog.bind fun catalog => Engine.ofParts catalog config).mapError fun _ => .badEngine

/-- The result of a command on the text of its input. -/
def Command.result (engine : Engine) (input : String) : Command → Except Problem String
  | .parse _ => ((Engine.treeOfSource input).map (·.pretty)).mapError .failed
  | .graph _ fromTree =>
    ((if fromTree then Engine.graphOfTree input else Engine.graphOfSource input).map
      (·.pretty)).mapError .failed
  | .transform _ => ((engine.transformedData input).map (·.pretty)).mapError .failed
  | .apply _ rule =>
    ((engine.appliedData input rule).map (·.pretty)).mapError fun _ => .notApplied rule
  | .rules => .ok engine.ruleList.pretty
  | .generate _ => (Engine.outputOfData input).mapError .failed
  | .stats _ => ((engine.statsOfData input).map (·.pretty)).mapError .failed
  | .convert _ asJson =>
    ((engine.convert input).map fun conversion =>
      if asJson then conversion.toJson.pretty else conversion.code).mapError .failed

/-- The result of a command. -/
def Command.run (read : String → m (Option String)) (engine : Engine) (command : Command) :
    m (Except Problem String) := do
  match command.input? with
  | none => return command.result engine ""
  | some path =>
    match ← read path with
    | some input => return command.result engine input
    | none => return .error (.unreadable path)

/-- The result of a command with the options that go with it. -/
def resultOf (read : String → m (Option String)) (invocation : Invocation) :
    m (Except Problem String) := do
  match ← configOf read invocation.options with
  | .error problem => return .error problem
  | .ok config =>
    match ← engineOf read config with
    | .error problem => return .error problem
    | .ok engine => invocation.command.run read engine

/-- The report of a problem. -/
def failing (problem : Problem) : Report := ⟨1, "", some problem.message⟩

/-- Prints the result of a command or writes it to the output file. -/
def deliver (write : String → String → m Bool) (output : Option String) (text : String) :
    m Report := do
  match output with
  | none => return ⟨0, printedText text, none⟩
  | some path =>
    if ← write path text then return ⟨0, "Output written to " ++ quoted path ++ "\n", none⟩
    else return failing (.unwritable path)

/-- A run of the program. -/
def run (read : String → m (Option String)) (write : String → String → m Bool)
    (arguments : List String) : m Report := do
  match Invocation.read arguments with
  | .error (.version command) => return ⟨0, versionText command, none⟩
  | .error .help => return ⟨0, helpText, none⟩
  | .error .misuse => return ⟨1, "", none⟩
  | .ok invocation =>
    match ← resultOf read invocation with
    | .error problem => return failing problem
    | .ok text => deliver write invocation.options.output text

end Files

end Transcode.CommandLine
