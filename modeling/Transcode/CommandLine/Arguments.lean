import Transcode.Text.Property
import Transcode.Text.Split

/-!
# Arguments of the program

The arguments give options and a command with its own arguments. Options can stand before the
command and after it; each place may give an option once, and the later place counts. After `--`
everything is an argument of the command.
-/

namespace Transcode.CommandLine

open Text

/-- The commands by name. -/
inductive CommandName where
  | parse
  | graph
  | transform
  | apply
  | rules
  | generate
  | stats
  | convert
  deriving DecidableEq, Repr

/-- The commands with their names. -/
def commandNames : List (String × CommandName) :=
  [("parse", .parse), ("graph", .graph), ("transform", .transform), ("apply", .apply),
   ("rules", .rules), ("generate", .generate), ("stats", .stats), ("convert", .convert)]

/-- The name of a command. -/
def CommandName.text (command : CommandName) : String :=
  ((commandNames.find? (·.2 = command)).map (·.1)).getD ""

/-- How many arguments a command takes. -/
def CommandName.arity : CommandName → Nat
  | .rules => 0
  | .apply => 2
  | _ => 1

/-- Options that take a value. -/
inductive Setting where
  | config
  | rules
  | maxIterations
  | output
  deriving DecidableEq, Repr

/-- Options without a value. -/
inductive Switch where
  | singlePass
  | parallel
  | fromTree
  | json
  deriving DecidableEq, Repr

/-- The options with a value by name. -/
def settingNames : List (String × Setting) :=
  [("config", .config), ("rules", .rules), ("max-iterations", .maxIterations), ("output", .output)]

/-- The options without a value that a place takes; that before the command has no command. -/
def switchNames (command : Option CommandName) : List (String × Switch) :=
  [("single-pass", .singlePass), ("parallel", .parallel)]
    ++ (if command = some .graph then [("from-ast", .fromTree)] else [])
    ++ (if command = some .convert then [("json", .json)] else [])

/-- Why there is no command to run. -/
inductive Halt where
  | version (command : Option CommandName)
  | help
  | misuse
  deriving DecidableEq, Repr

/-- What the arguments at one place give. A setting without a value is kept, since it is a mistake
only if nothing else stops the program first. -/
structure Place where
  settings : List (Setting × Option String) := []
  switches : List Switch := []
  words : List String := []
  deriving DecidableEq, Repr

namespace Place

/-- The place with a setting that has been given. -/
def set (place : Place) (setting : Setting) (value : Option String) : Place :=
  { place with settings := place.settings ++ [(setting, value)] }

/-- The place with a setting that still waits for its value. -/
def close (place : Place) (waiting : Option Setting) : Place :=
  match waiting with
  | some setting => place.set setting none
  | none => place

/-- The value of a setting. -/
def value? (place : Place) (setting : Setting) : Option String :=
  (place.settings.lookup setting).join

/-- Whether a list has no element twice. -/
def isDistinct [BEq α] : List α → Bool
  | [] => true
  | a :: rest => !rest.contains a && isDistinct rest

/-- Whether every setting has a value, and nothing is given twice. -/
def isSound (place : Place) : Bool :=
  place.settings.all (·.2.isSome) && isDistinct (place.settings.map (·.1)) &&
    isDistinct place.switches

end Place

/-- What one argument gives: an option, or the setting whose value comes next. -/
inductive Taken where
  | whole (place : Place)
  | awaiting (setting : Setting)

/-- Reads an option by its long name, with a value after an equals sign. -/
def readLong (command : Option CommandName) (place : Place) (argument : List Char) :
    Except Halt Taken :=
  let (name, value) := cutAt (· = '=') (argument.dropWhile (· = '-'))
  let name := String.ofList name
  match settingNames.lookup name, value with
  | some setting, some value =>
    .ok (.whole (place.set setting (some (String.ofList (value.dropWhile (· = '='))))))
  | some setting, none => .ok (.awaiting setting)
  | none, _ =>
    if name = "help" then .error .help
    else if name = "version" then .error (.version command)
    else match (switchNames command).lookup name with
      | some switch => .ok (.whole { place with switches := place.switches ++ [switch] })
      | none => .error .misuse

/-- Reads an option by its letter, with a value right after it. -/
def readShort (command : Option CommandName) (place : Place) (argument : List Char) :
    Except Halt Taken :=
  match argument with
  | ['-', 'o'] => .ok (.awaiting .output)
  | '-' :: 'o' :: value =>
    .ok (.whole (place.set .output (some (String.ofList (value.dropWhile (· = '='))))))
  | '-' :: 'h' :: _ => .error .help
  | '-' :: 'V' :: _ => .error (.version command)
  | _ => .error .misuse

/-- What the arguments at one place come to: all of them, or those up to a command. -/
structure Reading where
  place : Place
  next : Option (CommandName × List String) := none

/-- Reads the arguments at one place. `waiting` is the setting whose value is to come, and `plain`
is set after `--`. -/
def readPlace (command : Option CommandName) (place : Place) (waiting : Option Setting)
    (plain : Bool) : List String → Except Halt Reading
  | [] => .ok { place := place.close waiting }
  | argument :: rest =>
    let cs := argument.toList
    let takeWord : Except Halt Reading :=
      if place.words.length < (command.map (·.arity)).getD 0 then
        readPlace command { place with words := place.words ++ [argument] } none plain rest
      else .error .misuse
    if plain then takeWord
    else if cs = ['-', '-'] then readPlace command (place.close waiting) none true rest
    else if cs.head? = some '-' && cs.length ≠ 1 then
      let place := place.close waiting
      let read := if (stripStart? ['-', '-'] cs).isSome then readLong else readShort
      match read command place cs with
      | .ok (.whole place) => readPlace command place none false rest
      | .ok (.awaiting setting) => readPlace command place (some setting) false rest
      | .error halt => .error halt
    else match waiting with
      | some setting => readPlace command (place.set setting (some argument)) none false rest
      | none =>
        if command.isSome then takeWord
        else if argument = "help" then .error .help
        else match commandNames.lookup argument with
          | some name => .ok { place, next := some (name, rest) }
          | none => .error .misuse

/-- The options of a run. -/
structure Options where
  config : Option String := none
  rules : Option String := none
  maxIterations : Option Nat := none
  singlePass : Bool := false
  parallel : Bool := false
  output : Option String := none
  deriving DecidableEq, Repr

/-- A command with its arguments. -/
inductive Command where
  | parse (input : String)
  | graph (input : String) (fromTree : Bool)
  | transform (input : String)
  | apply (input rule : String)
  | rules
  | generate (input : String)
  | stats (input : String)
  | convert (input : String) (asJson : Bool)
  deriving DecidableEq, Repr

/-- The file that a command reads. -/
def Command.input? : Command → Option String
  | .parse input => some input
  | .graph input _ => some input
  | .transform input => some input
  | .apply input _ => some input
  | .rules => none
  | .generate input => some input
  | .stats input => some input
  | .convert input _ => some input

/-- The command that a name and the arguments after it give. -/
def Command.ofPlace? (place : Place) : CommandName → Option Command
  | .rules => some .rules
  | .apply =>
    match place.words with
    | [input, rule] => some (.apply input rule)
    | _ => none
  | name =>
    match place.words with
    | [input] =>
      match name with
      | .parse => some (.parse input)
      | .graph => some (.graph input (place.switches.contains .fromTree))
      | .transform => some (.transform input)
      | .generate => some (.generate input)
      | .stats => some (.stats input)
      | _ => some (.convert input (place.switches.contains .json))
    | _ => none

/-- A number of 64 bits, with an optional plus sign. -/
def number? (text : String) : Option Nat :=
  let digits := (stripStart? ['+'] text.toList).getD text.toList
  let value := digits.foldl (fun value digit => 10 * value + (digit.toNat - '0'.toNat)) 0
  if digits.isEmpty || !digits.all isAsciiDigit || Nat.pow 2 64 ≤ value then none else some value

/-- Whether the bound on passes at a place is a number. -/
def hasNumber (place : Place) : Bool :=
  (place.value? .maxIterations).all fun text => (number? text).isSome

/-- A command with the options that go with it. -/
structure Invocation where
  options : Options
  command : Command
  deriving DecidableEq, Repr

namespace Invocation

/-- The options that the places before and after the command give. -/
def optionsOf (before after : Place) : Options :=
  let value (setting : Setting) := (after.value? setting).or (before.value? setting)
  { config := value .config
    rules := value .rules
    maxIterations := (value .maxIterations).bind number?
    singlePass := (before.switches ++ after.switches).contains .singlePass
    parallel := (before.switches ++ after.switches).contains .parallel
    output := value .output }

/-- The invocation that two places and the command between them give. -/
def ofPlaces (before after : Place) (name : CommandName) : Except Halt Invocation :=
  if before.isSound && after.isSound && hasNumber before && hasNumber after then
    match Command.ofPlace? after name with
    | some command => .ok ⟨optionsOf before after, command⟩
    | none => .error .misuse
  else .error .misuse

/-- Reads the arguments of the program. -/
def read (arguments : List String) : Except Halt Invocation := do
  let before ← readPlace none {} none false arguments
  match before.next with
  | none => throw .misuse
  | some (name, rest) =>
    let after ← readPlace (some name) {} none false rest
    ofPlaces before.place after.place name

end Invocation

end Transcode.CommandLine
