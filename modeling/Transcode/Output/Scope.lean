import Transcode.Dict
import Transcode.Output.Declaration
import Transcode.Output.Literal
import Transcode.Regex.Footprint

/-!
# Scopes

How the statements and expressions of one body are written. First the expressions of the standard
library are replaced, then calls of functions that have left their class, then members with another
name, and last the bare names of members are qualified. Nothing inside literals changes.
-/

namespace Transcode.Output

open Regex Text

/-- Text to be put in place of what an expression matches. -/
structure Substitution where
  pattern : Regex
  replacement : String
  deriving DecidableEq, Repr

/-- A text after a substitution. -/
def Substitution.apply (substitution : Substitution) (code : List Char) : List Char :=
  substitution.pattern.replaceAll substitution.replacement code

/-- A word followed by an opening parenthesis. -/
def callOf (start : Regex) : Regex := sequence [.anchor .wordEdge, start, star blank, char '(']

/-- A word followed by parentheses with nothing between them. -/
def emptyCallOf (start : Regex) : Regex :=
  sequence [start, star blank, char '(', star blank, char ')']

/-- The creation of an object without arguments, of one of several classes. -/
def creationOf (classes : List String) : Regex := sequence
  [.anchor .wordEdge, literal "new", plus blank, choice (classes.map literal), star blank,
   opt (sequence [char '<', star (.set (.compl (.ofText "()"))), char '>']), star blank, char '(',
   star blank, char ')']

/-- The output to a stream of the system. -/
def printCall (stream : String) : Regex := callOf
  (.seq (literal ("System." ++ stream ++ ".print")) (opt (choice [literal "ln", literal "f"])))

/-- A character other than the equals sign, or the end of the text. -/
def noEqualsNext : Regex := choice [.set (.compl (.single '=')), .anchor .textEnd]

/-- The substitutions of expressions, in the order in which they are made. -/
def expressionSubstitutions : List Substitution :=
  [⟨printCall "out", "console.log("⟩,
   ⟨printCall "err", "console.error("⟩,
   ⟨callOf (literal "String.valueOf"), "String("⟩,
   ⟨callOf (literal "Integer.parseInt"), "parseInt("⟩,
   ⟨callOf (literal "Double.parseDouble"), "parseFloat("⟩,
   ⟨creationOf ["ArrayList", "LinkedList"], "[]"⟩,
   ⟨creationOf ["HashMap", "TreeMap", "LinkedHashMap"], "new Map()"⟩,
   ⟨creationOf ["HashSet", "TreeSet", "LinkedHashSet"], "new Set()"⟩,
   ⟨emptyCallOf (literal ".size"), ".length"⟩,
   ⟨emptyCallOf (literal ".length"), ".length"⟩,
   ⟨catchClause, "catch ($1)"⟩,
   ⟨sequence
      [capture 1 (choice [.anchor .textStart, .set (.compl (.ofText "=!<>"))]), literal "==",
       capture 2 noEqualsNext],
    "$1===$2"⟩,
   ⟨.seq (literal "!=") (capture 1 noEqualsNext), "!==$1"⟩,
   ⟨sequence
      [.anchor .wordEdge, capture 1 (plus (.set (.property .digit))), .set (.ofText "lL"),
       .anchor .wordEdge],
    "$1"⟩]

/-- The rule for calls of a function that has left its class. -/
def releaseRule (module function : String) : Substitution :=
  ⟨callOf (sequence [literal module, char '.', literal function]), function ++ "("⟩

/-- The rule for a member with another name. -/
def renameRule (name renamed : String) : Substitution :=
  ⟨sequence [.anchor .wordEdge, literal "this.", literal name, .anchor .wordEdge],
    "this." ++ renamed⟩

/-- The rule alone, or none if its names are so long that its expression does not compile. -/
def Substitution.compiled (rule : Substitution) : List Substitution :=
  if rule.pattern.fits then [rule] else []

/-- The meaning of names in one body. -/
structure Scope where
  /-- What bare names of members stand for. -/
  members : Dict String := ∅
  /-- What bare names of called methods stand for. -/
  methods : Dict String := ∅
  /-- Names of parameters and locals, which hide members and methods. -/
  hidden : List String := []
  /-- Members that are accessed under another name. -/
  renamed : List Substitution := []
  /-- Calls of functions that have left their class. -/
  released : List Substitution := []
  deriving Inhabited

namespace Scope

/-- The scope in which a bare name stands for a member. -/
def member (scope : Scope) (name qualified : String) : Scope :=
  { scope with members := scope.members.insert name qualified }

/-- The scope in which a bare called name stands for a method. -/
def method (scope : Scope) (name qualified : String) : Scope :=
  { scope with methods := scope.methods.insert name qualified }

/-- The scope with a parameter or local. -/
def hide (scope : Scope) (name : String) : Scope := { scope with hidden := name :: scope.hidden }

/-- The scope with several parameters or locals. -/
def hideAll (scope : Scope) (names : List String) : Scope := names.foldl hide scope

/-- The scope with everything that lines declare. -/
def hideLocals (scope : Scope) (lines : List String) : Scope :=
  scope.hideAll (lines.flatMap declaredNames)

/-- The scope in which a member of `this` is accessed under another name. -/
def rename (scope : Scope) (name renamed : String) : Scope :=
  { scope with renamed := scope.renamed ++ (renameRule name renamed).compiled }

/-- The scope in which a function of a module is called by its bare name. -/
def moduleFunction (scope : Scope) (module name : String) : Scope :=
  { scope with released := scope.released ++ (releaseRule module name).compiled }

/-- What a bare name stands for, in front of given text. -/
def meaning? (scope : Scope) (name : String) (after : List Char) : Option String :=
  if scope.hidden.contains name then none
  else if (trimStart after).head? = some '(' then scope.methods.get? name
  else scope.members.get? name

/-- Whether a name right after a character is not a bare name. -/
def attaches (c : Char) : Bool := c = '.' || isAlphanumeric c || c = '_' || c = '$'

/-- Code with its bare names qualified; `before` is the character before it. -/
def qualifyAfter (scope : Scope) (before : Option Char) : List Char → List Char
  | [] => []
  | c :: rest =>
    if nameStart.mem c then
      let name := c :: rest.takeWhile namePart.mem
      let after := rest.dropWhile namePart.mem
      let written := if before.any attaches then none else scope.meaning? (String.ofList name) after
      (written.map String.toList).getD name ++ scope.qualifyAfter name.getLast? after
    else c :: scope.qualifyAfter (some c) rest
termination_by cs => cs.length
decreasing_by
  · exact Nat.lt_succ_of_le (List.dropWhile_sublist _).length_le
  · exact Nat.lt_succ_self _

/-- How code without literals is written. -/
def replaceCode (scope : Scope) (code : List Char) : List Char :=
  scope.qualifyAfter none
    ((expressionSubstitutions ++ scope.released ++ scope.renamed).foldl
      (fun code substitution => substitution.apply code) code)

/-- How an expression or a part of a statement is written. -/
def expression (scope : Scope) (text : String) : String :=
  String.ofList (mapCode scope.replaceCode text.toList)

/-- How a statement is written. -/
def statement (scope : Scope) (line : String) : String :=
  let trimmed := trimBoth line.toList
  scope.expression (((localDeclaration? trimmed).map (·.written)).getD (String.ofList trimmed))

end Scope

end Transcode.Output
