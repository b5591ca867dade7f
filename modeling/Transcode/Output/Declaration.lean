import Transcode.Output.TypeName
import Transcode.Regex.Replace

/-!
# Names that statements declare

Local declarations and how the output writes them, the variables of `catch` clauses and the
parameters of lambda expressions.
-/

namespace Transcode.Output

open Regex Text

/-- The characters that a name can start with. -/
def nameStart : CharSet :=
  .union (.union (.range 'A' 'Z') (.range 'a' 'z')) (.ofText "_$")

/-- The characters that a name can go on with. -/
def namePart : CharSet := .union (.property .word) (.single '$')

/-- A name. -/
def nameRegex : Regex := .seq (.set nameStart) (star (.set namePart))

/-- A blank character. -/
def blank : Regex := .set (.property .blank)

/-- Any characters of a line, as few as possible if not greedy. -/
def anything (greedy : Bool) : Regex := .many (.set (.compl (.single '\n'))) 0 none greedy

/-- The type of a local declaration: a qualified name, arguments, and brackets of arrays. -/
def localType : Regex := sequence
  [.set nameStart, star (.set (.union namePart (.single '.'))),
   opt (sequence [star blank, char '<', anything true, char '>']),
   star (sequence [star blank, char '[', star blank, char ']'])]

/-- A local declaration. Its groups are: 1 `final`, 2 the type, 3 the name, 4 the initial value. -/
def localDeclaration : Regex := sequence
  [.anchor .textStart,
   opt (capture 1 (.seq (literal "final") (plus blank))),
   capture 2 localType, plus blank, capture 3 nameRegex, star blank,
   opt (sequence [char '=', star blank, capture 4 (anything false)]),
   star blank, char ';', .anchor .textEnd]

/-- What a `catch` clause declares its variable with; group 1 is the variable. -/
def catchClause : Regex := sequence
  [.anchor .wordEdge, literal "catch", star blank, char '(', star blank,
   opt (.seq (literal "final") (plus blank)),
   .many (.set (.union (.union namePart (.ofText ".|")) (.property .blank))) 1 none false,
   plus blank, capture 1 nameRegex, star blank, char ')']

/-- The only parameter of a lambda expression, group 1. -/
def lambdaName : Regex := sequence [capture 1 nameRegex, star blank, literal "->"]

/-- The parameters of a lambda expression in parentheses, group 1. -/
def lambdaNames : Regex := sequence
  [char '(', capture 1 (star (.set (.compl (.ofText "()")))), char ')', star blank, literal "->"]

/-- A local declaration by its parts. -/
structure LocalDeclaration where
  isFinal : Bool
  type : String
  name : String
  init : Option String
  deriving DecidableEq, Repr

/-- The word that a text starts with. -/
def headWord (text : List Char) : String :=
  String.ofList (text.takeWhile fun c => isAlphanumeric c || c = '_' || c = '$')

/-- The local declaration that a trimmed statement is. A reserved word is no type, unless it is that
of a primitive one. -/
def localDeclaration? (statement : List Char) : Option LocalDeclaration := do
  let stop ← localDeclaration.matchAt (.start statement)
  let type ← stop.group? 2
  let name ← stop.group? 3
  let head := headWord type
  if isKeyword head && !isPrimitive head then none
  else return {
    isFinal := (stop.group? 1).isSome
    type := String.ofList type
    name := String.ofList name
    init := (stop.group? 4).map String.ofList }

/-- How a local declaration is written; the type `var` is left out. -/
def LocalDeclaration.written (declaration : LocalDeclaration) : String :=
  let keyword := if declaration.isFinal then "const " else "let "
  let annotation := if declaration.type = "var" then "" else ": " ++ typeName declaration.type
  let value := match declaration.init with
    | some value => " = " ++ value
    | none => ""
  keyword ++ declaration.name ++ annotation ++ value ++ ";"

/-- The name that a statement declares, if it is a local declaration. -/
def declaredLocal (statement : String) : Option String :=
  (localDeclaration? (trimBoth statement.toList)).map (·.name)

/-- The last words of the pieces of a list of lambda parameters. -/
def parameterNames (list : String) : List String :=
  (splitWhere (· = ',') list.toList).filterMap fun piece => (words (String.ofList piece)).getLast?

/-- The names that a line declares: a local, `catch` variables and lambda parameters. -/
def declaredNames (line : String) : List String :=
  (declaredLocal line).toList ++ catchClause.groupTexts 1 line ++
    (lambdaNames.groupTexts 1 line).flatMap parameterNames ++ lambdaName.groupTexts 1 line

end Transcode.Output
