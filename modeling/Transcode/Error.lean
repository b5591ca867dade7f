import Transcode.Source.Tree

/-!
# Failures

What can make an operation fail, by cause, and the wording of each cause. A cause whose wording is
not the library's own has none.
-/

namespace Transcode

/-- What can be wrong with a graph or with a change to it. -/
inductive GraphFault where
  | duplicateNode (id : String)
  | duplicateEdge (id : String)
  | missingEndpoint (edge source target : String)
  | namelessDeclaration (kind : SyntaxKind) (location : String)
  | lostBinding (rule : String)
  | unbuildableNode (rule node : String)
  | missingRoot (rule : String)
  | danglingLink (rule source target : String)
  deriving DecidableEq, Repr

/-- The wording of a graph fault. -/
def GraphFault.message : GraphFault → String
  | .duplicateNode id => "duplicate node id '" ++ id ++ "'"
  | .duplicateEdge id => "duplicate edge id '" ++ id ++ "'"
  | .missingEndpoint edge source target =>
    "edge '" ++ edge ++ "' references a missing node (" ++ source ++ " -> " ++ target ++ ")"
  | .namelessDeclaration kind location =>
    kind.title ++ " declaration without a name at " ++ location
  | .lostBinding rule => "match of '" ++ rule ++ "' references a missing node"
  | .unbuildableNode rule node =>
    "rule '" ++ rule ++ "' cannot build fragment node '" ++ node ++ "'"
  | .missingRoot rule => "rule '" ++ rule ++ "' has no fragment root"
  | .danglingLink rule source target =>
    "rule '" ++ rule ++ "' has a dangling fragment edge " ++ source ++ " -> " ++ target

/-- Why an operation fails. `ruleLoad` has no reason if the rule's data have the wrong form, and
neither have malformed data (`json`) and files that cannot be read or written (`file`). -/
inductive Failure where
  | emptyInput
  | invalidGraph (fault : GraphFault)
  | ruleLoad (label : String) (reason : Option String)
  | unknownRule (id : String)
  | notApplicable (id : String)
  | cyclic (node : String)
  | noIterations
  | json
  | file
  deriving DecidableEq, Repr

/-- The wording of a failure, if the library has one. -/
def Failure.message? : Failure → Option String
  | .emptyInput => some "Parse error: input is empty"
  | .invalidGraph fault => some ("Graph validation error: " ++ fault.message)
  | .ruleLoad label reason => reason.map fun reason =>
    "Rule load error in '" ++ label ++ "': " ++ reason
  | .unknownRule id => some ("Unknown rule: " ++ id)
  | .notApplicable id => some ("Rule '" ++ id ++ "' is not applicable to this graph")
  | .cyclic node => some ("Cyclic dependency involving node '" ++ node ++ "'")
  | .noIterations => some "Configuration error: maxIterations must be at least 1"
  | .json => none
  | .file => none

end Transcode
