import Transcode.Error
import Transcode.Rule.Pattern

/-!
# Rules

A rule replaces what its source pattern finds by the fragment of its target pattern. Its confidence,
in percent, says how far its results can be trusted, and decides which of two rules goes first.
-/

namespace Transcode

/-- A rule that transforms graphs. -/
structure Rule where
  id : String
  name : String
  /-- The construct that the rule starts from, for people to read. -/
  source : String := ""
  /-- The construct that the rule leads to, for people to read. -/
  target : String := ""
  description : String := ""
  confidence : Nat
  /-- Whether the rule takes part when a whole graph is transformed. -/
  automated : Bool := true
  /-- Whether the source pattern can span several declarations. -/
  crossDeclaration : Bool := false
  sourcePattern : SourcePattern
  targetPattern : TargetPattern
  deriving DecidableEq, Repr

namespace Rule

/-- The failure to load a rule, for a reason of the library's own. -/
def refuse (label reason : String) : Failure := .ruleLoad label (some reason)

/-- A rule has an id, a confidence of at most a hundred and usable patterns. -/
def validate (rule : Rule) : Except Failure Unit := do
  if Text.isBlankText rule.id then throw (refuse "<unnamed>" "rule id is empty")
  if 100 < rule.confidence then
    throw (refuse rule.id
      ("confidence " ++ toString rule.confidence ++ " is outside 0..=100"))
  let patterns := do
    rule.sourcePattern.validate
    rule.targetPattern.validate rule.sourcePattern
  match patterns with
  | .ok () => return ()
  | .error fault => throw (refuse rule.id fault.message)

end Rule

/-- Why a list of rules is no catalog, rule by rule: `before` are the ids of the rules before. -/
def validateRules (before : List String) : List Rule → Except Failure Unit
  | [] => .ok ()
  | rule :: rest => do
    rule.validate
    if before.contains rule.id then throw (Rule.refuse rule.id "duplicate rule id")
    validateRules (rule.id :: before) rest

/-- Rules in order, each valid and with an id of its own. -/
structure Catalog where
  rules : List Rule
  valid : validateRules [] rules = .ok ()

namespace Catalog

/-- The catalog of a list of rules. -/
def ofRules (rules : List Rule) : Except Failure Catalog :=
  match h : validateRules [] rules with
  | .ok () => .ok ⟨rules, h⟩
  | .error failure => .error failure

/-- The rule with an id. -/
def rule? (catalog : Catalog) (id : String) : Option Rule := catalog.rules.find? (·.id = id)

/-- The place of the rule with an id. -/
def position? (catalog : Catalog) (id : String) : Option Nat := catalog.rules.findIdx? (·.id = id)

/-- The rules that take part when a whole graph is transformed. -/
def automated (catalog : Catalog) : List Rule := catalog.rules.filter (·.automated)

/-- The catalog with more rules after its own. -/
def append (catalog : Catalog) (rules : List Rule) : Except Failure Catalog :=
  ofRules (catalog.rules ++ rules)

end Catalog

end Transcode
