import Transcode.Regex.Automaton
import Transcode.Rule.Template

/-!
# Patterns

A source pattern names nodes with what each must be like, edges that must connect them and
conditions on several of them. Its replaced nodes give way to the fragment that a target pattern
describes; its other nodes are context. `validate` tells the first thing that makes a pattern
useless.
-/

namespace Transcode

/-- A regular expression for whole texts, by its notation, with its automaton. -/
structure TextPattern where
  source : String
  automaton : Automaton
  compiled : Automaton.whole? source = some automaton

namespace TextPattern

/-- Reads the notation of an expression. -/
def ofSource? (source : String) : Option TextPattern :=
  match h : Automaton.whole? source with
  | some automaton => some ⟨source, automaton, h⟩
  | none => none

/-- Patterns with the same notation are equal. -/
theorem ext_source {first second : TextPattern} (h : first.source = second.source) :
    first = second := by
  cases first with
  | mk source automaton compiled =>
      cases second with
      | mk source' automaton' compiled' =>
          subst h
          have := Option.some.inj (compiled.symm.trans compiled')
          subst this
          rfl

/-- Reading the notation of a pattern gives the pattern. -/
theorem ofSource?_source (pattern : TextPattern) : ofSource? pattern.source = some pattern := by
  unfold ofSource?
  split
  · exact congrArg some (ext_source rfl)
  · rename_i h
    exact absurd (h.symm.trans pattern.compiled) (by simp)

instance : DecidableEq TextPattern := fun first second =>
  if h : first.source = second.source then isTrue (ext_source h)
  else isFalse fun heq => h (congrArg source heq)

instance : Repr TextPattern := ⟨fun pattern n => reprPrec pattern.source n⟩

/-- Whether a text matches as a whole. -/
def accepts (pattern : TextPattern) (text : String) : Bool := pattern.automaton.isMatch text

end TextPattern

/-- Whether the nodes bound to a pattern node are replaced or stay. -/
inductive Role where
  | replaced
  | context
  deriving DecidableEq, Repr

/-- What an attribute must be like. -/
inductive AttributeTest where
  | equals (text : String)
  | hasWord (word : String)
  | lacksWord (word : String)
  | matching (pattern : TextPattern)
  | present (expected : Bool)
  | absent (expected : Bool)
  deriving DecidableEq, Repr

/-- Whether an attribute passes a test; it may be missing. -/
def AttributeTest.accepts : AttributeTest → Option String → Bool
  | .equals text, value => value = some text
  | .hasWord word, value => value.any (Text.hasWord · word)
  | .lacksWord word, value => !value.any (Text.hasWord · word)
  | .matching pattern, value => value.any pattern.accepts
  | .present expected, value => value.isSome = expected
  | .absent expected, value => value.isNone = expected

/-- What a node must be like. No kinds means any kind. -/
structure NodeFilter where
  kinds : List NodeKind := []
  label : Option TextPattern := none
  attributes : Dict AttributeTest := ∅
  deriving DecidableEq, Repr

/-- Whether a node passes a filter. -/
def NodeFilter.accepts (filter : NodeFilter) (node : Node) : Bool :=
  (filter.kinds.isEmpty || filter.kinds.contains node.kind)
    && filter.label.all (·.accepts node.label)
    && filter.attributes.entries.all fun entry => entry.2.accepts (node.get? entry.1)

/-- What the nodes at the ends of a node's edges of one kind must be like, and how many there may
be. -/
structure ChildrenTest where
  edge : EdgeKind := .contains
  all : Option NodeFilter := none
  min : Nat := 0
  max : Option Nat := none
  deriving DecidableEq, Repr

namespace ChildrenTest

/-- Whether the nodes pass the test. -/
def accepts (test : ChildrenTest) (children : List Node) : Bool :=
  test.min ≤ children.length && test.max.all (children.length ≤ ·)
    && test.all.all fun filter => children.all filter.accepts

/-- Whether no number of nodes is allowed. -/
def isEmpty (test : ChildrenTest) : Bool := test.max.any (· < test.min)

end ChildrenTest

/-- A node of a source pattern. -/
structure PatternNode where
  name : String
  role : Role := .context
  filter : NodeFilter := {}
  children : Option ChildrenTest := none
  deriving DecidableEq, Repr

/-- An edge between two nodes of a pattern, by their names. -/
structure PatternEdge where
  source : String
  target : String
  kind : EdgeKind
  deriving DecidableEq, Repr

/-- A condition on two texts made of the bound nodes. -/
inductive Constraint where
  | equal (left right : Template)
  | differ (left right : Template)
  deriving DecidableEq, Repr

namespace Constraint

/-- Whether a condition holds of the nodes with given names. -/
def holds (lookup : String → Option Node) : Constraint → Bool
  | .equal left right => left.render lookup = right.render lookup
  | .differ left right => left.render lookup ≠ right.render lookup

/-- The two texts of a condition. -/
def templates : Constraint → List Template
  | .equal left right => [left, right]
  | .differ left right => [left, right]

end Constraint

/-- What to look for in a graph. -/
structure SourcePattern where
  nodes : List PatternNode
  edges : List PatternEdge := []
  constraints : List Constraint := []
  deriving DecidableEq, Repr

/-- A node of a fragment. It starts as a copy of a bound node, if there is one to copy. -/
structure TemplateNode where
  name : String
  copyFrom : Option String := none
  kind : Option NodeKind := none
  label : Option Template := none
  set : Dict Template := ∅
  remove : List String := []
  deriving DecidableEq, Repr

/-- What takes the place of the replaced nodes. Edges of a replaced node go over to the fragment
node that `boundary` gives for it, else to the root, which is the first node if none is named. -/
structure TargetPattern where
  nodes : List TemplateNode
  edges : List PatternEdge := []
  root : Option String := none
  boundary : Dict String := ∅
  deriving DecidableEq, Repr

/-- Why a pattern is of no use. -/
inductive PatternFault where
  | noNodes
  | noReplacedNode
  | namelessNode
  | duplicateNode (name : String)
  | emptyBounds (name : String)
  | unknownEdgeEnd (name : String)
  | unknownReference (template name : String)
  | noTemplateNodes
  | namelessTemplate
  | shadowingTemplate (name : String)
  | duplicateTemplate (name : String)
  | unknownOrigin (name origin : String)
  | incompleteTemplate (name : String)
  | danglingEdgeEnd (name : String)
  | unknownRoot (name : String)
  | boundarySource (name : String)
  | boundaryTarget (name : String)
  deriving DecidableEq, Repr

/-- The wording of a pattern fault. -/
def PatternFault.message : PatternFault → String
  | .noNodes => "source pattern has no nodes"
  | .noReplacedNode => "source pattern has no rewrite node"
  | .namelessNode => "pattern node without a name"
  | .duplicateNode name => "duplicate pattern node '" ++ name ++ "'"
  | .emptyBounds name => "children bounds of '" ++ name ++ "' are empty"
  | .unknownEdgeEnd name => "pattern edge references unknown node '" ++ name ++ "'"
  | .unknownReference template name =>
    "template '" ++ template ++ "' references unknown node '" ++ name ++ "'"
  | .noTemplateNodes => "target pattern produces no nodes"
  | .namelessTemplate => "template node without a name"
  | .shadowingTemplate name => "template node '" ++ name ++ "' shadows a pattern node"
  | .duplicateTemplate name => "duplicate template node '" ++ name ++ "'"
  | .unknownOrigin name origin =>
    "template node '" ++ name ++ "' copies unknown pattern node '" ++ origin ++ "'"
  | .incompleteTemplate name =>
    "template node '" ++ name ++ "' needs copyFrom or both kind and label"
  | .danglingEdgeEnd name => "target edge endpoint '" ++ name ++ "' dangles"
  | .unknownRoot name => "root '" ++ name ++ "' is not a template node"
  | .boundarySource name => "boundary source '" ++ name ++ "' is not a rewrite node"
  | .boundaryTarget name => "boundary target '" ++ name ++ "' is not a template node"

/-- Fails with a fault unless a condition holds. -/
def demand (condition : Bool) (fault : PatternFault) : Except PatternFault Unit :=
  if condition then .ok () else .error fault

/-- Both ends of an edge satisfy a test. -/
def demandEnds (test : String → Bool) (fault : String → PatternFault) (edge : PatternEdge) :
    Except PatternFault Unit := do
  demand (test edge.source) (fault edge.source)
  demand (test edge.target) (fault edge.target)

/-- A template takes text from known nodes only. -/
def demandReferences (known : List String) (template : Template) : Except PatternFault Unit :=
  match template.references.find? (!known.contains ·) with
  | some name => .error (.unknownReference template.source name)
  | none => .ok ()

namespace SourcePattern

/-- The names of a pattern's nodes. -/
def names (pattern : SourcePattern) : List String := pattern.nodes.map (·.name)

/-- The node with a name. -/
def node? (pattern : SourcePattern) (name : String) : Option PatternNode :=
  pattern.nodes.find? (·.name = name)

/-- The place of the node with a name. -/
def position? (pattern : SourcePattern) (name : String) : Option Nat :=
  pattern.nodes.findIdx? (·.name = name)

/-- Whether a name is that of a replaced node. -/
def isReplaced (pattern : SourcePattern) (name : String) : Bool :=
  (pattern.node? name).any (·.role = .replaced)

/-- Each node has a name of its own and allows some number of children. -/
def validateNodes (before : List String) : List PatternNode → Except PatternFault Unit
  | [] => .ok ()
  | node :: rest => do
    demand (!node.name.isEmpty) .namelessNode
    demand (!before.contains node.name) (.duplicateNode node.name)
    demand (node.children.all (!·.isEmpty)) (.emptyBounds node.name)
    validateNodes (node.name :: before) rest

/-- A pattern has a replaced node, distinct names, and no name of a node that it does not have. -/
def validate (pattern : SourcePattern) : Except PatternFault Unit := do
  demand (!pattern.nodes.isEmpty) .noNodes
  demand (pattern.nodes.any (·.role = .replaced)) .noReplacedNode
  validateNodes [] pattern.nodes
  pattern.edges.forM (demandEnds pattern.names.contains .unknownEdgeEnd)
  (pattern.constraints.flatMap (·.templates)).forM (demandReferences pattern.names)

end SourcePattern

/-- A node to be created. -/
structure NodeSpec where
  kind : NodeKind
  label : String
  attributes : Attributes
  deriving DecidableEq, Repr

namespace TemplateNode

/-- The attributes after keys are removed and others are set; an empty text removes its key. -/
def change (node : TemplateNode) (lookup : String → Option Node) (attributes : Attributes) :
    Attributes :=
  node.set.entries.foldl (fun changed entry =>
      let value := entry.2.render lookup
      if value.isEmpty then changed.erase entry.1 else changed.insert entry.1 value)
    (node.remove.foldl Dict.erase attributes)

/-- The node that a template makes of the nodes bound to names. -/
def instantiate (node : TemplateNode) (lookup : String → Option Node) : Option NodeSpec := do
  let origin := node.copyFrom.bind lookup
  let kind ← node.kind.or (origin.map (·.kind))
  let label ← (node.label.map (·.render lookup)).or (origin.map (·.label))
  return ⟨kind, label, node.change lookup ((origin.map (·.attributes)).getD ∅)⟩

/-- The texts of a template. -/
def templates (node : TemplateNode) : List Template := node.label.toList ++ node.set.values

end TemplateNode

namespace TargetPattern

/-- The names of a fragment's nodes. -/
def names (target : TargetPattern) : List String := target.nodes.map (·.name)

/-- The name of the root. -/
def rootName? (target : TargetPattern) : Option String := target.root.or target.names.head?

/-- The node with a name. -/
def node? (target : TargetPattern) (name : String) : Option TemplateNode :=
  target.nodes.find? (·.name = name)

/-- A template node copies a bound node or says everything that a node needs. -/
def validateOrigin (bound : List String) (node : TemplateNode) : Except PatternFault Unit :=
  match node.copyFrom with
  | some origin => demand (bound.contains origin) (.unknownOrigin node.name origin)
  | none => demand (node.kind.isSome && node.label.isSome) (.incompleteTemplate node.name)

/-- Each node has a name of its own and can be made of the bound nodes. -/
def validateNodes (bound before : List String) : List TemplateNode → Except PatternFault Unit
  | [] => .ok ()
  | node :: rest => do
    demand (!node.name.isEmpty) .namelessTemplate
    demand (!bound.contains node.name) (.shadowingTemplate node.name)
    demand (!before.contains node.name) (.duplicateTemplate node.name)
    validateOrigin bound node
    node.templates.forM (demandReferences bound)
    validateNodes bound (node.name :: before) rest

/-- Whether an edge of a fragment can end at a name: a node of the fragment or one of the
context. -/
def canEnd (target : TargetPattern) (source : SourcePattern) (name : String) : Bool :=
  target.names.contains name || (source.names.contains name && !source.isReplaced name)

/-- A fragment has nodes with distinct new names, and every name in it is known. -/
def validate (target : TargetPattern) (source : SourcePattern) : Except PatternFault Unit := do
  demand (!target.nodes.isEmpty) .noTemplateNodes
  validateNodes source.names [] target.nodes
  target.edges.forM (demandEnds (target.canEnd source) .danglingEdgeEnd)
  target.root.toList.forM fun root => demand (target.names.contains root) (.unknownRoot root)
  target.boundary.entries.forM fun entry => do
    demand (source.isReplaced entry.1) (.boundarySource entry.1)
    demand (target.names.contains entry.2) (.boundaryTarget entry.2)

end TargetPattern

end Transcode
