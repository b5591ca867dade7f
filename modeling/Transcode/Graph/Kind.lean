/-!
# Kinds of nodes and edges

The constructs of code that a graph holds, and how they relate.
-/

namespace Transcode

/-- A construct of code. -/
inductive NodeKind where
  | classType
  | interfaceType
  | method
  | constructor
  | function
  | accessor
  | field
  | loop
  | arrayMethod
  deriving DecidableEq, Repr, Inhabited

namespace NodeKind

/-- All kinds with their names. -/
def names : List (String × NodeKind) :=
  [("class", .classType), ("interface", .interfaceType), ("method", .method),
   ("constructor", .constructor), ("function", .function), ("accessor", .accessor),
   ("field", .field), ("loop", .loop), ("array_method", .arrayMethod)]

/-- The name of a kind. -/
def name (kind : NodeKind) : String := ((names.find? (·.2 = kind)).map (·.1)).getD ""

/-- Whether a kind is a type. -/
def isType : NodeKind → Bool
  | .classType | .interfaceType => true
  | _ => false

/-- Whether a kind has parameters and a body. -/
def isCallable : NodeKind → Bool
  | .method | .constructor | .function | .accessor => true
  | _ => false

/-- Whether a kind repeats a body. -/
def isLoop : NodeKind → Bool
  | .loop | .arrayMethod => true
  | _ => false

end NodeKind

/-- A relation between two constructs: declaring, calling by name, and the two kinds of
supertypes. -/
inductive EdgeKind where
  | contains
  | calls
  | extending
  | implementing
  deriving DecidableEq, Repr, Inhabited

namespace EdgeKind

/-- All kinds with their names. -/
def names : List (String × EdgeKind) :=
  [("contains", .contains), ("calls", .calls), ("extends", .extending),
   ("implements", .implementing)]

/-- The name of a kind. -/
def name (kind : EdgeKind) : String := ((names.find? (·.2 = kind)).map (·.1)).getD ""

/-- Whether a kind relates a type to a supertype. -/
def isHeritage : EdgeKind → Bool
  | .extending | .implementing => true
  | _ => false

end EdgeKind

end Transcode
