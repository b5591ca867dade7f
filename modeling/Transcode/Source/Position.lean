/-!
# Places in a source text

A position counts lines and columns from one, columns in characters, and its offset in bytes of
UTF-8. `Position.after` is the position after given characters; a range has a start and an end.
-/

namespace Transcode

/-- A place in a text. -/
structure Position where
  line : Nat
  column : Nat
  offset : Nat
  deriving DecidableEq, Repr, Inhabited

namespace Position

/-- The start of a text. -/
def first : Position := ⟨1, 1, 0⟩

/-- The position after one character. -/
def step (position : Position) (c : Char) : Position :=
  if c = '\n' then ⟨position.line + 1, 1, position.offset + c.utf8Size⟩
  else ⟨position.line, position.column + 1, position.offset + c.utf8Size⟩

/-- The position after given characters. -/
def after (position : Position) (cs : List Char) : Position := cs.foldl step position

/-- The position after all characters of a text. -/
def endOf (text : String) : Position := first.after text.toList

@[simp] theorem after_nil (position : Position) : position.after [] = position := rfl

@[simp] theorem after_append (position : Position) (cs ds : List Char) :
    position.after (cs ++ ds) = (position.after cs).after ds := List.foldl_append

end Position

/-- A stretch of a text. -/
structure SourceRange where
  start : Position
  stop : Position
  deriving DecidableEq, Repr, Inhabited

namespace SourceRange

/-- The smallest range that holds two ranges: the lower start and the higher end by offset, those of
the first range if equal. -/
def cover (range other : SourceRange) : SourceRange where
  start := if other.start.offset < range.start.offset then other.start else range.start
  stop := if other.stop.offset > range.stop.offset then other.stop else range.stop

/-- The start as `line:column`. -/
def location (range : SourceRange) : String :=
  toString range.start.line ++ ":" ++ toString range.start.column

end SourceRange

/-- A problem found in a source text that does not stop the reading. -/
structure Diagnostic where
  message : String
  range : SourceRange
  deriving DecidableEq, Repr

/-- The problem with its place in front. -/
def Diagnostic.display (diagnostic : Diagnostic) : String :=
  diagnostic.range.location ++ ": " ++ diagnostic.message

end Transcode
