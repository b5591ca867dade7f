import Transcode.Output.Signature

/-!
# Lines and blocks

Lines with their level of indentation. A block without inner lines takes one line.
-/

namespace Transcode.Output

/-- A line of the output. -/
inductive Line where
  | empty
  | code (level : Nat) (text : String)
  deriving DecidableEq, Repr

namespace Line

/-- What a level of indentation is. -/
def indent : List Char := [' ', ' ']

/-- The characters of a line. -/
def written : Line → String
  | .empty => ""
  | .code level text => String.ofList (List.replicate level indent).flatten ++ text

/-- The line some levels further in. -/
def shift (levels : Nat) : Line → Line
  | .empty => .empty
  | .code level text => .code (levels + level) text

end Line

/-- Lines between an opening and a closing line. -/
def block (frame : Frame) (inner : List Line) : List Line :=
  if inner.isEmpty then [.code 0 (frame.opening ++ frame.closing)]
  else .code 0 frame.opening :: inner.map (.shift 1) ++ [.code 0 frame.closing]

/-- The text of lines. -/
def textOfLines (lines : List Line) : String := "\n".intercalate (lines.map (·.written))

end Transcode.Output
