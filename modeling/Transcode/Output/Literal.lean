/-!
# Literals in code

Cuts a line into code and the string and character literals in it. A literal runs to the next quote
of its kind that no backslash precedes, or to the end of the line. The sections joined are the line
again, so what changes the code sections alone leaves every literal as it is.
-/

namespace Transcode.Output

/-- A part of a line. -/
inductive Section where
  | code (text : List Char)
  | literal (text : List Char)
  deriving DecidableEq, Repr

namespace Section

/-- The characters of a section after a change of code. -/
def mapCode (change : List Char → List Char) : Section → List Char
  | .code cs => change cs
  | .literal cs => cs

end Section

/-- What a scan of a line stands in: code, a literal, or a literal right after a backslash. -/
inductive Scan where
  | code
  | literal (quote : Char)
  | escape (quote : Char)
  deriving DecidableEq, Repr

/-- The sections of the rest of a line, the first of which has begun with the characters `read`,
last first. -/
def sectionsFrom : Scan → List Char → List Char → List Section
  | .code, read, [] => [.code read.reverse]
  | .code, read, c :: rest =>
    if c = '"' || c = '\'' then .code read.reverse :: sectionsFrom (.literal c) [c] rest
    else sectionsFrom .code (c :: read) rest
  | .literal quote, read, c :: rest =>
    if c = '\\' then sectionsFrom (.escape quote) (c :: read) rest
    else if c = quote then .literal (c :: read).reverse :: sectionsFrom .code [] rest
    else sectionsFrom (.literal quote) (c :: read) rest
  | .escape quote, read, c :: rest => sectionsFrom (.literal quote) (c :: read) rest
  | _, read, [] => [.literal read.reverse]

/-- The sections of a line. -/
def sections (line : List Char) : List Section := sectionsFrom .code [] line

/-- A line after a change of its code. -/
def mapCode (change : List Char → List Char) (line : List Char) : List Char :=
  (sections line).flatMap (·.mapCode change)

end Transcode.Output
