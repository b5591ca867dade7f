import Transcode.Source.Keyword
import Transcode.Source.Token

/-!
# Stretches of tokens

Each function cuts a list of tokens into a stretch at its front and the rest. The stretch followed
by the rest is always the list.
-/

namespace Transcode

/-- A stretch of tokens and those after it. `closed` tells whether the stretch ends with the token
that it looks for. -/
structure Span where
  taken : List Token
  rest : List Token
  closed : Bool := false

namespace Span

/-- The span that takes one more token in front. -/
def cons (token : Token) (span : Span) : Span := { span with taken := token :: span.taken }

/-- Nothing taken. -/
def none (tokens : List Token) : Span := ⟨[], tokens, false⟩

/-- The token looked for taken. -/
def ending (token : Token) (rest : List Token) : Span := ⟨[token], rest, true⟩

/-- The tokens before the first that satisfies the test. -/
def upTo (stop : Token → Bool) : List Token → Span
  | [] => none []
  | token :: rest => if stop token then none (token :: rest) else (upTo stop rest).cons token

/-- Through the brace that closes the braces opened so far and in the stretch itself; a brace that
closes too much counts as closing nothing. -/
def braces : Nat → List Token → Span
  | _, [] => none []
  | depth, token :: rest =>
    if token.is "\x7b" then (braces (depth + 1) rest).cons token
    else if token.is "\x7d" then
      if depth ≤ 1 then ending token rest else (braces (depth - 1) rest).cons token
    else (braces depth rest).cons token

/-- Through the next `;`, or up to the brace that closes the scope around, stepping over groups in
braces. `depth` is the number of such groups around. -/
def recovery : Nat → List Token → Span
  | _, [] => none []
  | 0, token :: rest =>
    if token.is "\x7d" then none (token :: rest)
    else if token.is ";" then ending token rest
    else if token.is "\x7b" then (recovery 1 rest).cons token
    else (recovery 0 rest).cons token
  | depth + 1, token :: rest =>
    if token.is "\x7b" then (recovery (depth + 2) rest).cons token
    else if token.is "\x7d" then (recovery depth rest).cons token
    else (recovery (depth + 1) rest).cons token

/-- A declaration to be skipped: through its group in braces or its `;`, or up to a brace that
closes the scope around. -/
def declaration : List Token → Span
  | [] => none []
  | token :: rest =>
    if token.is "\x7b" then (braces 1 rest).cons token
    else if token.is ";" then ending token rest
    else if token.is "\x7d" then none (token :: rest)
    else (declaration rest).cons token

/-- Whether a token can be a name. -/
def isName (token : Token) : Bool := token.isIdent && !isKeyword token.text

/-- Names with points between them, and a point after them if no name follows it. -/
def dottedNames : List Token → Span
  | [] => none []
  | [token] => if isName token then ending token [] else none [token]
  | token :: next :: rest =>
    if isName token then
      if next.is "." then ((dottedNames rest).cons next).cons token else ending token (next :: rest)
    else none (token :: next :: rest)

/-- Points, each with a word after it. -/
def qualifiers : List Token → Span
  | point :: word :: rest =>
    if point.is "." && word.isIdent then ((qualifiers rest).cons word).cons point
    else none (point :: word :: rest)
  | rest => none rest

/-- Empty pairs of square brackets. -/
def arrayMarks : List Token → Span
  | opening :: closing :: rest =>
    if opening.is "[" && closing.is "]" then ((arrayMarks rest).cons closing).cons opening
    else none (opening :: closing :: rest)
  | rest => none rest

/-- What ends a list of type arguments that is not closed. -/
def endsAngles (token : Token) : Bool := token.isAny ["\x7b", ";", "(", "="]

/-- Through the `>` that closes the angles opened so far and in the stretch itself, or up to a token
that cannot stand between them. -/
def angles : Nat → List Token → Span
  | _, [] => none []
  | depth, token :: rest =>
    if token.is "<" then (angles (depth + 1) rest).cons token
    else if token.is ">" then
      if depth ≤ 1 then ending token rest else (angles (depth - 1) rest).cons token
    else if endsAngles token then none (token :: rest)
    else (angles depth rest).cons token

/-- Up to the bracket that closes a group whose opening bracket stands before. -/
def group : Nat → List Token → Span
  | _, [] => none []
  | depth, token :: rest =>
    if token.opens then (group (depth + 1) rest).cons token
    else if token.closes then
      if depth = 0 then none (token :: rest) else (group (depth - 1) rest).cons token
    else (group depth rest).cons token

/-- Whether the tokens after a comma start another declarator. -/
def startsDeclarator : List Token → Bool
  | name :: next :: _ => isName name && next.isAny ["=", ",", ";", "["]
  | _ => false

/-- An initial value: up to a `;` or closing brace outside all brackets, or up to a comma there that
another declarator follows. -/
def initializer : Nat → List Token → Span
  | _, [] => none []
  | depth, token :: rest =>
    if depth = 0 && (token.isAny [";", "\x7d"] || (token.is "," && startsDeclarator rest)) then
      none (token :: rest)
    else if token.opens then (initializer (depth + 1) rest).cons token
    else if token.closes then (initializer (depth - 1) rest).cons token
    else (initializer depth rest).cons token

/-- The words that continue a statement after a closed block. -/
def continuesBlocks : List Token → Bool
  | next :: _ => next.isAny ["catch", "finally"]
  | [] => false

/-- A plain statement: through its `;`, or, if it is one that ends with a block, through the brace
that closes its last block. It never takes a bracket that closes more than it opens. -/
def plainStatement (endsWithBlock : Bool) : Nat → List Token → Span
  | _, [] => none []
  | depth, token :: rest =>
    if depth = 0 && token.is ";" then ending token rest
    else if token.opens then (plainStatement endsWithBlock (depth + 1) rest).cons token
    else if token.closes then
      if depth = 0 then none (token :: rest)
      else if depth = 1 && endsWithBlock && token.is "\x7d" && !continuesBlocks rest then
        ending token rest
      else (plainStatement endsWithBlock (depth - 1) rest).cons token
    else (plainStatement endsWithBlock depth rest).cons token

end Span

namespace Token

/-- The parts of a list of tokens at separators outside all brackets. -/
def splitTop (separator : String) : Nat → List Token → List (List Token)
  | _, [] => [[]]
  | depth, token :: rest =>
    if depth = 0 && !token.opens && !token.closes && token.is separator then
      [] :: splitTop separator depth rest
    else
      let depth :=
        if token.opens then depth + 1 else if token.closes then depth - 1 else depth
      match splitTop separator depth rest with
      | [] => [[token]]
      | part :: parts => (token :: part) :: parts

/-- The names with a `(` after them that no `new` precedes; `created` tells whether one precedes the
first token. -/
def callees (created : Bool) : List Token → List Token
  | token :: next :: rest =>
    if token.isIdent && !isKeyword token.text && next.is "(" && !created then
      token :: callees (token.is "new") (next :: rest)
    else callees (token.is "new") (next :: rest)
  | _ => []

end Token

end Transcode
