import Transcode.Regex.Basic

/-!
# Finding and replacing matches

The matches of an expression in a text, from left to right and without overlap, and the text with
each of them replaced. A replacement may refer to groups: `$1`, `$name`, the same with braces around
the name, and `$$` for the sign itself; a group that did not match is empty.
-/

namespace Transcode.Regex

/-- Where the search goes on after a match: at its end, or one character further if it is empty. -/
inductive Resume where
  | here (spot : Spot)
  | after (skipped : Char) (spot : Spot)
  | never

/-- Where the search goes on after a match from one spot to another. -/
def resume (start stop : Spot) : Resume :=
  if start.offset < stop.offset then .here { stop with groups := [] }
  else match start.rest with
    | [] => .never
    | c :: rest => .after c (start.after c rest)

/-- The ends of the matches from a spot on, with at most `fuel` steps of the search. -/
def matchesWithin (regex : Regex) : Nat → Spot → List Spot
  | 0, _ => []
  | fuel + 1, spot =>
    match regex.matchAt spot, spot.rest with
    | some stop, _ =>
      match resume spot stop with
      | .here spot => stop :: matchesWithin regex fuel spot
      | .after _ spot => stop :: matchesWithin regex fuel spot
      | .never => [stop]
    | none, [] => []
    | none, c :: rest => matchesWithin regex fuel (spot.after c rest)

/-- The texts that a group matched in the matches of a text. -/
def groupTexts (regex : Regex) (index : Nat) (text : String) : List String :=
  (regex.matchesWithin (text.toList.length + 1) (.start text.toList)).map fun stop =>
    String.ofList ((stop.group? index).getD [])

/-- The text with what each match is replaced by, with at most `fuel` steps of the search. -/
def replaceWithin (regex : Regex) (replacement : Spot → Spot → List Char) :
    Nat → Spot → List Char
  | 0, spot => spot.rest
  | fuel + 1, spot =>
    match regex.matchAt spot, spot.rest with
    | some stop, _ =>
      match resume spot stop with
      | .here next => replacement spot stop ++ replaceWithin regex replacement fuel next
      | .after c next => replacement spot stop ++ c :: replaceWithin regex replacement fuel next
      | .never => replacement spot stop
    | none, [] => []
    | none, c :: rest => c :: replaceWithin regex replacement fuel (spot.after c rest)

/-- The characters that can stand in the name of a group in a replacement. -/
def isGroupNameChar (c : Char) : Bool :=
  Text.isAsciiLetter c || Text.isAsciiDigit c || c = '_'

/-- The number that a group's name is. -/
def groupNumber? (name : List Char) : Option Nat :=
  if !name.isEmpty && name.all Text.isAsciiDigit then
    some (name.foldl (fun value digit => 10 * value + (digit.toNat - 48)) 0)
  else none

/-- What a reference to a group stands for in a match; group zero is the whole match. -/
def groupText (start stop : Spot) (name : List Char) : List Char :=
  match groupNumber? name with
  | some 0 => start.textTo stop
  | some index => (stop.group? index).getD []
  | none => []

/-- A reference after its sign, with what follows it: a name in braces, or the longest name. -/
def reference? (cs : List Char) : Option (List Char × List Char) :=
  match cs with
  | '\x7b' :: rest =>
    match rest.dropWhile (· != '\x7d') with
    | _ :: after => some (rest.takeWhile (· != '\x7d'), after)
    | [] => none
  | cs =>
    let name := cs.takeWhile isGroupNameChar
    if name.isEmpty then none else some (name, cs.dropWhile isGroupNameChar)

/-- A replacement with its references filled in, of at most `fuel` characters. -/
def expandWithin (start stop : Spot) : Nat → List Char → List Char
  | 0, cs => cs
  | _, [] => []
  | fuel + 1, '$' :: '$' :: rest => '$' :: expandWithin start stop fuel rest
  | fuel + 1, '$' :: rest =>
    match reference? rest with
    | some (name, rest) => groupText start stop name ++ expandWithin start stop fuel rest
    | none => '$' :: expandWithin start stop fuel rest
  | fuel + 1, c :: rest => c :: expandWithin start stop fuel rest

/-- A replacement with its references filled in. -/
def expand (replacement : String) (start stop : Spot) : List Char :=
  expandWithin start stop replacement.toList.length replacement.toList

/-- A text with each match replaced. -/
def replaceAll (regex : Regex) (replacement : String) (text : List Char) : List Char :=
  regex.replaceWithin (expand replacement) (text.length + 1) (.start text)

end Transcode.Regex
