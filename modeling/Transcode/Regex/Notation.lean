import Transcode.Regex.Bracket

/-!
# The notation of regular expressions

Reads the notation of an expression: alternatives separated by `|`, groups, settings, repetitions,
sets, escapes, anchors and single characters. An expression that breaks the rules of the notation or
nests too deeply is none. A setting holds to the end of its group, also in later alternatives.
-/

namespace Transcode.Regex

open Text

/-- A part of an expression as it was read, with how deeply its notation nests. A change of settings
is a part without an expression; nothing can repeat it. -/
structure Part where
  regex : Option Regex
  depth : Nat := 0

/-- How deeply several parts nest: one level deeper than the deepest of them. -/
def Part.depthOf : List Part → Nat
  | [] => 0
  | [part] => part.depth
  | parts => parts.foldl (fun depth part => max depth part.depth) 0 + 1

/-- What an expression has said so far about groups: how many there are, and their names. -/
structure Groups where
  count : Nat := 0
  names : List String := []

/-- A group that has been read in part: its earlier alternatives and the parts of the last one,
latest first. -/
structure Draft where
  flags : Flags
  groups : Groups
  alternatives : List Part := []
  parts : List Part := []

namespace Draft

/-- The alternative that is being read. -/
def current (draft : Draft) : Part :=
  ⟨some (sequence (draft.parts.reverse.filterMap (·.regex))), Part.depthOf draft.parts⟩

/-- The draft after the end of an alternative. -/
def nextAlternative (draft : Draft) : Draft :=
  { draft with alternatives := draft.current :: draft.alternatives, parts := [] }

/-- The expression once all is read, with how deeply it nests. -/
def finish (draft : Draft) : Regex × Nat :=
  let alternatives := draft.nextAlternative.alternatives
  (choice (alternatives.reverse.filterMap (·.regex)), Part.depthOf alternatives)

/-- The draft with one more part. -/
def push (draft : Draft) (regex : Regex) (depth : Nat := 0) : Draft :=
  { draft with parts := ⟨some regex, depth⟩ :: draft.parts }

/-- The draft with a character as its next part, without regard to case if so set. -/
def pushChar (draft : Draft) (c : Char) : Draft :=
  draft.push (.set (draft.flags.fold (.single c)))

/-- The draft with a finished group as its next part. -/
def pushGroup (draft inner : Draft) (index : Option Nat) : Draft :=
  let (body, depth) := inner.finish
  { draft with groups := inner.groups }.push (.group index body) (depth + 1)

/-- The draft with new settings. -/
def configure (draft : Draft) (flags : Flags) : Draft :=
  { draft with flags, parts := ⟨none, 0⟩ :: draft.parts }

/-- The draft with its last part repeated, if there is one that can be. -/
def repeatLast? (draft : Draft) (least : Nat) (extra : Option Nat) (greedy : Bool) : Option Draft :=
  match draft.parts with
  | ⟨some regex, depth⟩ :: parts =>
    some { draft with
      parts := ⟨some (.many regex least extra (greedy != draft.flags.swapGreed)), depth + 1⟩ ::
        parts }
  | _ => none

end Draft

/-! ### Settings -/

/-- The settings with one switched. -/
def Flags.switch (flags : Flags) (value : Bool) : Char → Option Flags
  | 'i' => some { flags with caseless := value }
  | 'm' => some { flags with multiline := value }
  | 's' => some { flags with dotAll := value }
  | 'U' => some { flags with swapGreed := value }
  | 'u' => some { flags with asciiOnly := !value }
  | 'R' => some { flags with carriage := value }
  | 'x' => some { flags with verbose := value }
  | _ => none

/-- Reads the letters of settings after their question mark; a letter or the minus sign may stand
once, and the sign not at the end. The first character after them is left. -/
def readFlags (flags : Flags) (seen : List Char) :
    List Char → Option (Flags × List Char × List Char)
  | [] => none
  | c :: rest =>
    if c = ':' || c = ')' then
      if seen.head? = some '-' then none else some (flags, seen, c :: rest)
    else if seen.contains c then none
    else if c = '-' then readFlags flags (c :: seen) rest
    else match flags.switch (!seen.contains '-') c with
      | some flags => readFlags flags (c :: seen) rest
      | none => none

/-! ### Groups -/

/-- What an opening parenthesis begins. -/
inductive Opening where
  | settings (flags : Flags)
  | group (flags : Flags)
  | numbered (name : Option String)

/-- Whether a character can stand in a group's name. -/
def isNameChar (c : Char) : Bool :=
  isAlphanumeric c || c = '_' || c = '.' || c = '[' || c = ']'

/-- Reads a group's name up to the closing angle. -/
def readName (cs : List Char) : Option (String × List Char) :=
  match cutAt (· = '>') cs with
  | (c :: name, some rest) =>
    if (isAlphabetic c || c = '_') && name.all isNameChar then
      some (String.ofList (c :: name), rest)
    else none
  | _ => none

/-- Reads what follows an opening parenthesis, up to the content of the group. -/
def readOpening (flags : Flags) (cs : List Char) : Option (Opening × List Char) :=
  let named (cs : List Char) := (readName cs).map fun (name, rest) =>
    (Opening.numbered (some name), rest)
  match skipIgnored flags cs with
  | '?' :: '=' :: _ | '?' :: '!' :: _ | '?' :: '<' :: '=' :: _ | '?' :: '<' :: '!' :: _ => none
  | '?' :: 'P' :: '<' :: rest => named rest
  | '?' :: '<' :: rest => named rest
  | '?' :: rest =>
    match readFlags flags [] rest with
    | some (changed, seen, ')' :: rest) =>
      if seen.isEmpty then none else some (.settings changed, rest)
    | some (changed, _, _ :: rest) => some (.group changed, rest)
    | _ => none
  | cs => some (.numbered none, cs)

/-- The groups with one more, unless its name is taken. -/
def Groups.open? (groups : Groups) : Option String → Option Groups
  | none => some { groups with count := groups.count + 1 }
  | some name =>
    if groups.names.contains name then none
    else some ⟨groups.count + 1, name :: groups.names⟩

/-! ### Repetitions -/

/-- Reads a number with blanks around it. -/
def readNumber (flags : Flags) (cs : List Char) : Option (Nat × List Char) :=
  let (digits, rest) := takeWhileRead flags isAsciiDigit false (cs.dropWhile isBlank)
  let value := digits.foldl (fun value digit => 10 * value + (digit.toNat - '0'.toNat)) 0
  if digits.isEmpty || Nat.pow 2 32 ≤ value then none else some (value, rest.dropWhile isBlank)

/-- How often a part may be repeated. -/
structure Count where
  least : Nat
  extra : Option Nat

/-- Reads a count after its opening brace: a number, a lower bound, or both bounds in order. -/
def readCounts (flags : Flags) (cs : List Char) : Option (Count × List Char) := do
  let (least, rest) ← readNumber flags (skipIgnored flags cs)
  match rest with
  | '\x7d' :: rest => return (⟨least, some 0⟩, rest)
  | ',' :: rest =>
    match skipIgnored flags rest with
    | '\x7d' :: rest => return (⟨least, none⟩, rest)
    | rest =>
      let (most, rest) ← readNumber flags rest
      match rest with
      | '\x7d' :: rest => if least ≤ most then some (⟨least, some (most - least)⟩, rest) else none
      | _ => none
  | _ => none

/-- Reads the question mark after a repetition, which makes it reluctant. -/
def readGreed : List Char → Bool × List Char
  | '?' :: rest => (false, rest)
  | cs => (true, cs)

/-- A draft with its last part repeated, and what is left of the text. -/
def withRepetition (draft : Draft) (least : Nat) (extra : Option Nat) (cs : List Char) :
    Option (Draft × List Char) :=
  let (greedy, rest) := readGreed cs
  (draft.repeatLast? least extra greedy).map (·, rest)

/-! ### Expressions -/

/-- What a dot stands for. -/
def dotSet (flags : Flags) : Option CharSet :=
  if flags.asciiOnly then none
  else if flags.dotAll then some .any
  else if flags.carriage then some (.compl (.ofText "\r\n"))
  else some (.compl (.single '\n'))

/-- A draft with an escape as its next part. -/
def withEscape (draft : Draft) (cs : List Char) : Option (Draft × List Char) :=
  (readEscape draft.flags cs).map fun
    | (.char c, rest) => (draft.pushChar c, rest)
    | (.set chars, rest) => (draft.push (.set chars), rest)
    | (.place place, rest) => (draft.push (.anchor place), rest)

/-- A draft with one more part that is no group, or its last part repeated, or a new alternative. -/
def readPart (draft : Draft) : List Char → Option (Draft × List Char)
  | '|' :: rest => some (draft.nextAlternative, rest)
  | '[' :: rest =>
    let (bracket, rest) := Bracket.begin draft.flags rest
    (readBracket draft.flags (rest.length + 1) bracket rest).map fun (read, rest) =>
      (draft.push (.set read.chars) read.depth, rest)
  | '?' :: rest => withRepetition draft 0 (some 1) rest
  | '*' :: rest => withRepetition draft 0 none rest
  | '+' :: rest => withRepetition draft 1 none rest
  | '\x7b' :: rest => do
    let (count, rest) ← readCounts draft.flags rest
    withRepetition draft count.least count.extra (skipIgnored draft.flags rest)
  | '\\' :: rest => withEscape draft rest
  | '.' :: rest => (dotSet draft.flags).map fun chars => (draft.push (.set chars), rest)
  | '^' :: rest =>
    let place := if draft.flags.multiline then .lineStart draft.flags.carriage else .textStart
    some (draft.push (.anchor place), rest)
  | '$' :: rest =>
    let place := if draft.flags.multiline then .lineEnd draft.flags.carriage else .textEnd
    some (draft.push (.anchor place), rest)
  | c :: rest => some (draft.pushChar c, rest)
  | [] => none

/-- Reads a group up to its closing parenthesis, which is left, or the end of the text. Every step
takes a character, so the length of the text bounds the steps. -/
def readGroup : Nat → Draft → List Char → Option (Draft × List Char)
  | 0, _, _ => none
  | fuel + 1, draft, cs =>
    match skipIgnored draft.flags cs with
    | [] => some (draft, [])
    | ')' :: rest => some (draft, ')' :: rest)
    | '(' :: rest =>
      match readOpening draft.flags rest with
      | none => none
      | some (.settings flags, rest) => readGroup fuel (draft.configure flags) rest
      | some (.group flags, rest) =>
        match readGroup fuel { flags, groups := draft.groups } rest with
        | some (inner, ')' :: rest) => readGroup fuel (draft.pushGroup inner none) rest
        | _ => none
      | some (.numbered name, rest) =>
        match draft.groups.open? name with
        | none => none
        | some groups =>
          match readGroup fuel { flags := draft.flags, groups } rest with
          | some (inner, ')' :: rest) =>
            readGroup fuel (draft.pushGroup inner (some groups.count)) rest
          | _ => none
    | cs =>
      match readPart draft cs with
      | some (draft, rest) => readGroup fuel draft rest
      | none => none

/-- How deeply the notation of an expression may nest. -/
def maxDepth : Nat := 250

/-- The expression that a notation denotes. -/
def ofNotation? (source : String) : Option Regex :=
  match readGroup (source.toList.length + 1) { flags := {}, groups := {} } source.toList with
  | some (draft, []) =>
    let (regex, depth) := draft.finish
    if depth ≤ maxDepth then some regex else none
  | _ => none

end Transcode.Regex
