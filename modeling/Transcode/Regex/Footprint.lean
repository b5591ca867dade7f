import Std.Data.HashMap
import Transcode.Regex.Shape

/-!
# The size of expressions

An expression runs as an automaton over the bytes of UTF-8, once from the front of a text and once
from its back, and both automata must fit into ten mebibytes. A state takes thirty-two bytes; each
range of bytes that a state of several ranges tells apart takes eight more, and each way out of a
fork four. States that go on in the same way are shared, as far as they are remembered: a state is
remembered in one of a fixed number of slots, until another state takes that slot.

`Regex.fits` weighs an expression. A rough bound that needs no table of characters decides at once
for nearly all of them.
-/

namespace Transcode

open Text

/-- The states of an automaton under construction, and the bytes that they take besides. -/
structure Load where
  states : Nat := 0
  links : Nat := 0

namespace Load

/-- The bytes that an automaton may take. -/
def limit : Nat := 10 * Nat.pow 2 20

/-- The bytes that an automaton takes. -/
def size (load : Load) : Nat := 32 * load.states + load.links

/-- Whether an automaton may be as large. -/
def fits (load : Load) : Bool := load.size ≤ limit

/-- The load with more states. -/
def addStates (load : Load) (count : Nat) : Load := { load with states := load.states + count }

/-- The load with a state that tells ranges of bytes apart. -/
def addRanges (load : Load) (count : Nat) : Load := ⟨load.states + 1, load.links + 8 * count⟩

/-- The load with more ways out of forks. -/
def addWays (load : Load) (count : Nat) : Load := { load with links := load.links + 4 * count }

/-- The load after a number of additions, as long as it fits. -/
def repeated (step : Load → Load) : Nat → Load → Load
  | 0, load => load
  | count + 1, load => if load.fits then repeated step count (step load) else load

end Load

/-! ### Bytes of characters -/

/-- Bytes between two. -/
abbrev ByteRange := Nat × Nat

/-- The bytes of the character with a code. -/
def codeBytes (code : Nat) : List Nat :=
  if code < 0x80 then [code]
  else if code < 0x800 then [0xC0 + code / 64, 0x80 + code % 64]
  else if code < 0x10000 then [0xE0 + code / 4096, 0x80 + code / 64 % 64, 0x80 + code % 64]
  else [0xF0 + code / 262144, 0x80 + code / 4096 % 64, 0x80 + code / 64 % 64, 0x80 + code % 64]

/-- Where a run of codes must be cut so that its parts agree in all but the last bytes, and range
over all of these: first where the number of bytes grows, then at a multiple of `block`. -/
def cutAtBlock? (first last block : Nat) : Option Nat :=
  if first / block = last / block then none
  else if first % block ≠ 0 then some ((first / block + 1) * block)
  else if last % block ≠ block - 1 then some (last / block * block)
  else none

/-- Where a run of codes must be cut first. -/
def cut? (first last : Nat) : Option Nat :=
  match [0x80, 0x800, 0x10000].find? fun bound => first < bound && bound ≤ last with
  | some bound => some bound
  | none =>
    if last < 0x80 then none else [64, 4096, 262144].findSome? (cutAtBlock? first last)

/-- The sequences of ranges of bytes that the characters of a run of codes are written with. -/
def byteSequences (first last : Nat) : List (List ByteRange) :=
  match cut? first last with
  | none => [(codeBytes first).zip (codeBytes last)]
  | some cut =>
    if _h : first < cut ∧ cut ≤ last then byteSequences first (cut - 1) ++ byteSequences cut last
    else [(codeBytes first).zip (codeBytes last)]
  termination_by last - first

/-- The sequences of ranges of bytes that the characters of a set are written with. -/
def CodePoints.byteSequences (chars : CodePoints) : List (List ByteRange) :=
  chars.ranges.flatMap fun range => Transcode.byteSequences range.1 range.2

/-! ### Slots -/

/-- The slot of a list of numbers, by mixing them in turn. -/
def slotOf (slots : Nat) (numbers : List Nat) : Nat :=
  (numbers.foldl (fun mixed number => (mixed ^^^ number.toUInt64) * 1099511628211)
    (14695981039346656037 : UInt64)).toNat % slots

/-- States that are remembered, by slot: what they are, and their number. -/
abbrev Slots := Std.HashMap Nat (List Nat × Nat)

/-- The number of a state that is still remembered. -/
def Slots.find? (slots : Slots) (slot : Nat) (state : List Nat) : Option Nat :=
  match slots.get? slot with
  | some (kept, number) => if kept = state then some number else none
  | none => none

/-! ### Sets from the front -/

/-- A state under construction: the finished ranges, latest first, each with the state that follows,
and the range whose next state is not finished. -/
structure OpenState where
  finished : List (ByteRange × Nat) := []
  current : ByteRange

/-- An automaton with the states that it remembers. -/
structure Sharing where
  load : Load
  slots : Slots := {}

/-- The number of a state with given ranges, which is added unless it is remembered. -/
def Sharing.state (sharing : Sharing) (ranges : List (ByteRange × Nat)) : Nat × Sharing :=
  let numbers := ranges.flatMap fun (range, next) => [range.1, range.2, next]
  let slot := slotOf 10000 numbers
  match sharing.slots.find? slot numbers with
  | some number => (number, sharing)
  | none =>
    let number := sharing.load.states
    (number, ⟨sharing.load.addRanges ranges.length, sharing.slots.insert slot (numbers, number)⟩)

/-- The states of a path finished from its end on, where `last` follows; the number of the first. -/
def Sharing.finish (last : Nat) : List OpenState → Sharing → Nat × Sharing
  | [], sharing => (last, sharing)
  | state :: path, sharing =>
    let (next, sharing) := finish last path sharing
    sharing.state ((state.current, next) :: state.finished).reverse

/-- The path of states for a sequence of ranges. -/
def openPath (sequence : List ByteRange) : List OpenState := sequence.map fun range => ⟨[], range⟩

/-- The path with one more sequence, which shares the states up to where it differs. -/
def Sharing.follow (last : Nat) :
    List OpenState → List ByteRange → Sharing → List OpenState × Sharing
  | state :: path, range :: sequence, sharing =>
    if state.current = range then
      let (path, sharing) := follow last path sequence sharing
      (state :: path, sharing)
    else
      let (next, sharing) := sharing.finish last path
      (⟨(state.current, next) :: state.finished, range⟩ :: openPath sequence, sharing)
  | _, sequence, sharing => (openPath sequence, sharing)

/-- The load with the states for a set that is read from the front. -/
def Load.addForward (load : Load) (sequences : List (List ByteRange)) : Load :=
  let last := load.states
  let (path, sharing) := sequences.foldl
    (fun (path, sharing) sequence => Sharing.follow last path sequence sharing)
    ([], { load := load.addStates 1 })
  (sharing.finish last path).2.load

/-! ### Sets from the back -/

/-- The automaton with the states for a sequence of ranges that is read from its back, where `next`
follows. -/
def Sharing.addReversed (next : Nat) : List ByteRange → Sharing → Sharing
  | [], sharing => { sharing with load := sharing.load.addWays 1 }
  | range :: sequence, sharing =>
    let numbers := [next, range.1, range.2]
    let slot := slotOf 1000 numbers
    match sharing.slots.find? slot numbers with
    | some number => addReversed number sequence sharing
    | none =>
      let number := sharing.load.states
      addReversed number sequence
        ⟨sharing.load.addStates 1, sharing.slots.insert slot (numbers, number)⟩

/-- The load with the states for a set that is read from the back. -/
def Load.addBackward (load : Load) (sequences : List (List ByteRange)) : Load :=
  let start : Sharing := { load := load.addStates 2 }
  (sequences.foldl (fun sharing sequence => Sharing.addReversed (load.states + 1) sequence sharing)
    start).load

/-- The load with the states for a set. A set of ASCII characters takes one state. -/
def Load.addSet (load : Load) (side : Shape.Side) (chars : CodePoints) : Load :=
  if chars.isAscii then (load.addStates 1).addRanges chars.ranges.length
  else match side with
    | .front => load.addForward (CodePoints.byteSequences chars)
    | .back => load.addBackward (CodePoints.byteSequences chars)

/-! ### Choices of texts -/

/-- The runs of words between the empty words. An empty word before any other counts once. -/
def wordRuns (words : List (List Nat)) : List (List (List Nat)) :=
  match words with
  | [] => [[]]
  | word :: rest =>
    match wordRuns rest with
    | [] => [[word]]
    | run :: runs => if word.isEmpty then [] :: run :: runs else (word :: run) :: runs

/-- The words without the empty ones at the start, but for one. -/
def dropLeadingEmpty : List (List Nat) → List (List Nat)
  | [] :: [] :: rest => dropLeadingEmpty ([] :: rest)
  | words => words

/-- The load with the states for a choice of words that are read to the same letter: words that
begin with the same letter share its way. Words get shorter, so their greatest length bounds the
depth. -/
def Load.addWords : Nat → List (List Nat) → Load → Load
  | 0, _, load => load
  | depth + 1, words, load =>
    if words.all (·.isEmpty) then load
    else
      let runs := wordRuns (dropLeadingEmpty words)
      let load := runs.foldl (fun load run =>
        let letters := (run.filterMap (·.head?)).eraseDups
        let load := letters.foldl (fun load letter =>
          addWords depth ((run.filter (·.head? = some letter)).map (·.drop 1)) load) load
        match letters with
        | [] => load
        | [_] => load.addStates 1
        | letters => load.addRanges letters.length) load
      let ways := (runs.filter (!·.isEmpty)).length + (runs.length - 1)
      if ways = 1 then load else (load.addStates 1).addWays ways

/-! ### Expressions -/

namespace Shape

/-- The bytes of a text. -/
def wordOf? : Shape → Option (List Nat)
  | .literal text => some (text.flatMap fun c => codeBytes c.toNat)
  | _ => none

/-- The load with the states of a repetition whose body adds `step`. -/
def addRepetition (step : Load → Load) (canBeEmpty : Bool) (least : Nat) (most : Option Nat)
    (load : Load) : Load :=
  match least, most with
  | 0, some 1 => ((step (load.addStates 1)).addStates 1).addWays 2
  | 0, none =>
    if canBeEmpty then ((step load).addStates 3).addWays 4
    else (step (load.addStates 1)).addWays 2
  | least, none => ((Load.repeated step least load).addStates 1).addWays 2
  | least, some most =>
    let load := Load.repeated step least load
    let load := if least = 0 then load.addStates 1 else load
    if least = most then load
    else Load.repeated (fun load => (step (load.addStates 1)).addWays 2) (most - least)
      (load.addStates 1)

mutual

/-- The load with the states of an expression, and with the way that leads on from it. -/
def weigh (side : Side) : Shape → Load → Load
  | .empty, load => load.addStates 1
  | .literal text, load => load.addStates (textBytes text)
  | .set chars, load => load.addSet side chars
  | .anchor _, load => load.addStates 1
  | .many body least most _, load =>
    addRepetition (weigh side body) (body.shortest.all (· = 0)) least most load
  | .group _ body, load =>
    match side with
    | .front => (weigh side body (load.addStates 1)).addStates 1
    | .back => weigh side body load
  | .sequence parts, load => weighSequence side parts load
  | .choice alternatives, load =>
    match alternatives.mapM wordOf? with
    | some words =>
      let words := match side with
        | .front => words
        | .back => words.map List.reverse
      Load.addWords ((words.map List.length).foldl max 0 + 1) words (load.addStates 1)
    | none => weighChoice side alternatives load

/-- The load with the states of the parts of a sequence. -/
def weighSequence (side : Side) : List Shape → Load → Load
  | [], load => load
  | part :: rest, load =>
    match side with
    | .front => weighSequence side rest (weigh side part load)
    | .back => weigh side part (weighSequence side rest load)

/-- The load with the states of alternatives; the fork stands after the first two. -/
def weighChoice (side : Side) : List Shape → Load → Load
  | [first, second], load => ((weigh side second (weigh side first load)).addStates 2).addWays 2
  | first :: second :: rest, load =>
    weighRest side rest
      (((weigh side second (weigh side first load)).addStates 2).addWays 2)
  | [only], load => weigh side only load
  | [], load => load

/-- The load with the states of further alternatives. -/
def weighRest (side : Side) : List Shape → Load → Load
  | [], load => load
  | part :: rest, load => weighRest side rest ((weigh side part load).addWays 1)

end

/-- The load of the automaton of an expression, with what stands around the expression: the search
for a start, unless a match can only stand at the end of the text where the search begins. -/
def load (shape : Shape) (side : Side) : Load :=
  let place := match side with
    | .front => Anchor.textStart
    | .back => Anchor.textEnd
  let start : Load :=
    if shape.asksFor side place then { states := 1 } else { states := 3, links := 16 }
  match side with
  | .front => ((shape.weigh side (start.addStates 1)).addStates 1).addStates 1
  | .back => (shape.weigh side start).addStates 1

end Shape

/-! ### A rough bound -/

/-- A bound on the bytes that a set adds to an automaton. -/
def CharSet.roughSize : CharSet → Nat
  | .none => 64
  | .any => 4096
  | .range _ _ => 4096
  | .property _ => 65536
  | .ofPoints _ => 65536
  | .union left right => left.roughSize + right.roughSize
  | .inter left right => left.roughSize + right.roughSize
  | .compl set => set.roughSize + 4096
  | .caseless set => set.roughSize + 262144
  | .asciiCaseless set => set.roughSize + 4096

namespace Regex

/-- A bound on the bytes that an expression adds to an automaton. -/
def roughSize : Regex → Nat
  | .empty => 64
  | .set chars => chars.roughSize
  | .anchor _ => 64
  | .seq first second => first.roughSize + second.roughSize + 64
  | .alt first second => first.roughSize + second.roughSize + 128
  | .many body least none _ => (body.roughSize + 64) * max 1 least + 256
  | .many body least (some extra) _ => (body.roughSize + 64) * (least + extra) + 256
  | .group _ body => body.roughSize + 128

/-- Whether the automata of an expression fit, from both sides. -/
def fits (regex : Regex) : Bool :=
  regex.roughSize + 1024 ≤ Load.limit ||
    ((regex.shape.load .front).fits && (regex.shape.load .back).fits)

end Regex

end Transcode
