import Transcode.Regex.Footprint
import Transcode.Regex.Notation

/-!
# Automata

Whether a text holds a match is found by an automaton that reads the text once and follows all ways
at the same time, so the time grows with the size of the expression and the length of the text only.
A place of the automaton is visited at most once between two characters.
-/

namespace Transcode

open Text

/-- What a place of an automaton does before it goes on. -/
inductive Step where
  | take (chars : CodePoints) (next : Nat)
  | ask (place : Anchor) (next : Nat)
  | fork (first second : Nat)
  | accept

/-- An automaton: the steps at its places, and the place where it starts. -/
structure Automaton where
  steps : Array Step
  start : Nat

namespace Automaton

/-! ### Building

Places are added from the end of an expression to its start: every function is given the steps so
far and the place to go on to, and gives the steps and the place to begin with. -/

/-- The steps of a part, added to others before a place to go on to. -/
abbrev Adding := Array Step → Nat → Array Step × Nat

/-- One more step. -/
def addStep (steps : Array Step) (step : Step) : Array Step × Nat :=
  let place := steps.size
  (steps.push step, place)

/-- The steps of a text, given from its back. -/
def addReversed : List Char → Adding
  | [], steps, next => (steps, next)
  | c :: rest, steps, next =>
    let place := steps.size
    addReversed rest (steps.push (.take (.ofCodes [c.toNat]) next)) place

/-- As many copies of a part as given, one after the other. -/
def addCopies (part : Adding) : Nat → Adding
  | 0, steps, next => (steps, next)
  | count + 1, steps, next =>
    let (steps, first) := part steps next
    addCopies part count steps first

/-- As many copies of a part as given, each of which can be left out with those after it to go on to
`exit`. -/
def addOptional (part : Adding) (exit : Nat) : Nat → Adding
  | 0, steps, next => (steps, next)
  | count + 1, steps, next =>
    let (steps, first) := part steps next
    let (steps, fork) := addStep steps (.fork first exit)
    addOptional part exit count steps fork

/-- A part that can be taken any number of times, at least once if so asked for: the part leads to a
fork that leads back to it. -/
def addLoop (part : Adding) (once : Bool) : Adding := fun steps next =>
  let (steps, loop) := addStep steps (.fork next next)
  let (steps, first) := part steps loop
  (steps.setIfInBounds loop (.fork first next), if once then first else loop)

mutual

/-- The steps of an expression. -/
def add : Shape → Adding
  | .empty, steps, next => (steps, next)
  | .literal text, steps, next => addReversed text.reverse steps next
  | .set chars, steps, next => addStep steps (.take chars next)
  | .anchor place, steps, next => addStep steps (.ask place next)
  | .many body least none _, steps, next =>
    let (steps, first) := addLoop (add body) (0 < least) steps next
    addCopies (add body) (least - 1) steps first
  | .many body least (some most) _, steps, next =>
    let (steps, first) := addOptional (add body) next (most - least) steps next
    addCopies (add body) least steps first
  | .group _ body, steps, next => add body steps next
  | .sequence parts, steps, next => addSequence parts steps next
  | .choice alternatives, steps, next => addChoice alternatives steps next

/-- The steps of parts one after the other. -/
def addSequence : List Shape → Adding
  | [], steps, next => (steps, next)
  | part :: rest, steps, next =>
    let (steps, others) := addSequence rest steps next
    add part steps others

/-- The steps of alternatives that go on to the same place. -/
def addChoice : List Shape → Adding
  | [], steps, next => (steps, next)
  | [only], steps, next => add only steps next
  | part :: rest, steps, next =>
    let (steps, others) := addChoice rest steps next
    let (steps, first) := add part steps next
    addStep steps (.fork first others)

end

/-- The automaton of an expression. -/
def ofShape (shape : Shape) : Automaton :=
  let (steps, start) := add shape #[.accept] 0
  ⟨steps, start⟩

/-! ### Running -/

/-- Where an automaton can be between two characters: when each place was visited last, the places
that take a character, and whether a match ends. -/
structure Front where
  visits : Array Nat
  waiting : List (CodePoints × Nat) := []
  accepted : Bool := false

/-- The front after visits to places and all that can be reached from them without a character. The
visits are numbered by the characters read. A place that was not visited yet leads to two more at
most, so `fuel` suffices if it is twice the number of places and the number of those given. -/
def Front.visit (automaton : Automaton) (before after : Option Char) (visit : Nat) :
    Nat → List Nat → Front → Front
  | 0, _, front => front
  | _, [], front => front
  | fuel + 1, place :: places, front =>
    if front.visits.getD place visit = visit then
      Front.visit automaton before after visit fuel places front
    else
      let front := { front with visits := front.visits.setIfInBounds place visit }
      match automaton.steps[place]? with
      | some (.take chars next) =>
        Front.visit automaton before after visit fuel places
          { front with waiting := (chars, next) :: front.waiting }
      | some (.ask anchor next) =>
        let places := if anchor.holds before after then next :: places else places
        Front.visit automaton before after visit fuel places front
      | some (.fork first second) =>
        Front.visit automaton before after visit fuel (first :: second :: places) front
      | some .accept =>
        Front.visit automaton before after visit fuel places { front with accepted := true }
      | none => Front.visit automaton before after visit fuel places front

/-- Whether a match ends in a text from a character on, if the automaton can go on at some places
and start anew at any character. -/
def runFrom (automaton : Automaton) (visits : Array Nat) (visit : Nat) (before : Option Char)
    (places : List Nat) (text : List Char) : Bool :=
  let fuel := 2 * automaton.steps.size + places.length + 1
  let front := Front.visit automaton before text.head? visit fuel (automaton.start :: places)
    { visits }
  front.accepted || match text with
    | [] => false
    | c :: rest =>
      let next := front.waiting.filterMap fun (chars, next) =>
        if chars.contains c then some next else none
      runFrom automaton front.visits (visit + 1) (some c) next rest

/-- Whether a text holds a match. -/
def isMatch (automaton : Automaton) (text : String) : Bool :=
  automaton.runFrom (Array.replicate automaton.steps.size 0) 1 none [] text.toList

/-- The automaton for whole texts that a notation denotes, unless it is too large. The notation is
read between `^(?:` and `)$`, so it can close that group and open another. -/
def whole? (source : String) : Option Automaton :=
  match Regex.ofNotation? ("^(?:" ++ source ++ ")$") with
  | some regex => if regex.fits then some (ofShape regex.shape) else none
  | none => none

end Automaton

end Transcode
