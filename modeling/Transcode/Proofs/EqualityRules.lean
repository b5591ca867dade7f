import Transcode.Proofs.LiteralLayout

/-!
# The rules for expressions

What the rules for equality, inequality and numbers swap, at any place of a text: each matches what
it is for with the characters right beside it (`Output.swap?_equality`, `Output.swap?_inequality`,
`Output.swap?_long`). In a scope without names these and the rules for the library are all that
changes code (`Output.replaceCode_empty`).
-/

namespace Transcode.Output

open Regex Text

/-! ### The rules for equality -/

/-- The rule for equality. -/
def equalityRule : Substitution :=
  ⟨sequence
      [capture 1 (choice [.anchor .textStart, .set (.compl (.ofText "=!<>"))]), literal "==",
       capture 2 noEqualsNext],
    "$1===$2"⟩

/-- The rule for inequality. -/
def inequalityRule : Substitution := ⟨.seq (literal "!=") (capture 1 noEqualsNext), "!==$1"⟩

/-- The rule for numbers of another size. -/
def longRule : Substitution :=
  ⟨sequence
      [.anchor .wordEdge, capture 1 (plus (.set (.property .digit))), .set (.ofText "lL"),
       .anchor .wordEdge],
    "$1"⟩

/-- The rules for calls and creations of the library. -/
def libraryRules : List Substitution := expressionSubstitutions.take 11

/-- The rules of expressions are those of the library, the two for equality and that for long
numbers. -/
theorem expressionSubstitutions_eq :
    expressionSubstitutions = libraryRules ++ [equalityRule, inequalityRule, longRule] := rfl

/-- What can follow signs that are matched: another character, or the end of the text. -/
def IsTail (tail rest : List Char) : Prop := tail = [] ∧ rest = [] ∨ ∃ c, tail = [c] ∧ c ≠ '='

/-- What must not be a further sign is the end of the text or another character. -/
theorem mem_paths_noEqualsNext {start stop : Spot} : stop ∈ noEqualsNext.paths start ↔
    ∃ tail, start.rest = tail ++ stop.rest ∧ IsTail tail stop.rest ∧
      stop = start.past tail stop.rest := by
  simp only [noEqualsNext, choice, mem_paths_alt, mem_paths_set, mem_paths_anchor,
    CharSet.mem_compl, CharSet.mem_single]
  constructor
  · rintro (⟨c, rest, same, other, rfl⟩ | ⟨atEnd, rfl⟩)
    · exact ⟨[c], same, .inr ⟨c, rfl, other⟩, rfl⟩
    · have none : stop.rest = [] := by simpa [Anchor.holds] using atEnd
      exact ⟨[], rfl, .inl ⟨rfl, none⟩, stop.past_nil.symm⟩
  · rintro ⟨tail, same, ⟨rfl, none⟩ | ⟨c, rfl, other⟩, past⟩
    · refine .inr ⟨?_, ?_⟩
      · rw [same, none]
        rfl
      · rw [past, ← List.nil_append stop.rest, ← same, Spot.past_nil]
    · exact .inl ⟨c, stop.rest, same, other, past⟩

/-- What can come before signs that are matched: a character that makes no other operator of them,
or nothing at the start of the text. -/
def IsFront (read front : List Char) : Prop :=
  front = [] ∧ read = [] ∨ ∃ d, front = [d] ∧ d ∉ ['=', '!', '<', '>']

/-- In front of an equality is the start of the text or a character of no other operator. -/
theorem mem_paths_front {start stop : Spot} {read rest : List Char}
    (there : start = .between read rest) :
    stop ∈ (choice [.anchor .textStart, .set (.compl (.ofText "=!<>"))]).paths start ↔
      ∃ front, start.rest = front ++ stop.rest ∧ IsFront read front ∧
        stop = start.past front stop.rest := by
  simp only [choice, mem_paths_alt, mem_paths_set, mem_paths_anchor, CharSet.mem_compl,
    CharSet.mem_ofText]
  constructor
  · rintro (⟨atStart, rfl⟩ | ⟨d, rest, same, other, rfl⟩)
    · have none : read = [] := by simpa [Anchor.holds, there, Spot.between] using atStart
      exact ⟨[], rfl, .inl ⟨rfl, none⟩, stop.past_nil.symm⟩
    · exact ⟨[d], same, .inr ⟨d, rfl, other⟩, rfl⟩
  · rintro ⟨front, same, ⟨rfl, none⟩ | ⟨d, rfl, other⟩, past⟩
    · refine .inl ⟨?_, ?_⟩
      · rw [there, none]
        rfl
      · rw [past, ← List.nil_append stop.rest, ← same, Spot.past_nil]
    · exact .inr ⟨d, stop.rest, same, other, past⟩

/-- Two signs with no third beside them, and no operator character before them. -/
structure EqualityAt (read rest front tail others : List Char) : Prop where
  rest_eq : rest = front ++ ('=' :: '=' :: (tail ++ others))
  isFront : IsFront read front
  isTail : IsTail tail others

/-- **The rule for equality** matches two signs with what is right beside them. -/
theorem exists_of_mem_paths_equality {read rest : List Char} {stop : Spot}
    (member : stop ∈ equalityRule.pattern.paths (.between read rest)) :
    ∃ front tail, EqualityAt read rest front tail stop.rest ∧
      (Spot.between read rest).Reads stop (front ++ '=' :: '=' :: tail) ∧
      expand equalityRule.replacement (.between read rest) stop =
        front ++ '=' :: '=' :: '=' :: tail := by
  simp only [equalityRule, Regex.sequence, capture, mem_paths_seq, mem_paths_group,
    mem_paths_literal, mem_paths_noEqualsNext] at member
  obtain ⟨first, ⟨inner, early, closed⟩, middle, ⟨others, same, passed⟩, last,
    ⟨tail, late, isTail, past⟩, ended⟩ := member
  obtain ⟨front, before, isFront, pastFront⟩ := (mem_paths_front rfl).mp early
  have readsFront : (Spot.between read rest).Reads inner front :=
    Spot.reads_of_eq_past before pastFront
  have readsSigns : first.Reads middle ['=', '='] := passed ▸ Spot.reads_past same
  have readsTail : middle.Reads last tail := Spot.reads_of_eq_past late past
  have firstGroup : stop.group? 1 = some front := by
    have groups : last.groups = first.groups := by
      rw [past, passed]
      rfl
    rw [← Spot.group?_close readsFront 1, closed, Spot.group?, Spot.group?, ← groups, ← ended]
    rfl
  have secondGroup : stop.group? 2 = some tail := ended ▸ Spot.group?_close readsTail 2
  have written (stop : Spot) : expand equalityRule.replacement (.between read rest) stop =
      (stop.group? 1).getD [] ++ '=' :: '=' :: '=' :: ((stop.group? 2).getD [] ++ []) := rfl
  refine ⟨front, tail, ⟨?_, isFront, ?_⟩, ?_, ?_⟩
  · have afterFront : inner.rest = '=' :: '=' :: others := by
      rw [← Spot.rest_close (some 1) (.between read rest), closed]
      exact same
    have afterSigns : middle.rest = others := passed ▸ rfl
    rw [← ended, Spot.rest_close, ← late, afterSigns, ← afterFront]
    exact before
  · rw [← ended, Spot.rest_close]
    exact isTail
  · have reads := (closed ▸ readsFront.close (some 1) : (Spot.between read rest).Reads first front)
    have readsEnd := (ended ▸ readsTail.close (some 2) : middle.Reads stop tail)
    have all := (reads.trans readsSigns).trans readsEnd
    rwa [List.append_assoc] at all
  · rw [written, firstGroup, secondGroup, List.append_nil]
    rfl

/-- What the rule for equality swaps. -/
theorem swap?_equality {read rest : List Char} {swap : Swap}
    (found : equalityRule.swap? read rest = some swap) :
    ∃ front tail, EqualityAt read rest front tail swap.rest ∧
      swap.taken = front ++ '=' :: '=' :: tail ∧
        swap.written = front ++ '=' :: '=' :: '=' :: tail := by
  obtain ⟨stop, member, reads, left, written⟩ := Substitution.exists_of_swap? found
  obtain ⟨front, tail, place, also, expanded⟩ := exists_of_mem_paths_equality member
  refine ⟨front, tail, left ▸ place, ?_, written.symm.trans expanded⟩
  rw [← reads.textTo_eq, also.textTo_eq]

/-- Where the signs are, the rule does swap. -/
theorem swap?_equality_ne_none {read rest front tail others : List Char}
    (place : EqualityAt read rest front tail others) : equalityRule.swap? read rest ≠ none := by
  let inner := (Spot.between read rest).past front ('=' :: '=' :: (tail ++ others))
  let middle := (inner.close (some 1) (.between read rest)).past "==".toList (tail ++ others)
  have start : inner ∈
      (choice [.anchor .textStart, .set (.compl (.ofText "=!<>"))]).paths (.between read rest) :=
    (mem_paths_front rfl).mpr ⟨front, place.rest_eq, place.isFront, rfl⟩
  have member : (middle.past tail others).close (some 2) middle ∈
      equalityRule.pattern.paths (.between read rest) := by
    simp only [equalityRule, Regex.sequence, capture, mem_paths_seq, mem_paths_group,
      mem_paths_literal, mem_paths_noEqualsNext]
    exact ⟨_, ⟨inner, start, rfl⟩, middle, ⟨tail ++ others, rfl, rfl⟩, middle.past tail others,
      ⟨tail, rfl, place.isTail, rfl⟩, rfl⟩
  simpa [Substitution.swap?] using List.ne_nil_of_mem member

/-- **The rule for inequality** matches its signs with what comes next. -/
theorem swap?_inequality {read rest : List Char} {swap : Swap}
    (found : inequalityRule.swap? read rest = some swap) :
    ∃ tail, rest = '!' :: '=' :: (tail ++ swap.rest) ∧ IsTail tail swap.rest ∧
      swap.taken = '!' :: '=' :: tail ∧ swap.written = '!' :: '=' :: '=' :: tail := by
  obtain ⟨stop, member, reads, left, written⟩ := Substitution.exists_of_swap? found
  simp only [inequalityRule, capture, mem_paths_seq, mem_paths_group, mem_paths_literal,
    mem_paths_noEqualsNext] at member
  obtain ⟨middle, ⟨others, same, passed⟩, last, ⟨tail, late, isTail, past⟩, ended⟩ := member
  have readsSigns : (Spot.between read rest).Reads middle ['!', '='] :=
    passed ▸ Spot.reads_past same
  have readsTail : middle.Reads last tail := Spot.reads_of_eq_past late past
  have group : stop.group? 1 = some tail := ended ▸ Spot.group?_close readsTail 1
  have readsEnd := (ended ▸ readsTail.close (some 1) : middle.Reads stop tail)
  have rest_eq : stop.rest = last.rest := by rw [← ended, Spot.rest_close]
  have expanded : expand inequalityRule.replacement (.between read rest) stop =
      '!' :: '=' :: '=' :: ((stop.group? 1).getD [] ++ []) := rfl
  refine ⟨tail, ?_, ?_, ?_, ?_⟩
  · rw [← left]
    exact (readsSigns.trans readsEnd).rest_eq
  · rw [← left, rest_eq]
    exact isTail
  · rw [← reads.textTo_eq, (readsSigns.trans readsEnd).textTo_eq]
    rfl
  · rw [← written, expanded, group, List.append_nil]
    rfl

/-- The rule for inequality applies wherever an inequality is written. -/
theorem swap?_inequality_ne_none {read tail others : List Char} (isTail : IsTail tail others) :
    inequalityRule.swap? read ('!' :: '=' :: (tail ++ others)) ≠ none := by
  let start := Spot.between read ('!' :: '=' :: (tail ++ others))
  let middle := start.past "!=".toList (tail ++ others)
  have member :
      (middle.past tail others).close (some 1) middle ∈ inequalityRule.pattern.paths start := by
    simp only [inequalityRule, capture, mem_paths_seq, mem_paths_group, mem_paths_literal,
      mem_paths_noEqualsNext]
    exact ⟨middle, ⟨tail ++ others, rfl, rfl⟩, middle.past tail others,
      ⟨tail, rfl, isTail, rfl⟩, rfl⟩
  simpa [Substitution.swap?] using List.ne_nil_of_mem member

/-- The rule for numbers drops the letter behind the digits. -/
theorem swap?_long {read rest : List Char} {swap : Swap}
    (found : longRule.swap? read rest = some swap) :
    ∃ letter, swap.taken = swap.written ++ [letter] ∧ letter ∈ ['l', 'L'] ∧ swap.written ≠ [] ∧
      ∀ c ∈ swap.written, CharProperty.digit.holds c := by
  obtain ⟨stop, member, reads, _, written⟩ := Substitution.exists_of_swap? found
  simp only [longRule, Regex.sequence, capture, plus, mem_paths_seq, mem_paths_group,
    mem_paths_anchor, mem_paths_set, mem_paths_plus, CharSet.mem_ofText] at member
  obtain ⟨start, ⟨_, rfl⟩, first, ⟨inner, ⟨digits, filled, same, isDigits, past⟩, closed⟩, middle,
    ⟨letter, others, next, isLetter, passed⟩, _, ended⟩ := member
  have readsDigits : (Spot.between read rest).Reads inner digits := Spot.reads_of_eq_past same past
  have readsFirst :=
    (closed ▸ readsDigits.close (some 1) : (Spot.between read rest).Reads first digits)
  have readsLetter : first.Reads stop [letter] := ended ▸ passed ▸ Spot.reads_past next
  have group : stop.group? 1 = some digits := by
    rw [← Spot.group?_close readsDigits 1, closed, ended, passed]
    rfl
  have expanded : expand longRule.replacement (.between read rest) stop =
      (stop.group? 1).getD [] ++ [] := rfl
  have isWritten : swap.written = digits := by
    rw [← written, expanded, group, List.append_nil]
    rfl
  refine ⟨letter, ?_, isLetter, isWritten ▸ filled, isWritten ▸ isDigits⟩
  rw [isWritten, ← reads.textTo_eq, (readsFirst.trans readsLetter).textTo_eq]

/-! ### Scopes without names -/

/-- The empty scope qualifies nothing. -/
theorem qualifyAfter_empty (before : Option Char) (code : List Char) :
    ({} : Scope).qualifyAfter before code = code := by
  fun_induction Scope.qualifyAfter {} before code with
  | case1 => rfl
  | case2 before c rest _ name after written ih =>
      have none : written = none := by
        have noMeaning : ({} : Scope).meaning? (String.ofList name) after = none := by
          unfold Scope.meaning?
          split
          · rfl
          · split <;> rfl
        simp [written, noMeaning]
      rw [none, ih]
      exact congrArg (c :: ·) List.takeWhile_append_dropWhile
  | case3 before c rest _ ih => rw [ih]

/-- Code outside of literals is written by the rules alone in the empty scope. -/
theorem replaceCode_eq_applyAll (code : List Char) :
    ({} : Scope).replaceCode code = applyAll expressionSubstitutions code := by
  rw [Scope.replaceCode, qualifyAfter_empty]
  exact congrArg (applyAll · code) (by simp only [List.append_nil])

/-- Run as lists of swaps the rules write the same. -/
theorem replaceCode_empty (code : List Char) :
    ({} : Scope).replaceCode code = runAll expressionSubstitutions code := by
  rw [replaceCode_eq_applyAll, applyAll_eq_runAll]
  exact fun rule member => (isPlain_of_mem_expressionSubstitutions rule member).consumes

end Transcode.Output
