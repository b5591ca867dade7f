import Transcode.Proofs.Preferring
import Transcode.Proofs.TypeTexts

/-!
# Local declarations

How the expression for local declarations reads a line: the type takes all that its text has, unless
its arguments can go on to a later angle bracket with another declarator behind it
(`Output.IsDeclarator`).
-/

namespace Transcode.Output

open Regex Text

variable {α : Type} {next : Spot → Option α} {start stop : Spot} {found : α}
  {before inside gap inner rest : List Char} {c : Char} {arrays : List (List Char × List Char)}

/-! ### Parts of the expression -/

/-- A pair of brackets, with the blanks before it and in it. -/
def arrayMark : Regex := sequence [star blank, char '[', star blank, char ']']

/-- Pairs of brackets with nothing but blanks before and in them. -/
def AreBlank (arrays : List (List Char × List Char)) : Prop :=
  ∀ array ∈ arrays, (∀ c ∈ array.1, isBlank c) ∧ ∀ c ∈ array.2, isBlank c

/-- Arguments in angle brackets, with the blanks before them. -/
def angled : Regex := sequence [star blank, char '<', anything true, char '>']

/-- An initial value behind its sign. -/
def initial : Regex := sequence [char '=', star blank, capture 4 (anything false)]

/-- What comes behind the type of a declaration. -/
def declarator : Regex := sequence
  [plus blank, capture 3 nameRegex, star blank, opt initial, star blank, char ';', .anchor .textEnd]

/-- The expression is put together of its parts. -/
theorem localDeclaration_eq : localDeclaration = sequence
    [.anchor .textStart, opt (capture 1 (.seq (literal "final") (plus blank))),
     capture 2 (sequence
      [.set nameStart, star (.set (.union namePart (.single '.'))), opt angled, star arrayMark]),
     declarator] := rfl

/-- Blanks are taken up to the next visible character. -/
theorem leadsTo_gap (same : start.rest = gap ++ c :: rest) (blanks : ∀ c ∈ gap, isBlank c)
    (filled : ¬isBlank c) (goes : next (start.past gap (c :: rest)) = some found) :
    leadsTo (star blank) next start = some found := by
  refine leadsTo_star_run same blanks (fun d first => ?_) goes
  cases first
  exact filled

/-- A mark of an array is taken with its blanks. -/
theorem leadsTo_arrayMark (same : start.rest = before ++ '[' :: (inside ++ ']' :: rest))
    (blanks : ∀ c ∈ before, isBlank c) (also : ∀ c ∈ inside, isBlank c)
    (goes : next (start.past (before ++ '[' :: (inside ++ [']'])) rest) = some found) :
    leadsTo arrayMark next start = some found := by
  rw [arrayMark, leadsTo_sequence]
  refine leadsTo_gap same blanks (by decide) ?_
  rw [leadsTo_sequence, leadsTo_char rfl, leadsTo_sequence]
  refine leadsTo_gap rfl also (by decide) ?_
  rw [sequence_singleton, leadsTo_char rfl]
  simpa only [Spot.past_past, List.append_assoc, List.cons_append, List.nil_append] using goes

/-- A character that was read came first. -/
theorem rest_eq_of_mem_paths_char (member : stop ∈ (char c).paths start) :
    start.rest = c :: stop.rest := by
  obtain ⟨d, others, same, isMember, rfl⟩ := mem_paths_set.mp member
  rw [← CharSet.mem_single.mp isMember, same]
  rfl

/-- Blanks that were read came first. -/
theorem exists_of_mem_paths_gap (member : stop ∈ (star blank).paths start) :
    ∃ gap, start.rest = gap ++ stop.rest ∧ ∀ c ∈ gap, isBlank c := by
  obtain ⟨gap, same, blanks, _⟩ := mem_paths_star.mp member
  exact ⟨gap, same, blanks⟩

/-- A mark of an array that was read came first, with its blanks. -/
theorem exists_of_mem_paths_arrayMark (member : stop ∈ arrayMark.paths start) :
    ∃ before inside, start.rest = before ++ '[' :: (inside ++ ']' :: stop.rest) ∧
      (∀ c ∈ before, isBlank c) ∧ ∀ c ∈ inside, isBlank c := by
  simp only [arrayMark, Regex.sequence, mem_paths_seq] at member
  obtain ⟨_, blanks, _, opens, _, more, closes⟩ := member
  obtain ⟨before, same, blanks⟩ := exists_of_mem_paths_gap blanks
  obtain ⟨inside, also, alsoBlanks⟩ := exists_of_mem_paths_gap more
  rw [rest_eq_of_mem_paths_char closes] at also
  rw [rest_eq_of_mem_paths_char opens, also] at same
  exact ⟨before, inside, same, blanks, alsoBlanks⟩

/-- **Pairs of brackets** are all taken. -/
theorem leadsTo_arrays (same : start.rest = arrayChars arrays ++ rest)
    (gaps : AreBlank arrays)
    (ends : ∀ gap others, rest = gap ++ '[' :: others → ¬∀ c ∈ gap, isBlank c)
    (goes : next (start.past (arrayChars arrays) rest) = some found) :
    leadsTo (star arrayMark) next start = some found := by
  induction arrays generalizing start with
  | nil =>
      have none :
          leadsTo arrayMark (furtherOn start (leadsTo (star arrayMark) next)) start = none := by
        refine leadsTo_eq_none fun stop member => ?_
        obtain ⟨before, inside, also, blanks, _⟩ := exists_of_mem_paths_arrayMark member
        exact absurd blanks (ends before _ (same.symm.trans also))
      rw [Regex.star] at none ⊢
      rw [leadsTo_many_zero, none]
      have there : start.past (arrayChars []) rest = start := by
        rw [show rest = start.rest from same.symm]
        exact start.past_nil
      rwa [there] at goes
  | cons array arrays ih =>
      obtain ⟨⟨blanks, also⟩, later⟩ := List.forall_mem_cons.mp gaps
      have first :
          start.rest = array.1 ++ '[' :: (array.2 ++ ']' :: (arrayChars arrays ++ rest)) := by
        rw [same]
        simp [arrayChars]
      have once : leadsTo arrayMark (furtherOn start (leadsTo (star arrayMark) next)) start =
          some found := by
        refine leadsTo_arrayMark first blanks also ?_
        rw [furtherOn_past start _ (by simp)]
        refine ih rfl later ?_
        rw [Spot.past_past]
        exact goes
      rw [Regex.star] at once ⊢
      rw [leadsTo_many_zero, once]
      rfl

/-- Marks of arrays that were read came first. -/
theorem exists_of_mem_paths_arrays (member : stop ∈ (star arrayMark).paths start) :
    ∃ arrays, start.rest = arrayChars arrays ++ stop.rest ∧
      AreBlank arrays := by
  obtain ⟨middle, early, late⟩ := List.mem_flatMap.mp member
  rw [List.mem_singleton.mp early] at late
  have stays (spot : Spot) (holds : ∃ arrays, start.rest = arrayChars arrays ++ spot.rest ∧
      AreBlank arrays) :
      ∀ next ∈ arrayMark.paths spot, ∃ arrays, start.rest = arrayChars arrays ++ next.rest ∧
        AreBlank arrays := by
    intro next step
    obtain ⟨arrays, same, gaps⟩ := holds
    obtain ⟨before, inside, also, blanks, alsoBlanks⟩ := exists_of_mem_paths_arrayMark step
    refine ⟨arrays ++ [(before, inside)], ?_, List.forall_mem_append.mpr ⟨gaps, ?_⟩⟩
    · rw [same, also]
      simp [arrayChars]
    · exact List.forall_mem_singleton.mpr ⟨blanks, alsoBlanks⟩
  exact of_mem_repeats stays ⟨[], rfl, List.forall_mem_nil _⟩ late

/-- Angle brackets are taken up to the last one behind which a declarator comes. -/
theorem leadsTo_angled (same : start.rest = gap ++ '<' :: (inner ++ '>' :: rest))
    (blanks : ∀ c ∈ gap, isBlank c) (line : '\n' ∉ inner)
    (dead : ∀ more others, rest = more ++ '>' :: others →
      next (start.past (gap ++ '<' :: (inner ++ '>' :: (more ++ ['>']))) others) = none)
    (goes : next (start.past (gap ++ '<' :: (inner ++ ['>'])) rest) = some found) :
    leadsTo angled next start = some found := by
  rw [angled, leadsTo_sequence]
  refine leadsTo_gap same blanks (by decide) ?_
  rw [leadsTo_sequence, leadsTo_char rfl, leadsTo_sequence]
  refine leadsTo_star rfl (fun c member => ?_) (fun more others also filled _ => ?_) ?_
  · exact CharSet.mem_compl.mpr fun isBreak => line (CharSet.mem_single.mp isBreak ▸ member)
  · refine leadsTo_eq_none fun stop member => ?_
    obtain ⟨c, more, rfl⟩ := List.exists_cons_of_ne_nil filled
    obtain ⟨rfl, behind⟩ := List.cons.inj also
    obtain ⟨d, left, next, closes, rfl⟩ := mem_paths_set.mp member
    obtain rfl := CharSet.mem_single.mp closes
    have there : others = '>' :: left := next
    have none := dead more left (behind.trans (congrArg _ there))
    simpa only [Spot.past_past, List.append_assoc, List.cons_append, List.nil_append] using none
  · rw [sequence_singleton, leadsTo_char rfl]
    simpa only [Spot.past_past, List.append_assoc, List.cons_append, List.nil_append] using goes

/-- A name is taken as a whole. -/
theorem leadsTo_name {name : List Char} (same : start.rest = name ++ c :: rest)
    (isName : IsName name)
    (ends : ¬namePart.mem c) (goes : next (start.past name (c :: rest)) = some found) :
    leadsTo nameRegex next start = some found := by
  obtain ⟨starts, parts⟩ := isName
  rw [nameRegex, leadsTo_seq, leadsTo_set same starts]
  refine leadsTo_star_run rfl (fun d member => (parts d member).1) (fun d first => ?_) ?_
  · cases first
    exact ends
  · rw [Spot.past_past]
    exact goes

/-- Where the end of a line is found. -/
theorem leadsTo_end (same : start.rest = [';']) :
    leadsTo (sequence [star blank, char ';', .anchor .textEnd]) some start =
      some (start.past [';'] []) := by
  rw [leadsTo_sequence]
  refine leadsTo_gap same (List.forall_mem_nil _) (by decide) ?_
  rw [leadsTo_sequence, leadsTo_char rfl, sequence_singleton, leadsTo_anchor rfl, Spot.past_past]
  rfl

/-- A declaration ends with its semicolon. -/
theorem rest_of_mem_paths_end
    (member : stop ∈ (sequence [star blank, char ';', .anchor .textEnd]).paths start) :
    ∃ gap, start.rest = gap ++ [';'] ∧ ∀ c ∈ gap, isBlank c := by
  simp only [Regex.sequence, mem_paths_seq, mem_paths_anchor] at member
  obtain ⟨_, blanks, last, ends, atEnd, _⟩ := member
  obtain ⟨gap, same, blanks⟩ := exists_of_mem_paths_gap blanks
  rw [rest_eq_of_mem_paths_char ends] at same
  have none : last.rest = [] := by simpa [Anchor.holds] using atEnd
  rw [none] at same
  exact ⟨gap, same, blanks⟩

/-- The spot behind a sign with a value. -/
def valuedAt (start : Spot) (value : List Char) : Spot :=
  let beforeValue := start.past ['=', ' '] (value ++ [';'])
  ((beforeValue.past value [';']).close (some 4) beforeValue).past [';'] []

/-- **The initial value** goes up to the semicolon that the line ends in. -/
theorem leadsTo_value {value : List Char} (same : start.rest = '=' :: ' ' :: (value ++ [';']))
    (filled : IsFilled value) (line : '\n' ∉ value) :
    leadsTo (sequence [opt initial, star blank, char ';', .anchor .textEnd]) some start =
      some (valuedAt start value) := by
  obtain ⟨first, starts, noBlank⟩ := filled.first
  obtain ⟨last, ends, alsoNoBlank⟩ := filled.last
  obtain ⟨rest, isValue⟩ := List.head?_eq_some_iff.mp starts
  have behindSign : (start.past ['='] (' ' :: (value ++ [';']))).rest =
      [' '] ++ first :: (rest ++ [';']) := by
    rw [isValue]
    rfl
  have once : leadsTo initial (furtherOn start
      (leadsTo (sequence [star blank, char ';', .anchor .textEnd]) some)) start =
        some (valuedAt start value) := by
    rw [initial, leadsTo_sequence, leadsTo_char same, leadsTo_sequence]
    refine leadsTo_gap behindSign (List.forall_mem_singleton.mpr (by decide)) noBlank ?_
    rw [sequence_singleton, capture, leadsTo_group, Spot.past_past, ← List.cons_append, ← isValue]
    refine leadsTo_lazy rfl (fun c member => ?_) (fun few others also left => ?_) ?_
    · exact CharSet.mem_compl.mpr fun isBreak => line (CharSet.mem_single.mp isBreak ▸ member)
    · refine Option.eq_none_iff_forall_not_mem.mpr fun stop leads => ?_
      rw [furtherOn] at leads
      split at leads
      · obtain ⟨_, member, _⟩ := exists_of_leadsTo leads
        obtain ⟨gap, same, blanks⟩ := rest_of_mem_paths_end member
        have isGap : others = gap := List.append_cancel_right same
        rw [also, List.getLast?_append_of_ne_nil _ left] at ends
        exact alsoNoBlank (blanks last (isGap ▸ List.mem_of_getLast? ends))
      · cases leads
    · rw [furtherOn, if_pos]
      · exact leadsTo_end rfl
      · change start.offset < start.offset + 2 + value.length
        omega
  rw [leadsTo_sequence, leadsTo_opt, once]
  rfl

/-- The spot behind a declarator with a name and a value. -/
def declaredAt (start : Spot) (name value : List Char) : Spot :=
  let beforeName := start.past [' '] (name ++ ' ' :: '=' :: ' ' :: (value ++ [';']))
  let behindName := beforeName.past name (' ' :: '=' :: ' ' :: (value ++ [';']))
  valuedAt ((behindName.close (some 3) beforeName).past [' ']
    ('=' :: ' ' :: (value ++ [';']))) value

/-- A name with a value is taken as a declarator. -/
theorem leadsTo_declarator {name value : List Char}
    (same : start.rest = ' ' :: (name ++ ' ' :: '=' :: ' ' :: (value ++ [';'])))
    (isName : IsName name)
    (filled : IsFilled value) (line : '\n' ∉ value) :
    leadsTo declarator some start = some (declaredAt start name value) := by
  obtain ⟨first, starts, isStart⟩ := isName.head?
  obtain ⟨others, isFirst⟩ := List.head?_eq_some_iff.mp starts
  rw [declarator, leadsTo_sequence]
  refine leadsTo_plus_run (List.singleton_append.symm ▸ same) (by decide)
    (List.forall_mem_singleton.mpr (by decide)) ?_ ?_
  · intro c there
    rw [isFirst] at there
    cases there
    exact (namePart_of_nameStart isStart).2
  rw [leadsTo_sequence, capture, leadsTo_group]
  refine leadsTo_name rfl isName (by decide) ?_
  rw [leadsTo_sequence]
  refine leadsTo_gap List.singleton_append.symm (List.forall_mem_singleton.mpr (by decide))
    (by decide) ?_
  exact leadsTo_value rfl filled line

/-- Without an angle bracket behind blanks there are no arguments. -/
theorem leadsTo_opt_angled
    (none : ∀ gap others, start.rest = gap ++ '<' :: others → ¬∀ c ∈ gap, isBlank c) :
    leadsTo (opt angled) next start = next start := by
  have dead : leadsTo angled (furtherOn start next) start = Option.none := by
    refine leadsTo_eq_none fun stop member => ?_
    simp only [angled, Regex.sequence, mem_paths_seq] at member
    obtain ⟨_, blanks, _, opens, _⟩ := member
    obtain ⟨gap, same, blanks⟩ := exists_of_mem_paths_gap blanks
    rw [rest_eq_of_mem_paths_char opens] at same
    exact absurd blanks (none gap _ same)
  rw [leadsTo_opt, dead, Option.none_or]

/-- Characters that the expression takes for the rest of a declaration: pairs of brackets, blanks,
a name, and the sign of a value or nothing. -/
def IsDeclarator (cs : List Char) : Prop :=
  ∃ arrays gap first name after value,
    cs = arrayChars arrays ++ (gap ++ first :: (name ++ (after ++ value))) ∧ AreBlank arrays ∧
      gap ≠ [] ∧ (∀ c ∈ gap, isBlank c) ∧ nameStart.mem first ∧ (∀ c ∈ name, namePart.mem c) ∧
      (∀ c ∈ after, isBlank c) ∧ (value = [] ∨ value.head? = some '=')

/-- Behind a name comes a value or nothing. -/
theorem exists_of_mem_paths_value
    (member : stop ∈ (sequence [opt initial, star blank, char ';', .anchor .textEnd]).paths start) :
    ∃ after value, start.rest = after ++ (value ++ [';']) ∧ (∀ c ∈ after, isBlank c) ∧
      (value = [] ∨ value.head? = some '=') := by
  rw [mem_paths_sequence] at member
  obtain ⟨middle, early, late⟩ := member
  obtain ⟨gap, same, blanks⟩ := rest_of_mem_paths_end late
  rw [paths_opt] at early
  rcases List.mem_append.mp early with advance | none
  · have step := (mem_advances.mp advance).1
    rw [initial, mem_paths_sequence] at step
    obtain ⟨_, signs, others⟩ := step
    obtain ⟨taken, reads⟩ := exists_reads_of_mem_paths others
    refine ⟨[], '=' :: (taken ++ gap), ?_, List.forall_mem_nil _, .inr rfl⟩
    rw [rest_eq_of_mem_paths_char signs, reads.rest_eq, same]
    simp
  · obtain rfl := List.mem_singleton.mp none
    exact ⟨gap, [], same, blanks, .inl rfl⟩

/-- Where the expression goes on behind a type, a declarator stands. -/
theorem isDeclarator_of_mem_paths {middle opened : Spot} {index : Option Nat} {cs : List Char}
    (same : start.rest = cs ++ [';']) (arrays : middle ∈ (star arrayMark).paths start)
    (member : stop ∈ declarator.paths (middle.close index opened)) : IsDeclarator cs := by
  obtain ⟨arrays, marked, areBlank⟩ := exists_of_mem_paths_arrays arrays
  rw [declarator, mem_paths_sequence] at member
  obtain ⟨beforeName, parts, further⟩ := member
  obtain ⟨gap, filled, behind, blanks, -⟩ := mem_paths_plus.mp parts
  rw [mem_paths_sequence] at further
  obtain ⟨_, grouped, valued⟩ := further
  obtain ⟨behindName, named, rfl⟩ := mem_paths_group.mp grouped
  rw [nameRegex, mem_paths_seq] at named
  obtain ⟨_, one, goes⟩ := named
  obtain ⟨first, others, isFirst, starts, rfl⟩ := mem_paths_set.mp one
  obtain ⟨name, isName, nameParts, -⟩ := mem_paths_star.mp goes
  rw [mem_paths_sequence] at valued
  obtain ⟨beforeValue, more, valued⟩ := valued
  obtain ⟨after, isAfter, afterBlanks⟩ := exists_of_mem_paths_gap more
  obtain ⟨blanksToo, value, isValue, alsoBlanks, sign⟩ := exists_of_mem_paths_value valued
  refine ⟨arrays, gap, first, name, after ++ blanksToo, value, ?_, areBlank, filled, blanks, starts,
    nameParts, List.forall_mem_append.mpr ⟨afterBlanks, alsoBlanks⟩, sign⟩
  rw [Spot.rest_close] at behind isAfter
  have isRest : others = name ++ behindName.rest := isName
  refine List.append_cancel_right (same.symm.trans ?_)
  rw [marked, behind, isFirst, isRest, isAfter, isValue]
  simp only [List.append_assoc, List.cons_append]

/-! ### Whole declarations -/

theorem dropWhile_gap (blanks : ∀ c ∈ gap, isBlank c) (filled : ¬isBlank c) :
    (gap ++ c :: rest).dropWhile isBlank = c :: rest := by
  rw [List.dropWhile_append_of_pos blanks, List.dropWhile_cons_of_neg filled]

/-- Behind blanks the same visible character comes. -/
theorem eq_of_gaps {d : Char} {other others : List Char}
    (same : gap ++ c :: rest = other ++ d :: others)
    (blanks : ∀ c ∈ gap, isBlank c) (also : ∀ c ∈ other, isBlank c) (filled : ¬isBlank c)
    (alsoFilled : ¬isBlank d) : c = d := by
  have dropped := congrArg (List.dropWhile isBlank) same
  rw [dropWhile_gap blanks filled, dropWhile_gap also alsoFilled] at dropped
  exact (List.cons.inj dropped).1

/-- Pairs of brackets as the text of a type has them. -/
def AreGaps (arrays : List (List Char × List Char)) : Prop :=
  ∀ array ∈ arrays, IsGap array.1 ∧ IsGap array.2

theorem AreGaps.areBlank (gaps : AreGaps arrays) : AreBlank arrays := fun array member =>
  ⟨fun c there => isBlank_of_mem_lineBlanks ((gaps array member).1 c there),
    fun c there => isBlank_of_mem_lineBlanks ((gaps array member).2 c there)⟩

/-- What follows the arguments of a type: a bracket behind blanks or, behind a blank, a name. -/
theorem exists_behind_arguments (gaps : AreGaps arrays) (c : Char) (rest : List Char) :
    ∃ gap d others, arrayChars arrays ++ ' ' :: c :: rest = gap ++ d :: others ∧ IsGap gap ∧
      (d = '[' ∨ d = c ∧ gap = [' ']) := by
  cases arrays with
  | nil => exact ⟨[' '], c, rest, rfl, by simp [IsGap, lineBlanks], .inr ⟨rfl, rfl⟩⟩
  | cons array arrays =>
      refine ⟨array.1, '[', array.2 ++ ']' :: (arrayChars arrays ++ ' ' :: c :: rest), ?_,
        (gaps array List.mem_cons_self).1, .inl rfl⟩
      simp [arrayChars]

/-- The characters of a name with qualifiers. -/
def qualifiedPart : CharSet := .union namePart (.single '.')

/-- Neither a gap nor a mark goes on with a qualified name. -/
theorem not_qualifiedPart_head {mark : Char} (isGap : IsGap gap) (ends : ¬qualifiedPart.mem mark) :
    ∀ d ∈ (gap ++ mark :: rest).head?, ¬qualifiedPart.mem d := by
  intro d first
  cases gap with
  | nil =>
      cases first
      exact ends
  | cons b gap =>
      cases first
      obtain ⟨noPart, noPoint⟩ := not_namePart_of_mem_lineBlanks (isGap _ List.mem_cons_self)
      rw [qualifiedPart, CharSet.mem, Bool.or_eq_true, CharSet.mem_single]
      exact not_or.mpr ⟨noPart, noPoint⟩

/-- No name goes on with what follows it in a type. -/
theorem ends_name {arguments : Option (List Char × List Char)}
    (lines : ∀ pair ∈ arguments, IsGap pair.1) (gaps : AreGaps arrays) :
    ∀ d ∈ (argumentChars arguments ++ (arrayChars arrays ++ ' ' :: c :: rest)).head?,
      ¬qualifiedPart.mem d := by
  cases arguments with
  | some pair =>
      rw [argumentChars, List.append_assoc, List.cons_append]
      exact not_qualifiedPart_head (lines pair rfl) (by decide)
  | none =>
      obtain ⟨gap, d, others, same, isGap, rfl | ⟨rfl, rfl⟩⟩ :=
        exists_behind_arguments gaps c rest
      · rw [argumentChars, List.nil_append, same]
        exact not_qualifiedPart_head isGap (by decide)
      · rw [argumentChars, List.nil_append, same]
        rintro _ ⟨⟩
        decide

section Types

variable {name : List Char} {arguments : Option (List Char × List Char)}

/-- **Arguments and brackets** are all taken, if no later angle bracket can be gone on from. -/
theorem leadsTo_arguments
    (same : start.rest = argumentChars arguments ++ (arrayChars arrays ++ ' ' :: c :: rest))
    (lines : ∀ pair ∈ arguments, IsGap pair.1 ∧ '\n' ∉ pair.2) (gaps : AreGaps arrays)
    (starts : nameStart.mem c)
    (dead : arguments.isSome → ∀ more others,
      arrayChars arrays ++ ' ' :: c :: rest = more ++ '>' :: others →
      ∀ spot : Spot, spot.rest = others → leadsTo (star arrayMark) next spot = none)
    (goes : next (start.past (argumentChars arguments ++ arrayChars arrays) (' ' :: c :: rest)) =
      some found) :
    leadsTo (sequence [opt angled, star arrayMark]) next start = some found := by
  have noBlank : ¬isBlank c := (namePart_of_nameStart starts).2
  have noMark : c ∉ ['<', '['] := by
    intro isMark
    rcases List.mem_pair.mp isMark with rfl | rfl <;> revert starts <;> decide
  obtain ⟨noAngle, noBracket⟩ := not_or.mp (List.mem_pair.not.mp noMark)
  have onward (spot : Spot) (there : spot.rest = arrayChars arrays ++ ' ' :: c :: rest)
      (goes : next (spot.past (arrayChars arrays) (' ' :: c :: rest)) = some found) :
      leadsTo (sequence [star arrayMark]) next spot = some found := by
    refine leadsTo_arrays there gaps.areBlank (fun gap others also blanks => ?_) goes
    have first : gap ++ '[' :: others = [' '] ++ c :: rest := also.symm
    exact noBracket (eq_of_gaps first blanks (List.forall_mem_singleton.mpr (by decide))
      (by decide) noBlank).symm
  rw [leadsTo_sequence]
  cases arguments with
  | none =>
      rw [leadsTo_opt_angled]
      · exact onward start same goes
      · intro gap others also blanks
        obtain ⟨other, d, more, there, isGap, isMark⟩ := exists_behind_arguments gaps c rest
        have otherBlanks (e : Char) (member : e ∈ other) : isBlank e :=
          isBlank_of_mem_lineBlanks (isGap e member)
        have first : gap ++ '<' :: others = other ++ d :: more :=
          also.symm.trans (same.trans there)
        rcases isMark with rfl | ⟨rfl, _⟩
        · exact absurd (eq_of_gaps first blanks otherBlanks (by decide) (by decide)) (by decide)
        · exact noAngle (eq_of_gaps first blanks otherBlanks (by decide) noBlank).symm
  | some pair =>
      obtain ⟨gap, inner⟩ := pair
      obtain ⟨isGap, line⟩ := lines _ rfl
      have taken :
          start.rest = gap ++ '<' :: (inner ++ '>' :: (arrayChars arrays ++ ' ' :: c :: rest)) := by
        rw [same]
        simp [argumentChars]
      have once : leadsTo angled
          (furtherOn start (leadsTo (sequence [star arrayMark]) next)) start = some found := by
        refine leadsTo_angled taken (fun d member =>
          isBlank_of_mem_lineBlanks (isGap d member)) line
          (fun more others there => ?_) ?_
        · rw [furtherOn_past start _ (by simp)]
          exact dead rfl more others there _ rfl
        · rw [furtherOn_past start _ (by simp)]
          refine onward _ rfl ?_
          rw [Spot.past_past]
          exact goes
      rw [leadsTo_opt, once]
      rfl

/-- **The type** is taken with all that its text has. -/
theorem leadsTo_type
    (same :
      start.rest = name ++ (argumentChars arguments ++ (arrayChars arrays ++ ' ' :: c :: rest)))
    (isName : IsQualified name) (lines : ∀ pair ∈ arguments, IsGap pair.1 ∧ '\n' ∉ pair.2)
    (gaps : AreGaps arrays) (starts : nameStart.mem c)
    (dead : arguments.isSome → ∀ more others,
      arrayChars arrays ++ ' ' :: c :: rest = more ++ '>' :: others →
      ∀ spot : Spot, spot.rest = others → leadsTo (star arrayMark) next spot = none)
    (goes : next (start.past (name ++ (argumentChars arguments ++ arrayChars arrays))
      (' ' :: c :: rest)) = some found) :
    leadsTo localType next start = some found := by
  obtain ⟨first, firstHere, isStart⟩ := isName.head?
  obtain ⟨others, rfl⟩ := List.head?_eq_some_iff.mp firstHere
  change leadsTo (sequence [.set nameStart, star (.set qualifiedPart), opt angled, star arrayMark])
    next start = some found
  rw [leadsTo_sequence, leadsTo_set same isStart, leadsTo_sequence]
  refine leadsTo_star_run rfl (fun d member => ?_)
    (ends_name (fun pair there => (lines pair there).1) gaps) ?_
  · rw [qualifiedPart, CharSet.mem, Bool.or_eq_true, CharSet.mem_single]
    exact ((isName.forall_mem d (List.mem_cons_of_mem _ member)).imp_right And.left).symm
  · refine leadsTo_arguments rfl lines gaps starts dead ?_
    rw [Spot.past_past, Spot.past_past]
    exact goes

end Types

section Declarations

variable {type name value : List Char}

/-- The text of a declaration. -/
def declarationChars (type name value : List Char) : List Char :=
  type ++ ' ' :: (name ++ ' ' :: '=' :: ' ' :: (value ++ [';']))

/-- No type begins with the word for constants. -/
theorem leadsTo_opt_final (isType : IsSpelled .type type)
    (reserved : isKeyword (headWord type) → isPrimitive (headWord type))
    (same : start.rest = type ++ ' ' :: rest) :
    leadsTo (opt (capture 1 (.seq (literal "final") (plus blank)))) next start = next start := by
  have dead :
      leadsTo (capture 1 (.seq (literal "final") (plus blank))) (furtherOn start next) start =
      none := by
    refine leadsTo_eq_none fun stop member => absurd reserved ?_
    obtain ⟨_, member, _⟩ := mem_paths_group.mp member
    obtain ⟨_, word, blanks⟩ := mem_paths_seq.mp member
    obtain ⟨behind, isWord, rfl⟩ := mem_paths_literal.mp word
    obtain ⟨gap, filled, isGap, blanks, _⟩ := mem_paths_plus.mp blanks
    obtain ⟨g, gap, rfl⟩ := List.exists_cons_of_ne_nil filled
    obtain ⟨middle, rfl, follows⟩ :=
      exists_of_append_eq_cons (isWord.symm.trans same) (by decide)
    have ends : middle.takeWhile (fun c => isAlphanumeric c || c = '_' || c = '$') = [] := by
      cases middle with
      | nil => rfl
      | cons d middle =>
          obtain rfl : g = d := (List.cons.inj (isGap.symm.trans follows)).1
          refine List.takeWhile_cons_of_neg ?_
          have all : lineBlanks.all fun c => !(isAlphanumeric c || c = '_' || c = '$') := by decide
          have isGap := isType.mem_lineBlanks (c := g) (by simp) (blanks g List.mem_cons_self)
          simpa using List.all_eq_true.mp all g isGap
    have isFinal : headWord ("final".toList ++ middle) = "final" := by
      have isWord : "final".toList.all fun c => isAlphanumeric c || c = '_' || c = '$' := by decide
      rw [headWord, List.takeWhile_append_of_pos (List.all_eq_true.mp isWord), ends,
        List.append_nil, String.ofList_toList]
    rw [isFinal]
    decide
  rw [leadsTo_opt, dead, Option.none_or]

/-- A later angle bracket stands in the value. -/
theorem exists_behind_angle {others more behind : List Char} (isName : IsName (c :: others))
    (gaps : AreGaps arrays)
    (same : arrayChars arrays ++ ' ' :: c :: (others ++ ' ' :: '=' :: ' ' :: (value ++ [';'])) =
      more ++ '>' :: behind) :
    ∃ rest, '>' :: rest <:+ value ∧ behind = rest ++ [';'] := by
  have noGap (gap : List Char) (isGap : IsGap gap) : '>' ∉ gap := fun member =>
    absurd (isGap '>' member) (by decide)
  have noArrays : '>' ∉ arrayChars arrays := by
    intro member
    obtain ⟨array, isArray, member⟩ := List.mem_flatMap.mp member
    obtain ⟨before, inside⟩ := gaps array isArray
    simp [noGap _ before, noGap _ inside] at member
  have noName : '>' ∉ c :: others := fun member =>
    absurd (isName.forall_mem '>' member).1 (by decide)
  have free : '>' ∉ arrayChars arrays ++ ' ' :: (c :: (others ++ [' ', '=', ' '])) := by
    simpa [noArrays] using noName
  obtain ⟨middle, -, isValue⟩ := exists_of_append_eq_cons (by simpa using same) free
  rcases List.eq_nil_or_concat behind with rfl | ⟨rest, last, rfl⟩
  · exact absurd (List.append_inj_right' isValue rfl) (by decide)
  · have isEnd : value ++ [';'] = (middle ++ '>' :: rest) ++ [last] := by simpa using isValue
    refine ⟨rest, ⟨middle, (List.append_inj_left' isEnd rfl).symm⟩, ?_⟩
    rw [List.concat_eq_append, ← List.append_inj_right' isEnd rfl]

/-- **A local declaration** is read by its parts, unless its type has arguments and a declarator
stands behind a later angle bracket. -/
theorem head?_paths_localDeclaration (isType : IsSpelled .type type)
    (reserved : isKeyword (headWord type) → isPrimitive (headWord type)) (isName : IsName name)
    (filled : IsFilled value) (line : '\n' ∉ value)
    (clear : '<' ∈ type → ∀ behind, '>' :: behind <:+ value → ¬IsDeclarator behind) :
    let start := Spot.start (declarationChars type name value)
    let behindType := start.past type (' ' :: (name ++ ' ' :: '=' :: ' ' :: (value ++ [';'])))
    (localDeclaration.paths start).head? =
      some (declaredAt (behindType.close (some 2) start) name value) := by
  intro start behindType
  obtain ⟨word, arguments, arrays, rfl, isQualified, isArguments, gaps⟩ := isType.exists_parts
  obtain ⟨c, starts, isStart⟩ := isName.head?
  obtain ⟨others, isFirst⟩ := List.head?_eq_some_iff.mp starts
  have lines (pair : List Char × List Char) (there : pair ∈ arguments) :
      IsGap pair.1 ∧ '\n' ∉ pair.2 := by
    obtain ⟨isGap, inner⟩ := isArguments pair there
    exact ⟨isGap, inner.not_mem_line⟩
  have same : start.rest = word ++ (argumentChars arguments ++ (arrayChars arrays ++
      ' ' :: c :: (others ++ ' ' :: '=' :: ' ' :: (value ++ [';'])))) := by
    simp [start, Spot.start, declarationChars, isFirst]
  have opens : arguments.isSome → '<' ∈ word ++ (argumentChars arguments ++ arrayChars arrays) := by
    intro isSome
    obtain ⟨pair, rfl⟩ := Option.isSome_iff_exists.mp isSome
    simp [argumentChars]
  rw [head?_paths, localDeclaration_eq, leadsTo_sequence, leadsTo_anchor rfl, leadsTo_sequence,
    leadsTo_opt_final isType reserved rfl, leadsTo_sequence, capture, leadsTo_group]
  refine leadsTo_type same isQualified lines gaps isStart
    (fun isSome more behind there spot left => ?_) ?_
  · obtain ⟨rest, isValue, isRest⟩ := exists_behind_angle (isFirst ▸ isName) gaps there
    refine Option.eq_none_iff_forall_not_mem.mpr fun stop leads => ?_
    obtain ⟨middle, arrays, member⟩ := exists_of_leadsTo leads
    obtain ⟨_, member, _⟩ := exists_of_leadsTo member
    exact clear (opens isSome) rest isValue
      (isDeclarator_of_mem_paths (left.trans isRest) arrays member)
  · subst isFirst
    exact leadsTo_declarator rfl isName filled line

/-- A line is a declaration by the first way of the expression. -/
theorem localDeclaration?_eq_head? (line : List Char) : localDeclaration? line =
    ((localDeclaration.paths (.start line)).head?.bind fun stop => do
      let type ← stop.group? 2
      let name ← stop.group? 3
      let head := headWord type
      if isKeyword head && !isPrimitive head then none
      else return {
        isFinal := (stop.group? 1).isSome
        type := String.ofList type
        name := String.ofList name
        init := (stop.group? 4).map String.ofList }) := by
  rw [localDeclaration?, matchAt_eq_head?_paths _ (Spot.start_in line)]
  rfl

/-- A declaration is read with its type, name and value where no angle in the value could end the
type. -/
theorem localDeclaration?_declarationChars (isType : IsSpelled .type type)
    (reserved : isKeyword (headWord type) → isPrimitive (headWord type)) (isName : IsName name)
    (filled : IsFilled value) (line : '\n' ∉ value)
    (clear : '<' ∈ type → ∀ behind, '>' :: behind <:+ value → ¬IsDeclarator behind) :
    localDeclaration? (declarationChars type name value) = some
      ⟨false, String.ofList type, String.ofList name, some (String.ofList value)⟩ := by
  rw [localDeclaration?_eq_head?,
    head?_paths_localDeclaration isType reserved isName filled line clear, Option.bind_some]
  have read (start : Spot) (cs rest : List Char) (same : start.rest = cs ++ rest) :
      start.textTo (start.past cs rest) = cs := (Spot.reads_past same).textTo_eq
  let start := Spot.start (declarationChars type name value)
  let behindType := start.past type (' ' :: (name ++ ' ' :: '=' :: ' ' :: (value ++ [';'])))
  have typed : (declaredAt (behindType.close (some 2) start) name value).group? 2 = some type :=
    congrArg some (read start type _ rfl)
  have named : (declaredAt (behindType.close (some 2) start) name value).group? 3 = some name :=
    congrArg some (read _ name _ rfl)
  have valued : (declaredAt (behindType.close (some 2) start) name value).group? 4 = some value :=
    congrArg some (read _ value _ rfl)
  have noFinal : (declaredAt (behindType.close (some 2) start) name value).group? 1 = none := rfl
  rw [typed, named, valued, noFinal]
  have isType : (isKeyword (headWord type) && !isPrimitive (headWord type)) = false := by
    cases keyword : isKeyword (headWord type)
    · rfl
    · rw [reserved keyword]
      rfl
  simp only [Option.bind_eq_bind, Option.bind_some, isType]
  rfl

end Declarations

end Transcode.Output
