import Transcode.Proofs.TypePieces

/-!
# Places where rules for words begin

The rules for creations, clauses and long numbers begin at words. What they ask for at a place of a
text passes from a piece to its text and from a text to its pieces (`Output.IsOnset`), so a text put
together with marks has no such place if no part of it has one (`Output.Free.glue`), and neither has
what is written for a type if its text has none (`Output.Free.typeName`).
-/

namespace Transcode.Output

open Regex Text

/-- What is asked for at a place of a text: of the character before it, and of what comes next. -/
abbrev Onset := Option Char → List Char → Prop

/-- The marks that end words. -/
def endMarks : List Char := ['.', '<', '>', ')', '[', ']', ',', '?', ':', '=']

/-- The characters that a rule for words cannot begin with. -/
def wordlessMarks : List Char := '(' :: (endMarks ++ lineBlanks)

/-- A word that no rule is for. -/
def IsPlainWord (word : List Char) : Prop :=
  word.all fun c => c != 'w' && c != 'h' && !CharProperty.digit.holds c

instance (word : List Char) : Decidable (IsPlainWord word) := inferInstanceAs (Decidable (_ = true))

/-- What a rule for words can ask for: it begins at a word, goes over no mark that ends words, and
does not see more of what is beside it than whether a word goes on there. -/
structure IsOnset (At : Onset) : Prop where
  apart {c : Char} {rest : List Char} : ¬isWordChar c → (At (some c) rest ↔ At none rest)
  filled {before : Option Char} : ¬At before []
  opens {before : Option Char} {c : Char} {rest : List Char} : c ∈ wordlessMarks →
    ¬At before (c :: rest)
  within {before : Option Char} {cs rest : List Char} {c : Char} : c ∈ endMarks →
    At before (cs ++ c :: rest) → At before cs
  trailing {before : Option Char} {cs gap : List Char} : IsGap gap → At before (cs ++ gap) →
    At before cs
  more {before : Option Char} {cs rest : List Char} : (∀ c ∈ rest.head?, ¬isWordChar c) →
    At before cs → At before (cs ++ rest)
  plain {before : Option Char} {word rest : List Char} : IsPlainWord word → word ≠ [] →
    (∀ c ∈ rest.head?, isBlank c) → ¬At before (word ++ rest)

/-- A text with no place where a rule begins. -/
def Free (At : Onset) (cs : List Char) : Prop :=
  ∀ before behind, cs = before ++ behind → ¬At before.getLast? behind

section Free

variable {At : Onset} {cs rest part whole word gap : List Char} {c : Char}

theorem wordless_of_mem (isMark : c ∈ wordlessMarks) : ¬isWordChar c := by
  have all : wordlessMarks.all fun c => !isWordChar c := by decide
  simpa using List.all_eq_true.mp all c isMark

theorem mem_wordlessMarks (isMark : c ∈ endMarks) : c ∈ wordlessMarks :=
  List.mem_cons_of_mem _ (List.mem_append_left _ isMark)

/-- A place is free whatever stands before the text, if no word goes on there. -/
theorem Free.not_at (isOnset : IsOnset At) (free : Free At rest) {front before behind : List Char}
    (same : rest = before ++ behind) (edge : before = [] → ∀ c ∈ front.getLast?, ¬isWordChar c) :
    ¬At (front ++ before).getLast? behind := by
  intro here
  refine free before behind same ?_
  rw [List.getLast?_append] at here
  cases last : before.getLast? with
  | some c => rwa [last] at here
  | none =>
      rw [last, Option.none_or] at here
      cases ends : front.getLast? with
      | none => rwa [ends] at here
      | some c =>
          rw [ends] at here
          exact (isOnset.apart (edge (List.getLast?_eq_none_iff.mp last) c ends)).mp here

/-- A piece of a free text is free. -/
theorem Free.piece (isOnset : IsOnset At) (piece : IsPiece part whole) (free : Free At whole) :
    Free At part := by
  obtain ⟨front, last, rfl, opens, ends⟩ := piece
  rintro before behind rfl here
  refine free (front ++ before) (behind ++ last) (by simp) ?_
  have further := isOnset.more ends here
  rw [List.getLast?_append]
  cases final : before.getLast? with
  | some c => rwa [final] at further
  | none =>
      rw [final] at further
      rw [Option.none_or]
      cases start : front.getLast? with
      | none => exact further
      | some c => exact (isOnset.apart (opens c start)).mpr further

/-- An empty text is free. -/
theorem free_nil (isOnset : IsOnset At) : Free At [] := by
  intro before behind same here
  rw [(List.append_eq_nil_iff.mp same.symm).2] at here
  exact isOnset.filled here

/-- A mark in front of a free text begins nothing. -/
theorem Free.cons (isOnset : IsOnset At) (free : Free At rest) (isMark : c ∈ wordlessMarks) :
    Free At (c :: rest) := by
  intro before behind same here
  cases before with
  | nil =>
      rw [List.nil_append] at same
      exact isOnset.opens isMark (same ▸ here)
  | cons d before =>
      obtain ⟨rfl, others⟩ := List.cons.inj same
      rw [← List.singleton_append] at here
      refine free.not_at isOnset others (fun _ e last => ?_) here
      cases last
      exact wordless_of_mem isMark

/-- Free texts are free with a mark between them that ends any onset. -/
theorem Free.glue (isOnset : IsOnset At) (free : Free At cs) (also : Free At rest)
    (isMark : c ∈ endMarks) : Free At (cs ++ c :: rest) := by
  intro before behind same here
  rcases List.append_eq_append_iff.mp same with ⟨beyond, rfl, others⟩ | ⟨middle, rfl, rfl⟩
  · cases beyond with
    | nil =>
        rw [List.nil_append] at others
        exact isOnset.opens (mem_wordlessMarks isMark) (others ▸ here)
    | cons d beyond =>
        obtain ⟨rfl, later⟩ := List.cons.inj others
        rw [← List.singleton_append, ← List.append_assoc] at here
        refine also.not_at isOnset later (fun _ e last => ?_) here
        rw [List.getLast?_concat] at last
        exact Option.some.inj last ▸ wordless_of_mem (mem_wordlessMarks isMark)
  · exact free before middle rfl (isOnset.within isMark here)

/-- A gap in front of a free text begins nothing. -/
theorem Free.gap_append (isOnset : IsOnset At) (isGap : IsGap gap) (free : Free At rest) :
    Free At (gap ++ rest) := by
  induction gap with
  | nil => exact free
  | cons c gap ih =>
      obtain ⟨here, later⟩ := List.forall_mem_cons.mp isGap
      exact (ih later).cons isOnset (List.mem_cons_of_mem _ (List.mem_append_right _ here))

/-- A gap behind a free text begins nothing. -/
theorem Free.append_gap (isOnset : IsOnset At) (free : Free At cs) (isGap : IsGap gap) :
    Free At (cs ++ gap) := by
  intro before behind same here
  rcases List.append_eq_append_iff.mp same with ⟨beyond, rfl, others⟩ | ⟨middle, rfl, rfl⟩
  · cases behind with
    | nil => exact isOnset.filled here
    | cons d behind =>
        have isBlank := isGap d (others ▸ List.mem_append_right _ List.mem_cons_self)
        exact isOnset.opens (List.mem_cons_of_mem _ (List.mem_append_right _ isBlank)) here
  · exact free before middle rfl (isOnset.trailing isGap here)

/-- A word that no rule is for can stand before blanks and more text. -/
theorem Free.word_append (isOnset : IsOnset At) (plain : IsPlainWord word) (isGap : IsGap gap)
    (filled : gap = [] → rest = []) (free : Free At rest) : Free At (word ++ (gap ++ rest)) := by
  have noneNext (before : Option Char) : ¬At before (gap ++ rest) := by
    cases gap with
    | nil =>
        rw [filled rfl]
        exact isOnset.filled
    | cons b gap =>
        have isBlank := isGap b List.mem_cons_self
        exact isOnset.opens (List.mem_cons_of_mem _ (List.mem_append_right _ isBlank))
  intro before behind same here
  rcases List.append_eq_append_iff.mp same with ⟨beyond, rfl, others⟩ | ⟨middle, rfl, rfl⟩
  · cases beyond with
    | nil =>
        rw [List.nil_append] at others
        exact noneNext _ (others ▸ here)
    | cons d beyond =>
        refine (free.gap_append isOnset isGap).not_at isOnset others (fun none => ?_) here
        exact absurd none (List.cons_ne_nil d beyond)
  · cases middle with
    | nil => exact noneNext _ here
    | cons d middle =>
        have alsoPlain : IsPlainWord (d :: middle) := by
          rw [IsPlainWord, List.all_append, Bool.and_eq_true] at plain
          exact plain.2
        refine isOnset.plain alsoPlain (List.cons_ne_nil d middle) (fun c first => ?_) here
        cases gap with
        | nil =>
            rw [filled rfl] at first
            cases first
        | cons b gap =>
            cases first
            exact isBlank_of_mem_lineBlanks (isGap _ List.mem_cons_self)

/-- A plain word is free. -/
theorem free_word (isOnset : IsOnset At) (plain : IsPlainWord word) : Free At word := by
  have free :=
    (free_nil isOnset).word_append isOnset plain (List.forall_mem_nil _ : IsGap []) fun _ => rfl
  rwa [List.append_nil, List.append_nil] at free

/-! ### What is written for a type -/

/-- Free texts are free with commas between them. -/
theorem Free.intercalate (isOnset : IsOnset At) {texts : List (List Char)}
    (free : ∀ text ∈ texts, Free At text) : Free At ([',', ' '].intercalate texts) := by
  induction texts with
  | nil => exact free_nil isOnset
  | cons text texts ih =>
      obtain ⟨here, later⟩ := List.forall_mem_cons.mp free
      cases texts with
      | nil => simpa using here
      | cons other texts =>
          have behind : Free At (' ' :: _) := (ih later).cons isOnset (by decide)
          have joined : Free At (text ++ ',' :: _) := here.glue isOnset behind (by decide)
          simpa [List.intercalate] using joined

/-- What is written of free parts is free. -/
theorem inherits_free (isOnset : IsOnset At) :
    Inherits (fun cs => PartsBlanks cs ∧ Free At cs) (Free At) where
  parts good := good.1
  piece piece good := ⟨piece.partsBlanks good.1, good.2.piece isOnset piece⟩
  name good _ := good.2
  written := by
    have all : ∀ name ∈ writtenNames, IsPlainWord name.toList := by decide
    exact fun name member => free_word isOnset (all name member)
  array free := free.glue isOnset ((free_nil isOnset).cons isOnset (by decide)) (by decide)
  grouped free := by
    refine Free.cons isOnset (free.glue isOnset ?_ (by decide)) (by decide)
    exact ((free_nil isOnset).cons isOnset (by decide)).cons isOnset (by decide)
  applied name _ arguments := by
    refine name.glue isOnset ?_ (by decide)
    exact (Free.intercalate isOnset arguments).glue isOnset (free_nil isOnset) (by decide)

/-- **What is written for a type** is free if its text is. -/
theorem Free.typeName (isOnset : IsOnset At) {type : String} (parts : PartsBlanks type.toList)
    (free : Free At type.toList) : Free At (Output.typeName type).toList :=
  (inherits_free isOnset).typeName ⟨parts, free⟩

end Free

/-! ### The rules for words -/

/-- A creation: its word, blanks, and a word. -/
def CreationAt : Onset := fun _ rest =>
  ∃ gap c others, rest = "new".toList ++ (gap ++ c :: others) ∧ gap ≠ [] ∧ (∀ b ∈ gap, isBlank b) ∧
    isWordChar c

/-- A clause that catches: its word and an opening parenthesis. -/
def ClauseAt : Onset := fun _ rest =>
  ∃ gap others, rest = "catch".toList ++ (gap ++ '(' :: others) ∧ ∀ b ∈ gap, isBlank b

/-- A long number: a word that is digits with a letter behind them. -/
def LongAt : Onset := fun before rest =>
  ∃ digits letter others, rest = digits ++ letter :: others ∧ digits ≠ [] ∧
    (∀ d ∈ digits, CharProperty.digit.holds d) ∧ letter ∈ ['l', 'L'] ∧
    Anchor.wordEdge.holds before digits.head? ∧ ¬others.head?.any isWordChar

section Rules

variable {taken others cs rest gap word : List Char} {c : Char}

/-- What ends with a visible character ends before a gap. -/
theorem exists_of_append_eq_gap (same : taken ++ others = cs ++ gap) (isGap : IsGap gap)
    (last : ∃ c ∈ taken.getLast?, c ∉ lineBlanks) :
    ∃ middle, cs = taken ++ middle ∧ others = middle ++ gap := by
  rcases List.append_eq_append_iff.mp same with both | ⟨beyond, early, late⟩
  · exact both
  · obtain ⟨c, isLast, filled⟩ := last
    rcases List.eq_nil_or_concat beyond with rfl | ⟨beyond, d, rfl⟩
    · exact ⟨[], by simpa using early.symm, by simpa using late.symm⟩
    · rw [early, List.concat_eq_append, ← List.append_assoc, List.getLast?_concat] at isLast
      obtain rfl := Option.some.inj isLast
      exact absurd (isGap d (by simp [late])) filled

/-- A plain word has no digit and none of the letters that begin a rule. -/
theorem IsPlainWord.of_mem (plain : IsPlainWord word) (member : c ∈ word) :
    c ∉ ['w', 'h'] ∧ ¬CharProperty.digit.holds c := by
  have here := List.all_eq_true.mp plain c member
  simpa [and_assoc] using here

/-- A plain word before a blank does not begin with a word that it cannot be a part of. -/
theorem not_append_eq (plain : IsPlainWord word) (blank : ∀ c ∈ rest.head?, isBlank c)
    (filled : (taken ++ [c]).all (!isBlank ·)) (isLast : c ∈ ['w', 'h']) :
    word ++ rest ≠ taken ++ c :: others := by
  have free (d : Char) (member : d ∈ taken ++ [c]) : ¬isBlank d := by
    simpa using List.all_eq_true.mp filled d member
  intro same
  rcases List.append_eq_append_iff.mp same with ⟨beyond, rfl, rfl⟩ | ⟨beyond, rfl, late⟩
  · cases beyond with
    | nil => exact free c (by simp) (blank c rfl)
    | cons d beyond => exact free d (by simp) (blank d rfl)
  · cases beyond with
    | nil =>
        rw [List.nil_append] at late
        exact free c (by simp) (blank c (late ▸ rfl))
    | cons d beyond =>
        obtain ⟨rfl, _⟩ := List.cons.inj late
        exact (plain.of_mem (List.mem_append_right _ List.mem_cons_self)).1 isLast

/-- Marks that end words are no characters of what the rules take. -/
theorem not_mem_of_mem_endMarks (isMark : c ∈ endMarks) (each : ∀ d ∈ taken,
    isBlank d ∨ isWordChar d ∨ CharProperty.digit.holds d ∨ d = '(') : c ∉ taken := by
  have all : endMarks.all fun c => !isBlank c && !isWordChar c && !CharProperty.digit.holds c &&
      c != '(' := by decide
  have apart := List.all_eq_true.mp all c isMark
  intro member
  rcases each c member with one | two | three | rfl
  · simp [one] at apart
  · simp [two] at apart
  · simp [three] at apart
  · cases apart

theorem isWordChar_of_mem {text : String} (all : text.toList.all isWordChar) :
    ∀ c ∈ text.toList, isWordChar c := List.all_eq_true.mp all

/-- The rule for creations begins with its word. -/
theorem isOnset_creation : IsOnset CreationAt where
  apart _ := Iff.rfl
  filled := by
    rintro before ⟨gap, c, others, same, _⟩
    cases same
  opens := by
    rintro before c rest isMark ⟨gap, d, others, same, _⟩
    cases same
    revert isMark
    decide
  within := by
    rintro before cs rest c isMark ⟨gap, d, others, same, filled, blanks, isWord⟩
    have free : c ∉ "new".toList ++ (gap ++ [d]) := by
      refine not_mem_of_mem_endMarks isMark ?_
      simp only [List.forall_mem_append, List.forall_mem_singleton]
      exact ⟨fun d member => .inr (.inl (isWordChar_of_mem (by decide) d member)),
        fun d member => .inl (blanks d member), .inr (.inl isWord)⟩
    obtain ⟨middle, rfl, _⟩ := exists_of_append_eq_cons (by simpa using same.symm) free
    exact ⟨gap, d, middle, by simp, filled, blanks, isWord⟩
  trailing := by
    rintro before cs gap isGap ⟨blanks, d, others, same, filled, isBlanks, isWord⟩
    have last : ∃ c ∈ ("new".toList ++ (blanks ++ [d])).getLast?, c ∉ lineBlanks := by
      refine ⟨d, by rw [← List.append_assoc, List.getLast?_concat]; rfl, fun isBlank => ?_⟩
      exact wordless_of_mem (by simp [wordlessMarks, isBlank]) isWord
    obtain ⟨middle, rfl, _⟩ := exists_of_append_eq_gap (by simpa using same.symm) isGap last
    exact ⟨blanks, d, middle, by simp, filled, isBlanks, isWord⟩
  more := by
    rintro before cs rest _ ⟨gap, d, others, rfl, filled, blanks, isWord⟩
    exact ⟨gap, d, others ++ rest, by simp, filled, blanks, isWord⟩
  plain := by
    rintro before word rest plain _ blank ⟨gap, d, others, same, _⟩
    exact not_append_eq plain blank (by decide : (['n', 'e'] ++ ['w']).all (!isBlank ·))
      (by decide) same

/-- The rule for clauses begins with its word or a bracket. -/
theorem isOnset_clause : IsOnset ClauseAt where
  apart _ := Iff.rfl
  filled := by
    rintro before ⟨gap, others, same, _⟩
    cases same
  opens := by
    rintro before c rest isMark ⟨gap, others, same, _⟩
    cases same
    revert isMark
    decide
  within := by
    rintro before cs rest c isMark ⟨gap, others, same, blanks⟩
    have free : c ∉ "catch".toList ++ (gap ++ ['(']) := by
      refine not_mem_of_mem_endMarks isMark ?_
      simp only [List.forall_mem_append, List.forall_mem_singleton]
      exact ⟨fun d member => .inr (.inl (isWordChar_of_mem (by decide) d member)),
        fun d member => .inl (blanks d member), by simp⟩
    obtain ⟨middle, rfl, _⟩ := exists_of_append_eq_cons (by simpa using same.symm) free
    exact ⟨gap, middle, by simp, blanks⟩
  trailing := by
    rintro before cs gap isGap ⟨blanks, others, same, isBlanks⟩
    have last : ∃ c ∈ ("catch".toList ++ (blanks ++ ['('])).getLast?, c ∉ lineBlanks :=
      ⟨'(', by rw [← List.append_assoc, List.getLast?_concat]; rfl, by decide⟩
    obtain ⟨middle, rfl, _⟩ := exists_of_append_eq_gap (by simpa using same.symm) isGap last
    exact ⟨blanks, middle, by simp, isBlanks⟩
  more := by
    rintro before cs rest _ ⟨gap, others, rfl, blanks⟩
    exact ⟨gap, others ++ rest, by simp, blanks⟩
  plain := by
    rintro before word rest plain _ blank ⟨gap, others, same, _⟩
    exact not_append_eq plain blank (by decide : (['c', 'a', 't', 'c'] ++ ['h']).all (!isBlank ·))
      (by decide) same

/-- The rule for long numbers begins with a digit. -/
theorem isOnset_long : IsOnset LongAt where
  apart := by
    intro c rest noWord
    have same (after : Option Char) : Anchor.wordEdge.holds (some c) after =
        Anchor.wordEdge.holds none after := by
      simp [Anchor.holds, Anchor.wordEdge, noWord]
    simp only [LongAt, same]
  filled := by
    rintro before ⟨digits, letter, others, same, _⟩
    exact List.cons_ne_nil letter others (List.append_eq_nil_iff.mp same.symm).2
  opens := by
    rintro before c rest isMark ⟨digits, letter, others, same, filled, isDigits, _⟩
    obtain ⟨d, digits, rfl⟩ := List.exists_cons_of_ne_nil filled
    obtain ⟨rfl, _⟩ := List.cons.inj same
    have all : wordlessMarks.all fun c => !CharProperty.digit.holds c := by decide
    have noDigit := List.all_eq_true.mp all c isMark
    rw [isDigits c List.mem_cons_self] at noDigit
    cases noDigit
  within := by
    rintro before cs rest c isMark ⟨digits, letter, others, same, filled, isDigits,
      isLetter, edge, ends⟩
    have free : c ∉ digits ++ [letter] := by
      refine not_mem_of_mem_endMarks isMark ?_
      simp only [List.forall_mem_append, List.forall_mem_singleton]
      refine ⟨fun d member => .inr (.inr (.inl (isDigits d member))), .inr (.inl ?_)⟩
      rcases List.mem_pair.mp isLetter with rfl | rfl <;> decide
    obtain ⟨middle, rfl, rfl⟩ := exists_of_append_eq_cons (by simpa using same.symm) free
    refine ⟨digits, letter, middle, by simp, filled, isDigits, isLetter, edge, ?_⟩
    cases middle with
    | nil => simp
    | cons d middle => exact ends
  trailing := by
    rintro before cs gap isGap ⟨digits, letter, others, same, filled, isDigits,
      isLetter, edge, ends⟩
    have last : ∃ c ∈ (digits ++ [letter]).getLast?, c ∉ lineBlanks := by
      refine ⟨letter, by rw [List.getLast?_concat]; rfl, ?_⟩
      rcases List.mem_pair.mp isLetter with rfl | rfl <;> decide
    obtain ⟨middle, rfl, rfl⟩ := exists_of_append_eq_gap (by simpa using same.symm) isGap last
    refine ⟨digits, letter, middle, by simp, filled, isDigits, isLetter, edge, ?_⟩
    cases middle with
    | nil => simp
    | cons d middle => exact ends
  more := by
    rintro before cs rest edges ⟨digits, letter, others, rfl, filled, isDigits,
      isLetter, edge, ends⟩
    refine ⟨digits, letter, others ++ rest, by simp, filled, isDigits, isLetter, ?_, ?_⟩
    · exact edge
    · cases others with
      | nil =>
          cases rest with
          | nil => simp
          | cons c rest => simpa using edges c rfl
      | cons d others => exact ends
  plain := by
    rintro before word rest plain nonempty _ ⟨digits, letter, others, same, filled, isDigits, _⟩
    obtain ⟨c, word, rfl⟩ := List.exists_cons_of_ne_nil nonempty
    obtain ⟨d, digits, rfl⟩ := List.exists_cons_of_ne_nil filled
    obtain ⟨rfl, _⟩ := List.cons.inj same
    exact (plain.of_mem List.mem_cons_self).2 (isDigits c List.mem_cons_self)

end Rules

/-! ### Texts of types -/

section Types

variable {part : TypePart} {cs : List Char}

/-- A type that is spelled has blanks only between its parts. -/
theorem partsBlanks_of_isSpelled (spelled : IsSpelled part cs) : PartsBlanks cs := by
  intro c member blank
  have isBlank := spelled.mem_lineBlanks member blank
  exact wordless_of_mem (List.mem_cons_of_mem _ (List.mem_append_right _ isBlank))

theorem free_clause_of_not_mem (none : '(' ∉ cs) : Free ClauseAt cs := by
  rintro before behind rfl ⟨gap, others, rfl, _⟩
  exact none (by simp)

/-- In a type that is spelled no clause begins. -/
theorem free_clause_of_isSpelled (spelled : IsSpelled part cs) : Free ClauseAt cs := by
  refine free_clause_of_not_mem fun member => ?_
  have all : '(' ∉ lineBlanks ∧ '(' ∉ ['.', '<', '>', '[', ']', ',', '?'] ∧ ¬namePart.mem '(' := by
    decide
  rcases spelled.forall_mem '(' member with ⟨isPart, _⟩ | isGap | isMark
  · exact all.2.2 isPart
  · exact all.1 isGap
  · exact all.2.1 isMark

/-- Without blanks no creation begins. -/
theorem free_creation_of_filled (filled : ∀ c ∈ cs, ¬isBlank c) : Free CreationAt cs := by
  rintro before behind rfl ⟨gap, d, others, rfl, nonempty, blanks, _⟩
  obtain ⟨b, gap, rfl⟩ := List.exists_cons_of_ne_nil nonempty
  exact filled b (by simp) (blanks b List.mem_cons_self)

/-- A word that starts like a name, in which no other word begins, has no long number in it. -/
theorem free_long_of_isName (isName : IsName cs) (noDollar : '$' ∉ cs) : Free LongAt cs := by
  have isWord : ∀ c ∈ cs, isWordChar c := by
    intro c member
    have isPart := (isName.forall_mem c member).1
    rw [namePart, CharSet.mem, Bool.or_eq_true, CharSet.mem_single] at isPart
    exact isPart.resolve_right fun isDollar => noDollar (isDollar ▸ member)
  rintro before behind rfl ⟨digits, letter, others, rfl, filled, isDigits, _, edge, _⟩
  obtain ⟨d, digits, rfl⟩ := List.exists_cons_of_ne_nil filled
  have isDigit := isDigits d List.mem_cons_self
  rcases List.eq_nil_or_concat before with rfl | ⟨front, c, rfl⟩
  · obtain ⟨c, starts, isStart⟩ := isName.head?
    cases starts
    have all := forall_ascii (fun c => !nameStart.mem c || !CharProperty.digit.holds c)
      (by decide +kernel) (isAscii_of_nameStart isStart)
    simp [isStart, isDigit] at all
  · have early := isWord c (by simp)
    have late := isWord d (by simp)
    simp [Anchor.holds, Anchor.wordEdge, WordEdge.holds, early, late] at edge

/-- **The text of a type** has no place where a rule begins if its names have none. -/
theorem free_of_isSpelled {At : Onset} (isOnset : IsOnset At) {allowed : Char → Prop}
    (names : ∀ {name}, IsName name → (∀ c ∈ name, allowed c) → Free At name)
    (spelled : IsSpelled part cs) (each : ∀ c ∈ cs, allowed c) : Free At cs := by
  have none := free_nil isOnset
  have qualified {cs : List Char} (isName : IsQualified cs) (each : ∀ c ∈ cs, allowed c) :
      Free At cs := by
    induction isName with
    | name isName => exact names isName each
    | dot isName _ ih =>
        simp only [List.forall_mem_append, List.forall_mem_cons] at each
        exact (names isName each.1).glue isOnset (ih each.2.2) (by decide)
  induction spelled with
  | name isName => exact qualified isName each
  | generic isName isGap _ ih =>
      simp only [List.forall_mem_append, List.forall_mem_cons] at each
      have front := (qualified isName each.1).append_gap isOnset isGap
      have whole := front.glue isOnset ((ih each.2.2.2.1).glue isOnset none
        (by decide : '>' ∈ endMarks)) (by decide : '<' ∈ endMarks)
      simpa using whole
  | array _ isGap isInside ih =>
      simp only [List.forall_mem_append, List.forall_mem_cons] at each
      have inside : Free At _ := (none.gap_append isOnset isInside).glue isOnset none
        (by decide : ']' ∈ endMarks)
      have whole :=
        ((ih each.1).append_gap isOnset isGap).glue isOnset inside (by decide : '[' ∈ endMarks)
      simpa using whole
  | plain _ ih => exact ih each
  | wildcard => exact none.cons isOnset (by decide)
  | bounded isMark before after filled _ ih =>
      simp only [List.forall_mem_append, List.forall_mem_cons] at each
      have plain : ∀ mark ∈ ["extends", "super"], IsPlainWord mark.toList := by decide
      have word := (ih each.2.2.2.2).word_append isOnset (plain _ isMark) after
        fun empty => absurd empty filled
      exact (word.gap_append isOnset before).cons isOnset (by decide)
  | last before _ after ih =>
      simp only [List.forall_mem_append] at each
      exact ((ih each.2.1).append_gap isOnset after).gap_append isOnset before
  | more before _ after _ ih ihRest =>
      simp only [List.forall_mem_append, List.forall_mem_cons] at each
      have whole := (((ih each.2.1).append_gap isOnset after).glue isOnset (ihRest each.2.2.2.2)
        (by decide : ',' ∈ endMarks)).gap_append isOnset before
      simpa using whole

theorem free_creation_of_isSpelled (spelled : IsSpelled part cs) : Free CreationAt cs := by
  refine free_of_isSpelled isOnset_creation (fun isName _ => ?_) spelled (fun _ _ => trivial)
  exact free_creation_of_filled fun c member => (isName.forall_mem c member).2

/-- Nor has it a long number, if there is no dollar sign in it. -/
theorem free_long_of_isSpelled (spelled : IsSpelled part cs) (noDollar : '$' ∉ cs) :
    Free LongAt cs := by
  refine free_of_isSpelled isOnset_long (fun isName each => ?_) spelled
    (fun c member isDollar => noDollar (isDollar ▸ member) : ∀ c ∈ cs, c ≠ '$')
  exact free_long_of_isName isName fun member => each '$' member rfl

/-- The characters of operators and literals that the text of a type does not have. -/
def operatorSigns : List Char := ['=', '!', '"', '\'']

/-- A type that is spelled has no sign of operators. -/
theorem not_mem_operatorSigns (spelled : IsSpelled part cs) : ∀ c ∈ cs, c ∉ operatorSigns := by
  intro c member isSign
  have all : operatorSigns.all fun c => !namePart.mem c && c ∉ lineBlanks &&
      c ∉ ['.', '<', '>', '[', ']', ',', '?'] := by decide
  have apart := List.all_eq_true.mp all c isSign
  rcases spelled.forall_mem c member with ⟨isPart, _⟩ | isGap | isMark
  · simp [isPart] at apart
  · simp [isGap] at apart
  · simp [isMark] at apart

/-- What holds of separators and texts holds of them joined. -/
theorem forall_mem_intercalate {holds : Char → Prop} {separator : List Char}
    {texts : List (List Char)} (here : ∀ c ∈ separator, holds c)
    (each : ∀ text ∈ texts, ∀ c ∈ text, holds c) : ∀ c ∈ separator.intercalate texts, holds c := by
  induction texts with
  | nil => exact List.forall_mem_nil _
  | cons text texts ih =>
      obtain ⟨first, later⟩ := List.forall_mem_cons.mp each
      cases texts with
      | nil => simpa using first
      | cons other texts =>
          rw [List.intercalate_cons_cons]
          simp only [List.forall_mem_append]
          exact ⟨⟨first, here⟩, ih later⟩

/-- What is written of parts without signs of operators has none. -/
theorem inherits_signs : Inherits (fun cs => PartsBlanks cs ∧ ∀ c ∈ cs, c ∉ operatorSigns)
    fun cs => ∀ c ∈ cs, c ≠ '.' ∧ c ∉ operatorSigns where
  parts good := good.1
  piece piece good := ⟨piece.partsBlanks good.1, fun c member => good.2 c (piece.subset member)⟩
  name good noPoint c member := ⟨fun isPoint => noPoint (isPoint ▸ member), good.2 c member⟩
  written := by
    have all : writtenNames.all fun name =>
        name.toList.all fun c => c != '.' && c ∉ operatorSigns := by
      decide
    intro name member c there
    simpa using List.all_eq_true.mp (List.all_eq_true.mp all name member) c there
  array image := by
    simp only [List.forall_mem_append, List.forall_mem_cons]
    exact ⟨image, by decide, by decide, nofun⟩
  grouped image := by
    simp only [List.forall_mem_append, List.forall_mem_cons]
    exact ⟨by decide, image, by decide, by decide, by decide, nofun⟩
  applied name _ arguments := by
    simp only [List.forall_mem_append, List.forall_mem_cons]
    exact ⟨name, by decide, forall_mem_intercalate (by simp; decide) arguments, by decide, nofun⟩

end Types

end Transcode.Output
