import Transcode.Proofs.EqualitySigns
import Transcode.Proofs.Framing
import Transcode.Proofs.Onsets

/-!
# The rules for expressions within a line

A head of a line has no place where one of the rules for expressions begins, and ends with an equals
sign and a blank (`Output.IsHead`). So code behind it is written as if it stood alone
(`Output.replaceCode_head`), and so is code before a semicolon (`Output.replaceCode_semicolon`).
-/

namespace Transcode.Output

open Regex Text

/-! ### Rules for signs -/

/-- What a rule for signs swaps: signs that it knows, with the character behind them, for the same
with one sign more. -/
structure IsSwapped (IsSigns : List Char → List Char → Prop) (read rest : List Char) (swap : Swap)
    (signs tail : List Char) : Prop where
  isSigns : IsSigns read signs
  rest_eq : rest = signs ++ (tail ++ swap.rest)
  isTail : IsTail tail swap.rest
  taken_eq : swap.taken = signs ++ tail
  written_eq : swap.written = signs ++ '=' :: tail

/-- A rule that swaps some signs and nothing else. -/
structure SwapsSigns (rule : Substitution) (IsSigns : List Char → List Char → Prop) : Prop where
  sound {read rest : List Char} {swap : Swap} : rule.swap? read rest = some swap →
    ∃ signs tail, IsSwapped IsSigns read rest swap signs tail
  complete {read signs tail others : List Char} : IsSigns read signs → IsTail tail others →
    rule.swap? read (signs ++ (tail ++ others)) ≠ none
  unique {read signs other rest others : List Char} : IsSigns read signs → IsSigns read other →
    signs ++ rest = other ++ others → signs = other
  last {read signs : List Char} : IsSigns read signs → signs.getLast? = some '='

/-- The signs of an equality, with the character before them. -/
def EqualitySigns (read signs : List Char) : Prop :=
  ∃ front, IsFront read front ∧ signs = front ++ ['=', '=']

/-- The signs of an inequality. -/
def InequalitySigns (_ signs : List Char) : Prop := signs = ['!', '=']

section Signs

variable {rule : Substitution} {IsSigns : List Char → List Char → Prop}
  {read rest front : List Char}
variable {tail other others more : List Char} {d : Char} {swap : Swap}

/-- A text has one tail. -/
theorem IsTail.unique (isTail : IsTail tail others) (also : IsTail other more)
    (same : tail ++ others = other ++ more) : tail = other ∧ others = more := by
  obtain ⟨rfl, rfl⟩ | ⟨c, rfl, _⟩ := isTail <;> obtain ⟨rfl, rfl⟩ | ⟨d, rfl, _⟩ := also
  · exact ⟨rfl, rfl⟩
  · cases same
  · cases same
  · cases same
    exact ⟨rfl, rfl⟩

/-- A rule for signs swaps at its signs and nowhere else. -/
theorem SwapsSigns.swap?_iff (swaps : SwapsSigns rule IsSigns) : rule.swap? read rest = some swap ↔
    ∃ signs tail, IsSwapped IsSigns read rest swap signs tail := by
  refine ⟨swaps.sound, fun ⟨signs, tail, here⟩ => ?_⟩
  obtain ⟨found, same⟩ :=
    Option.ne_none_iff_exists'.mp (swaps.complete here.isSigns here.isTail)
  rw [← here.rest_eq] at same
  obtain ⟨other, more, there⟩ := swaps.sound same
  have both := here.rest_eq.symm.trans there.rest_eq
  obtain rfl := swaps.unique here.isSigns there.isSigns both
  obtain ⟨rfl, left⟩ := here.isTail.unique there.isTail (List.append_cancel_left both)
  rw [same, Option.some.injEq, Swap.mk.injEq]
  exact ⟨there.taken_eq.trans here.taken_eq.symm,
    there.written_eq.trans here.written_eq.symm, left.symm⟩

/-- **A rule for signs** takes another character behind them as it is. -/
theorem SwapsSigns.ignores (swaps : SwapsSigns rule IsSigns) (noSign : d ≠ '=') :
    rule.Ignores d := by
  intro read rest
  cases found : rule.swap? read rest with
  | some swap =>
      obtain ⟨signs, tail, here⟩ := swaps.sound found
      obtain ⟨none, atEnd⟩ | ⟨c, isLast, other⟩ := here.isTail
      · refine .inr ⟨atEnd, swaps.swap?_iff.mpr ⟨signs, [d], here.isSigns, ?_, ?_, ?_, ?_⟩⟩
        · simp [here.rest_eq, none, atEnd]
        · exact .inr ⟨d, rfl, noSign⟩
        · simp [here.taken_eq, none]
        · simp [here.written_eq, none]
      · refine .inl (swaps.swap?_iff.mpr ⟨signs, tail, here.isSigns, ?_, ?_, here.taken_eq,
          here.written_eq⟩)
        · simp [here.rest_eq]
        · exact .inr ⟨c, isLast, other⟩
  | none =>
      refine Option.eq_none_iff_forall_ne_some.mpr fun swap also => ?_
      obtain ⟨signs, tail, here⟩ := swaps.sound also
      have noMatch {tail others : List Char} (isTail : IsTail tail others)
          (same : rest = signs ++ (tail ++ others)) : False :=
        swaps.complete here.isSigns isTail (same ▸ found)
      have whole := here.rest_eq
      obtain ⟨none, atEnd⟩ | ⟨c, isLast, other⟩ := here.isTail
      · have isEnd := congrArg List.getLast? whole
        rw [none, atEnd, List.append_nil, List.append_nil, List.getLast?_concat,
          swaps.last here.isSigns] at isEnd
        exact noSign (Option.some.inj isEnd)
      · rcases List.eq_nil_or_concat swap.rest with atEnd | ⟨others, e, isRest⟩
        · rw [isLast, atEnd, List.append_nil] at whole
          exact noMatch (.inl ⟨rfl, rfl⟩) (by simpa using List.append_inj_left' whole rfl)
        · rw [isRest, List.concat_eq_append, ← List.append_assoc, ← List.append_assoc] at whole
          refine noMatch (.inr ⟨c, isLast, other⟩ : IsTail tail others) ?_
          rw [← List.append_assoc]
          exact List.append_inj_left' whole rfl

/-- There is no equal sign in the front. -/
theorem IsFront.not_mem (isFront : IsFront read front) : '=' ∉ front := by
  obtain ⟨rfl, _⟩ | ⟨c, rfl, other⟩ := isFront
  · exact List.not_mem_nil
  · intro member
    rw [List.mem_singleton.mp member] at other
    exact other List.mem_cons_self

/-- A text has one front. -/
theorem IsFront.unique (isFront : IsFront read front) (also : IsFront read other)
    (same : front ++ '=' :: rest = other ++ '=' :: others) : front = other := by
  obtain ⟨middle, rfl, later⟩ := exists_of_append_eq_cons same isFront.not_mem
  cases middle with
  | nil => exact (List.append_nil _).symm
  | cons c middle =>
      obtain ⟨rfl, _⟩ := List.cons.inj later
      exact absurd (by simp) also.not_mem

/-- The rule for equality swaps its two signs. -/
theorem swapsSigns_equality : SwapsSigns equalityRule EqualitySigns where
  sound found := by
    obtain ⟨front, tail, place, taken, written⟩ := swap?_equality found
    refine ⟨front ++ ['=', '='], tail, ⟨front, place.isFront, rfl⟩, ?_, place.isTail, ?_, ?_⟩
    · simpa using place.rest_eq
    · simpa using taken
    · simpa using written
  complete := by
    rintro read _ tail others ⟨front, isFront, rfl⟩ isTail
    exact swap?_equality_ne_none ⟨by simp, isFront, isTail⟩
  unique := by
    rintro read _ _ rest others ⟨front, isFront, rfl⟩ ⟨other, also, rfl⟩ same
    rw [isFront.unique also (by simpa using same)]
  last := by
    rintro read _ ⟨front, _, rfl⟩
    simp

/-- The rule for inequality swaps its two signs. -/
theorem swapsSigns_inequality : SwapsSigns inequalityRule InequalitySigns where
  sound found := by
    obtain ⟨tail, same, isTail, taken, written⟩ := swap?_inequality found
    exact ⟨['!', '='], tail, rfl, same, isTail, taken, written⟩
  complete := by
    rintro read _ tail others rfl isTail
    have found : inequalityRule.swap? read ('!' :: '=' :: (tail ++ others)) ≠ none :=
      swap?_inequality_ne_none isTail
    exact found
  unique first second _ := first.trans second.symm
  last := by
    rintro read _ rfl
    rfl

end Signs

/-! ### Rules for words -/

section Words

variable {rule : Substitution} {read rest : List Char} {start stop : Spot} {classes : List String}

/-- A choice reads what one of its expressions reads. -/
theorem exists_of_mem_paths_choice {choices : List Regex} (filled : choices ≠ [])
    (member : stop ∈ (choice choices).paths start) :
    ∃ chosen ∈ choices, stop ∈ chosen.paths start := by
  induction choices with
  | nil => exact absurd rfl filled
  | cons first others ih =>
      cases others with
      | nil => exact ⟨first, List.mem_cons_self, member⟩
      | cons second others =>
          rcases mem_paths_alt.mp member with here | later
          · exact ⟨first, List.mem_cons_self, here⟩
          · obtain ⟨chosen, isChosen, there⟩ := ih (List.cons_ne_nil second others) later
            exact ⟨chosen, List.mem_cons_of_mem _ isChosen, there⟩

/-- Where a creation of an object is matched, its word stands, and a name behind it. -/
theorem creationAt_of_mem_paths (filled : classes ≠ [])
    (areNames : ∀ name ∈ classes, name.toList.head?.any isWordChar)
    (member : stop ∈ (creationOf classes).paths start) : CreationAt start.before start.rest := by
  simp only [creationOf, Regex.sequence, Regex.plus, blank, mem_paths_seq, mem_paths_anchor,
    mem_paths_literal, mem_paths_plus] at member
  obtain ⟨_, ⟨_, rfl⟩, _, ⟨others, same, rfl⟩, behind, ⟨gap, nonempty, isGap, areBlank, _⟩, _,
    chosen, _⟩ := member
  obtain ⟨regex, isName, there⟩ := exists_of_mem_paths_choice (by simpa using filled) chosen
  obtain ⟨name, isClass, rfl⟩ := List.mem_map.mp isName
  obtain ⟨more, isRest, _⟩ := mem_paths_literal.mp there
  obtain ⟨c, first, isWord⟩ := (Option.any_eq_true _ _).mp (areNames name isClass)
  obtain ⟨letters, isCons⟩ := List.head?_eq_some_iff.mp first
  refine ⟨gap, c, letters ++ more, ?_, nonempty, areBlank, isWord⟩
  rw [same, ← List.cons_append, ← isCons, ← isRest]
  exact congrArg _ isGap

/-- Where a clause that catches is matched, its word stands, and a parenthesis behind it. -/
theorem clauseAt_of_mem_paths (member : stop ∈ catchClause.paths start) :
    ClauseAt start.before start.rest := by
  simp only [catchClause, Regex.sequence, Regex.star, blank, char, mem_paths_seq, mem_paths_anchor,
    mem_paths_literal, mem_paths_star, mem_paths_set, CharSet.mem_single] at member
  obtain ⟨_, ⟨_, rfl⟩, _, ⟨others, same, rfl⟩, behind, ⟨gap, isGap, areBlank, _⟩, _,
    ⟨_, more, isRest, rfl, _⟩, _⟩ := member
  exact ⟨gap, more, by rw [same, ← isRest]; exact congrArg _ isGap, areBlank⟩

/-- Where the rule for numbers matches, a long number stands. -/
theorem longAt_of_mem_paths (member : stop ∈ longRule.pattern.paths start) :
    LongAt start.before start.rest := by
  simp only [longRule, Regex.sequence, capture, Regex.plus, mem_paths_seq, mem_paths_group,
    mem_paths_anchor, mem_paths_set, mem_paths_plus, CharSet.mem_ofText] at member
  obtain ⟨_, ⟨edge, rfl⟩, _, ⟨inner, ⟨digits, filled, same, isDigits, _⟩, rfl⟩, _,
    ⟨letter, others, next, isLetter, rfl⟩, ends, _⟩ := member
  rw [Spot.rest_close] at next
  rw [next] at same
  refine ⟨digits, letter, others, same, filled, isDigits, isLetter, ?_, ?_⟩
  · rwa [same, List.head?_append_of_ne_nil _ filled] at edge
  · have isWord : isWordChar letter := by
      rcases List.mem_pair.mp (by simpa using isLetter) with rfl | rfl <;> decide
    have here : Anchor.wordEdge.holds (some letter) others.head? := ends
    simpa [Anchor.holds, Anchor.wordEdge, WordEdge.holds, isWord] using here

/-- The collections whose creations are replaced. -/
def createdClasses : List (List String) :=
  [["ArrayList", "LinkedList"], ["HashMap", "TreeMap", "LinkedHashMap"],
    ["HashSet", "TreeSet", "LinkedHashSet"]]

/-- What a rule for the library begins with: a name with a point in it, or a word that it is for. -/
theorem begin_of_mem_libraryRules : ∀ rule ∈ libraryRules,
    '.' ∈ rule.pattern.opening.1 ∧ ' ' ∉ rule.pattern.opening.1 ∨
      rule.pattern ∈ createdClasses.map creationOf ∨ rule.pattern = catchClause := by
  decide +kernel

/-- Each rule for a creation has names that begin with characters of words. -/
theorem createdClasses_names : ∀ classes ∈ createdClasses,
    classes ≠ [] ∧ ∀ name ∈ classes, name.toList.head?.any isWordChar := by
  decide

theorem asksOnly_of_mem_libraryRules : ∀ rule ∈ libraryRules,
    rule.pattern.AsksOnly (· = .wordEdge) := by
  decide +kernel

end Words

/-! ### Code behind a head -/

/-- The head of a line: text without places where a rule begins, an equals sign and a blank. -/
structure IsHead (cs : List Char) : Prop where
  creation : Free CreationAt cs
  clause : Free ClauseAt cs
  long : Free LongAt cs
  signs : ∀ c ∈ cs, c ≠ '.' ∧ c ∉ operatorSigns

section Heads

variable {rule : Substitution} {At : Onset} {cs early late code rest : List Char}

/-- The signs at the end of a head begin nothing either. -/
theorem Free.not_at_head (isOnset : IsOnset At) (free : Free At cs)
    (same : cs ++ ['=', ' '] = early ++ late) (filled : late ≠ []) :
    ¬At early.getLast? (late ++ code) := by
  rcases List.append_eq_append_iff.mp same with ⟨beyond, rfl, ends⟩ | ⟨middle, rfl, rfl⟩
  · cases late with
    | nil => exact absurd rfl filled
    | cons c late =>
        have isEnd : c ∈ ['=', ' '] := ends ▸ List.mem_append_right _ List.mem_cons_self
        rcases List.mem_pair.mp isEnd with rfl | rfl <;> exact isOnset.opens (by decide)
  · rw [List.append_assoc]
    exact fun here => free early middle rfl (isOnset.within (by decide : '=' ∈ endMarks) here)

/-- There is no point in a head. -/
theorem IsHead.point_not_mem (isHead : IsHead cs) : '.' ∉ cs ++ ['=', ' '] := by
  rw [List.mem_append]
  rintro (member | member)
  · exact (isHead.signs '.' member).1 rfl
  · revert member
    decide

/-- **No rule for words** matches within a head. -/
theorem IsHead.swap?_eq_none (isHead : IsHead cs) (isRule : rule ∈ libraryRules ∨ rule = longRule)
    (same : cs ++ ['=', ' '] = early ++ late) (filled : late ≠ []) :
    rule.swap? early (late ++ code) = none := by
  refine Option.eq_none_iff_forall_ne_some.mpr fun swap found => ?_
  obtain ⟨stop, member, _⟩ := Substitution.exists_of_swap? found
  rcases isRule with isRule | rfl
  · rcases begin_of_mem_libraryRules rule isRule with ⟨hasPoint, noBlank⟩ | creates | catches
    · obtain ⟨rest, begins, _⟩ := exists_of_opening member
      -- the head ends with a blank, so a name that is matched within it would be part of it
      rcases List.eq_nil_or_concat late with rfl | ⟨front, c, rfl⟩
      · exact filled rfl
      · rw [List.concat_eq_append] at begins same
        have isBlank : c = ' ' := by
          have last := congrArg List.getLast? same
          rw [← List.append_assoc, List.getLast?_concat] at last
          simpa using last.symm
        subst isBlank
        have whole : rule.pattern.opening.1 ++ rest = front ++ ' ' :: code := by
          simpa [Spot.between] using begins.symm
        obtain ⟨middle, rfl, _⟩ := exists_of_append_eq_cons whole noBlank
        exact isHead.point_not_mem (same ▸ by simp [hasPoint])
    · obtain ⟨classes, isCreated, created⟩ := List.mem_map.mp creates
      obtain ⟨nonempty, areNames⟩ := createdClasses_names classes isCreated
      exact isHead.creation.not_at_head isOnset_creation same filled
        (creationAt_of_mem_paths nonempty areNames (created ▸ member))
    · exact isHead.clause.not_at_head isOnset_clause same filled
        (clauseAt_of_mem_paths (catches ▸ member))
  · exact isHead.long.not_at_head isOnset_long same filled (longAt_of_mem_paths member)

/-- A rule for words changes nothing in a head. -/
theorem IsHead.apply_words (isHead : IsHead cs) (isRule : rule ∈ libraryRules ∨ rule = longRule) :
    rule.apply (cs ++ ['=', ' '] ++ code) = cs ++ ['=', ' '] ++ rule.apply code := by
  have parts : 0 < rule.pattern.least ∧ rule.pattern.AsksOnly (· = .wordEdge) := by
    rcases isRule with isRule | rfl
    · exact ⟨Nat.lt_of_lt_of_le Nat.two_pos (shape_of_mem_libraryRules rule isRule).1,
        asksOnly_of_mem_libraryRules rule isRule⟩
    · decide +kernel
  refine Substitution.apply_front parts.1
    (fun early late same filled => isHead.swap?_eq_none isRule same filled)
    fun read rest _ => Substitution.swap?_behind parts.2 ?_ read rest
  rintro c last
  rw [List.getLast?_append] at last
  cases last
  decide

/-- The rule for inequality changes nothing in a head. -/
theorem IsHead.apply_inequality (isHead : IsHead cs) :
    inequalityRule.apply (cs ++ ['=', ' '] ++ code) =
    cs ++ ['=', ' '] ++ inequalityRule.apply code := by
  refine Substitution.apply_front (by decide) (fun early late same filled => ?_) fun read rest _ =>
    ?_
  · refine Option.eq_none_iff_forall_ne_some.mpr fun swap found => ?_
    obtain ⟨signs, tail, here⟩ := swapsSigns_inequality.sound found
    obtain ⟨c, late, rfl⟩ := List.exists_cons_of_ne_nil filled
    obtain ⟨rfl, _⟩ := List.cons.inj (here.isSigns ▸ here.rest_eq)
    have member : '!' ∈ cs ++ ['=', ' '] := same ▸ by simp
    have isSign : '!' ∈ cs := by simpa using member
    exact (isHead.signs '!' isSign).2 (by decide)
  · refine Option.ext fun swap => ?_
    rw [swapsSigns_inequality.swap?_iff, swapsSigns_inequality.swap?_iff]
    exact exists_congr fun signs => exists_congr fun tail =>
      ⟨fun here => ⟨here.1, here.2, here.3, here.4, here.5⟩,
        fun here => ⟨here.1, here.2, here.3, here.4, here.5⟩⟩

/-- Code that begins with the signs of an equality. -/
def BeginsEqual (code : List Char) : Prop :=
  ∃ tail others, code = '=' :: '=' :: (tail ++ others) ∧ IsTail tail others

/-- What stands before a place matters to the rule for equality only where nothing has been read. -/
theorem swap?_equality_behind (front : List Char) {read : List Char}
    (apart : read = [] → ¬BeginsEqual rest) :
    equalityRule.swap? (front ++ read) rest = equalityRule.swap? read rest := by
  refine Option.ext fun swap => ?_
  rw [swapsSigns_equality.swap?_iff, swapsSigns_equality.swap?_iff]
  refine exists_congr fun signs => exists_congr fun tail => ⟨fun here => ?_, fun here => ?_⟩
  · obtain ⟨front, ⟨rfl, none⟩ | other, same⟩ := here.isSigns
    · exact { here with isSigns := ⟨[], .inl ⟨rfl, (List.append_eq_nil_iff.mp none).2⟩, same⟩ }
    · exact { here with isSigns := ⟨front, .inr other, same⟩ }
  · obtain ⟨front, ⟨rfl, none⟩ | other, same⟩ := here.isSigns
    · exact absurd ⟨tail, swap.rest, here.rest_eq.trans (same ▸ rfl), here.isTail⟩ (apart none)
    · exact { here with isSigns := ⟨front, .inr other, same⟩ }

/-- A blank at the start of a text comes before signs as the start does. -/
theorem apply_equality_blank (code : List Char) :
    equalityRule.apply (' ' :: code) = ' ' :: equalityRule.apply code := by
  have consumes : 0 < equalityRule.pattern.least := by decide
  have makes : equalityRule.Makes [] code (equalityRule.apply code) := (makes_iff consumes).mpr rfl
  generalize equalityRule.apply code = out at makes
  refine (makes_iff consumes).mp ?_
  by_cases begins : BeginsEqual code
  · obtain ⟨tail, others, rfl, isTail⟩ := begins
    have first : equalityRule.swap? [] ('=' :: '=' :: (tail ++ others)) =
        some ⟨'=' :: '=' :: tail, '=' :: '=' :: '=' :: tail, others⟩ :=
      swapsSigns_equality.swap?_iff.mpr
        ⟨['=', '='], tail, ⟨[], .inl ⟨rfl, rfl⟩, rfl⟩, rfl, isTail, rfl, rfl⟩
    have second : equalityRule.swap? [] (' ' :: '=' :: '=' :: (tail ++ others)) =
        some ⟨' ' :: '=' :: '=' :: tail, ' ' :: '=' :: '=' :: '=' :: tail, others⟩ :=
      swapsSigns_equality.swap?_iff.mpr
        ⟨[' ', '=', '='], tail, ⟨[' '], .inr ⟨' ', rfl, by decide⟩, rfl⟩, rfl, isTail, rfl, rfl⟩
    cases makes with
    | keep none => rw [first] at none; cases none
    | swap found later =>
        obtain rfl := Option.some.inj (first.symm.trans found)
        exact .swap second (later.behind fun more late _ => swap?_equality_behind [' '] nofun)
  · refine .keep ?_ (makes.behind fun more late same => swap?_equality_behind [' '] ?_)
    · refine Option.eq_none_iff_forall_ne_some.mpr fun swap found => ?_
      obtain ⟨_, tail, ⟨⟨front, isFront, rfl⟩, same, isTail, _⟩⟩ := swapsSigns_equality.sound found
      obtain ⟨rfl, _⟩ | ⟨d, rfl, _⟩ := isFront
      · cases same
      · obtain ⟨rfl, rfl⟩ := List.cons.inj same
        exact begins ⟨tail, swap.rest, rfl, isTail⟩
    · rintro none
      obtain rfl : more = [] := by simpa using none
      obtain rfl : code = late := same
      exact begins

/-- The rule for equality changes nothing in a head. -/
theorem IsHead.apply_equality (isHead : IsHead cs) : equalityRule.apply (cs ++ ['=', ' '] ++ code) =
    cs ++ ['=', ' '] ++ equalityRule.apply code := by
  have whole (code : List Char) : cs ++ ['=', ' '] ++ code = cs ++ ['='] ++ ' ' :: code := by simp
  have noSign : '=' ∉ cs := fun member => (isHead.signs '=' member).2 (by decide)
  rw [whole, whole, ← apply_equality_blank]
  refine Substitution.apply_front (by decide) (fun early late same filled => ?_)
    fun read rest there => ?_
  · refine Option.eq_none_iff_forall_ne_some.mpr fun swap found => ?_
    obtain ⟨_, tail, ⟨⟨front, isFront, rfl⟩, left, _⟩⟩ := swapsSigns_equality.sound found
    rcases List.eq_nil_or_concat late with rfl | ⟨middle, c, rfl⟩
    · exact filled rfl
    · rw [List.concat_eq_append, ← List.append_assoc] at same
      obtain ⟨rfl, isSign⟩ := List.append_inj' same rfl
      obtain rfl : '=' = c := by simpa using isSign
      have free : '=' ∉ middle := fun member => noSign (List.mem_append_right _ member)
      have both : middle ++ '=' :: ' ' :: code = front ++ '=' :: '=' :: (tail ++ swap.rest) := by
        simpa using left
      obtain ⟨more, rfl, later⟩ := exists_of_append_eq_cons both free
      cases more with
      | nil => cases later
      | cons d more =>
          obtain ⟨rfl, _⟩ := List.cons.inj later
          exact isFront.not_mem (by simp)
  · refine swap?_equality_behind _ fun none begins => ?_
    obtain ⟨tail, others, isRest, _⟩ := begins
    rw [none, isRest] at there
    cases there

end Heads

/-! ### Code within a line -/

section Code

variable {cs code : List Char}

/-- What all rules keep, a scope without names keeps. -/
theorem replaceCode_comm (frame : List Char → List Char)
    (each : ∀ rule ∈ expressionSubstitutions, ∀ code, rule.apply (frame code) =
      frame (rule.apply code))
    (code : List Char) :
    ({} : Scope).replaceCode (frame code) = frame (({} : Scope).replaceCode code) := by
  have all (rules : List Substitution)
      (each : ∀ rule ∈ rules, ∀ code, rule.apply (frame code) = frame (rule.apply code))
      (code : List Char) : applyAll rules (frame code) = frame (applyAll rules code) := by
    induction rules generalizing code with
    | nil => rfl
    | cons rule rules ih =>
        obtain ⟨here, later⟩ := List.forall_mem_cons.mp each
        rw [applyAll_cons, applyAll_cons, here, ih later]
  rw [replaceCode_eq_applyAll, replaceCode_eq_applyAll]
  exact all expressionSubstitutions each code

/-- The rules for expressions are those for words and those for signs. -/
theorem mem_expressionSubstitutions {rule : Substitution} : rule ∈ expressionSubstitutions ↔
    (rule ∈ libraryRules ∨ rule = longRule) ∨ rule = equalityRule ∨ rule = inequalityRule := by
  rw [expressionSubstitutions_eq, List.mem_append]
  simp only [List.mem_cons, List.not_mem_nil, or_false]
  tauto

/-- **Code behind a head** is written as it is alone. -/
theorem replaceCode_head (isHead : IsHead cs) (code : List Char) :
    ({} : Scope).replaceCode (cs ++ ['=', ' '] ++ code) =
      cs ++ ['=', ' '] ++ ({} : Scope).replaceCode code := by
  refine replaceCode_comm (cs ++ ['=', ' '] ++ ·) (fun rule isRule code => ?_) code
  rcases mem_expressionSubstitutions.mp isRule with words | rfl | rfl
  · exact isHead.apply_words words
  · exact isHead.apply_equality
  · exact isHead.apply_inequality

/-- **Code before a semicolon** is written as it is alone. -/
theorem replaceCode_semicolon (code : List Char) :
    ({} : Scope).replaceCode (code ++ [';']) = ({} : Scope).replaceCode code ++ [';'] := by
  refine replaceCode_comm (· ++ [';']) (fun rule isRule code => ?_) code
  have noWord : ¬isWordChar ';' := by decide
  have consumes : 0 < rule.pattern.least :=
    (isPlain_of_mem_expressionSubstitutions rule isRule).consumes
  refine Substitution.apply_end consumes ?_
  rcases mem_expressionSubstitutions.mp isRule with (isLibrary | rfl) | rfl | rfl
  · have asks := asksOnly_of_mem_libraryRules rule isLibrary
    obtain ⟨_, closes, _⟩ := shape_of_mem_libraryRules rule isLibrary
    rcases List.mem_pair.mp closes with closes | closes
    · exact Substitution.ignores_of_closing? asks closes (by decide) noWord
    · exact Substitution.ignores_of_closing? asks closes (by decide) noWord
  · exact Substitution.ignores_of_closing? (by decide) rfl (by decide) noWord
  · exact swapsSigns_equality.ignores (by decide)
  · exact swapsSigns_inequality.ignores (by decide)

end Code

end Transcode.Output
