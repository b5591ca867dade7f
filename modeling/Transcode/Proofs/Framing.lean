import Transcode.Proofs.EqualityRules

/-!
# Substitutions within a frame

What a substitution makes of a text is what it makes of it with more text before it, if none of its
matches begins there (`Output.Substitution.apply_front`), and with one more character behind it, if
that matters to no match (`Output.Substitution.apply_end`). So the code of a line is changed by
itself between a front and an end (`Output.mapCode_front`, `Output.mapCode_end`).
-/

namespace Transcode

open Regex Text

namespace Regex

/-- What is written for a match depends on what it took and on its groups. -/
theorem expand_congr {start stop other next : Spot} (taken : start.textTo stop = other.textTo next)
    (groups : ∀ index, stop.group? index = next.group? index) (replacement : String) :
    expand replacement start stop = expand replacement other next := by
  have same : groupText start stop = groupText other next := by
    funext name
    unfold groupText
    split <;> simp only [taken, groups]
  have each (fuel : Nat) (cs : List Char) :
      expandWithin start stop fuel cs = expandWithin other next fuel cs := by
    fun_induction expandWithin start stop fuel cs <;> simp_all [expandWithin]
  exact each _ _

end Regex

namespace Output

namespace Substitution

variable {substitution : Substitution} {front read rest code out : List Char} {d : Char}

/-! ### More text before -/

/-- What stands before a place does not matter to a rule that asks for edges of words only. -/
theorem swap?_behind (asks : substitution.pattern.AsksOnly (· = .wordEdge))
    (edge : ∀ c ∈ front.getLast?, ¬isWordChar c) (read rest : List Char) :
    substitution.swap? (front ++ read) rest = substitution.swap? read rest := by
  have behind : Behind front (.between read rest) (.between (front ++ read) rest) := by
    refine ⟨rfl, List.length_append, rfl, ?_⟩
    rw [Spot.between, Spot.between, List.getLast?_append]
    cases last : read.getLast? with
    | some c => exact .inl rfl
    | none =>
        refine .inr ⟨?_, by simp⟩
        cases ends : front.getLast? with
        | none => simp
        | some c => simpa using edge c ends
  have aligned := forall₂_paths_behind asks behind
  rw [swap?, swap?]
  revert aligned
  generalize substitution.pattern.paths (.between read rest) = stops
  generalize substitution.pattern.paths (.between (front ++ read) rest) = others
  intro aligned
  cases aligned with
  | nil => rfl
  | @cons stop other _ _ also _ =>
      have taken : (Spot.between read rest).textTo stop =
          (Spot.between (front ++ read) rest).textTo other := by
        rw [Spot.textTo, Spot.textTo, Spot.extentTo, Spot.extentTo, behind.rest_eq,
          behind.offset_eq, also.offset_eq, Nat.add_sub_add_left]
      have groups (index : Nat) : stop.group? index = other.group? index := by
        rw [Spot.group?, Spot.group?, also.groups_eq]
      rw [List.head?_cons, List.head?_cons, Option.map_some, Option.map_some, taken, also.rest_eq,
        expand_congr taken groups]

/-- A run goes on behind a front as it does without, if the rule does at each of its places. -/
theorem Makes.behind (makes : substitution.Makes read rest out)
    (behind : ∀ more late, rest = more ++ late →
      substitution.swap? (front ++ (read ++ more)) late = substitution.swap? (read ++ more) late) :
    substitution.Makes (front ++ read) rest out := by
  have here {read rest : List Char} (behind : ∀ more late, rest = more ++ late →
      substitution.swap? (front ++ (read ++ more)) late = substitution.swap? (read ++ more) late) :
      substitution.swap? (front ++ read) rest = substitution.swap? read rest := by
    simpa using behind [] rest rfl
  induction makes with
  | done none => exact .done ((here behind).trans none)
  | @keep read rest out c none _ ih =>
      refine .keep ((here behind).trans none) ?_
      rw [List.append_assoc]
      refine ih fun more late same => ?_
      simpa using behind (c :: more) late (congrArg _ same)
  | @swap read rest out swap found _ ih =>
      refine .swap ((here behind).trans found) ?_
      rw [List.append_assoc]
      refine ih fun more late same => ?_
      have whole := (rest_eq_of_swap? found).trans (congrArg _ same)
      simpa using behind (swap.taken ++ more) late (by simpa using whole)

/-- **A substitution behind a front** in which none of its matches begins. -/
theorem apply_front (consumes : 0 < substitution.pattern.least)
    (still : ∀ early late, front = early ++ late → late ≠ [] →
      substitution.swap? early (late ++ code) = none)
    (behind : ∀ read rest, code = read ++ rest →
      substitution.swap? (front ++ read) rest = substitution.swap? read rest) :
    substitution.apply (front ++ code) = front ++ substitution.apply code := by
  have early (read late : List Char) (same : front = read ++ late) :
      substitution.Makes read (late ++ code) (late ++ substitution.apply code) := by
    induction late generalizing read with
    | nil =>
        rw [List.append_nil] at same
        have makes : substitution.Makes [] code _ := (makes_iff consumes).mpr rfl
        simpa [same] using makes.behind behind
    | cons c late ih =>
        refine .keep (still read (c :: late) same (List.cons_ne_nil c late)) (ih (read ++ [c]) ?_)
        rw [List.append_assoc]
        exact same
  exact (makes_iff consumes).mp (early [] front rfl)

/-! ### One more character behind -/

/-- A rule to whose matches a character at the end of a text does not matter, or which takes and
writes it as it is. -/
def Ignores (substitution : Substitution) (d : Char) : Prop :=
  ∀ read rest, match substitution.swap? read rest with
    | none => substitution.swap? read (rest ++ [d]) = none
    | some swap =>
      substitution.swap? read (rest ++ [d]) = some { swap with rest := swap.rest ++ [d] } ∨
        swap.rest = [] ∧
          substitution.swap? read (rest ++ [d]) = some ⟨swap.taken ++ [d], swap.written ++ [d], []⟩

/-- Groups hold the same with one more character at the end of the text. -/
theorem group?_extend {start stop : Spot} {taken : List Char} (reads : start.Reads stop taken)
    (ungrouped : start.groups = []) (index : Nat) :
    (stop.extend d).group? index = stop.group? index := by
  obtain ⟨groups, same, grouped⟩ := reads.groups_eq
  rw [ungrouped, List.append_nil] at same
  rw [Spot.group?, Spot.group?, Spot.extend, same]
  clear same
  induction groups with
  | nil => rfl
  | cons group groups ih =>
      obtain ⟨here, later⟩ := List.forall_mem_cons.mp grouped
      rw [List.map_cons, List.lookup_cons, List.lookup_cons]
      split
      · simp only [Option.map_some, Extent.text, List.take_append_of_le_length here.1]
      · exact ih later

/-- A further character at the end changes no text read before. -/
theorem textTo_extend {start stop : Spot} {taken : List Char} (reads : start.Reads stop taken) :
    (start.extend d).textTo (stop.extend d) = start.textTo stop := by
  have short : stop.offset - start.offset ≤ start.rest.length := by
    rw [reads.offset_eq, reads.rest_eq, List.length_append]
    omega
  exact List.take_append_of_le_length short

/-- A rule that ends with another character, and asks for edges of words only, ignores a character
that is in no word. -/
theorem ignores_of_closing? {chars : CharSet} (asks : substitution.pattern.AsksOnly (· = .wordEdge))
    (closes : substitution.pattern.closing? = some chars) (other : ¬chars.mem d)
    (noWord : ¬isWordChar d) : substitution.Ignores d := by
  intro read rest
  have inside : ∀ stop ∈ substitution.pattern.paths ((Spot.between read rest).extend d),
      stop.isInside := by
    intro stop member
    obtain ⟨taken, reads⟩ := exists_reads_of_mem_paths member
    obtain ⟨c, isLast, isMember⟩ := exists_before_of_closing? closes member
    rw [Spot.isInside, Bool.not_eq_true', List.isEmpty_eq_false_iff]
    intro atEnd
    have all : rest ++ [d] = taken ++ stop.rest := reads.rest_eq
    rw [atEnd, List.append_nil] at all
    rw [reads.before_eq, ← all, List.getLast?_concat] at isLast
    cases isLast
    exact other isMember
  have extended := extends_paths noWord substitution.pattern asks (.between read rest)
  rw [List.filter_eq_self.mpr inside] at extended
  have longer : substitution.swap? read (rest ++ [d]) =
      (substitution.swap? read rest).map fun swap => { swap with rest := swap.rest ++ [d] } := by
    have there : Spot.between read (rest ++ [d]) = (Spot.between read rest).extend d := rfl
    rw [swap?, swap?, there, extended, List.head?_map, Option.map_map, Option.map_map]
    refine Option.map_congr fun stop first => ?_
    obtain ⟨taken, reads⟩ := exists_reads_of_mem_paths (List.mem_of_mem_head? first)
    have taken := textTo_extend (d := d) reads
    simp only [Function.comp_apply, taken, Swap.mk.injEq, true_and]
    exact ⟨expand_congr taken (group?_extend reads rfl) _, rfl⟩
  rw [longer]
  cases substitution.swap? read rest with
  | none => rfl
  | some swap => exact .inl rfl

/-- **A substitution before an end** that it ignores. -/
theorem apply_end (consumes : 0 < substitution.pattern.least) (ignores : substitution.Ignores d) :
    substitution.apply (code ++ [d]) = substitution.apply code ++ [d] := by
  have nothing (read : List Char) : substitution.Makes read [] [] := by
    have makes : substitution.Makes read [] _ := makes_rewrite consumes Nat.zero_lt_one
    rwa [makes.eq_nil consumes] at makes
  have each {read rest out : List Char} (makes : substitution.Makes read rest out) :
      substitution.Makes read (rest ++ [d]) (out ++ [d]) := by
    induction makes with
    | @done read none =>
        have also := ignores read []
        rw [none] at also
        exact .keep also (nothing _)
    | @keep read rest out c none _ ih =>
        have also := ignores read (c :: rest)
        rw [none] at also
        exact .keep also ih
    | @swap read rest out swap found later ih =>
        have also := ignores read rest
        rw [found] at also
        rw [List.append_assoc]
        rcases also with further | ⟨atEnd, further⟩
        · have makes : substitution.Makes read (rest ++ [d])
              (({ swap with rest := swap.rest ++ [d] } : Swap).written ++ (out ++ [d])) :=
            .swap further ih
          exact makes
        · rw [atEnd] at later
          rw [later.eq_nil consumes, List.nil_append, ← List.append_nil (swap.written ++ [d])]
          exact .swap further (nothing _)
  exact (makes_iff consumes).mp (each ((makes_iff consumes).mpr rfl))

end Substitution

/-! ### Lines -/

section Lines

variable {change : List Char → List Char} {front cs : List Char} {parts : List Section} {d : Char}

/-- The layout of a text decides what changing its code gives. -/
theorem mapCode_of_isLayout (layout : IsLayout cs parts) :
    mapCode change cs = parts.flatMap (·.mapCode change) := by
  rw [mapCode, isLayout_iff.mp layout]

/-- Code before a line belongs to its first code. -/
theorem mapCode_front (isCode : IsCode front)
    (changes : ∀ code, change (front ++ code) = front ++ change code) :
    mapCode change (front ++ cs) = front ++ mapCode change cs := by
  have layout := isLayout_sections cs
  rw [mapCode_of_isLayout layout]
  generalize sections cs = parts at layout ⊢
  cases layout with
  | @code code also =>
      rw [mapCode_of_isLayout (.code (isCode_append isCode also))]
      simp [Section.mapCode, changes]
  | @literal code literal rest parts also isLiteral layout =>
      rw [← List.append_assoc,
        mapCode_of_isLayout (.literal (isCode_append isCode also) isLiteral layout)]
      simp [Section.mapCode, changes]
  | @openLiteral code literal also isOpen =>
      rw [← List.append_assoc,
        mapCode_of_isLayout (.openLiteral (isCode_append isCode also) isOpen)]
      simp [Section.mapCode, changes]

/-- An open literal stays open behind a further character that cannot close it. -/
theorem IsOpenLiteral.append (isOpen : IsOpenLiteral cs) (noQuote : ¬IsQuote d) (other : d ≠ '\\') :
    IsOpenLiteral (cs ++ [d]) := by
  obtain ⟨quote, body, isQuote, isBody, rfl | rfl⟩ := isOpen
  · refine ⟨quote, body ++ [d], isQuote, isBody.append (.plain ?_ other .nil), .inl rfl⟩
    rintro rfl
    exact noQuote isQuote
  · exact ⟨quote, body ++ ['\\', d], isQuote, isBody.append (.escaped .nil), .inl (by simp)⟩

/-- A character behind a line belongs to its last part. -/
theorem mapCode_end (noQuote : ¬IsQuote d) (other : d ≠ '\\')
    (changes : ∀ code, change (code ++ [d]) = change code ++ [d]) :
    mapCode change (cs ++ [d]) = mapCode change cs ++ [d] := by
  have isEnd : IsCode [d] := List.forall_mem_singleton.mpr noQuote
  have layout := isLayout_sections cs
  rw [mapCode_of_isLayout layout]
  generalize sections cs = parts at layout ⊢
  induction layout with
  | code isCode =>
      rw [mapCode_of_isLayout (.code (isCode_append isCode isEnd))]
      simp [Section.mapCode, changes]
  | @literal code literal rest parts isCode isLiteral layout ih =>
      rw [List.append_assoc, List.append_assoc,
        mapCode_of_isLayout (.literal isCode isLiteral (isLayout_sections (rest ++ [d])))]
      rw [mapCode] at ih
      simp only [List.flatMap_cons, ih, List.append_assoc]
  | openLiteral isCode isOpen =>
      rw [List.append_assoc,
        mapCode_of_isLayout (.openLiteral isCode (isOpen.append noQuote other))]
      simp [Section.mapCode]

end Lines

end Output

end Transcode
