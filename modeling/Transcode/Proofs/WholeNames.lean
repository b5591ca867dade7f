import Transcode.Proofs.Comparisons
import Transcode.Proofs.TypeTexts

/-!
# Calls and members under other names

A scope has patterns for the calls of functions that have left their class, and for members with
another name. Such a pattern asks for edges of words, and a dollar sign is not part of a word but of
a name. Where no dollar sign is in the way, the patterns find whole names, and each reference that
they find is written by its other name (`Output.apply_released`, `Output.apply_renamed`). So the
entries of a scope change these references and nothing else (`Output.expression_entries`).
-/

namespace Transcode.Output

open Regex Text

/-! ### References in code -/

/-- Code in which all that is found is written in another way. It is found by the character before
it and the code from it on; `skip` characters of what has been found are still to come. -/
def writeFound (find : Option Char → List Char → Option Nat) (written : List Char) :
    Nat → Option Char → List Char → List Char
  | _, _, [] => []
  | skip + 1, _, c :: rest => writeFound find written skip (some c) rest
  | 0, before, c :: rest =>
    match find before (c :: rest) with
    | some length => written ++ writeFound find written (length - 1) (some c) rest
    | none => c :: writeFound find written 0 (some c) rest

/-- What a call of a function of a module begins with. -/
def callee (module function : String) : List Char := module.toList ++ '.' :: function.toList

/-- What a member of this object is accessed by. -/
def ownMember (name : String) : List Char := "this.".toList ++ name.toList

/-- How long the call of a function is that begins here, with whole names. It goes up to its
parenthesis. -/
def callLength? (module function : String) (before : Option Char) (code : List Char) : Option Nat :=
  let start := callee module function
  let call := start ++ ((code.drop start.length).takeWhile isBlank ++ ['('])
  if !before.any namePart.mem && call.isPrefixOf code then some call.length else none

/-- How long the access of a member is that begins here, with whole names. -/
def memberLength? (name : String) (before : Option Char) (code : List Char) : Option Nat :=
  let member := ownMember name
  if !before.any namePart.mem && member.isPrefixOf code &&
      !(code.drop member.length).head?.any namePart.mem then some member.length
  else none

/-- Code in which the function of a module is called by its bare name. -/
def releaseCalls (module function : String) (code : List Char) : List Char :=
  writeFound (callLength? module function) (function.toList ++ ['(']) 0 none code

/-- Code in which a member of this object has another name. -/
def renameMembers (name renamed : String) (code : List Char) : List Char :=
  writeFound (memberLength? name) (ownMember renamed) 0 none code

section Finding

variable {module function name : String} {before : Option Char} {code : List Char} {length : Nat}

/-- A call of a function through its module begins with no part of a name before it. -/
theorem callLength?_eq_some_iff : callLength? module function before code = some length ↔
    ¬before.any namePart.mem ∧ ∃ gap rest, (∀ c ∈ gap, isBlank c) ∧
      code = callee module function ++ (gap ++ '(' :: rest) ∧
      length = (callee module function ++ (gap ++ ['('])).length := by
  unfold callLength?
  generalize callee module function = start
  dsimp only
  constructor
  · intro found
    split at found
    · rename_i isCall
      obtain ⟨whole, isPrefix⟩ := (Bool.and_eq_true _ _).mp isCall
      obtain ⟨rest, same⟩ := List.isPrefixOf_iff_prefix.mp isPrefix
      refine ⟨by simpa using whole, _, rest, fun c member => List.mem_takeWhile_imp member, ?_,
        (Option.some.inj found).symm⟩
      rw [List.append_assoc, List.append_assoc] at same
      exact same.symm
    · cases found
  · rintro ⟨whole, gap, rest, areBlank, rfl, rfl⟩
    have isGap : ((start ++ (gap ++ '(' :: rest)).drop start.length).takeWhile isBlank = gap := by
      have noBlank : ¬isBlank '(' := by decide
      rw [List.drop_left, List.takeWhile_append_of_pos areBlank, List.takeWhile_cons_of_neg noBlank,
        List.append_nil]
    rw [isGap, if_pos]
    refine (Bool.and_eq_true _ _).mpr ⟨by simpa using whole,
      List.isPrefixOf_iff_prefix.mpr ⟨rest, ?_⟩⟩
    simp

/-- A member of the object itself has no part of a name before and behind it. -/
theorem memberLength?_eq_some_iff : memberLength? name before code = some length ↔
    ¬before.any namePart.mem ∧ ∃ rest, code = ownMember name ++ rest ∧
      ¬rest.head?.any namePart.mem ∧ length = (ownMember name).length := by
  unfold memberLength?
  generalize ownMember name = member
  dsimp only
  constructor
  · intro found
    split at found
    · rename_i isMember
      obtain ⟨isStart, ends⟩ := (Bool.and_eq_true _ _).mp isMember
      obtain ⟨whole, isPrefix⟩ := (Bool.and_eq_true _ _).mp isStart
      obtain ⟨rest, rfl⟩ := List.isPrefixOf_iff_prefix.mp isPrefix
      rw [List.drop_left] at ends
      exact ⟨by simpa using whole, rest, rfl, by simpa using ends, (Option.some.inj found).symm⟩
    · cases found
  · rintro ⟨whole, rest, rfl, ends, rfl⟩
    rw [if_pos]
    rw [List.drop_left]
    refine (Bool.and_eq_true _ _).mpr ⟨(Bool.and_eq_true _ _).mpr ⟨by simpa using whole, ?_⟩, ?_⟩
    · exact List.isPrefixOf_iff_prefix.mpr (List.prefix_append _ _)
    · simpa using ends

/-- What has been found is passed over. -/
theorem writeFound_skip (find : Option Char → List Char → Option Nat)
    (written taken rest : List Char)
    (before : Option Char) : writeFound find written taken.length before (taken ++ rest) =
      writeFound find written 0 (taken.getLast?.or before) rest := by
  induction taken generalizing before with
  | nil => rfl
  | cons c taken ih =>
      rw [List.length_cons, List.cons_append, writeFound, ih]
      cases taken with
      | nil => rfl
      | cons d taken => rw [List.getLast?_cons_cons, List.getLast?_cons]; rfl

end Finding

/-! ### Runs that write what is found -/

namespace Substitution

variable {rule : Substitution} {find : Option Char → List Char → Option Nat}
  {written read rest out code : List Char}

/-- At every place of some code, a rule swaps what is found there for something else. -/
def Finds (rule : Substitution) (find : Option Char → List Char → Option Nat)
    (written code : List Char) : Prop := ∀ read rest swap, read ++ rest = code →
  (rule.swap? read rest = some swap ↔ find read.getLast? rest = some swap.taken.length ∧
    rest = swap.taken ++ swap.rest ∧ swap.written = written)

/-- **A run** of a rule writes all that is found. -/
theorem Makes.eq_writeFound (makes : rule.Makes read rest out) (consumes : 0 < rule.pattern.least)
    (isFound : ∀ read rest length, find read rest = some length → length ≤ rest.length)
    (finds : rule.Finds find written (read ++ rest)) :
    out = writeFound find written 0 read.getLast? rest := by
  induction makes with
  | done => rfl
  | @keep read rest out c none _ ih =>
      have notFound : find read.getLast? (c :: rest) = Option.none := by
        refine Option.eq_none_iff_forall_ne_some.mpr fun length found => ?_
        have short := isFound _ _ _ found
        have swaps :=
          (finds read (c :: rest) ⟨(c :: rest).take length, written, (c :: rest).drop length⟩
          rfl).mpr ⟨by rw [found, List.length_take, Nat.min_eq_left short],
            (List.take_append_drop _ _).symm, rfl⟩
        rw [none] at swaps
        cases swaps
      rw [writeFound, notFound, ih (by rwa [List.append_assoc]), List.getLast?_concat]
  | @swap read rest out swap found _ ih =>
      obtain ⟨isLength, same, isWritten⟩ := (finds read rest swap rfl).mp found
      have least := Nat.lt_of_lt_of_le consumes (least_le_of_swap? found)
      obtain ⟨c, taken, cut⟩ := List.exists_cons_of_ne_nil (List.ne_nil_of_length_pos least)
      have later := ih (by rwa [List.append_assoc, ← same])
      have isCons : rest = c :: (taken ++ swap.rest) := by rw [same, cut]; rfl
      rw [isCons] at isLength ⊢
      rw [writeFound, isLength, later, isWritten, cut, List.length_cons]
      dsimp only
      rw [Nat.add_sub_cancel, writeFound_skip, List.getLast?_append, List.getLast?_cons]
      cases taken.getLast? <;> rfl

/-- A rule that finds what a search finds writes it in the same places. -/
theorem Finds.apply_eq (finds : rule.Finds find written code) (consumes : 0 < rule.pattern.least)
    (isFound : ∀ read rest length, find read rest = some length → length ≤ rest.length) :
    rule.apply code = writeFound find written 0 none code :=
  ((makes_iff consumes).mpr rfl).eq_writeFound consumes isFound finds

end Substitution

/-! ### The rules of a scope's entries -/

/-- A text with a dollar sign at most at its end. -/
def NoInnerSign (cs : List Char) : Prop := '$' ∉ cs.dropLast

instance (cs : List Char) : Decidable (NoInnerSign cs) :=
  inferInstanceAs (Decidable ('$' ∉ cs.dropLast))

section Written

variable {start stop : Spot} {front tail : List Char}

/-- A template is copied up to its first sign. -/
theorem expandWithin_append (plain : '$' ∉ front) (fuel : Nat) :
    expandWithin start stop (front.length + fuel) (front ++ tail) =
      front ++ expandWithin start stop fuel tail := by
  induction front with
  | nil => rw [List.length_nil, Nat.zero_add, List.nil_append, List.nil_append]
  | cons c front ih =>
      obtain ⟨here, later⟩ := not_or.mp (List.mem_cons.not.mp plain)
      rw [List.length_cons, Nat.add_right_comm, List.cons_append, List.cons_append, ← ih later,
        expandWithin]
      · intro rest isSign
        exact absurd isSign.symm here
      · intro isSign
        exact absurd isSign.symm here

/-- A name with a sign at its end is written as it is, before a parenthesis or at the end. -/
theorem expand_of_noInnerSign {replacement : String} {name mark : List Char}
    (same : replacement.toList = front ++ (name ++ mark)) (noSign : '$' ∉ front)
    (plain : NoInnerSign name) (isMark : mark = [] ∨ mark = ['(']) :
    expand replacement start stop = front ++ (name ++ mark) := by
  rw [expand, same]
  rcases List.eq_nil_or_concat name with rfl | ⟨early, last, rfl⟩
  · rw [List.nil_append, List.length_append, expandWithin_append noSign]
    rcases isMark with rfl | rfl <;> rfl
  · rw [NoInnerSign, List.concat_eq_append, List.dropLast_concat] at plain
    have noEarlier : '$' ∉ front ++ early := by simp [noSign, plain]
    have ending : expandWithin start stop (last :: mark).length (last :: mark) = last :: mark := by
      by_cases isSign : last = '$'
      · subst isSign
        rcases isMark with rfl | rfl <;> rfl
      · have others : '$' ∉ last :: mark := by
          rcases isMark with rfl | rfl <;> simp [Ne.symm isSign]
        have all : expandWithin start stop ((last :: mark).length + 0) (last :: mark ++ []) = _ :=
          expandWithin_append others 0
        rw [Nat.add_zero, List.append_nil] at all
        exact all.trans (List.append_nil _)
    have split : front ++ (early.concat last ++ mark) = (front ++ early) ++ last :: mark := by simp
    rw [split, List.length_append, expandWithin_append noEarlier, ending]

end Written

section Rules

variable {module function name renamed : String} {start stop : Spot} {read rest : List Char}
  {swap : Swap}

/-- The rule for a function matches a call through its module, at a word edge. -/
theorem mem_paths_release : stop ∈ (releaseRule module function).pattern.paths start ↔
    Anchor.wordEdge.holds start.before start.rest.head? ∧ ∃ gap, (∀ c ∈ gap, isBlank c) ∧
      start.rest = callee module function ++ (gap ++ ['(']) ++ stop.rest ∧
      stop = start.past (callee module function ++ (gap ++ ['('])) stop.rest := by
  simp only [releaseRule, callOf, Regex.sequence, char, Regex.star, blank, mem_paths_seq,
    mem_paths_anchor, mem_paths_literal, mem_paths_set, mem_paths_star, CharSet.mem_single]
  constructor
  · rintro ⟨_, ⟨edge, rfl⟩, _, ⟨_, ⟨afterModule, sameModule, rfl⟩, _,
      ⟨c, afterPoint, samePoint, rfl, rfl⟩,
      afterFunction, sameFunction, rfl⟩, _, ⟨gap, sameGap, areBlank, past⟩, d, others,
        sameEnd, rfl, rfl⟩
    change afterModule = '.' :: afterPoint at samePoint
    change afterPoint = function.toList ++ afterFunction at sameFunction
    change afterFunction = gap ++ _ at sameGap
    refine ⟨edge, gap, areBlank, ?_, ?_⟩
    · rw [sameModule, samePoint, sameFunction, sameGap, sameEnd]
      simp [callee, Spot.past]
    · rw [past]
      simp only [Spot.past_past, callee, List.append_assoc, List.cons_append, List.nil_append]
      rfl
  · rintro ⟨edge, gap, areBlank, same, past⟩
    have whole : start.rest =
        module.toList ++ '.' :: (function.toList ++ (gap ++ '(' :: stop.rest)) := by
      rw [same]
      simp [callee]
    let named :=
      ((start.past module.toList ('.' :: (function.toList ++ (gap ++ '(' :: stop.rest)))).past
      ['.'] (function.toList ++ (gap ++ '(' :: stop.rest))).past function.toList
        (gap ++ '(' :: stop.rest)
    refine ⟨start, ⟨edge, rfl⟩, named,
      ⟨_, ⟨_, whole, rfl⟩, _, ⟨'.', _, rfl, rfl, rfl⟩, _, rfl, rfl⟩,
      named.past gap ('(' :: stop.rest), ⟨gap, rfl, areBlank, rfl⟩, '(', stop.rest, rfl, rfl, ?_⟩
    refine past.trans ?_
    simp only [named, Spot.past_past, callee, List.append_assoc, List.cons_append, List.nil_append]

/-- The rule for a member matches it behind the object itself, between word edges. -/
theorem mem_paths_rename : stop ∈ (renameRule name renamed).pattern.paths start ↔
    Anchor.wordEdge.holds start.before start.rest.head? ∧
      start.rest = ownMember name ++ stop.rest ∧ stop = start.past (ownMember name) stop.rest ∧
      Anchor.wordEdge.holds stop.before stop.rest.head? := by
  unfold ownMember
  generalize same : "this.".toList = this
  simp only [renameRule, Regex.sequence, mem_paths_seq, mem_paths_anchor, mem_paths_literal, same]
  constructor
  · rintro ⟨_, ⟨edge, rfl⟩, _, ⟨afterThis, sameThis, rfl⟩, _, ⟨others, sameName, rfl⟩, ends, rfl⟩
    have whole := sameThis.trans (congrArg (this ++ ·) sameName)
    exact ⟨edge, whole.trans (List.append_assoc _ _ _).symm, Spot.past_past _ _ _ _ _, ends⟩
  · rintro ⟨edge, whole, past, ends⟩
    have passed : (start.past this (name.toList ++ stop.rest)).past name.toList stop.rest = stop :=
      (Spot.past_past _ _ _ _ _).trans past.symm
    exact ⟨start, ⟨edge, rfl⟩, _, ⟨_, whole.trans (List.append_assoc _ _ _), rfl⟩, _,
      ⟨stop.rest, rfl, rfl⟩, passed.symm ▸ ends, passed.symm⟩

/-- What a rule swaps that always writes the same, from what its matches take. -/
theorem swap?_eq_some_iff_of_paths {rule : Substitution} {written : List Char}
    (IsTaken : List Char → List Char → Prop)
    (mem_paths : ∀ stop, stop ∈ rule.pattern.paths (.between read rest) ↔ ∃ taken,
      IsTaken taken stop.rest ∧ rest = taken ++ stop.rest ∧
        stop = (Spot.between read rest).past taken stop.rest)
    (unique : ∀ {taken other after behind}, IsTaken taken after → IsTaken other behind →
      taken ++ after = other ++ behind → taken = other)
    (expands : ∀ stop, expand rule.replacement (.between read rest) stop = written) :
    rule.swap? read rest = some swap ↔
      IsTaken swap.taken swap.rest ∧ rest = swap.taken ++ swap.rest ∧ swap.written = written := by
  have sound {swap : Swap} (found : rule.swap? read rest = some swap) :
      IsTaken swap.taken swap.rest ∧ rest = swap.taken ++ swap.rest ∧ swap.written = written := by
    obtain ⟨stop, member, reads, left, isWritten⟩ := Substitution.exists_of_swap? found
    obtain ⟨taken, isTaken, same, _⟩ := (mem_paths stop).mp member
    have isWhole : rest = swap.taken ++ stop.rest := reads.rest_eq
    obtain rfl : taken = swap.taken := List.append_cancel_right (same.symm.trans isWhole)
    exact ⟨left ▸ isTaken, left ▸ isWhole, isWritten.symm.trans (expands stop)⟩
  constructor
  · exact sound
  · intro isSwap
    obtain ⟨isTaken, same, isWritten⟩ := isSwap
    have member := (mem_paths ((Spot.between read rest).past swap.taken swap.rest)).mpr
      ⟨swap.taken, isTaken, same, rfl⟩
    cases found : rule.swap? read rest with
    | none =>
        have noPaths : rule.pattern.paths (.between read rest) = [] := by
          simpa [Substitution.swap?] using found
        rw [noPaths] at member
        cases member
    | some other =>
        obtain ⟨alsoTaken, also, alsoWritten⟩ := sound found
        have sameTaken := unique isTaken alsoTaken (same.symm.trans also)
        have sameRest : swap.rest = other.rest := by
          rw [sameTaken, also] at same
          exact (List.append_cancel_left same).symm
        obtain ⟨taken, written, rest⟩ := swap
        obtain ⟨otherTaken, otherWritten, otherRest⟩ := other
        cases sameTaken
        cases sameRest
        cases isWritten
        cases alsoWritten
        rfl

/-- Blanks before a parenthesis are told by the text. -/
theorem gap_unique {gap others after behind : List Char} (areBlank : ∀ c ∈ gap, isBlank c)
    (alsoBlank : ∀ c ∈ others, isBlank c) (same : gap ++ '(' :: after = others ++ '(' :: behind) :
    gap = others := by
  have noBlank : ¬isBlank '(' := by decide
  have cut := congrArg (List.takeWhile isBlank) same
  rwa [List.takeWhile_append_of_pos areBlank, List.takeWhile_append_of_pos alsoBlank,
    List.takeWhile_cons_of_neg noBlank, List.takeWhile_cons_of_neg noBlank, List.append_nil,
    List.append_nil] at cut

/-- What the rule of a function swaps: its name behind the module's, at the edge of a word. -/
theorem swap?_release_iff (plain : NoInnerSign function.toList) :
    (releaseRule module function).swap? read rest = some swap ↔
      (Anchor.wordEdge.holds read.getLast? rest.head? ∧ ∃ gap, (∀ c ∈ gap, isBlank c) ∧
        swap.taken = callee module function ++ (gap ++ ['('])) ∧
      rest = swap.taken ++ swap.rest ∧ swap.written = function.toList ++ ['('] := by
  refine swap?_eq_some_iff_of_paths (fun taken _ => _ ∧ ∃ gap, (∀ c ∈ gap, isBlank c) ∧
    taken = callee module function ++ (gap ++ ['('])) (fun stop => ?_) ?_ fun stop => ?_
  · rw [mem_paths_release]
    constructor
    · intro found
      obtain ⟨starts, gap, areBlank, same, past⟩ := found
      exact ⟨_, ⟨starts, gap, areBlank, rfl⟩, same, past⟩
    · intro found
      obtain ⟨_, ⟨starts, gap, areBlank, isCall⟩, same, past⟩ := found
      exact ⟨starts, gap, areBlank, isCall ▸ same, isCall ▸ past⟩
  · intro taken other after behind isTaken alsoTaken same
    obtain ⟨_, gap, areBlank, isCall⟩ := isTaken
    obtain ⟨_, others, alsoBlank, alsoCall⟩ := alsoTaken
    rw [isCall, alsoCall] at same ⊢
    simp only [List.append_assoc, List.append_cancel_left_eq, List.singleton_append] at same
    rw [gap_unique areBlank alsoBlank same]
  · have isText : (releaseRule module function).replacement.toList =
        [] ++ (function.toList ++ ['(']) := by
      rw [List.nil_append, releaseRule, String.toList_append]
      rfl
    exact expand_of_noInnerSign isText List.not_mem_nil plain (.inr rfl)

/-- What the rule of a member swaps: its name behind the word for this object, between edges of
words. -/
theorem swap?_rename_iff (plain : NoInnerSign renamed.toList) :
    (renameRule name renamed).swap? read rest = some swap ↔
      (Anchor.wordEdge.holds read.getLast? rest.head? ∧ swap.taken = ownMember name ∧
        Anchor.wordEdge.holds (ownMember name).getLast? swap.rest.head?) ∧
      rest = swap.taken ++ swap.rest ∧ swap.written = ownMember renamed := by
  refine swap?_eq_some_iff_of_paths (fun taken after => _ ∧ taken = ownMember name ∧
    Anchor.wordEdge.holds (ownMember name).getLast? after.head?) (fun stop => ?_) ?_ fun stop => ?_
  · have last (past : stop = (Spot.between read rest).past (ownMember name) stop.rest) :
        stop.before = (ownMember name).getLast? := by
      have filled : ownMember name ≠ [] := List.append_ne_nil_of_left_ne_nil (by decide) _
      rw [congrArg Spot.before past, Spot.past, List.getLast?_eq_some_getLast filled,
        Option.some_or]
    rw [mem_paths_rename]
    constructor
    · intro found
      obtain ⟨starts, same, past, ends⟩ := found
      exact ⟨_, ⟨starts, rfl, last past ▸ ends⟩, same, past⟩
    · intro found
      obtain ⟨_, ⟨starts, isMember, ends⟩, same, past⟩ := found
      rw [isMember] at same past
      exact ⟨starts, same, past, (last past).symm ▸ ends⟩
  · intro taken other after behind isTaken alsoTaken _
    rw [isTaken.2.1, alsoTaken.2.1]
  · unfold ownMember
    rw [← List.append_nil renamed.toList]
    have isText : (renameRule name renamed).replacement.toList =
        "this.".toList ++ (renamed.toList ++ []) := by
      rw [List.append_nil, renameRule, String.toList_append]
    exact expand_of_noInnerSign isText (by decide) plain (.inl rfl)

end Rules

/-! ### Whole names -/

/-- Names for which the entry of a function is right: the module's begins with no dollar sign, the
function's has one at its end at most, and the expression made of them compiles. -/
structure IsReleasable (module function : String) : Prop where
  isModule : IsName module.toList
  isFunction : IsName function.toList
  noSign : module.toList.head? ≠ some '$'
  plain : NoInnerSign function.toList
  compiles : (releaseRule module function).pattern.fits

/-- Names for which the entry of a member is right: its own ends with no dollar sign, the other one
has one at its end at most, and the expression made of its own compiles. -/
structure IsRenamable (name renamed : String) : Prop where
  isName : IsName name.toList
  isRenamed : IsName renamed.toList
  noSign : name.toList.getLast? ≠ some '$'
  plain : NoInnerSign renamed.toList
  compiles : (renameRule name renamed).pattern.fits

section WholeNames

variable {module function name renamed : String} {code : List Char}

theorem namePart_iff {c : Char} : namePart.mem c ↔ isWordChar c ∨ c = '$' := by
  rw [namePart, CharSet.mem, CharSet.mem, Bool.or_eq_true, CharSet.mem_single, CharProperty.holds]

/-- Beside a place without a dollar sign, a name ends where a word does. -/
theorem any_namePart_iff {beside : Option Char} (noSign : beside ≠ some '$') :
    beside.any namePart.mem ↔ beside.any isWordChar := by
  cases beside with
  | none => rfl
  | some c =>
      have other : c ≠ '$' := fun same => noSign (congrArg some same)
      rw [Option.any_some, Option.any_some, namePart_iff, or_iff_left other]

/-- Before a word there is an edge unless a word goes on there. -/
theorem wordEdge_holds_of_after {before after : Option Char} (isWord : after.any isWordChar) :
    Anchor.wordEdge.holds before after ↔ ¬before.any isWordChar := by
  rw [Anchor.wordEdge, Anchor.holds, WordEdge.holds, isWord]
  cases before.any isWordChar <;> simp

/-- Behind a word there is an edge unless it goes on. -/
theorem wordEdge_holds_of_before {before after : Option Char} (isWord : before.any isWordChar) :
    Anchor.wordEdge.holds before after ↔ ¬after.any isWordChar := by
  rw [Anchor.wordEdge, Anchor.holds, WordEdge.holds, isWord]
  cases after.any isWordChar <;> simp

/-- A call through a module begins with a character of words. -/
theorem IsReleasable.head? (names : IsReleasable module function) (rest : List Char) :
    (callee module function ++ rest).head?.any isWordChar := by
  obtain ⟨c, isFirst, starts⟩ := names.isModule.head?
  have noSign : c ≠ '$' := by
    intro same
    exact names.noSign (same ▸ isFirst)
  have isWord := (namePart_iff.mp (namePart_of_nameStart starts).1).resolve_right noSign
  rw [callee, List.append_assoc, List.head?_append, isFirst]
  exact isWord

/-- A member ends with a character of words. -/
theorem IsRenamable.getLast? (names : IsRenamable name renamed) :
    (ownMember name).getLast?.any isWordChar := by
  have filled : name.toList ≠ [] := by
    intro none
    have isName := names.isName
    rw [none] at isName
    cases isName
  have last := List.getLast?_eq_some_getLast filled
  have isPart := (names.isName.forall_mem _ (List.getLast_mem filled)).1
  have noSign : name.toList.getLast filled ≠ '$' := by
    intro same
    exact names.noSign (same ▸ last)
  unfold ownMember
  rw [List.getLast?_append, last]
  exact (namePart_iff.mp isPart).resolve_right noSign

/-- Where a text is in code that has it nowhere right behind a dollar sign. -/
theorem getLast?_ne_of_not_infix {text before after : List Char} (clear : ¬('$' :: text <:+: code))
    (same : code = before ++ (text ++ after)) : before.getLast? ≠ some '$' := by
  intro last
  obtain ⟨front, rfl⟩ := List.getLast?_eq_some_iff.mp last
  exact clear ⟨front, after, by simp [same]⟩

/-- A sign that never stands behind a text does not do so here. -/
theorem head?_ne_of_not_infix {text before after : List Char} (clear : ¬text ++ ['$'] <:+: code)
    (same : code = before ++ (text ++ after)) : after.head? ≠ some '$' := by
  intro first
  obtain ⟨others, rfl⟩ := List.head?_eq_some_iff.mp first
  exact clear ⟨before, others, by simp [same]⟩

/-- **Whole calls** are what the rule of a function finds where no dollar sign is before them. -/
theorem finds_release (names : IsReleasable module function)
    (clear : ¬('$' :: callee module function <:+: code)) :
    (releaseRule module function).Finds (callLength? module function) (function.toList ++ ['('])
      code := by
  intro read rest swap whole
  have edge {others : List Char} (same : rest = callee module function ++ others) :
      Anchor.wordEdge.holds read.getLast? rest.head? ↔ ¬read.getLast?.any namePart.mem := by
    have noSign := getLast?_ne_of_not_infix clear (whole ▸ congrArg (read ++ ·) same)
    rw [any_namePart_iff noSign, wordEdge_holds_of_after]
    rw [same]
    exact names.head? others
  rw [swap?_release_iff names.plain, callLength?_eq_some_iff]
  constructor
  · intro isSwap
    obtain ⟨⟨starts, gap, areBlank, isCall⟩, same, written⟩ := isSwap
    have isRest : rest = callee module function ++ (gap ++ '(' :: swap.rest) := by
      rw [same, isCall]
      simp
    exact ⟨⟨(edge isRest).mp starts, gap, swap.rest, areBlank, isRest, by rw [isCall]⟩,
      same, written⟩
  · intro isFound
    obtain ⟨⟨whole, gap, others, areBlank, isRest, length⟩, same, written⟩ := isFound
    have isCall : swap.taken = callee module function ++ (gap ++ ['(']) := by
      have both : swap.taken ++ swap.rest = callee module function ++ (gap ++ ['(']) ++ others := by
        rw [← same, isRest]
        simp
      exact (List.append_inj both length).1
    exact ⟨⟨(edge isRest).mpr whole, gap, areBlank, isCall⟩, same, written⟩

/-- **Whole members** are what the rule of a member finds where no dollar sign is beside them. -/
theorem finds_rename (names : IsRenamable name renamed)
    (before : ¬('$' :: ownMember name <:+: code))
    (behind : ¬ownMember name ++ ['$'] <:+: code) :
    (renameRule name renamed).Finds (memberLength? name) (ownMember renamed) code := by
  intro read rest swap whole
  have starts {others : List Char} (same : rest = ownMember name ++ others) :
      Anchor.wordEdge.holds read.getLast? rest.head? ↔ ¬read.getLast?.any namePart.mem := by
    have noSign := getLast?_ne_of_not_infix before (whole ▸ congrArg (read ++ ·) same)
    rw [any_namePart_iff noSign, wordEdge_holds_of_after]
    rw [same]
    rfl
  have ends {others : List Char} (same : rest = ownMember name ++ others) :
      Anchor.wordEdge.holds (ownMember name).getLast? others.head? ↔
        ¬others.head?.any namePart.mem := by
    have noSign := head?_ne_of_not_infix behind (whole ▸ congrArg (read ++ ·) same)
    rw [any_namePart_iff noSign, wordEdge_holds_of_before names.getLast?]
  rw [swap?_rename_iff names.plain, memberLength?_eq_some_iff]
  constructor
  · intro isSwap
    obtain ⟨⟨isStart, isMember, isEnd⟩, same, written⟩ := isSwap
    have isRest : rest = ownMember name ++ swap.rest := isMember ▸ same
    exact ⟨⟨(starts isRest).mp isStart, swap.rest, isRest,
      (ends isRest).mp isEnd, by rw [isMember]⟩, same, written⟩
  · intro isFound
    obtain ⟨⟨isStart, others, isRest, isEnd, length⟩, same, written⟩ := isFound
    obtain ⟨isMember, rfl⟩ := List.append_inj (same.symm.trans isRest) length
    exact ⟨⟨(starts isRest).mpr isStart, isMember, (ends isRest).mpr isEnd⟩, same, written⟩

/-- The rule for a function replaces its calls through the module, and nothing else. -/
theorem apply_release (names : IsReleasable module function)
    (clear : ¬('$' :: callee module function <:+: code)) :
    (releaseRule module function).apply code = releaseCalls module function code := by
  refine (finds_release names clear).apply_eq (least_callOf_pos _) fun before rest length found =>
    ?_
  obtain ⟨_, gap, others, _, rfl, rfl⟩ := callLength?_eq_some_iff.mp found
  simp

/-- The rule for a member replaces it where it stands as a whole, and nothing else. -/
theorem apply_rename (names : IsRenamable name renamed)
    (before : ¬('$' :: ownMember name <:+: code))
    (behind : ¬ownMember name ++ ['$'] <:+: code) :
    (renameRule name renamed).apply code = renameMembers name renamed code := by
  have consumes : 0 < (renameRule name renamed).pattern.least := by
    have literal : 0 < (literal "this.").least := by decide
    simp only [renameRule, Regex.sequence, least]
    omega
  refine (finds_rename names before behind).apply_eq consumes fun before rest length found => ?_
  obtain ⟨_, others, rfl, _, rfl⟩ := memberLength?_eq_some_iff.mp found
  simp

end WholeNames

/-! ### Scopes with entries -/

namespace Scope

variable {scope : Scope} {module function name renamed : String} {code : List Char}

/-- The code that an entry for a function comes upon when it is added to a scope. -/
def unreleased (scope : Scope) (code : List Char) : List Char :=
  applyAll (expressionSubstitutions ++ scope.released) code

/-- An empty scope only has the rules for expressions. -/
theorem unreleased_empty (code : List Char) :
    ({} : Scope).unreleased code = applyAll expressionSubstitutions code :=
  congrArg (applyAll · code) (List.append_nil _)

/-- What the meaning of a bare name depends on. -/
theorem qualifyAfter_congr (scope other : Scope) (members : scope.members = other.members)
    (methods : scope.methods = other.methods) (hidden : scope.hidden = other.hidden)
    (before : Option Char) (code : List Char) :
    scope.qualifyAfter before code = other.qualifyAfter before code := by
  have meanings (name : String) (after : List Char) :
      scope.meaning? name after = other.meaning? name after := by
    rw [meaning?, meaning?, members, methods, hidden]
  fun_induction scope.qualifyAfter before code with
  | case1 => rw [qualifyAfter]
  | case2 before c rest starts name after written ih =>
      have same : written = if before.any attaches then none
          else other.meaning? (String.ofList name) after := by
        simp only [written, meanings, dite_eq_ite]
      rw [ih, same, qualifyAfter.eq_def other before (c :: rest)]
      exact (if_pos starts).symm
  | case3 before c rest starts ih => rw [qualifyAfter, if_neg starts, ih]

/-- The rules for expressions come first, then those for functions, and then those for members. -/
theorem replaceCode_eq (scope : Scope) (code : List Char) : scope.replaceCode code =
    scope.qualifyAfter none (applyAll scope.renamed (scope.unreleased code)) := by
  simp only [replaceCode, unreleased, applyAll, List.foldl_append]

/-- An entry for a function puts its rule behind those of earlier functions. -/
theorem unreleased_moduleFunction (scope : Scope)
    (compiles : (releaseRule module function).pattern.fits) (code : List Char) :
    (scope.moduleFunction module function).unreleased code =
      (releaseRule module function).apply (scope.unreleased code) := by
  simp only [moduleFunction, Substitution.compiled, if_pos compiles, unreleased, applyAll,
    List.foldl_append, List.foldl_cons, List.foldl_nil]

/-- An entry for a function does not change how names are qualified. -/
theorem qualifyAfter_moduleFunction (scope : Scope) (before : Option Char) (code : List Char) :
    (scope.moduleFunction module function).qualifyAfter before code =
      scope.qualifyAfter before code :=
  qualifyAfter_congr (scope.moduleFunction module function) scope rfl rfl rfl before code

theorem renamed_moduleFunction (scope : Scope) :
    (scope.moduleFunction module function).renamed = scope.renamed := rfl

/-- An entry for a member puts its rule last. -/
theorem replaceCode_rename (scope : Scope) (compiles : (renameRule name renamed).pattern.fits)
    (code : List Char) : (scope.rename name renamed).replaceCode code = scope.qualifyAfter none
      ((renameRule name renamed).apply (applyAll scope.renamed (scope.unreleased code))) := by
  rw [replaceCode_eq, qualifyAfter_congr (scope.rename name renamed) scope rfl rfl rfl]
  simp only [rename, Substitution.compiled, if_pos compiles, unreleased, applyAll,
    List.foldl_append, List.foldl_cons, List.foldl_nil]

/-- Code in which no dollar sign stands right before a call or right beside a member, when the
entries for them come upon it. -/
structure IsClear (scope : Scope) (module function name : String) (code : List Char) : Prop where
  calls : ¬('$' :: callee module function <:+: scope.unreleased code)
  before : ¬('$' :: ownMember name <:+:
    applyAll scope.renamed (releaseCalls module function (scope.unreleased code)))
  behind : ¬ownMember name ++ ['$'] <:+:
    applyAll scope.renamed (releaseCalls module function (scope.unreleased code))

/-- A name has no quotes. -/
theorem isCode_of_isName {cs : List Char} (isName : IsName cs) : IsCode cs := by
  intro c member isQuote
  have noPart : ['"', '\''].all fun c => !namePart.mem c := by decide
  have isPart := (isName.forall_mem c member).1
  have isListed : c ∈ ['"', '\''] := List.mem_pair.mpr isQuote
  simpa [isPart] using List.all_eq_true.mp noPart c isListed

/-- **Calls and members under other names:** the entries of a scope for a function and a member
write each whole call of the function, and each whole access of the member, under its other name.
Literals stay as they are, and these references are all that the entries change of the code between
them. -/
theorem expression_entries {scope : Scope} (unquoted : scope.IsUnquoted)
    (releasable : IsReleasable module function) (renamable : IsRenamable name renamed)
    {text : String}
    {parts : List Section} (layout : IsLayout text.toList parts)
    (clear : ∀ code ∈ codeParts parts, scope.IsClear module function name code) :
    IsLayout (((scope.moduleFunction module function).rename name renamed).expression text).toList
        (parts.map
          (·.change ((scope.moduleFunction module function).rename name renamed).replaceCode)) ∧
      ∀ code ∈ codeParts parts,
        ((scope.moduleFunction module function).rename name renamed).replaceCode code =
          scope.qualifyAfter none (renameMembers name renamed (applyAll scope.renamed
            (releaseCalls module function (scope.unreleased code)))) := by
  have alsoUnquoted : ((scope.moduleFunction module function).rename name renamed).IsUnquoted :=
    .rename name (.moduleFunction module unquoted (isCode_of_isName releasable.isFunction))
      (isCode_of_isName renamable.isRenamed)
  constructor
  · rw [Scope.expression, String.toList_ofList, mapCode, isLayout_iff.mp layout]
    exact layout.mapCode fun _ isCode => alsoUnquoted.writesCode.isCode_replaceCode isCode
  · intro code member
    obtain ⟨calls, before, behind⟩ := clear code member
    rw [replaceCode_rename _ renamable.compiles, qualifyAfter_moduleFunction,
      renamed_moduleFunction, unreleased_moduleFunction scope releasable.compiles,
      apply_release releasable calls, apply_rename renamable before behind]

/-- Dollar signs at the end of names, names that only begin or end as the entries' do, and a
literal. -/
theorem expression_entries_signs :
    let text := "this.sum = M.abs$ (this.sum) + \"this.sum\" + this.summand - N.M.abs$(2L);"
    let parts :=
      [Section.code "this.sum = M.abs$ (this.sum) + ".toList, .literal "\"this.sum\"".toList,
      .code " + this.summand - N.M.abs$(2L);".toList]
    let entries := (({} : Scope).moduleFunction "M" "abs$").rename "sum" "_sum$"
    (IsReleasable "M" "abs$" ∧ IsRenamable "sum" "_sum$" ∧ IsLayout text.toList parts ∧
      ∀ code ∈ codeParts parts, ({} : Scope).IsClear "M" "abs$" "sum" code) ∧
      IsLayout (entries.expression text).toList (parts.map (·.change entries.replaceCode)) ∧
      ∀ code ∈ codeParts parts, entries.replaceCode code =
        ({} : Scope).qualifyAfter none (renameMembers "sum" "_sum$" (applyAll []
          (releaseCalls "M" "abs$" (({} : Scope).unreleased code)))) := by
  intro text parts entries
  have releasable : IsReleasable "M" "abs$" :=
    ⟨isName_of_all (by decide) (by decide), isName_of_all (by decide) (by decide), by decide,
      by decide, by decide +kernel⟩
  have renamable : IsRenamable "sum" "_sum$" :=
    ⟨isName_of_all (by decide) (by decide), isName_of_all (by decide) (by decide), by decide,
      by decide, by decide +kernel⟩
  have layout : IsLayout text.toList parts := isLayout_iff.mpr (by decide +kernel)
  have clear (code : List Char) (member : code ∈ codeParts parts) :
      ({} : Scope).IsClear "M" "abs$" "sum" code := by
    have consumes : ∀ rule ∈ expressionSubstitutions, 0 < rule.pattern.least := by decide
    have ruled : ({} : Scope).unreleased code = runAll expressionSubstitutions code := by
      rw [← applyAll_eq_runAll consumes, unreleased_empty]
    have checked : ∀ code ∈ codeParts parts,
        ¬('$' :: callee "M" "abs$" <:+: runAll expressionSubstitutions code) ∧
        ¬('$' :: ownMember "sum" <:+:
          releaseCalls "M" "abs$" (runAll expressionSubstitutions code)) ∧
        ¬ownMember "sum" ++ ['$'] <:+:
          releaseCalls "M" "abs$" (runAll expressionSubstitutions code) := by decide +kernel
    obtain ⟨calls, before, behind⟩ := checked code member
    rw [← ruled] at calls before behind
    have unrenamed (made : List Char) : applyAll ({} : Scope).renamed made = made := rfl
    constructor
    · exact calls
    · rw [unrenamed]
      exact before
    · rw [unrenamed]
      exact behind
  exact ⟨⟨releasable, renamable, layout, clear⟩,
    expression_entries .empty releasable renamable layout clear⟩

/-- The name of a function is read as a reference to a group, and lost. -/
theorem expression_dollar :
    IsName "M".toList ∧ IsName "$f".toList ∧ releaseCalls "M" "$f" "M.$f(x)".toList =
      "$f(x)".toList ∧
      (({} : Scope).moduleFunction "M" "$f").expression "M.$f(x)" = "(x)" := by
  have replaced (code : List Char) : (({} : Scope).moduleFunction "M" "$f").replaceCode code =
      runAll (expressionSubstitutions ++ [releaseRule "M" "$f"]) code := by
    have consumes : ∀ rule ∈ expressionSubstitutions ++ [releaseRule "M" "$f"],
        0 < rule.pattern.least := by decide
    rw [← applyAll_eq_runAll consumes, replaceCode_eq, qualifyAfter_moduleFunction,
      renamed_moduleFunction, unreleased_moduleFunction {} (by decide +kernel), qualifyAfter_empty,
      applyAll_append, unreleased_empty]
    simp only [applyAll, List.foldl_cons, List.foldl_nil]
  have code : mapCode (({} : Scope).moduleFunction "M" "$f").replaceCode "M.$f(x)".toList =
      "(x)".toList := by
    rw [funext replaced]
    decide +kernel
  refine ⟨isName_of_all (by decide) (by decide),
    isName_of_all (by decide) (by decide), by decide, ?_⟩
  rw [expression, code, String.ofList_toList]

end Scope

end Transcode.Output
