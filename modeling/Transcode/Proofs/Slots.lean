import Mathlib.Data.List.TakeWhile
import Transcode.Output.Program

/-!
# Slots in the lines of a text

A body is kept as one text and cut into lines when it is written. The cutting gives back what the
lines stand for: lines without line breaks in them, put together as a text, stand for the slots that
they stood for alone (`Output.slotsIn_intercalate`).
-/

namespace Transcode

namespace Text

section Split

variable {isSeparator : Char → Bool}

/-- A text without separators is one piece. -/
theorem splitWhere_of_forall {cs : List Char} (free : ∀ c ∈ cs, ¬isSeparator c) :
    splitWhere isSeparator cs = [cs] := by
  induction cs with
  | nil => rfl
  | cons c rest ih =>
      obtain ⟨here, later⟩ := List.forall_mem_cons.mp free
      rw [splitWhere, if_neg here, ih later]

/-- A text is split at its first separator. -/
theorem splitWhere_append {first rest : List Char} {c : Char} (free : ∀ c ∈ first, ¬isSeparator c)
    (stop : isSeparator c) :
    splitWhere isSeparator (first ++ c :: rest) = first :: splitWhere isSeparator rest := by
  induction first with
  | nil => rw [List.nil_append, splitWhere, if_pos stop]
  | cons head tail ih =>
      obtain ⟨here, later⟩ := List.forall_mem_cons.mp free
      rw [List.cons_append, splitWhere, if_neg here, ih later]

/-- Cutting at separators undoes putting them between pieces. -/
theorem splitWhere_intercalate {c : Char} {pieces : List (List Char)} (filled : pieces ≠ [])
    (free : ∀ piece ∈ pieces, c ∉ piece) :
    splitWhere (· = c) ([c].intercalate pieces) = pieces := by
  have plain {piece : List Char} (absent : c ∉ piece) : ∀ d ∈ piece, ¬decide (d = c) := by
    rintro d member same
    exact absent (of_decide_eq_true same ▸ member)
  induction pieces with
  | nil => exact absurd rfl filled
  | cons piece rest ih =>
      obtain ⟨here, later⟩ := List.forall_mem_cons.mp free
      cases rest with
      | nil =>
          rw [List.intercalate_singleton]
          exact splitWhere_of_forall (plain here)
      | cons next others =>
          rw [List.intercalate_cons_cons, List.append_assoc, List.singleton_append,
            splitWhere_append (plain here) (decide_eq_true rfl), ih (List.cons_ne_nil _ _) later]

end Split

/-- A text has an ending if it is something before it. -/
theorem stripEnd?_eq_some_iff {ending cs rest : List Char} :
    stripEnd? ending cs = some rest ↔ cs = rest ++ ending := by
  simp only [stripEnd?, Option.map_eq_some_iff, stripStart?_eq_some_iff]
  constructor
  · rintro ⟨turned, same, rfl⟩
    rw [← List.reverse_reverse cs, same, List.reverse_append, List.reverse_reverse]
  · rintro rfl
    exact ⟨rest.reverse, List.reverse_append, List.reverse_reverse rest⟩

/-- Blanks in front of two texts are those of the first, and of the second if the first is blank. -/
theorem trimStart_append (cs others : List Char) : trimStart (cs ++ others) =
    if trimStart cs = [] then trimStart others else trimStart cs ++ others := by
  unfold trimStart
  rw [List.dropWhile_append]
  simp only [List.isEmpty_iff]

theorem trimStart_of_forall {cs : List Char} (blank : ∀ c ∈ cs, isBlank c) : trimStart cs = [] :=
  List.dropWhile_eq_nil_iff.mpr blank

theorem trimStart_cons_of_not_blank {c : Char} (filled : ¬isBlank c) (rest : List Char) :
    trimStart (c :: rest) = c :: rest := List.dropWhile_cons_of_neg filled

/-- A blank at the end is trimmed. -/
theorem trimBoth_append_blank {c : Char} (blank : isBlank c) (cs : List Char) :
    trimBoth (cs ++ [c]) = trimBoth cs := by
  rw [trimBoth, trimBoth, trimStart_append]
  split
  · rename_i none
    rw [none, trimStart_of_forall (List.forall_mem_singleton.mpr blank)]
  · rw [trimEnd, List.reverse_append, List.reverse_singleton, List.singleton_append,
      List.dropWhile_cons_of_pos blank, trimEnd]

/-- A digit is visible. -/
theorem not_isBlank_of_isDigit {c : Char} (isDigit : c.isDigit) : ¬isBlank c := by
  have bounds : 48 ≤ c.toNat ∧ c.toNat ≤ 57 := by
    simpa [Char.isDigit, UInt32.le_iff_toNat_le] using isDigit
  have other : c ≠ ' ' := by
    rintro rfl
    exact absurd bounds.1 (by decide)
  simp only [isBlank, Bool.or_eq_true, Bool.and_eq_true, decide_eq_true_eq, other, false_or]
  omega

/-- A text without blanks is as it is. -/
theorem trimBoth_of_forall {cs : List Char} (filled : ∀ c ∈ cs, ¬isBlank c) : trimBoth cs = cs := by
  have same {cs : List Char} (filled : ∀ c ∈ cs, ¬isBlank c) : cs.dropWhile isBlank = cs := by
    cases cs with
    | nil => rfl
    | cons c rest => exact trimStart_cons_of_not_blank (filled c List.mem_cons_self) rest
  rw [trimBoth, trimStart, same filled, trimEnd,
    same fun c member => filled c (List.mem_reverse.mp member), List.reverse_reverse]

end Text

namespace Output

open Text

/-! ### Lines -/

theorem slotOf?_nil : slotOf? [] = none := rfl

/-- A line that starts otherwise than the mark of a loop stands for no slot. -/
theorem slotOf?_of_head {c : Char} (filled : ¬isBlank c) (other : c ≠ '@') (rest : List Char) :
    slotOf? (c :: rest) = none := by
  rw [slotOf?, trimStart_cons_of_not_blank filled, Option.map_eq_none_iff]
  exact if_neg other.symm

/-- A line without indentation stands for a slot only if the mark of a loop is in front of it. -/
theorem slotOf?_of_not_prefix {cs : List Char} (flush : trimStart cs = cs)
    (free : ¬loopMark.toList <+: cs) : slotOf? cs = none := by
  rw [slotOf?, flush, Option.map_eq_none_iff, Option.eq_none_iff_forall_ne_some]
  exact fun rest stripped => free ⟨rest, (stripStart?_eq_some_iff.mp stripped).symm⟩

/-- Indentation does not matter for the slot of a line. -/
theorem slotOf?_pad (depth : Nat) (text : String) :
    slotOf? (bodyPad depth ++ text).toList = slotOf? text.toList := by
  have blank : ∀ c ∈ (bodyPad depth).toList, isBlank c := by
    intro c member
    rw [bodyPad, String.toList_ofList] at member
    rw [List.eq_of_mem_replicate member]
    decide
  rw [slotOf?, slotOf?, String.toList_append, trimStart_append, if_pos (trimStart_of_forall blank)]

/-- Nor does a carriage return at its end. -/
theorem slotOf?_append_return (line : List Char) : slotOf? (line ++ ['\r']) = slotOf? line := by
  have blank : isBlank '\r' := by decide
  rw [slotOf?, slotOf?, trimStart_append]
  split
  · rename_i none
    rw [none, trimStart_of_forall (List.forall_mem_singleton.mpr blank)]
  · cases stripped : stripStart? loopMark.toList (trimStart line) with
    | some rest =>
        have same := stripStart?_eq_some_iff.mp stripped
        have longer := stripStart?_eq_some_iff.mpr
          (congrArg (· ++ ['\r']) same |>.trans (List.append_assoc _ _ _))
        rw [longer, Option.map_some, Option.map_some, trimBoth_append_blank blank]
    | none =>
        rw [Option.map_none, Option.map_eq_none_iff, Option.eq_none_iff_forall_ne_some]
        intro rest longer
        have same := stripStart?_eq_some_iff.mp longer
        rcases List.eq_nil_or_concat rest with rfl | ⟨front, last, rfl⟩
        · have ends := congrArg List.getLast? same
          rw [List.getLast?_concat, List.append_nil] at ends
          exact absurd ends (by decide)
        · rw [List.concat_eq_append, ← List.append_assoc] at same
          have found := stripStart?_eq_some_iff.mpr (List.append_inj_left' same rfl)
          rw [stripped] at found
          cases found

/-- A return at the end of a line does not matter. -/
theorem slotOf?_dropReturn (line : List Char) : slotOf? (dropReturn line) = slotOf? line := by
  unfold dropReturn
  split
  · rename_i rest stripped
    rw [stripEnd?_eq_some_iff.mp stripped, slotOf?_append_return]
  · rfl

/-- The line of a loop stands for its slot. -/
theorem slotOf?_loopMark (slot : Nat) :
    slotOf? (loopMark ++ toString slot).toList = some (toString slot) := by
  have digits : ∀ c ∈ (toString slot).toList, ¬isBlank c := by
    intro c member
    have inDigits : c ∈ Nat.toDigits 10 slot := by simpa using member
    exact not_isBlank_of_isDigit (Nat.isDigit_of_mem_toDigits (by decide) (by decide) inDigits)
  have flush : trimStart (loopMark.toList ++ (toString slot).toList) =
      loopMark.toList ++ (toString slot).toList :=
    trimStart_cons_of_not_blank (by decide : ¬isBlank '@') _
  rw [slotOf?, String.toList_append, flush, stripStart?_eq_some_iff.mpr rfl, Option.map_some,
    trimBoth_of_forall digits, String.ofList_toList]

/-! ### Texts -/

/-- The slots that the lines of a text stand for, in order. -/
def slotsIn (text : String) : List String :=
  (lines text).filterMap fun line => slotOf? line.toList

/-- The slots of lines are those of the pieces between line breaks. -/
theorem filterMap_slotOf?_linesOfPieces (pieces : List (List Char)) :
    (linesOfPieces pieces).filterMap slotOf? = pieces.filterMap slotOf? := by
  fun_induction linesOfPieces pieces with
  | case1 => rfl
  | case2 last empty => rw [List.isEmpty_iff.mp empty, List.filterMap_cons_none slotOf?_nil]
  | case3 => rfl
  | case4 piece next others ih =>
      rw [List.filterMap_cons, List.filterMap_cons, slotOf?_dropReturn, ih]

/-- The slots of a text are those of the pieces between line breaks. -/
theorem slotsIn_eq (text : String) :
    slotsIn text = (splitWhere (· = '\n') text.toList).filterMap slotOf? := by
  rw [slotsIn, lines, List.filterMap_map, ← filterMap_slotOf?_linesOfPieces]
  simp only [Function.comp_def, String.toList_ofList]

/-- **The slots of lines** are those of the text that they are put together as. -/
theorem slotsIn_intercalate {lines : List String} (unbroken : ∀ line ∈ lines, '\n' ∉ line.toList) :
    slotsIn ("\n".intercalate lines) = lines.filterMap fun line => slotOf? line.toList := by
  rw [slotsIn_eq, String.toList_intercalate]
  by_cases none : lines = []
  · rw [none]
    rfl
  · have pieces : splitWhere (· = '\n') (['\n'].intercalate (lines.map String.toList)) =
        lines.map String.toList := by
      refine splitWhere_intercalate (mt List.map_eq_nil_iff.mp none) fun piece member => ?_
      obtain ⟨line, listed, rfl⟩ := List.mem_map.mp member
      exact unbroken line listed
    rw [show "\n".toList = ['\n'] from rfl, pieces, List.filterMap_map]
    rfl

end Output

end Transcode
