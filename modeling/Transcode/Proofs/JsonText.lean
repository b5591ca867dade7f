import Mathlib.Data.List.Forall2
import Mathlib.Data.List.TakeDrop
import Mathlib.Data.Nat.Digits.Defs
import Mathlib.Tactic.IntervalCases
import Transcode.Json.Printer
import Transcode.Json.Reader

/-!
# Reading what was written

JSON text that was written from a value denotes that value (`Json.read?_pretty`), if the value has
no part that only a reader makes and no natural number above 64 bits. Texts, numbers, items and
entries are read back in front of any characters that do not go on with them.
-/

namespace Transcode.Json

/-- A value that can be written and read back. -/
inductive Plain : Json → Prop
  | null : Plain .null
  | bool (value : Bool) : Plain (.bool value)
  | natural {value : Nat} (bound : value < Nat.pow 2 64) : Plain (.natural value)
  | text (value : String) : Plain (.text value)
  | array {items : List Json} (each : ∀ item ∈ items, Plain item) : Plain (.array items)
  | object {entries : List (String × Json)} (each : ∀ entry ∈ entries, Plain entry.2) :
    Plain (.object entries)

/-! ### Texts -/

section Texts

/-- The text under way after more characters. -/
def TextSoFar.addAll (text : TextSoFar) (cs : List Char) : TextSoFar :=
  cs.foldl TextSoFar.add text

/-- Characters read one by one are the text of them. -/
theorem TextSoFar.value_addAll (cs : List Char) :
    (TextSoFar.addAll {} cs).value = .text (String.ofList cs) := by
  have kept (text : TextSoFar) : (text.addAll cs).broken = text.broken ∧
      (text.addAll cs).reversed = cs.reverse ++ text.reversed := by
    unfold addAll
    induction cs generalizing text with
    | nil => exact ⟨rfl, rfl⟩
    | cons c rest ih => exact ⟨(ih _).1, by rw [List.foldl_cons, (ih _).2]; simp [add]⟩
  simp [value, kept]

theorem hexFour?_control : ∀ code < 0x20,
    hexFour? '0' '0' (hexDigit (code / 16)) (hexDigit (code % 16)) = some code := by
  decide

/-- A character that needs no escape stands for itself. -/
theorem readText_cons (text : TextSoFar) {c : Char} (rest : List Char) (noQuote : c ≠ '"')
    (noEscape : c ≠ '\\') (visible : ¬c.toNat < 0x20) :
    readText text (c :: rest) = readText (text.add c) rest := by
  rw [readText, if_neg visible]
  · exact noQuote
  · intro _ _ _ _ _ same _
    exact noEscape same
  · intro _ _ same _
    exact noEscape same

/-- An escaped character is read as itself. -/
theorem readText_escape (text : TextSoFar) (c : Char) (rest : List Char) :
    readText text (escape c ++ rest) = readText (text.add c) rest := by
  unfold escape
  split_ifs with quote backslash newline carriage tab backspace feed control
  · subst quote; rfl
  · subst backslash; rfl
  · subst newline; rfl
  · subst carriage; rfl
  · subst tab; rfl
  · subst backspace; rfl
  · subst feed; rfl
  · have code := hexFour?_control c.toNat control
    have low : isLeading c.toNat = false ∧ isTrailing c.toNat = false := by
      constructor
      · simp only [isLeading, Bool.and_eq_false_iff, decide_eq_false_iff_not]
        omega
      · simp only [isTrailing, Bool.and_eq_false_iff, decide_eq_false_iff_not]
        omega
    simp only [List.cons_append, List.nil_append]
    rw [readText, code]
    simp [low.1, low.2]
  · exact readText_cons text rest quote backslash control

/-- A text that is escaped character by character is read back. -/
theorem readText_escapes (text : TextSoFar) (cs rest : List Char) :
    readText text (cs.flatMap escape ++ '"' :: rest) = some (text.addAll cs, rest) := by
  induction cs generalizing text with
  | nil => rfl
  | cons c others ih =>
      rw [List.flatMap_cons, List.append_assoc, readText_escape, ih]
      rfl

end Texts

/-! ### Numbers -/

section Numbers

variable {rest : List Char}

/-- What follows does not go on with a number. -/
def Stops (rest : List Char) : Prop :=
  ∀ c ∈ rest.head?, c.isDigit = false ∧ c ≠ '.' ∧ c ≠ 'e' ∧ c ≠ 'E'

/-- Digits are read up to where they stop. -/
theorem spanDigits_append {digits : List Char} (all : ∀ c ∈ digits, c.isDigit = true)
    (stops : Stops rest) : spanDigits (digits ++ rest) = (digits, rest) := by
  have stop : rest.takeWhile Char.isDigit = [] ∧ rest.dropWhile Char.isDigit = rest := by
    cases rest with
    | nil => exact ⟨rfl, rfl⟩
    | cons c others => simp [(stops c rfl).1]
  rw [spanDigits, List.span_eq_takeWhile_dropWhile, List.takeWhile_append_of_pos all,
    List.dropWhile_append_of_pos all, stop.1, stop.2, List.append_nil]

/-- A positive number does not begin with a zero. -/
theorem head?_toDigits_ne (value : Nat) (positive : 0 < value) :
    (Nat.toDigits 10 value).head? ≠ some '0' := by
  induction value using Nat.strongRecOn with
  | _ value ih =>
    by_cases small : value < 10
    · rw [Nat.toDigits_of_lt_base small]
      interval_cases value <;> decide
    · have split : Nat.toDigits 10 (value / 10) ++ Nat.toDigits 10 (value % 10) =
          Nat.toDigits 10 value := by
        rw [Nat.toDigits_append_toDigits (by decide) (by omega) (by omega), Nat.div_add_mod]
      rw [← split, List.head?_append_of_ne_nil _ Nat.toDigits_ne_nil]
      exact ih (value / 10) (by omega) (by omega)

theorem decimalValue_toDigits (value : Nat) : decimalValue (Nat.toDigits 10 value) = value := by
  have folded := Nat.ofDigitChars_toDigits (b := 10) (n := value) (by decide) (by decide)
  rwa [Nat.ofDigitChars_eq_foldl] at folded

/-- The digits of a number have no zero in front that does not belong there. -/
theorem wellWritten_toDigits (value : Nat) :
    ((Nat.toDigits 10 value).isEmpty ||
      ((Nat.toDigits 10 value).head? = some '0' && (Nat.toDigits 10 value).length > 1)) =
        false := by
  rw [Bool.or_eq_false_iff]
  refine ⟨List.isEmpty_eq_false_iff.mpr Nat.toDigits_ne_nil, ?_⟩
  by_cases zero : value = 0
  · subst zero
    rfl
  · simp [head?_toDigits_ne value (Nat.pos_of_ne_zero zero)]

/-- A number that stops has no fraction. -/
theorem readFraction_of_stops (stops : Stops rest) : readFraction rest = some ([], rest) := by
  unfold readFraction
  split
  · exact absurd rfl (stops '.' rfl).2.1
  · rfl

/-- A number that stops has no exponent. -/
theorem readExponent_of_stops (stops : Stops rest) : readExponent rest = some ([], rest) := by
  unfold readExponent
  split
  · rename_i c others
    rw [if_neg (by simp [(stops c rfl).2.2])]
  · rfl

/-- A natural number is read up to where it stops. -/
theorem readNumber_natural {value : Nat} (bound : value < Nat.pow 2 64) (stops : Stops rest) :
    readNumber (Nat.toDigits 10 value ++ rest) = some (.natural value, rest) := by
  have digits : ∀ c ∈ Nat.toDigits 10 value, c.isDigit = true := fun c member =>
    Nat.isDigit_of_mem_toDigits (by decide) (by decide) member
  have unsigned : ∀ others, Nat.toDigits 10 value ++ rest ≠ '-' :: others := by
    intro others same
    have first := congrArg List.head? same
    rw [List.head?_append_of_ne_nil _ Nat.toDigits_ne_nil] at first
    exact absurd (digits '-' (List.mem_of_head? first)) (by decide)
  -- Without a sign, a fraction and an exponent, the text that is read is that of the digits.
  unfold readNumber
  split
  rename_i sign after signed
  split at signed
  · rename_i others same
    exact absurd same (unsigned others)
  · cases signed
    rw [spanDigits_append digits stops]
    dsimp only
    rw [wellWritten_toDigits, readFraction_of_stops stops]
    simp only [Option.bind_eq_bind, Option.bind_some, readExponent_of_stops stops,
      decimalValue_toDigits]
    simp [bound]

end Numbers

/-! ### Items and entries -/

section Values

/-- A text is read as a value in front of anything that does not go on with it. -/
structure Denotes (text : List Char) (value : Json) : Prop where
  starts : ∃ c ∈ text.head?, isSpace c = false ∧ c ≠ ']'
  read : ∀ fuel rest, text.length < fuel → Stops rest →
    readValue fuel (text ++ rest) = some (value, rest)

variable {fuel : Nat} {rest gap : List Char}

theorem skipSpaces_append (spaces : ∀ c ∈ gap, isSpace c = true) (cs : List Char) :
    skipSpaces (gap ++ cs) = skipSpaces cs :=
  List.dropWhile_append_of_pos spaces

theorem skipSpaces_cons {c : Char} (visible : isSpace c = false) :
    skipSpaces (c :: rest) = c :: rest :=
  List.dropWhile_cons_of_neg (by simp [visible])

/-- Spaces in front of a value are skipped. -/
theorem readValue_spaces (spaces : ∀ c ∈ gap, isSpace c = true) (fuel : Nat) (cs : List Char) :
    readValue fuel (gap ++ cs) = readValue fuel cs := by
  cases fuel with
  | zero => rw [readValue, readValue]
  | succ fuel => rw [readValue, skipSpaces_append spaces, ← readValue]

/-- Spaces in front of items are skipped. -/
theorem readItems_spaces (spaces : ∀ c ∈ gap, isSpace c = true) (fuel : Nat) (cs : List Char) :
    readItems fuel (gap ++ cs) = readItems fuel cs := by
  cases fuel with
  | zero => rw [readItems, readItems]
  | succ fuel => simp only [readItems, readValue_spaces spaces]

/-- Spaces in front of entries are skipped. -/
theorem readEntries_spaces (spaces : ∀ c ∈ gap, isSpace c = true) (fuel : Nat) (cs : List Char) :
    readEntries fuel (gap ++ cs) = readEntries fuel cs := by
  cases fuel with
  | zero => rw [readEntries, readEntries]
  | succ fuel => simp only [readEntries, skipSpaces_append spaces]

/-- Spaces do not go on with a value, if what comes after them does not. -/
theorem stops_append (spaces : ∀ c ∈ gap, isSpace c = true) (stops : Stops rest) :
    Stops (gap ++ rest) := by
  cases gap with
  | nil => exact stops
  | cons first others =>
      intro c isHead
      obtain rfl : first = c := by simpa using isHead
      have space := spaces first List.mem_cons_self
      simp only [isSpace, Bool.or_eq_true, decide_eq_true_eq] at space
      rcases space with ((rfl | rfl) | rfl) | rfl <;> decide

/-- A number stops at a comma. -/
theorem stops_comma (rest : List Char) : Stops (',' :: rest) := by
  intro c isHead
  cases isHead
  decide

/-- A number stops at a closing bracket. -/
theorem stops_close {c : Char} (closes : c = ']' ∨ c = '\x7d') (rest : List Char) :
    Stops (c :: rest) := by
  intro head isHead
  cases isHead
  rcases closes with rfl | rfl <;> decide

/-! Single steps of the readers of items and entries. -/

section Steps

variable {cs after : List Char} {item value : Json} {name : String}

/-- The last item comes before the bracket that closes. -/
theorem readItems_last (read : readValue fuel cs = some (item, after))
    (closed : skipSpaces after = ']' :: rest) :
    readItems (fuel + 1) cs = some ([item], rest) := by
  rw [readItems, read]
  simp only [closed]

/-- An item before a comma comes before the others. -/
theorem readItems_comma {items : List Json} (read : readValue fuel cs = some (item, ',' :: after))
    (others : readItems fuel after = some (items, rest)) :
    readItems (fuel + 1) cs = some (item :: items, rest) := by
  have comma : skipSpaces (',' :: after) = ',' :: after := skipSpaces_cons (by decide)
  rw [readItems, read]
  simp only [comma, others]
  rfl

/-- The name of an entry as it is written, up to the value. -/
def nameText (name : String) : List Char := '"' :: (name.toList.flatMap escape ++ ['"', ':', ' '])

/-- The reader of entries comes past a name. -/
theorem readEntries_name (read : readValue fuel cs = some (value, after)) :
    readEntries (fuel + 1) (nameText name ++ cs) =
      match skipSpaces after with
      | '\x7d' :: rest => some (.object [(name, value)], rest)
      | ',' :: rest =>
        (readEntries fuel rest).map fun (others, rest) =>
          (withEntry (.addAll {} name.toList) value others, rest)
      | _ => none := by
  have blank : ∀ c ∈ [' '], isSpace c = true := List.forall_mem_singleton.mpr rfl
  have spaced := readValue_spaces blank fuel cs
  have colon : skipSpaces (':' :: ([' '] ++ cs)) = ':' :: ([' '] ++ cs) :=
    skipSpaces_cons (by decide)
  have whole : nameText name ++ cs =
      '"' :: (name.toList.flatMap escape ++ '"' :: ':' :: ([' '] ++ cs)) := by
    simp [nameText]
  rw [whole, readEntries, skipSpaces_cons (by decide)]
  simp only [readText_escapes, colon, spaced, read]
  split <;> simp [*, withEntry, TextSoFar.value_addAll]

/-- The last entry comes before the brace that closes. -/
theorem readEntries_last (read : readValue fuel cs = some (value, after))
    (closed : skipSpaces after = '\x7d' :: rest) :
    readEntries (fuel + 1) (nameText name ++ cs) = some (.object [(name, value)], rest) := by
  rw [readEntries_name read]
  simp only [closed]

/-- An entry before a comma comes before the others. -/
theorem readEntries_comma {entries : List (String × Json)}
    (read : readValue fuel cs = some (value, ',' :: after))
    (others : readEntries fuel after = some (.object entries, rest)) :
    readEntries (fuel + 1) (nameText name ++ cs) =
      some (.object ((name, value) :: entries), rest) := by
  have comma : skipSpaces (',' :: after) = ',' :: after := skipSpaces_cons (by decide)
  rw [readEntries_name read]
  simp only [comma, others]
  simp [withEntry, TextSoFar.value_addAll]

end Steps

section Lines

/-- Lines with commas and spaces between them. -/
def joined (gap : List Char) (first : List Char) (others : List (List Char)) : List Char :=
  first ++ others.flatMap fun line => ',' :: (gap ++ line)

/-- Joined texts have a comma and a gap between each two. -/
theorem joined_cons (gap first second : List Char) (others : List (List Char)) :
    joined gap first (second :: others) = first ++ ',' :: (gap ++ joined gap second others) := by
  simp [joined]

/-- A line is read as an entry. -/
def DenotesEntry (line : List Char) (entry : String × Json) : Prop :=
  ∃ text, line = nameText entry.1 ++ text ∧ Denotes text entry.2

variable {first last : List Char} {others : List (List Char)}
  (spaces : ∀ c ∈ gap, isSpace c = true) (lastSpaces : ∀ c ∈ last, isSpace c = true)

include spaces lastSpaces

/-- Items with commas between them are read up to the bracket. -/
theorem readItems_joined {item : Json} {items : List Json} (denotes : Denotes first item)
    (aligned : List.Forall₂ Denotes others items)
    (enough : (joined gap first others).length + 1 < fuel) :
    readItems fuel (joined gap first others ++ (last ++ ']' :: rest)) =
      some (item :: items, rest) := by
  have close := stops_append lastSpaces (stops_close (.inl rfl) rest)
  have closed : skipSpaces (last ++ ']' :: rest) = ']' :: rest := by
    rw [skipSpaces_append lastSpaces, skipSpaces_cons (by decide)]
  obtain ⟨fuel, rfl⟩ : ∃ less, fuel = less + 1 := ⟨fuel - 1, by omega⟩
  induction aligned generalizing first item fuel with
  | nil =>
      simp only [joined, List.flatMap_nil, List.append_nil] at enough ⊢
      exact readItems_last (denotes.read fuel _ (by omega) close) closed
  | @cons second next others items secondDenotes _ ih =>
      rw [joined_cons] at enough ⊢
      simp only [List.length_append, List.length_cons] at enough
      simp only [List.append_assoc, List.cons_append]
      refine readItems_comma (denotes.read fuel _ (by omega) (stops_comma _)) ?_
      obtain ⟨fuel, rfl⟩ : ∃ less, fuel = less + 1 := ⟨fuel - 1, by omega⟩
      rw [readItems_spaces spaces]
      exact ih secondDenotes fuel (by omega)

/-- Entries with commas between them are read up to the brace. -/
theorem readEntries_joined {entry : String × Json} {entries : List (String × Json)}
    (denotes : DenotesEntry first entry) (aligned : List.Forall₂ DenotesEntry others entries)
    (enough : (joined gap first others).length + 1 < fuel) :
    readEntries fuel (joined gap first others ++ (last ++ '\x7d' :: rest)) =
      some (.object (entry :: entries), rest) := by
  have close := stops_append lastSpaces (stops_close (.inr rfl) rest)
  have closed : skipSpaces (last ++ '\x7d' :: rest) = '\x7d' :: rest := by
    rw [skipSpaces_append lastSpaces, skipSpaces_cons (by decide)]
  obtain ⟨fuel, rfl⟩ : ∃ less, fuel = less + 1 := ⟨fuel - 1, by omega⟩
  induction aligned generalizing first entry fuel with
  | nil =>
      obtain ⟨text, rfl, value⟩ := denotes
      simp only [joined, List.flatMap_nil, List.append_nil, List.length_append] at enough ⊢
      rw [List.append_assoc]
      exact readEntries_last (value.read fuel _ (by omega) close) closed
  | @cons second next others entries secondDenotes _ ih =>
      obtain ⟨text, rfl, value⟩ := denotes
      rw [joined_cons] at enough ⊢
      simp only [List.length_append, List.length_cons] at enough
      simp only [List.append_assoc, List.cons_append]
      refine readEntries_comma (value.read fuel _ (by omega) (stops_comma _)) ?_
      obtain ⟨fuel, rfl⟩ : ∃ less, fuel = less + 1 := ⟨fuel - 1, by omega⟩
      rw [readEntries_spaces spaces]
      exact ih secondDenotes fuel (by omega)

end Lines

end Values

/-! ### Values -/

/-- Items are printed one by one. -/
theorem prettyItems_eq (level : Nat) (items : List Json) :
    prettyItems level items = items.map (prettyAt level) := by
  induction items with
  | nil => rfl
  | cons item rest ih => rw [prettyItems, ih, List.map_cons]

/-- Entries are printed one by one, each behind its name. -/
theorem prettyEntries_eq (level : Nat) (entries : List (String × Json)) :
    prettyEntries level entries =
      entries.map fun entry => quote entry.1 ++ ": " ++ prettyAt level entry.2 := by
  induction entries with
  | nil => rfl
  | cons entry rest ih => rw [prettyEntries, ih, List.map_cons]

/-- A line end and the indentation of a level. -/
def lineStart (level : Nat) : List Char := '\n' :: List.replicate (2 * level) ' '

/-- The start of a line is skipped. -/
theorem isSpace_lineStart (level : Nat) : ∀ c ∈ lineStart level, isSpace c = true := by
  intro c member
  rcases List.mem_cons.mp member with rfl | member
  · rfl
  · rw [List.eq_of_mem_replicate member]
    rfl

/-- Joining puts the separator before each text but the first. -/
theorem intercalate_cons (separator first : List Char) (others : List (List Char)) :
    separator.intercalate (first :: others) =
      first ++ others.flatMap fun line => separator ++ line := by
  induction others generalizing first with
  | nil => simp
  | cons second rest ih =>
      rw [List.intercalate_cons_cons, ih second, List.flatMap_cons]
      simp

theorem toList_indentation (level : Nat) :
    (indentation level).toList = List.replicate (2 * level) ' ' := by
  simp [indentation]

theorem toList_enclose_nil (level : Nat) (opening closing : String) :
    (enclose level opening closing []).toList = opening.toList ++ closing.toList := by
  simp [enclose]

/-- Lines are put between brackets, each on a line of its own. -/
theorem toList_enclose (level : Nat) (opening closing first : String) (others : List String) :
    (enclose level opening closing (first :: others)).toList =
      opening.toList ++ (lineStart (level + 1) ++
        (joined (lineStart (level + 1)) first.toList (others.map (·.toList)) ++
          (lineStart level ++ closing.toList))) := by
  unfold enclose
  rw [if_neg (by simp)]
  simp [intercalate_cons, toList_indentation, joined, lineStart, List.flatMap_map]

section Starts

variable {fuel : Nat} {rest after gap : List Char} {c : Char}

/-- A digit is no space. -/
theorem isSpace_of_digit (digit : c.isDigit = true) : isSpace c = false := by
  by_contra space
  simp only [isSpace, Bool.not_eq_false, Bool.or_eq_true, decide_eq_true_eq] at space
  rcases space with ((rfl | rfl) | rfl) | rfl <;> exact absurd digit (by decide)

/-- A digit is no symbol. -/
theorem ne_of_digit (digit : c.isDigit = true) {symbol : Char} (other : symbol.isDigit = false) :
    c ≠ symbol := by
  rintro rfl
  rw [digit] at other
  cases other

/-- What begins with a digit is a number. -/
theorem readValue_digit {digits : List Char} (digit : c.isDigit = true) :
    readValue (fuel + 1) (c :: digits) = readNumber (c :: digits) := by
  rw [readValue, skipSpaces_cons (isSpace_of_digit digit)]
  split <;> first | rfl | exact absurd (List.cons.inj ‹_›).1 (ne_of_digit digit (by decide))

variable (spaces : ∀ c ∈ gap, isSpace c = true) (visible : isSpace c = false)

include spaces visible

/-- What begins with a bracket is an array. -/
theorem readValue_bracket {items : List Json} (other : c ≠ ']')
    (read : readItems fuel (c :: rest) = some (items, after)) :
    readValue (fuel + 1) ('[' :: (gap ++ c :: rest)) = some (.array items, after) := by
  rw [readValue, skipSpaces_cons (by decide)]
  simp only [skipSpaces_append spaces, skipSpaces_cons visible]
  split
  · rename_i same
    exact absurd (List.cons.inj same).1 other
  · rw [read]
    rfl

/-- What begins with a brace is an object. -/
theorem readValue_brace {entries : List (String × Json)} (other : c ≠ '\x7d')
    (read : readEntries fuel (c :: rest) = some (.object entries, after)) :
    readValue (fuel + 1) ('\x7b' :: (gap ++ c :: rest)) = some (.object entries, after) := by
  rw [readValue, skipSpaces_cons (by decide)]
  simp only [skipSpaces_append spaces, skipSpaces_cons visible]
  split
  · rename_i same
    exact absurd (List.cons.inj same).1 other
  · exact read

end Starts

/-- A text denotes a value if it is read from its first visible character on. -/
theorem Denotes.of_cons {c : Char} {text : List Char} {value : Json} (visible : isSpace c = false)
    (other : c ≠ ']') (read : ∀ fuel rest, text.length < fuel → Stops rest →
      readValue (fuel + 1) (c :: (text ++ rest)) = some (value, rest)) :
    Denotes (c :: text) value := by
  refine ⟨⟨c, rfl, visible, other⟩, fun fuel rest enough stops => ?_⟩
  rw [List.length_cons] at enough
  obtain ⟨fuel, rfl⟩ : ∃ less, fuel = less + 1 := ⟨fuel - 1, by omega⟩
  exact read fuel rest (by omega) stops

/-- The digits of a number denote it. -/
theorem denotes_natural {value : Nat} (bound : value < Nat.pow 2 64) :
    Denotes (Nat.toDigits 10 value) (.natural value) := by
  obtain ⟨c, digits, split⟩ :=
    List.exists_cons_of_ne_nil (Nat.toDigits_ne_nil (b := 10) (n := value))
  have digit : c.isDigit = true :=
    Nat.isDigit_of_mem_toDigits (by decide) (by decide) (split ▸ List.mem_cons_self)
  rw [split]
  refine .of_cons (isSpace_of_digit digit) (ne_of_digit digit (by decide)) fun fuel rest _ stops =>
    ?_
  have read := readNumber_natural bound stops
  rw [split, List.cons_append] at read
  rw [readValue_digit digit, read]

/-- A quoted text denotes the text. -/
theorem denotes_text (text : String) :
    Denotes ('"' :: (text.toList.flatMap escape ++ ['"'])) (.text text) := by
  refine .of_cons (by decide) (by decide) fun fuel rest _ _ => ?_
  rw [List.append_assoc, List.singleton_append, readValue, skipSpaces_cons (by decide)]
  simp only [readText_escapes, TextSoFar.value_addAll, Option.map_some, String.ofList_toList]

section Enclosed

variable {gap last first : List Char} {others : List (List Char)}
  (spaces : ∀ c ∈ gap, isSpace c = true) (lastSpaces : ∀ c ∈ last, isSpace c = true)

include spaces lastSpaces

/-- Items that each denote a value denote an array. -/
theorem denotes_array {item : Json} {items : List Json} (denotes : Denotes first item)
    (aligned : List.Forall₂ Denotes others items) :
    Denotes ('[' :: (gap ++ (joined gap first others ++ (last ++ [']']))))
      (.array (item :: items)) := by
  refine .of_cons (by decide) (by decide) fun fuel rest enough _ => ?_
  have read : readItems fuel (joined gap first others ++ (last ++ ']' :: rest)) =
      some (item :: items, rest) := readItems_joined spaces lastSpaces denotes aligned
    (by simp only [List.length_append, List.length_cons, List.length_nil] at enough; omega)
  obtain ⟨c, isHead, visible, other⟩ := denotes.starts
  obtain ⟨tail, rfl⟩ := List.head?_eq_some_iff.mp isHead
  simp only [joined, List.cons_append, List.append_assoc, List.nil_append] at read ⊢
  exact readValue_bracket spaces visible other read

/-- Entries that each denote a value denote an object. -/
theorem denotes_object {entry : String × Json} {entries : List (String × Json)}
    (denotes : DenotesEntry first entry) (aligned : List.Forall₂ DenotesEntry others entries) :
    Denotes ('\x7b' :: (gap ++ (joined gap first others ++ (last ++ ['\x7d']))))
      (.object (entry :: entries)) := by
  refine .of_cons (by decide) (by decide) fun fuel rest enough _ => ?_
  have read : readEntries fuel (joined gap first others ++ (last ++ '\x7d' :: rest)) =
      some (.object (entry :: entries), rest) :=
        readEntries_joined spaces lastSpaces denotes aligned
    (by simp only [List.length_append, List.length_cons, List.length_nil] at enough; omega)
  obtain ⟨text, rfl, _⟩ := denotes
  simp only [joined, nameText, List.cons_append, List.append_assoc, List.nil_append] at read ⊢
  exact readValue_brace spaces (by decide) (by decide) read

end Enclosed

theorem toList_quote (text : String) :
    (quote text).toList = '"' :: (text.toList.flatMap escape ++ ['"']) := by
  simp [quote]

/-- A line with a name and a printed value denotes an entry. -/
theorem denotesEntry_line {entry : String × Json} {level : Nat}
    (denotes : Denotes (prettyAt level entry.2).toList entry.2) :
    DenotesEntry (quote entry.1 ++ ": " ++ prettyAt level entry.2).toList entry := by
  refine ⟨_, ?_, denotes⟩
  simp [toList_quote, nameText]

/-- Every value is read back from its text. -/
theorem denotes_prettyAt {value : Json} (plain : value.Plain) (level : Nat) :
    Denotes (prettyAt level value).toList value := by
  induction plain generalizing level with
  | null =>
      rw [prettyAt]
      exact .of_cons (c := 'n') (by decide) (by decide) fun _ _ _ _ => rfl
  | bool value =>
      rw [prettyAt]
      cases value
      · exact .of_cons (c := 'f') (by decide) (by decide) fun _ _ _ _ => rfl
      · exact .of_cons (c := 't') (by decide) (by decide) fun _ _ _ _ => rfl
  | natural bound =>
      rw [prettyAt]
      exact Nat.toList_repr ▸ denotes_natural bound
  | text value =>
      rw [prettyAt, toList_quote]
      exact denotes_text value
  | @array items each ih =>
      rw [prettyAt, prettyItems_eq]
      cases items with
      | nil =>
          rw [List.map_nil, toList_enclose_nil]
          change Denotes ['[', ']'] _
          exact .of_cons (by decide) (by decide) fun _ _ _ _ => rfl
      | cons first others =>
          obtain ⟨here, later⟩ := List.forall_mem_cons.mp ih
          rw [List.map_cons, toList_enclose]
          refine denotes_array (isSpace_lineStart _) (isSpace_lineStart _) (here _) ?_
          rw [List.map_map, List.forall₂_map_left_iff, List.forall₂_same]
          exact fun item member => later item member _
  | @object entries each ih =>
      rw [prettyAt, prettyEntries_eq]
      cases entries with
      | nil =>
          rw [List.map_nil, toList_enclose_nil]
          change Denotes ['\x7b', '\x7d'] _
          exact .of_cons (by decide) (by decide) fun _ _ _ _ => rfl
      | cons first others =>
          obtain ⟨here, later⟩ := List.forall_mem_cons.mp ih
          rw [List.map_cons, toList_enclose]
          refine denotes_object (isSpace_lineStart _) (isSpace_lineStart _)
            (denotesEntry_line (here _)) ?_
          rw [List.map_map, List.forall₂_map_left_iff, List.forall₂_same]
          exact fun entry member => denotesEntry_line (later entry member _)

/-- **Writing and reading.** The text of a plain value denotes it. -/
theorem read?_pretty {value : Json} (plain : value.Plain) : read? value.pretty = some value := by
  have read := (denotes_prettyAt plain 0).read (2 * value.pretty.toList.length + 2) []
    (by unfold pretty; omega) (by simp [Stops])
  rw [List.append_nil] at read
  have whole : readValue (2 * value.pretty.toList.length + 2) value.pretty.toList =
      some (value, []) := read
  unfold read?
  dsimp only
  rw [whole]
  rfl

end Transcode.Json
