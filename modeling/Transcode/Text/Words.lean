import Transcode.Text.Property
import Transcode.Text.Split

/-!
# Words, lines and lists in text

Blank-separated words, lines, and lists whose separator does not count inside brackets.
-/

namespace Transcode.Text

/-- A list of characters without the blanks at its start. -/
def trimStart (cs : List Char) : List Char := cs.dropWhile isBlank

/-- A list of characters without the blanks at its end. -/
def trimEnd (cs : List Char) : List Char := (cs.reverse.dropWhile isBlank).reverse

/-- A list of characters without the blanks at both ends. -/
def trimBoth (cs : List Char) : List Char := trimEnd (trimStart cs)

/-- Whether a text holds nothing but blanks. -/
def isBlankText (text : String) : Bool := text.toList.all isBlank

/-- The maximal runs of characters that are not blank. -/
def words (text : String) : List String :=
  ((splitWhere isBlank text.toList).filter (!·.isEmpty)).map String.ofList

/-- Whether a list of words holds a word. -/
def hasWord (list word : String) : Bool := (words list).contains word

/-- A list of words without every occurrence of a word. -/
def dropWord (list word : String) : String :=
  " ".intercalate ((words list).filter (· != word))

/-- A line without the carriage return that stood before its line break. -/
def dropReturn (line : List Char) : List Char :=
  match stripEnd? ['\r'] line with
  | some rest => rest
  | none => line

/-- The lines among the pieces between line breaks: a last piece that is empty is no line, and only
a piece with a line break after it loses a carriage return. -/
def linesOfPieces : List (List Char) → List (List Char)
  | [] => []
  | [last] => if last.isEmpty then [] else [last]
  | piece :: next :: pieces => dropReturn piece :: linesOfPieces (next :: pieces)

/-- The lines of a text. -/
def lines (text : String) : List String :=
  (linesOfPieces (splitWhere (· = '\n') text.toList)).map String.ofList

/-- How a character changes the depth of brackets `<>`, `()`, `[]` and `{}`. -/
def bracketStep (c : Char) : Int :=
  if c = '<' || c = '(' || c = '[' || c = '\x7b' then 1
  else if c = '>' || c = ')' || c = ']' || c = '\x7d' then -1
  else 0

/-- The pieces at separators of bracket depth zero; a bracket has its depth on its inner side if it
opens and on its outer side if it closes. `current` holds the piece so far, last character first. -/
def splitTop (separator : Char) : Int → List Char → List Char → List (List Char)
  | _, current, [] => [current.reverse]
  | depth, current, c :: rest =>
    let depth := depth + bracketStep c
    if c = separator && depth = 0 then current.reverse :: splitTop separator depth [] rest
    else splitTop separator depth (c :: current) rest

/-- Drops the last piece of a list if it is empty. -/
def dropEmptyLast : List (List Char) → List (List Char)
  | [] => []
  | [last] => if last.isEmpty then [] else [last]
  | piece :: next :: pieces => piece :: dropEmptyLast (next :: pieces)

/-- The trimmed pieces at separators outside all brackets; a blank last piece is none. -/
def topLevelPieces (separator : Char) (cs : List Char) : List (List Char) :=
  dropEmptyLast ((splitTop separator 0 [] cs).map trimBoth)

/-- The trimmed pieces of a text at separators outside all brackets; a blank last piece is none. -/
def splitTopLevel (text : String) (separator : Char) : List String :=
  (topLevelPieces separator text.toList).map String.ofList

/-- Trimming makes no text longer. -/
theorem length_trimBoth_le (cs : List Char) : (trimBoth cs).length ≤ cs.length := by
  unfold trimBoth trimEnd trimStart
  rw [List.length_reverse]
  calc
    _ ≤ (cs.dropWhile isBlank).reverse.length := (List.dropWhile_sublist _).length_le
    _ = (cs.dropWhile isBlank).length := List.length_reverse
    _ ≤ cs.length := (List.dropWhile_sublist _).length_le

/-- A piece is no longer than the text and what was already taken. -/
theorem length_le_of_mem_splitTop {separator : Char} {depth : Int} {current cs piece : List Char}
    (h : piece ∈ splitTop separator depth current cs) :
    piece.length ≤ current.length + cs.length := by
  induction cs generalizing depth current with
  | nil =>
      simp only [splitTop, List.mem_singleton] at h
      simp [h]
  | cons c rest ih =>
      simp only [splitTop] at h
      split at h
      · rcases List.mem_cons.mp h with rfl | h
        · simp
        · have := ih h
          simp only [List.length_nil, List.length_cons] at this ⊢
          omega
      · have := ih h
        simp only [List.length_cons] at this ⊢
        omega

/-- Dropping an empty last piece adds none. -/
theorem mem_of_mem_dropEmptyLast {piece : List Char} {pieces : List (List Char)}
    (h : piece ∈ dropEmptyLast pieces) : piece ∈ pieces := by
  fun_induction dropEmptyLast pieces with
  | case1 => exact h
  | case2 => simp at h
  | case3 => exact h
  | case4 first next pieces ih =>
      rcases List.mem_cons.mp h with h | h
      · exact h ▸ List.mem_cons_self
      · exact List.mem_cons_of_mem _ (ih h)

/-- No piece is longer than the text it is cut from. -/
theorem length_le_of_mem_topLevelPieces {separator : Char} {cs piece : List Char}
    (h : piece ∈ topLevelPieces separator cs) : piece.length ≤ cs.length := by
  obtain ⟨whole, hwhole, rfl⟩ := List.mem_map.mp (mem_of_mem_dropEmptyLast h)
  have := length_le_of_mem_splitTop hwhole
  simp only [List.length_nil, Nat.zero_add] at this
  exact Nat.le_trans (length_trimBoth_le whole) this

end Transcode.Text
