import Transcode.Output.Declaration
import Transcode.Proofs.Matching
import Transcode.Proofs.TypeImages

/-!
# Texts of types

The texts that types have in a line of source code: qualified names, arguments in angle brackets and
brackets of arrays, with any blanks between them. A text of a type is a name, arguments and brackets
in this order (`IsSpelled.exists_parts`), however its arguments are nested.
-/

namespace Transcode

open Text Output

/-- The blank characters within a line. -/
def lineBlanks : List Char := [' ', '\t', '\r', '\x0c']

/-- Blanks between the words and marks of a line. -/
def IsGap (cs : List Char) : Prop := ∀ c ∈ cs, c ∈ lineBlanks

/-- A name. -/
inductive IsName : List Char → Prop where
  | intro {first : Char} {rest : List Char} : nameStart.mem first →
    (∀ c ∈ rest, namePart.mem c ∧ ¬isBlank c) → IsName (first :: rest)

/-- A name with qualifiers. -/
inductive IsQualified : List Char → Prop where
  | name {name : List Char} : IsName name → IsQualified name
  | dot {name rest : List Char} : IsName name → IsQualified rest → IsQualified (name ++ '.' :: rest)

/-- What a part of the text of a type can be. -/
inductive TypePart where
  | type
  | argument
  | arguments

/-- The texts of types, of their arguments, and of lists of these. -/
inductive IsSpelled : TypePart → List Char → Prop where
  | name {name : List Char} : IsQualified name → IsSpelled .type name
  | generic {name gap inner : List Char} :
      IsQualified name → IsGap gap → IsSpelled .arguments inner →
    IsSpelled .type (name ++ (gap ++ '<' :: (inner ++ ['>'])))
  | array {element gap inside : List Char} : IsSpelled .type element → IsGap gap → IsGap inside →
    IsSpelled .type (element ++ (gap ++ '[' :: (inside ++ [']'])))
  | plain {type : List Char} : IsSpelled .type type → IsSpelled .argument type
  | wildcard : IsSpelled .argument ['?']
  | bounded {before after bound : List Char} {mark : String} : mark ∈ ["extends", "super"] →
    IsGap before → IsGap after → after ≠ [] → IsSpelled .type bound →
    IsSpelled .argument ('?' :: (before ++ (mark.toList ++ (after ++ bound))))
  | last {before argument after : List Char} : IsGap before → IsSpelled .argument argument →
    IsGap after → IsSpelled .arguments (before ++ (argument ++ after))
  | more {before argument after rest : List Char} : IsGap before → IsSpelled .argument argument →
    IsGap after → IsSpelled .arguments rest →
    IsSpelled .arguments (before ++ (argument ++ (after ++ ',' :: rest)))

/-- A character behind a part that it is not in. -/
theorem exists_of_append_eq_cons {front rest before behind : List Char} {c : Char}
    (same : front ++ rest = before ++ c :: behind) (free : c ∉ front) :
    ∃ middle, before = front ++ middle ∧ rest = middle ++ c :: behind := by
  rcases List.append_eq_append_iff.mp same with ⟨middle, early, late⟩ | ⟨beyond, early, late⟩
  · exact ⟨middle, early, late⟩
  · cases beyond with
    | nil => exact ⟨[], by simp [early], late.symm⟩
    | cons d beyond =>
        obtain ⟨rfl, _⟩ := List.cons.inj late
        exact absurd (early ▸ List.mem_append_right _ List.mem_cons_self) free

/-! ### Characters of names and gaps -/

section Characters

variable {c : Char} {cs : List Char}

/-- What a look at all ASCII characters shows. -/
theorem forall_ascii (test : Char → Bool)
    (all : (List.range 128).all fun code => test (Char.ofNat code))
    (ascii : isAscii c) : test c := by
  have here := List.all_eq_true.mp all c.toNat (List.mem_range.mpr (of_decide_eq_true ascii))
  rwa [Char.ofNat_toNat] at here

/-- What starts a name is a character of ASCII. -/
theorem isAscii_of_nameStart (starts : nameStart.mem c) : isAscii c := by
  have small {last : Char} (below : c ≤ last) (ascii : isAscii last) : isAscii c :=
    decide_eq_true (Nat.lt_of_le_of_lt (UInt32.le_iff_toNat_le.mp below) (of_decide_eq_true ascii))
  rw [nameStart, CharSet.mem, CharSet.mem, CharSet.mem, CharSet.mem] at starts
  simp only [Bool.or_eq_true, Bool.and_eq_true, decide_eq_true_eq, CharSet.mem_ofText] at starts
  rcases starts with (⟨_, below⟩ | ⟨_, below⟩) | other
  · exact small below (by decide)
  · exact small below (by decide)
  · rcases List.mem_pair.mp other with rfl | rfl <;> decide

/-- What starts a name may go on in it. -/
theorem namePart_of_nameStart (starts : nameStart.mem c) : namePart.mem c ∧ ¬isBlank c := by
  have here := forall_ascii (fun c => !nameStart.mem c || namePart.mem c && !isBlank c) (by decide)
    (isAscii_of_nameStart starts)
  simpa [starts] using here

theorem isBlank_of_mem_lineBlanks (isGap : c ∈ lineBlanks) : isBlank c := by
  have all : lineBlanks.all isBlank := by decide
  exact List.all_eq_true.mp all c isGap

theorem not_namePart_of_mem_lineBlanks (isGap : c ∈ lineBlanks) : ¬namePart.mem c ∧ c ≠ '.' := by
  have all : lineBlanks.all fun c => !namePart.mem c && c != '.' := by decide
  simpa using List.all_eq_true.mp all c isGap

/-- What starts as a name and goes on as one is a name. -/
theorem isName_of_all {first : Char} {rest : List Char} (starts : nameStart.mem first)
    (each : rest.all fun c => namePart.mem c && !isBlank c) : IsName (first :: rest) :=
  .intro starts fun c member => by simpa using List.all_eq_true.mp each c member

/-- A name begins with a character that starts names. -/
theorem IsName.head? (isName : IsName cs) : ∃ c ∈ cs.head?, nameStart.mem c := by
  obtain ⟨starts, _⟩ := isName
  exact ⟨_, rfl, starts⟩

theorem IsName.forall_mem (isName : IsName cs) : ∀ c ∈ cs, namePart.mem c ∧ ¬isBlank c := by
  obtain ⟨starts, parts⟩ := isName
  exact List.forall_mem_cons.mpr ⟨namePart_of_nameStart starts, parts⟩

/-- A qualified name begins with a character that starts names. -/
theorem IsQualified.head? (isName : IsQualified cs) : ∃ c ∈ cs.head?, nameStart.mem c := by
  cases isName with
  | name isName => exact isName.head?
  | dot isName _ =>
      obtain ⟨c, first, starts⟩ := isName.head?
      exact ⟨c, by rw [List.head?_append, first]; rfl, starts⟩

/-- A qualified name has points and visible characters of names. -/
theorem IsQualified.forall_mem (isName : IsQualified cs) :
    ∀ c ∈ cs, c = '.' ∨ namePart.mem c ∧ ¬isBlank c := by
  induction isName with
  | name isName => exact fun c member => .inr (isName.forall_mem c member)
  | dot isName _ ih =>
      refine List.forall_mem_append.mpr ⟨fun c member => .inr (isName.forall_mem c member), ?_⟩
      exact List.forall_mem_cons.mpr ⟨.inl rfl, ih⟩

end Characters

/-! ### Parts of the text of a type -/

/-- Arguments in angle brackets behind blanks, if there are any. -/
def argumentChars : Option (List Char × List Char) → List Char
  | none => []
  | some (gap, inner) => gap ++ '<' :: (inner ++ ['>'])

/-- Pairs of brackets, each with what stands before it and in it. -/
def arrayChars (arrays : List (List Char × List Char)) : List Char :=
  arrays.flatMap fun array => array.1 ++ '[' :: (array.2 ++ [']'])

namespace IsSpelled

variable {part : TypePart} {cs type : List Char}

/-- **The text of a type** is a name, arguments in angle brackets and pairs of brackets. -/
theorem exists_parts (isType : IsSpelled .type type) : ∃ name arguments arrays,
    type = name ++ (argumentChars arguments ++ arrayChars arrays) ∧ IsQualified name ∧
      (∀ pair ∈ arguments, IsGap pair.1 ∧ IsSpelled .arguments pair.2) ∧
      ∀ array ∈ arrays, IsGap array.1 ∧ IsGap array.2 := by
  generalize same : TypePart.type = part at isType
  induction isType with
  | name isName => exact ⟨_, none, [], by simp [argumentChars, arrayChars], isName, nofun, nofun⟩
  | @generic name gap inner isName isGap isInner _ =>
      refine ⟨name, some (gap, inner), [], by simp [argumentChars, arrayChars], isName, ?_, nofun⟩
      rintro pair ⟨⟩
      exact ⟨isGap, isInner⟩
  | @array _ gap inside _ isGap isInside ih =>
      obtain ⟨name, arguments, arrays, rfl, isName, isArguments, gaps⟩ := ih rfl
      refine ⟨name, arguments, arrays ++ [(gap, inside)], ?_, isName, isArguments, ?_⟩
      · simp [arrayChars]
      · exact List.forall_mem_append.mpr ⟨gaps, List.forall_mem_singleton.mpr ⟨isGap, isInside⟩⟩
  | plain | wildcard | bounded | last | more => cases same

/-- A type begins with a character that starts names. -/
theorem head? (isType : IsSpelled .type type) : ∃ c ∈ type.head?, nameStart.mem c := by
  obtain ⟨name, arguments, arrays, rfl, isName, _⟩ := isType.exists_parts
  obtain ⟨c, first, starts⟩ := isName.head?
  exact ⟨c, by rw [List.head?_append, first]; rfl, starts⟩

/-- The characters of a type: those of names, blanks, and the marks between them. -/
theorem forall_mem (spelled : IsSpelled part cs) :
    ∀ c ∈ cs, namePart.mem c ∧ ¬isBlank c ∨ c ∈ lineBlanks ∨
      c ∈ ['.', '<', '>', '[', ']', ',', '?'] := by
  have named {name : List Char} (isName : IsQualified name) : ∀ c ∈ name,
      namePart.mem c ∧ ¬isBlank c ∨ c ∈ lineBlanks ∨ c ∈ ['.', '<', '>', '[', ']', ',', '?'] :=
    fun c member => (isName.forall_mem c member).elim (fun point => by simp [point]) .inl
  have blank {gap : List Char} (isGap : IsGap gap) : ∀ c ∈ gap,
      namePart.mem c ∧ ¬isBlank c ∨ c ∈ lineBlanks ∨ c ∈ ['.', '<', '>', '[', ']', ',', '?'] :=
    fun c member => .inr (.inl (isGap c member))
  have word {mark : String} (isMark : mark ∈ ["extends", "super"]) : ∀ c ∈ mark.toList,
      namePart.mem c ∧ ¬isBlank c := by
    have all : ["extends", "super"].all fun mark => mark.toList.all fun c =>
        namePart.mem c && !isBlank c := by decide
    intro c member
    simpa using List.all_eq_true.mp (List.all_eq_true.mp all mark isMark) c member
  induction spelled with
  | name isName => exact named isName
  | generic isName isGap _ ih =>
      simp only [List.forall_mem_append, List.forall_mem_cons]
      exact ⟨named isName, blank isGap, by simp, ih, by simp⟩
  | array _ isGap isInside ih =>
      simp only [List.forall_mem_append, List.forall_mem_cons]
      exact ⟨ih, blank isGap, by simp, blank isInside, by simp⟩
  | plain _ ih => exact ih
  | wildcard => simp
  | bounded isMark before after _ _ ih =>
      simp only [List.forall_mem_append, List.forall_mem_cons]
      exact ⟨by simp, blank before, fun c member => .inl (word isMark c member), blank after, ih⟩
  | last before _ after ih =>
      simp only [List.forall_mem_append]
      exact ⟨blank before, ih, blank after⟩
  | more before _ after _ ih ihRest =>
      simp only [List.forall_mem_append, List.forall_mem_cons]
      exact ⟨blank before, ih, blank after, by simp, ihRest⟩

/-- The blanks in a type are blanks of a line. -/
theorem mem_lineBlanks (spelled : IsSpelled part cs) {c : Char} (member : c ∈ cs)
    (blank : isBlank c) : c ∈ lineBlanks := by
  rcases spelled.forall_mem c member with ⟨_, filled⟩ | isGap | isMark
  · exact absurd blank filled
  · exact isGap
  · have all : ['.', '<', '>', '[', ']', ',', '?'].all fun c => !isBlank c := by decide
    have filled := List.all_eq_true.mp all c isMark
    simp [blank] at filled

theorem not_mem_line (spelled : IsSpelled part cs) : '\n' ∉ cs := fun member =>
  absurd (spelled.mem_lineBlanks member (by decide)) (by decide)

end IsSpelled

end Transcode
