import Transcode.Proofs.TypeTexts

/-!
# What the output makes of a type, by its pieces

The output cuts the text of a type between words, and puts what it writes for the pieces together
with marks. So what passes from a text to its pieces, and from what is written for pieces to what is
put together of them, passes from a type to what it is written as (`Output.Inherits.typeChars`).
-/

namespace Transcode.Output

open Text

/-! ### Pieces of a text -/

/-- A part of a text with no word going on at its ends. -/
def IsPiece (part whole : List Char) : Prop :=
  ∃ before behind, whole = before ++ (part ++ behind) ∧ (∀ c ∈ before.getLast?, ¬isWordChar c) ∧
    ∀ c ∈ behind.head?, ¬isWordChar c

/-- A text whose blanks stand in no word. -/
def PartsBlanks (cs : List Char) : Prop := ∀ c ∈ cs, isBlank c → ¬isWordChar c

section Pieces

variable {part middle whole cs : List Char}

theorem IsPiece.refl (cs : List Char) : IsPiece cs cs := ⟨[], [], by simp, nofun, nofun⟩

/-- A piece of a piece is a piece. -/
theorem IsPiece.trans (early : IsPiece part middle) (late : IsPiece middle whole) :
    IsPiece part whole := by
  obtain ⟨before, behind, rfl, opens, ends⟩ := early
  obtain ⟨first, last, rfl, alsoOpens, alsoEnds⟩ := late
  refine ⟨first ++ before, behind ++ last, by simp, fun c there => ?_, fun c there => ?_⟩
  · rw [List.getLast?_append, Option.mem_def, Option.or_eq_some_iff] at there
    exact there.elim (opens c) fun both => alsoOpens c both.2
  · rw [List.head?_append, Option.mem_def, Option.or_eq_some_iff] at there
    exact there.elim (ends c) fun both => alsoEnds c both.2

theorem IsPiece.subset (piece : IsPiece part whole) : part ⊆ whole := by
  obtain ⟨before, behind, rfl, _⟩ := piece
  exact fun c member => List.mem_append_right _ (List.mem_append_left _ member)

theorem IsPiece.partsBlanks (piece : IsPiece part whole) (parts : PartsBlanks whole) :
    PartsBlanks part := fun c member => parts c (piece.subset member)

/-- A text without blanks in front is a piece. -/
theorem isPiece_dropWhile (parts : PartsBlanks cs) : IsPiece (cs.dropWhile isBlank) cs := by
  refine ⟨cs.takeWhile isBlank, [], by simp, fun c last => ?_, nofun⟩
  have member := List.mem_of_getLast? last
  exact parts c ((List.takeWhile_sublist _).subset member) (List.mem_takeWhile_imp member)

/-- A text without blanks at the end is a piece. -/
theorem isPiece_trimEnd (parts : PartsBlanks cs) : IsPiece (trimEnd cs) cs := by
  refine ⟨[], (cs.reverse.takeWhile isBlank).reverse, ?_, nofun, fun c first => ?_⟩
  · rw [List.nil_append, trimEnd, ← List.reverse_append, List.takeWhile_append_dropWhile,
      List.reverse_reverse]
  · have member := List.mem_reverse.mp (List.mem_of_head? first)
    exact parts c (List.mem_reverse.mp ((List.takeWhile_sublist _).subset member))
      (List.mem_takeWhile_imp member)

theorem isPiece_trimBoth (parts : PartsBlanks cs) : IsPiece (trimBoth cs) cs := by
  have early := isPiece_dropWhile parts
  exact (isPiece_trimEnd (early.partsBlanks parts)).trans early

/-- A text without an ending that starts no word is a piece. -/
theorem isPiece_stripEnd? {ending rest : List Char} (found : stripEnd? ending cs = some rest)
    (ends : ∀ c ∈ ending.head?, ¬isWordChar c) : IsPiece rest cs := by
  obtain ⟨reversed, isRest, rfl⟩ := Option.map_eq_some_iff.mp found
  have same := congrArg List.reverse (stripStart?_eq_some_iff.mp isRest)
  rw [List.reverse_reverse, List.reverse_append, List.reverse_reverse] at same
  exact ⟨[], ending, same, nofun, ends⟩

/-- A text without a beginning that ends no word is a piece. -/
theorem isPiece_stripStart? {beginning rest : List Char}
    (found : stripStart? beginning cs = some rest)
    (opens : ∀ c ∈ beginning.getLast?, ¬isWordChar c) : IsPiece rest cs :=
  ⟨beginning, [], by rw [stripStart?_eq_some_iff.mp found, List.append_nil], opens, nofun⟩

/-- The part behind the last character that a test picks out, and its characters. -/
theorem isPiece_afterLast (test : Char → Bool) (cs : List Char)
    (opens : ∀ c, test c → ¬isWordChar c) :
    IsPiece (afterLast test cs) cs ∧ ∀ c ∈ afterLast test cs, ¬test c := by
  constructor
  · refine ⟨(cs.reverse.dropWhile (!test ·)).reverse, [], ?_, fun c last => ?_, nofun⟩
    · rw [List.append_nil, afterLast, ← List.reverse_append, List.takeWhile_append_dropWhile,
        List.reverse_reverse]
    · rw [List.getLast?_reverse] at last
      have noLonger := List.head?_dropWhile_not (!test ·) cs.reverse
      rw [Option.mem_def.mp last] at noLonger
      exact opens c (by simpa using noLonger)
  · intro c member
    simpa using List.mem_takeWhile_imp (List.mem_reverse.mp member)

/-- A text is cut at a character that passes the test. -/
theorem cutAt_eq {test : Char → Bool} {before behind : List Char}
    (cut : cutAt test cs = (before, some behind)) : ∃ c, test c ∧ cs = before ++ c :: behind := by
  induction cs generalizing before with
  | nil => simp [cutAt] at cut
  | cons c cs ih =>
      rw [cutAt] at cut
      split at cut
      · rename_i isMark
        obtain ⟨rfl, rest⟩ := Prod.mk.inj cut
        exact ⟨c, isMark, by rw [Option.some.inj rest]; rfl⟩
      · obtain ⟨rfl, rest⟩ := Prod.mk.inj cut
        obtain ⟨d, isMark, same⟩ := ih (Prod.ext rfl rest)
        exact ⟨d, isMark, by rw [List.cons_append, ← same]⟩

/-- A piece between separators stands between them in the text. -/
theorem exists_of_mem_splitTop {separator : Char} {depth : Int} {current piece : List Char}
    (member : piece ∈ splitTop separator depth current cs) :
    ∃ before behind, current.reverse ++ cs = before ++ (piece ++ behind) ∧
      (∀ c ∈ before.getLast?, c = separator) ∧ ∀ c ∈ behind.head?, c = separator := by
  induction cs generalizing depth current with
  | nil =>
      rw [splitTop, List.mem_singleton] at member
      exact ⟨[], [], by simp [member], by simp, by simp⟩
  | cons c rest ih =>
      rw [splitTop] at member
      split at member
      · rename_i here
        obtain rfl : c = separator := by simp_all
        rcases List.mem_cons.mp member with rfl | later
        · exact ⟨[], c :: rest, by simp, by simp, by simp⟩
        · obtain ⟨before, behind, same, opens, ends⟩ := ih later
          refine ⟨current.reverse ++ [c] ++ before, behind, ?_, fun d last => ?_, ends⟩
          · rw [List.append_assoc, ← same]
            simp
          · rw [List.getLast?_append, List.getLast?_concat, Option.mem_def,
              Option.or_eq_some_iff] at last
            exact last.elim (opens d) fun both => (Option.some.inj both.2).symm
      · obtain ⟨before, behind, same, opens, ends⟩ := ih member
        exact ⟨before, behind, by rw [← same]; simp, opens, ends⟩

/-- What stands between commas is a piece. -/
theorem isPiece_of_mem_topLevelPieces (parts : PartsBlanks cs)
    (member : part ∈ topLevelPieces ',' cs) : IsPiece part cs := by
  obtain ⟨whole, isWhole, rfl⟩ := List.mem_map.mp (mem_of_mem_dropEmptyLast member)
  obtain ⟨before, behind, same, opens, ends⟩ := exists_of_mem_splitTop isWhole
  have piece : IsPiece whole cs :=
    ⟨before, behind, same, fun c last => opens c last ▸ by decide,
      fun c first => ends c first ▸ by decide⟩
  exact (isPiece_trimBoth (piece.partsBlanks parts)).trans piece

/-- The name and the arguments of a type are pieces. -/
theorem isPiece_nameAndArguments (parts : PartsBlanks cs) :
    IsPiece (nameAndArguments cs).1 cs ∧
      ∀ argument ∈ (nameAndArguments cs).2, IsPiece argument cs := by
  rw [nameAndArguments]
  split
  · rename_i name arguments front cut ended
    obtain ⟨c, isMark, rfl⟩ := cutAt_eq cut
    obtain rfl : c = '<' := of_decide_eq_true isMark
    have early : IsPiece name (name ++ '<' :: arguments) :=
      ⟨[], '<' :: arguments, rfl, nofun, by simp; decide⟩
    refine ⟨(isPiece_trimBoth (early.partsBlanks parts)).trans early, fun argument member => ?_⟩
    have inner : IsPiece arguments.dropLast (name ++ '<' :: arguments) := by
      obtain ⟨reversed, isFront, rfl⟩ := Option.map_eq_some_iff.mp ended
      have same := congrArg List.reverse (stripStart?_eq_some_iff.mp isFront)
      rw [List.reverse_reverse, List.reverse_append] at same
      rcases List.eq_nil_or_concat arguments with rfl | ⟨inner, last, rfl⟩
      · exact absurd (List.append_inj_right' same rfl) (by decide)
      · refine ⟨name ++ ['<'], [last], ?_, by simp; decide, ?_⟩
        · simp
        · have isLast : name ++ '<' :: inner ++ [last] = reversed.reverse ++ ['>'] := by
            simpa using same
          obtain rfl : last = '>' := List.singleton_injective (List.append_inj_right' isLast rfl)
          simp
          decide
    exact (isPiece_of_mem_topLevelPieces (inner.partsBlanks parts) member).trans inner
  · exact ⟨.refl cs, nofun⟩

end Pieces

/-! ### What is written for a type -/

/-- The names that the output has for types of a source text. -/
def writtenNames : List String := ["any", "number", "string", "boolean", "void", "Map"]

/-- What passes from the text of a type to its pieces, and from there to what is put together. -/
structure Inherits (good image : List Char → Prop) : Prop where
  parts {cs : List Char} : good cs → PartsBlanks cs
  piece {part cs : List Char} : IsPiece part cs → good cs → good part
  name {cs : List Char} : good cs → '.' ∉ cs → image cs
  written : ∀ name ∈ writtenNames, image name.toList
  array {cs : List Char} : image cs → image (cs ++ ['[', ']'])
  grouped {cs : List Char} : image cs → image ('(' :: (cs ++ [')', '[', ']']))
  applied {name : List Char} {arguments : List (List Char)} : image name → arguments ≠ [] →
    (∀ argument ∈ arguments, image argument) →
    image (name ++ '<' :: ([',', ' '].intercalate arguments ++ ['>']))

namespace Inherits

variable {good image : List Char → Prop}

/-- An array inherits from its element. -/
theorem arrayOf (inherits : Inherits good image) {element : String}
    (isImage : image element.toList) :
    image (Output.arrayOf element).toList := by
  rw [Output.arrayOf]
  split
  · simpa using inherits.grouped isImage
  · simpa using inherits.array isImage

/-- A type with arguments inherits from its name and the arguments. -/
theorem namedType (inherits : Inherits good image) {name : String} {arguments : List String}
    (isName : image name.toList) (each : ∀ argument ∈ arguments, image argument.toList) :
    image (Output.namedType name arguments).toList := by
  have argument (i : Nat) : image (arguments.getD i "any").toList := by
    rw [List.getD_eq_getElem?_getD]
    cases there : arguments[i]? with
    | none => exact inherits.written "any" (by decide)
    | some argument => exact each argument (List.mem_of_getElem? there)
  rw [Output.namedType]
  split
  · exact inherits.written "number" (by decide)
  split
  · exact inherits.written "string" (by decide)
  split
  · exact inherits.written "boolean" (by decide)
  split
  · exact inherits.written "void" (by decide)
  split
  · exact inherits.written "any" (by decide)
  split
  · exact inherits.arrayOf (argument 0)
  split
  · have map := inherits.applied (inherits.written "Map" (by decide)) (List.cons_ne_nil _ _)
      (List.forall_mem_cons.mpr ⟨argument 0, List.forall_mem_singleton.mpr (argument 1)⟩)
    simpa [List.intercalate] using map
  split
  · exact isName
  · rename_i filled
    have images : ∀ argument ∈ arguments.map String.toList, image argument := by simpa using each
    have applied := inherits.applied isName (by simpa using filled) images
    simpa [String.toList_intercalate] using applied

/-- **What is written for a type** inherits what its text passes on. -/
theorem typeChars (inherits : Inherits good image) {type : List Char} (isGood : good type) :
    image (Output.typeChars type).toList := by
  have trimmed {part : List Char} (isGood : good part) : good (trimBoth part) :=
    inherits.piece (isPiece_trimBoth (inherits.parts isGood)) isGood
  fun_induction Output.typeChars type with
  | case1 => exact inherits.written "any" (by decide)
  | case2 type _ element isArray ih =>
      refine inherits.arrayOf (ih (trimmed (inherits.piece ?_ isGood)))
      rcases Option.or_eq_some_iff.mp isArray with brackets | ⟨_, points⟩
      · exact isPiece_stripEnd? brackets (by simp; decide)
      · exact isPiece_stripEnd? points (by simp; decide)
  | case3 type _ _ bound isBound ih =>
      refine ih (trimmed (inherits.piece ?_ isGood))
      rcases Option.or_eq_some_iff.mp isBound with upper | ⟨_, lower⟩
      · exact isPiece_stripStart? upper (by simp; decide)
      · exact isPiece_stripStart? lower (by simp; decide)
  | case4 type _ _ _ ih =>
      obtain ⟨isName, isArgument⟩ := isPiece_nameAndArguments (inherits.parts isGood)
      obtain ⟨isLast, noPoint⟩ := isPiece_afterLast (· = '.') (nameAndArguments type).1
        fun c isPoint => of_decide_eq_true isPoint ▸ by decide
      refine inherits.namedType ?_ fun written member => ?_
      · rw [String.toList_ofList]
        exact inherits.name (inherits.piece (isLast.trans isName) isGood) fun member =>
          noPoint _ member rfl
      · obtain ⟨⟨argument, there⟩, _, rfl⟩ := List.mem_map.mp member
        exact ih argument there (inherits.piece (isArgument argument there) isGood)

/-- What is written of a type inherits from its parts. -/
theorem typeName (inherits : Inherits good image) {type : String} (isGood : good type.toList) :
    image (Output.typeName type).toList :=
  inherits.typeChars (inherits.piece (isPiece_trimBoth (inherits.parts isGood)) isGood)

end Inherits

end Transcode.Output
