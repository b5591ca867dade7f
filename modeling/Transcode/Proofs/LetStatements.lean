import Transcode.Proofs.FramedRules
import Transcode.Proofs.LocalDeclarations

/-!
# Local declarations in the output

A local declaration with a value is written with its name first and the type behind it, both as they
are, and the value as an expression of its own (`Output.statement_declarationText`). So it is unless
the text of the value can be taken for the end of the type's arguments: the expression for local
declarations goes on to the last angle bracket behind which a declarator can stand.
-/

namespace Transcode.Output

open Regex Text

/-- A local declaration with a value. -/
def declarationText (type name value : String) : String :=
  type ++ " " ++ name ++ " = " ++ value ++ ";"

/-- What a local declaration is written as. -/
def letText (type name value : String) : String :=
  "let " ++ name ++ ": " ++ type ++ " = " ++ value ++ ";"

/-- The parts of a local declaration on one line that is read as what it is. -/
structure IsReadable (type name value : String) : Prop where
  isType : IsSpelled .type type.toList
  annotated : type ≠ "var"
  reserved : isKeyword (headWord type.toList) → isPrimitive (headWord type.toList)
  isName : IsName name.toList
  filled : IsFilled value.toList
  line : '\n' ∉ value.toList
  /-- No angle bracket of the value can be taken for the one that ends the type's arguments. -/
  clear : '<' ∈ type.toList → ∀ behind, '>' :: behind <:+ value.toList → ¬IsDeclarator behind

/-- No part of the words of a declaration is taken for a long number. -/
structure IsNumberless (type name : String) : Prop where
  type : Free LongAt type.toList
  name : Free LongAt name.toList

/-! ### Values that cannot be taken for a part of a type -/

/-- Whether no name stands behind an angle bracket of a text, also not behind brackets. -/
def namesNothing : List Char → Bool
  | [] => true
  | c :: rest =>
    (c != '>' || !(rest.dropWhile fun d => isBlank d || d == '[' || d == ']').head?.any
      nameStart.mem) &&
      namesNothing rest

/-- What follows the first name of a declarator and its marks of arrays begins a name. -/
theorem IsDeclarator.head? {cs : List Char} (declarator : IsDeclarator cs) :
    (cs.dropWhile fun d => isBlank d || d == '[' || d == ']').head?.any nameStart.mem := by
  obtain ⟨arrays, gap, first, letters, after, more, rfl, areBlank, _, blanks, starts, _⟩ :=
    declarator
  have skipped : ∀ c ∈ arrayChars arrays ++ gap, isBlank c || c == '[' || c == ']' := by
    intro c member
    rcases List.mem_append.mp member with isMark | isGap
    · obtain ⟨array, isArray, there⟩ := List.mem_flatMap.mp isMark
      obtain ⟨before, inside⟩ := areBlank array isArray
      simp only [List.mem_append, List.mem_cons, List.not_mem_nil, or_false] at there
      rcases there with isGap | rfl | isGap | rfl
      · simp [before c isGap]
      · simp
      · simp [inside c isGap]
      · simp
    · simp [blanks c isGap]
  have noBlank : ¬isBlank first := (namePart_of_nameStart starts).2
  have noMark : '[' ≠ first ∧ ']' ≠ first := by
    constructor <;> rintro rfl <;> revert starts <;> decide
  rw [← List.append_assoc, List.dropWhile_append_of_pos skipped, List.dropWhile_cons_of_neg]
  · exact starts
  · simp [noBlank, noMark.1.symm, noMark.2.symm]

/-- A text that names nothing behind an angle bracket cannot be taken for the end of a type. -/
theorem not_isDeclarator_of_namesNothing {cs behind : List Char} (clear : namesNothing cs)
    (isSuffix : '>' :: behind <:+ cs) : ¬IsDeclarator behind := by
  induction cs with
  | nil => cases List.eq_nil_of_suffix_nil isSuffix
  | cons c rest ih =>
      rw [namesNothing, Bool.and_eq_true] at clear
      rcases List.suffix_cons_iff.mp isSuffix with same | later
      · cases same
        intro declarator
        simpa [declarator.head?] using clear.1
      · exact ih clear.2 later

/-- The type of the example is spelled as one. -/
theorem isSpelled_map : IsSpelled .type "Map<String, int[]>".toList := by
  have name : IsSpelled .argument "String".toList :=
    .plain (.name (.name (isName_of_all (by decide) (by decide))))
  have element : IsSpelled .type "int".toList :=
    .name (.name (isName_of_all (by decide) (by decide)))
  have array : IsSpelled .argument ("int".toList ++ ([] ++ '[' :: ([] ++ [']']))) :=
    .plain (.array element (List.forall_mem_nil _) (List.forall_mem_nil _))
  have arguments := IsSpelled.more (List.forall_mem_nil _) name (List.forall_mem_nil _)
    (.last (List.forall_mem_singleton.mpr (by decide) : IsGap [' ']) array (List.forall_mem_nil _))
  exact .generic (.name (isName_of_all (by decide : nameStart.mem 'M')
    (by decide : ['a', 'p'].all _)))
    (List.forall_mem_nil _) arguments

/-! ### Reading and writing -/

section Declarations

variable {type name value : String}

/-- A readable declaration neither begins nor ends with a blank. -/
theorem isFilled_declarationText (readable : IsReadable type name value) :
    IsFilled (declarationText type name value).toList where
  first := by
    obtain ⟨c, starts, isStart⟩ := readable.isType.head?
    obtain ⟨rest, same⟩ := List.head?_eq_some_iff.mp starts
    refine ⟨c, ?_, (namePart_of_nameStart isStart).2⟩
    simp [declarationText, same]
  last := ⟨';', by rw [declarationText, String.toList_append, List.getLast?_append]; rfl, by decide⟩

/-- **A local declaration** is read by its parts. -/
theorem localDeclaration?_declarationText (readable : IsReadable type name value) :
    localDeclaration? (trimBoth (declarationText type name value).toList) =
      some ⟨false, type, name, some value⟩ := by
  have chars : (declarationText type name value).toList =
      declarationChars type.toList name.toList value.toList := by
    simp [declarationText, declarationChars]
  rw [(isFilled_declarationText readable).trimBoth_eq, chars,
    localDeclaration?_declarationChars readable.isType readable.reserved readable.isName
      readable.filled readable.line readable.clear]
  simp only [String.ofList_toList]

/-- What is written before the value of a declaration, without its sign. -/
def headChars (type name : String) : List Char :=
  "let ".toList ++ name.toList ++ ':' :: ' ' :: ((typeName type).toList ++ [' '])

/-- No match begins within the head where none does within its type or its name. -/
theorem free_headChars {At : Onset} (isOnset : IsOnset At) (parts : PartsBlanks type.toList)
    (isType : Free At type.toList) (isName : Free At name.toList) :
    Free At (headChars type name) := by
  have word : Free At ("let ".toList ++ name.toList) :=
    Free.word_append isOnset (by decide : IsPlainWord "let".toList)
      (List.forall_mem_singleton.mpr (by decide) : IsGap [' ']) nofun isName
  have behind : Free At ((typeName type).toList ++ [' ']) :=
    (isType.typeName isOnset parts).append_gap isOnset (List.forall_mem_singleton.mpr (by decide))
  exact word.glue isOnset (behind.cons isOnset (by decide)) (by decide)

/-- The type and the name of a readable declaration are a head no rule of expressions changes. -/
theorem isHead_headChars (readable : IsReadable type name value)
    (numberless : IsNumberless type name) : IsHead (headChars type name) := by
  have parts := partsBlanks_of_isSpelled readable.isType
  have isPart := readable.isName.forall_mem
  have all : ('.' :: '(' :: operatorSigns).all (!namePart.mem ·) := by decide
  have apart (c : Char) (member : c ∈ name.toList) : c ∉ '.' :: '(' :: operatorSigns := by
    intro isSign
    have noPart := List.all_eq_true.mp all c isSign
    rw [(isPart c member).1] at noPart
    cases noPart
  refine ⟨?_, ?_, ?_, ?_⟩
  · exact free_headChars isOnset_creation parts (free_creation_of_isSpelled readable.isType)
      (free_creation_of_filled fun c member => (isPart c member).2)
  · exact free_headChars isOnset_clause parts (free_clause_of_isSpelled readable.isType)
      (free_clause_of_not_mem fun member => apart '(' member (by decide))
  · exact free_headChars isOnset_long parts numberless.type numberless.name
  · have typed := inherits_signs.typeName ⟨parts, not_mem_operatorSigns readable.isType⟩
    simp only [headChars, List.forall_mem_append, List.forall_mem_cons]
    refine ⟨⟨?_, fun c member => ?_⟩, by decide, by decide, typed, by decide, nofun⟩
    · have all : "let ".toList.all fun c => c != '.' && c ∉ operatorSigns := by decide
      simpa using all
    · have other := apart c member
      simp only [List.mem_cons, not_or] at other
      exact ⟨other.1, by simpa [operatorSigns] using other.2.2⟩

/-- The head and the sign behind it have no quotes. -/
theorem isCode_head (isHead : IsHead (headChars type name)) :
    IsCode (headChars type name ++ ['=', ' ']) := by
  refine isCode_append (fun c member isQuote => ?_) (by decide)
  exact (isHead.signs c member).2 (by rcases isQuote with rfl | rfl <;> decide)

/-- **A local declaration** is written with its type behind its name, and its value as it is written
alone. -/
theorem statement_declarationText (readable : IsReadable type name value) :
    declaredLocal (declarationText type name value) = some name ∧
      (IsNumberless type name → ({} : Scope).statement (declarationText type name value) =
        letText (typeName type) name (({} : Scope).expression value)) := by
  have read := localDeclaration?_declarationText readable
  refine ⟨by rw [declaredLocal, read, Option.map_some], fun numberless => ?_⟩
  have written : (⟨false, type, name, some value⟩ : LocalDeclaration).written =
      String.ofList (headChars type name ++ ['=', ' '] ++ (value.toList ++ [';'])) := by
    rw [LocalDeclaration.written, if_neg readable.annotated, ← String.toList_inj]
    simp [headChars]
  have isHead := isHead_headChars readable numberless
  rw [Scope.statement, read, Option.map_some, Option.getD_some, written, Scope.expression,
    String.toList_ofList, mapCode_front (isCode_head isHead) (replaceCode_head isHead),
    mapCode_end (by decide) (by decide) replaceCode_semicolon, ← String.toList_inj]
  simp [headChars, letText, Scope.expression]

theorem statement_declarationText_comparison :
    let type := "Map<String, int[]>"
    let value := "of(n > 2 ? \"b\" : \"->\", k -> (k == n))"
    (IsReadable type "m" value ∧ IsNumberless type "m") ∧
      declaredLocal (declarationText type "m" value) = some "m" ∧
        ({} : Scope).statement (declarationText type "m" value) =
          letText (typeName type) "m" (({} : Scope).expression value) := by
  intro type value
  have isName : IsName "m".toList := isName_of_all (by decide) (by decide)
  have readable : IsReadable type "m" value :=
    { isType := isSpelled_map
      annotated := by decide
      reserved := by decide
      isName
      filled := ⟨⟨'o', by decide, by decide⟩, ')', by decide, by decide⟩
      line := by decide
      clear := fun _ behind => not_isDeclarator_of_namesNothing (by decide) }
  have numberless : IsNumberless type "m" :=
    ⟨free_long_of_isSpelled isSpelled_map (by decide), free_long_of_isName isName (by decide)⟩
  obtain ⟨declared, written⟩ := statement_declarationText readable
  exact ⟨⟨readable, numberless⟩, declared, written numberless⟩

/-- The parameter of a lambda expression is taken for the name, and all before it for the type. -/
theorem declaredLocal_lambda : declaredLocal "Function<A, B> f = a -> b;" = some "b" := by
  have filled :
      trimBoth "Function<A, B> f = a -> b;".toList = "Function<A, B> f = a -> b;".toList := by
    decide
  rw [declaredLocal, filled, localDeclaration?_eq_head?]
  decide +kernel

end Declarations

end Transcode.Output
