import Transcode.Proofs.TypeImages

/-!
# Lists of parameters as text

A list of parameters is cut at the commas outside of brackets, and each piece into words, of which
the last is the name. That gives back the parameters it was put together from as long as their types
are spelled with single blanks, no bracket in them closes too early, and no word of theirs is a
modifier (`Output.parameters_intercalate`): only a parameter that is named as a modifier is read as
another one.
-/

namespace Transcode

namespace Text

/-! ### Depth of brackets of one sort -/

/-- The depth of brackets of one sort behind some characters, if none of them closes a bracket that
none opens, and some characters stand inside of the brackets only. -/
def nesting (opening closing : Char) (inside : List Char) : Nat → List Char → Option Nat
  | depth, [] => some depth
  | depth, c :: rest =>
    if c = opening then nesting opening closing inside (depth + 1) rest
    else if c = closing then
      if depth = 0 then none else nesting opening closing inside (depth - 1) rest
    else if c ∈ inside ∧ depth = 0 then none
    else nesting opening closing inside depth rest

section Nesting

variable {opening closing c : Char} {inside cs : List Char} {depth : Nat}

/-- The depth behind two texts is that behind the second from where the first came to. -/
theorem nesting_append (cs others : List Char) (depth : Nat) :
    nesting opening closing inside depth (cs ++ others) =
      (nesting opening closing inside depth cs).bind
        (nesting opening closing inside · others) := by
  fun_induction nesting opening closing inside depth cs with
  | case1 => rfl
  | case2 depth rest ih => simp [nesting, ih]
  | case3 => simp_all [nesting]
  | case4 => simp_all [nesting]
  | case5 => simp_all [nesting]
  | case6 => simp_all [nesting]

/-- Without brackets the depth stays the same. -/
theorem nesting_of_forall (plain : ∀ c ∈ cs, c ≠ opening ∧ c ≠ closing ∧ c ∉ inside)
    (depth : Nat) : nesting opening closing inside depth cs = some depth := by
  induction cs with
  | nil => rfl
  | cons c rest ih =>
      obtain ⟨⟨noOpening, noClosing, free⟩, later⟩ := List.forall_mem_cons.mp plain
      rw [nesting, if_neg noOpening, if_neg noClosing, if_neg (free ·.1), ih later]

theorem nesting_open : nesting opening closing inside depth [opening] = some (depth + 1) := by
  rw [nesting, if_pos rfl, nesting]

/-- A closing bracket is one less deep. -/
theorem nesting_close (other : opening ≠ closing) :
    nesting opening closing inside (depth + 1) [closing] = some depth := by
  rw [nesting, if_neg other.symm, if_pos rfl, if_neg depth.succ_ne_zero, nesting,
    Nat.add_sub_cancel]

/-- What is only allowed inside brackets leaves the depth as it is. -/
theorem nesting_inside (noOpening : c ≠ opening) (noClosing : c ≠ closing) (deep : depth ≠ 0) :
    nesting opening closing inside depth [c] = some depth := by
  rw [nesting, if_neg noOpening, if_neg noClosing, if_neg (deep ·.2), nesting]

end Nesting

/-! ### Pieces between commas -/

/-- Characters without round brackets and braces that are nested in angles and in square brackets,
with all commas in angles, are not cut. -/
theorem splitTop_of_nesting {angles squares anglesAfter squaresAfter : Nat} {cs : List Char}
    (plain : ∀ c ∈ cs, c ∉ ['(', ')', '\x7b', '\x7d'])
    (inAngles : nesting '<' '>' [','] angles cs = some anglesAfter)
    (inSquares : nesting '[' ']' [] squares cs = some squaresAfter) (current rest : List Char) :
    splitTop ',' (angles + squares) current (cs ++ rest) =
      splitTop ',' (anglesAfter + squaresAfter) (cs.reverse ++ current) rest := by
  induction cs generalizing angles squares current with
  | nil =>
      cases inAngles
      cases inSquares
      rfl
  | cons c others ih =>
      obtain ⟨here, later⟩ := List.forall_mem_cons.mp plain
      simp only [List.mem_cons, List.not_mem_nil, or_false, not_or] at here
      -- What one character does to both depths is what it does to their sum.
      have step {angles' squares' : Nat} (deep : c = ',' → (angles + squares : Int) ≠ 0)
          (level : (angles + squares : Int) + bracketStep c = angles' + squares')
          (inAngles : nesting '<' '>' [','] angles' others = some anglesAfter)
          (inSquares : nesting '[' ']' [] squares' others = some squaresAfter) :
          splitTop ',' (angles + squares) current (c :: others ++ rest) =
            splitTop ',' (anglesAfter + squaresAfter) ((c :: others).reverse ++ current) rest := by
        rw [List.cons_append, splitTop_cons deep, level, ih later inAngles inSquares,
          List.reverse_cons, List.append_assoc, List.singleton_append]
      rw [nesting] at inAngles inSquares
      split at inAngles
      · subst c
        exact step (absurd · (by decide)) (by rw [show bracketStep '<' = 1 from rfl]; omega)
          inAngles inSquares
      split at inAngles
      · subst c
        split at inAngles
        · cases inAngles
        · exact step (absurd · (by decide)) (by rw [show bracketStep '>' = -1 from rfl]; omega)
            inAngles inSquares
      split at inAngles
      · cases inAngles
      rename_i noOpening noClosing noComma
      split at inSquares
      · subst c
        exact step (absurd · (by decide)) (by rw [show bracketStep '[' = 1 from rfl]; omega)
          inAngles inSquares
      split at inSquares
      · subst c
        split at inSquares
        · cases inSquares
        · exact step (absurd · (by decide)) (by rw [show bracketStep ']' = -1 from rfl]; omega)
            inAngles inSquares
      · rename_i noSquare noSquareBack
        have level : bracketStep c = 0 := by simp [bracketStep, *]
        rw [if_neg (by simp)] at inSquares
        refine step (fun isComma => ?_) (by rw [level, Int.add_zero]) inAngles inSquares
        have deep : angles ≠ 0 := fun outside => noComma ⟨List.mem_singleton.mpr isComma, outside⟩
        omega

/-- What is nested in angles and in square brackets is not cut. -/
theorem passes_of_nesting {cs : List Char} (plain : ∀ c ∈ cs, c ∉ ['(', ')', '\x7b', '\x7d'])
    (inAngles : nesting '<' '>' [','] 0 cs = some 0)
    (inSquares : nesting '[' ']' [] 0 cs = some 0) :
    Passes 0 cs := splitTop_of_nesting plain inAngles inSquares

/-! ### Words -/

/-- A text that is not empty and holds no blanks, as a word does. -/
def IsSolid (text : String) : Prop := text ≠ "" ∧ ∀ c ∈ text.toList, ¬isBlank c

/-- Words with blanks between them are split there. -/
theorem splitWhere_isBlank {texts : List String} (filled : texts ≠ [])
    (solid : ∀ text ∈ texts, IsSolid text) :
    splitWhere isBlank (" ".intercalate texts).toList = texts.map String.toList := by
  induction texts with
  | nil => exact absurd rfl filled
  | cons text rest ih =>
      obtain ⟨here, later⟩ := List.forall_mem_cons.mp solid
      cases rest with
      | nil =>
          rw [String.intercalate_singleton]
          exact splitWhere_of_forall here.2
      | cons next others =>
          rw [String.intercalate_cons_cons, String.append_assoc, String.toList_append,
            String.toList_append, show " ".toList = [' '] from rfl, List.singleton_append,
            splitWhere_append here.2 (by decide), ih (List.cons_ne_nil _ _) later]
          rfl

/-- Cutting into words undoes putting them together with single blanks. -/
theorem words_intercalate {texts : List String} (filled : texts ≠ [])
    (solid : ∀ text ∈ texts, IsSolid text) : words (" ".intercalate texts) = texts := by
  have kept : (texts.map String.toList).filter (!·.isEmpty) = texts.map String.toList := by
    refine List.filter_eq_self.mpr fun cs member => ?_
    obtain ⟨text, listed, rfl⟩ := List.mem_map.mp member
    simp [(solid text listed).1]
  rw [words, splitWhere_isBlank filled solid, kept, List.map_map]
  exact (List.map_congr_left fun text _ => String.ofList_toList).trans (List.map_id texts)

/-- A text of at least one word with single blanks between the words. -/
structure IsSpaced (text : String) : Prop where
  filled : words text ≠ []
  solid : ∀ word ∈ words text, IsSolid word
  eq : " ".intercalate (words text) = text

/-- Words with one blank between each two are spaced. -/
theorem isSpaced_intercalate {texts : List String} (filled : texts ≠ [])
    (solid : ∀ text ∈ texts, IsSolid text) : IsSpaced (" ".intercalate texts) := by
  have same := words_intercalate filled solid
  constructor <;> rw [same]
  · exact filled
  · exact solid

theorem IsSolid.isSpaced {word : String} (solid : IsSolid word) : IsSpaced word := by
  rw [← String.intercalate_singleton (s := " ") (t := word)]
  exact isSpaced_intercalate (List.cons_ne_nil _ _) (List.forall_mem_singleton.mpr solid)

/-- A word more in front, before a blank. -/
theorem IsSpaced.cons {word text : String} (spaced : IsSpaced text) (solid : IsSolid word) :
    IsSpaced (word ++ " " ++ text) := by
  have both : word ++ " " ++ text = " ".intercalate (word :: words text) := by
    rw [String.intercalate_cons_of_ne_nil spaced.filled, spaced.eq]
  rw [both]
  exact isSpaced_intercalate (List.cons_ne_nil _ _) (List.forall_mem_cons.mpr ⟨solid, spaced.solid⟩)

/-- The characters of a text are in the joined texts. -/
theorem mem_toList_intercalate {texts : List String} {text : String} (listed : text ∈ texts)
    {c : Char} (member : c ∈ text.toList) : c ∈ (" ".intercalate texts).toList := by
  induction texts with
  | nil => cases listed
  | cons first rest ih =>
      cases rest with
      | nil =>
          rw [List.mem_singleton.mp listed] at member
          rwa [String.intercalate_singleton]
      | cons next others =>
          rw [String.intercalate_cons_cons, String.toList_append, String.toList_append]
          rcases List.mem_cons.mp listed with rfl | later
          · exact List.mem_append_left _ (List.mem_append_left _ member)
          · exact List.mem_append_right _ (ih later)

/-- The characters of a word are in the text. -/
theorem IsSpaced.mem_of_mem_words {text word : String} (spaced : IsSpaced text)
    (listed : word ∈ words text) {c : Char} (member : c ∈ word.toList) : c ∈ text.toList := by
  rw [← spaced.eq]
  exact mem_toList_intercalate listed member

/-- A word more, behind a blank. -/
theorem words_append {text word : String} (spaced : IsSpaced text) (solid : IsSolid word) :
    words (text ++ " " ++ word) = words text ++ [word] := by
  have both : text ++ " " ++ word = " ".intercalate (words text ++ [word]) := by
    rw [String.intercalate_append_of_ne_nil spaced.filled (List.cons_ne_nil _ _), spaced.eq,
      String.intercalate_singleton]
  rw [both]
  exact words_intercalate (by simp)
    (List.forall_mem_append.mpr ⟨spaced.solid, List.forall_mem_singleton.mpr solid⟩)

/-- A spaced text begins with a visible character. -/
theorem IsSpaced.head? {text : String} (spaced : IsSpaced text) :
    ∃ c ∈ text.toList.head?, ¬isBlank c := by
  obtain ⟨word, rest, same⟩ := List.exists_cons_of_ne_nil spaced.filled
  obtain ⟨some, noBlanks⟩ := spaced.solid word (same ▸ List.mem_cons_self)
  obtain ⟨c, others, chars⟩ := List.exists_cons_of_ne_nil (mt String.toList_eq_nil_iff.mp some)
  refine ⟨c, ?_, noBlanks c (chars ▸ List.mem_cons_self)⟩
  rw [← spaced.eq, same]
  cases rest <;> simp [chars]

end Text

/-! ### Parameters -/

namespace Output

open Text

/-- A type's text that a parameter may have: its brackets are nested, a comma stands in angles only,
and no word of it is a modifier. -/
structure IsTypeText (type : String) : Prop where
  spaced : IsSpaced type
  plain : ∀ c ∈ type.toList, c ∉ ['(', ')', '\x7b', '\x7d', '@']
  angles : nesting '<' '>' [','] 0 type.toList = some 0
  squares : nesting '[' ']' [] 0 type.toList = some 0
  words : ∀ word ∈ words type, ¬isModifier word

/-- A text that is one word and that no list is cut in. -/
structure IsNameText (name : String) : Prop where
  solid : IsSolid name
  plain : ∀ c ∈ name.toList, bracketStep c = 0 ∧ c ≠ ',' ∧ c ≠ '@'

namespace Parameter

/-- A parameter as it is declared. -/
def declared (parameter : Parameter) : String := parameter.type ++ " " ++ parameter.name

/-- A declared parameter is its type, a blank and its name. -/
theorem toList_declared (parameter : Parameter) :
    parameter.declared.toList = parameter.type.toList ++ ' ' :: parameter.name.toList := by
  simp [declared]

variable {parameter : Parameter} (isType : IsTypeText parameter.type)
  (isName : IsNameText parameter.name)

include isType isName

/-- A declared parameter has no comma outside brackets. -/
theorem passes_declared : Passes 0 parameter.declared.toList := by
  have type : Passes 0 parameter.type.toList := by
    refine passes_of_nesting (fun c member => ?_) isType.angles isType.squares
    have plain := isType.plain c member
    simp only [List.mem_cons, List.not_mem_nil, or_false, not_or] at plain ⊢
    exact ⟨plain.1, plain.2.1, plain.2.2.1, plain.2.2.2.1⟩
  rw [toList_declared]
  refine type.append (passes_of_forall (List.forall_mem_cons.mpr ⟨by decide, ?_⟩))
  exact fun c member => ⟨(isName.plain c member).1, (isName.plain c member).2.1⟩

/-- A declared parameter has no blanks at its ends. -/
theorem isFilled_declared : IsFilled parameter.declared.toList where
  first := by
    obtain ⟨c, starts, filled⟩ := isType.spaced.head?
    refine ⟨c, ?_, filled⟩
    rw [toList_declared, List.head?_append, starts]
    rfl
  last := by
    obtain ⟨some, noBlanks⟩ := isName.solid
    have filled := mt String.toList_eq_nil_iff.mp some
    refine ⟨parameter.name.toList.getLast filled, ?_, noBlanks _ (List.getLast_mem filled)⟩
    rw [toList_declared, List.getLast?_append, List.getLast?_cons,
      List.getLast?_eq_some_getLast filled]
    rfl

/-- The words of a declared parameter that count. -/
theorem filter_words_declared :
    (words parameter.declared).filter
        (fun word => !isModifier word && word.toList.head? != some '@') =
      words parameter.type ++ if isModifier parameter.name then [] else [parameter.name] := by
  have typed : ∀ word ∈ words parameter.type,
      !isModifier word && word.toList.head? != some '@' := by
    intro word member
    have noSign : word.toList.head? ≠ some '@' := by
      intro starts
      have inside := isType.spaced.mem_of_mem_words member (List.mem_of_mem_head? starts)
      exact isType.plain _ inside (by decide)
    simp [isType.words word member, noSign]
  have named : parameter.name.toList.head? ≠ some '@' := fun starts =>
    (isName.plain _ (List.mem_of_mem_head? starts)).2.2 rfl
  rw [declared, words_append isType.spaced isName.solid, List.filter_append,
    List.filter_eq_self.mpr typed]
  by_cases modifies : isModifier parameter.name <;> simp [modifies, named]

/-- A declared parameter is read back if its name is no modifier. -/
theorem parameter?_declared (plain : ¬isModifier parameter.name) :
    parameter? parameter.declared = some parameter := by
  rw [parameter?, filter_words_declared isType isName, if_neg plain]
  simp [isType.spaced.eq]

/-- One that is named as a modifier is read as another one. -/
theorem exists_parameter?_declared (modifies : isModifier parameter.name) :
    ∃ other, parameter? parameter.declared = some other ∧ other ≠ parameter := by
  have isLast := List.getLast_mem isType.spaced.filled
  rw [parameter?, filter_words_declared isType isName, if_pos modifies, List.append_nil,
    List.getLast?_eq_some_getLast isType.spaced.filled]
  refine ⟨_, rfl, fun same => isType.words _ isLast ?_⟩
  rw [← same] at modifies
  exact modifies

end Parameter

/-- **Lists of parameters** are read back, unless a parameter is named as a modifier. -/
theorem parameters_intercalate {list : List Parameter}
    (types : ∀ parameter ∈ list, IsTypeText parameter.type)
    (names : ∀ parameter ∈ list, IsNameText parameter.name) :
    parameters (", ".intercalate (list.map (·.declared))) = list ↔
      ∀ parameter ∈ list, ¬isModifier parameter.name := by
  have pieces : topLevelPieces ',' (", ".intercalate (list.map (·.declared))).toList =
      list.map (·.declared.toList) := by
    rw [String.toList_intercalate, List.map_map]
    refine topLevelPieces_intercalate (fun piece member => ?_) fun piece member => ?_ <;>
      obtain ⟨parameter, listed, rfl⟩ := List.mem_map.mp member
    · exact Parameter.passes_declared (types parameter listed) (names parameter listed)
    · exact Parameter.isFilled_declared (types parameter listed) (names parameter listed)
  have cut : splitTopLevel (", ".intercalate (list.map (·.declared))) ',' =
      list.map (·.declared) := by
    rw [splitTopLevel, pieces, List.map_map]
    exact List.map_congr_left fun parameter _ => String.ofList_toList
  rw [parameters, cut]
  clear pieces cut
  induction list with
  | nil => exact iff_of_true rfl (List.forall_mem_nil _)
  | cons parameter rest ih =>
      obtain ⟨isType, otherTypes⟩ := List.forall_mem_cons.mp types
      obtain ⟨isName, otherNames⟩ := List.forall_mem_cons.mp names
      have others := ih otherTypes otherNames
      rw [List.map_cons, List.forall_mem_cons]
      simp only [← others]
      by_cases modifies : isModifier parameter.name
      · obtain ⟨other, read, differs⟩ := Parameter.exists_parameter?_declared isType isName modifies
        simp [read, differs, modifies]
      · simp [Parameter.parameter?_declared isType isName modifies, modifies]

end Output

end Transcode
