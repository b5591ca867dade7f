import Mathlib.Data.Bool.AllAny
import Transcode.Output.TypeName
import Transcode.Proofs.Slots

/-!
# Types and what they are written as

The types of a source text as trees: names with qualifiers and arguments, wildcards among the
arguments, and arrays. However a type is nested, the output cuts its text where the tree is put
together, and so writes it as its structure says (`Output.typeName_spelled`).
-/

namespace Transcode

open Text

/-! ### Types as trees -/

/-- The characters that types are put together with. -/
def typeMarks : List Char := ['<', '>', '(', ')', '[', ']', '\x7b', '\x7d', ',', '.', '?']

/-- A word in the name of a type: no blank and no mark is in it. -/
structure TypeWord where
  text : String
  filled : text ≠ ""
  plain : ∀ c ∈ text.toList, ¬isBlank c ∧ c ∉ typeMarks

mutual

/-- A type: a name with qualifiers and, if it is generic, with arguments; or an array. -/
inductive SourceType where
  | named (qualifiers : List TypeWord) (name : TypeWord) (arguments : List TypeArgument)
  | array (element : SourceType)

/-- An argument of a generic type: a type or a wildcard, which may have a bound. -/
inductive TypeArgument where
  | plain (type : SourceType)
  | wildcard
  | upper (bound : SourceType)
  | lower (bound : SourceType)

end

/-- A name with its qualifiers, each with a point after it. -/
def qualifiedChars (qualifiers : List TypeWord) (name : TypeWord) : List Char :=
  qualifiers.flatMap (·.text.toList ++ ['.']) ++ name.text.toList

/-- Arguments in angle brackets, if there are any. -/
def angledChars : List (List Char) → List Char
  | [] => []
  | arguments => '<' :: ([',', ' '].intercalate arguments ++ ['>'])

mutual

/-- The characters of a type. -/
def SourceType.chars : SourceType → List Char
  | .named qualifiers name arguments =>
    qualifiedChars qualifiers name ++ angledChars (TypeArgument.allChars arguments)
  | .array element => element.chars ++ ['[', ']']

/-- The characters of an argument. -/
def TypeArgument.chars : TypeArgument → List Char
  | .plain type => type.chars
  | .wildcard => ['?']
  | .upper bound => "? extends ".toList ++ bound.chars
  | .lower bound => "? super ".toList ++ bound.chars

/-- The characters of each of several arguments. -/
def TypeArgument.allChars : List TypeArgument → List (List Char)
  | [] => []
  | argument :: rest => argument.chars :: TypeArgument.allChars rest

end

/-- A type as it is printed. -/
def SourceType.spelled (type : SourceType) : String := String.ofList type.chars

/-! ### Types in the output -/

/-- What is made of the types of a name. -/
inductive TypeFamily where
  | number
  | text
  | boolean
  | nothing
  | anything
  | collection
  | mapping
  | other
  deriving DecidableEq, Repr

namespace TypeFamily

/-- The family of a name. -/
def ofName (name : String) : TypeFamily :=
  if name ∈ Output.numberNames then .number
  else if name ∈ Output.textNames then .text
  else if name ∈ ["boolean", "Boolean"] then .boolean
  else if name ∈ ["void", "Void"] then .nothing
  else if name = "Object" then .anything
  else if name ∈ Output.collectionNames then .collection
  else if name ∈ Output.mapNames then .mapping
  else .other

end TypeFamily

/-- An array of what is written as a text: with a blank in it, it stands in parentheses. -/
def arrayImage (element : String) : String :=
  if ' ' ∈ element.toList then "(" ++ element ++ ")[]" else element ++ "[]"

/-- A name with arguments that are written already. Arguments that are missing may be anything. -/
def TypeFamily.image (family : TypeFamily) (name : String) (arguments : List String) : String :=
  match family with
  | .number => "number"
  | .text => "string"
  | .boolean => "boolean"
  | .nothing => "void"
  | .anything => "any"
  | .collection => arrayImage (arguments.headD "any")
  | .mapping => "Map<" ++ arguments.headD "any" ++ ", " ++ arguments.tail.headD "any" ++ ">"
  | .other => if arguments = [] then name else name ++ "<" ++ ", ".intercalate arguments ++ ">"

mutual

/-- What a type is written as. -/
def SourceType.image : SourceType → String
  | .named _ name arguments =>
    (TypeFamily.ofName name.text).image name.text (TypeArgument.images arguments)
  | .array element => arrayImage element.image

/-- What an argument is written as. -/
def TypeArgument.image : TypeArgument → String
  | .plain type => type.image
  | .wildcard => "any"
  | .upper bound => bound.image
  | .lower bound => bound.image

/-- What each of several arguments is written as. -/
def TypeArgument.images : List TypeArgument → List String
  | [] => []
  | argument :: rest => argument.image :: TypeArgument.images rest

end

theorem arrayOf_eq (element : String) : Output.arrayOf element = arrayImage element := by
  unfold Output.arrayOf arrayImage
  simp only [List.contains_iff_mem]

/-- A named type is written as its family says. -/
theorem namedType_eq (name : String) (arguments : List String) :
    Output.namedType name arguments = (TypeFamily.ofName name).image name arguments := by
  unfold Output.namedType TypeFamily.ofName
  simp only [List.contains_iff_mem, Bool.or_eq_true, decide_eq_true_eq, List.mem_cons,
    List.not_mem_nil, or_false, arrayOf_eq, List.isEmpty_iff]
  have first : arguments.getD 0 "any" = arguments.headD "any" := by cases arguments <;> rfl
  have second : arguments.getD 1 "any" = arguments.tail.headD "any" := by
    rcases arguments with _ | ⟨_, _ | _⟩ <;> rfl
  rw [first, second]
  -- The family is chosen by the same tests, in the same order.
  simp only [apply_ite fun family : TypeFamily => family.image name arguments]
  rfl

/-! ### Cutting at marks -/

namespace Text

/-- Nothing is cut off where nothing passes the test. -/
theorem cutAt_of_forall {test : Char → Bool} {cs : List Char} (free : ∀ c ∈ cs, ¬test c) :
    cutAt test cs = (cs, none) := by
  induction cs with
  | nil => rfl
  | cons c rest ih =>
      obtain ⟨here, later⟩ := List.forall_mem_cons.mp free
      rw [cutAt, if_neg here, ih later]

/-- A text is cut at the first character that passes the test. -/
theorem cutAt_append {test : Char → Bool} {cs rest : List Char} {c : Char}
    (free : ∀ c ∈ cs, ¬test c) (stop : test c) :
    cutAt test (cs ++ c :: rest) = (cs, some rest) := by
  induction cs with
  | nil => rw [List.nil_append, cutAt, if_pos stop]
  | cons d cs ih =>
      obtain ⟨here, later⟩ := List.forall_mem_cons.mp free
      rw [List.cons_append, cutAt, if_neg here, ih later]

/-- A text whose first and last characters are no blanks. -/
structure IsFilled (cs : List Char) : Prop where
  first : ∃ c ∈ cs.head?, ¬isBlank c
  last : ∃ c ∈ cs.getLast?, ¬isBlank c

/-- A text with a visible first character is not empty. -/
theorem IsFilled.ne_nil {cs : List Char} (filled : IsFilled cs) : cs ≠ [] := by
  rintro rfl
  obtain ⟨_, none, _⟩ := filled.first
  cases none

/-- A text with visible ends is trimmed to itself. -/
theorem IsFilled.trimBoth_eq {cs : List Char} (filled : IsFilled cs) : trimBoth cs = cs := by
  obtain ⟨⟨c, starts, filled⟩, d, ends, alsoFilled⟩ := filled
  obtain ⟨rest, rfl⟩ := List.head?_eq_some_iff.mp starts
  rw [trimBoth, trimStart_cons_of_not_blank filled, trimEnd]
  obtain ⟨front, same⟩ := List.getLast?_eq_some_iff.mp ends
  rw [same, List.reverse_append, List.reverse_singleton, List.singleton_append,
    List.dropWhile_cons_of_neg alsoFilled, ← List.singleton_append, List.reverse_append,
    List.reverse_reverse, List.reverse_singleton]

/-- A blank in front is trimmed. -/
theorem trimBoth_cons_blank {c : Char} (blank : isBlank c) (cs : List Char) :
    trimBoth (c :: cs) = trimBoth cs := by
  rw [trimBoth, trimStart, List.dropWhile_cons_of_pos blank]
  rfl

/-- Characters that are read at a depth without a cut at a comma among them, and leave the depth as
it is. -/
def Passes (depth : Int) (cs : List Char) : Prop := ∀ current rest,
  splitTop ',' depth current (cs ++ rest) = splitTop ',' depth (cs.reverse ++ current) rest

variable {depth : Int} {cs others : List Char}

theorem Passes.nil : Passes depth [] := fun _ _ => rfl

/-- Texts that pass pass one after another. -/
theorem Passes.append (passes : Passes depth cs) (also : Passes depth others) :
    Passes depth (cs ++ others) := by
  intro current rest
  rw [List.append_assoc, passes, also, List.reverse_append, List.append_assoc]

/-- Only a comma outside of brackets cuts. -/
theorem splitTop_cons {c : Char} (inside : c = ',' → depth ≠ 0) (current rest : List Char) :
    splitTop ',' depth current (c :: rest) =
      splitTop ',' (depth + bracketStep c) (c :: current) rest := by
  rw [splitTop, if_neg]
  rw [Bool.and_eq_true, decide_eq_true_eq, decide_eq_true_eq]
  rintro ⟨rfl, outside⟩
  rw [show bracketStep ',' = 0 by decide, Int.add_zero] at outside
  exact inside rfl outside

/-- A character that is no bracket passes, and so does a comma inside brackets. -/
theorem passes_singleton {c : Char} (level : bracketStep c = 0) (inside : c = ',' → depth ≠ 0) :
    Passes depth [c] := by
  intro current rest
  rw [List.singleton_append, splitTop_cons inside, level, Int.add_zero]
  rfl

/-- A text without brackets and commas passes. -/
theorem passes_of_forall (plain : ∀ c ∈ cs, bracketStep c = 0 ∧ c ≠ ',') : Passes depth cs := by
  induction cs with
  | nil => exact .nil
  | cons c rest ih =>
      obtain ⟨⟨level, other⟩, later⟩ := List.forall_mem_cons.mp plain
      exact (passes_singleton level fun same => absurd same other).append (ih later)

/-- A group in brackets passes if its inside does, one level deeper. -/
theorem Passes.bracketed {opening closing : Char} (opens : bracketStep opening = 1)
    (closes : bracketStep closing = -1) (inside : Passes (depth + 1) cs) :
    Passes depth (opening :: (cs ++ [closing])) := by
  intro current rest
  have notOpening : opening ≠ ',' := by
    rintro rfl
    cases opens
  have notClosing : closing ≠ ',' := by
    rintro rfl
    cases closes
  rw [List.cons_append, splitTop_cons (absurd · notOpening), opens, List.append_assoc, inside,
    List.singleton_append, splitTop_cons (absurd · notClosing), closes, Int.add_neg_cancel_right]
  simp

/-- **Pieces** that pass outside of brackets are what a list of them is cut into. -/
theorem splitTop_intercalate {piece : List Char} {pieces : List (List Char)}
    (passes : ∀ other ∈ piece :: pieces, Passes 0 other) (current : List Char) :
    splitTop ',' 0 current ([',', ' '].intercalate (piece :: pieces)) =
      (current.reverse ++ piece) :: pieces.map (' ' :: ·) := by
  induction pieces generalizing piece current with
  | nil =>
      have last := (passes piece List.mem_cons_self) current []
      rw [List.append_nil] at last
      rw [List.intercalate_singleton, last, splitTop, List.reverse_append, List.reverse_reverse]
      rfl
  | cons next others ih =>
      obtain ⟨here, later⟩ := List.forall_mem_cons.mp passes
      have blank : bracketStep ' ' = 0 := by decide
      rw [List.intercalate_cons_cons, List.append_assoc, here]
      change splitTop ',' 0 (piece.reverse ++ current)
        (',' :: ' ' :: [',', ' '].intercalate (next :: others)) = _
      rw [splitTop, if_pos (by decide)]
      change _ :: splitTop ',' 0 [] (' ' :: [',', ' '].intercalate (next :: others)) = _
      rw [splitTop_cons (by decide), blank, Int.add_zero, ih later, List.reverse_append,
        List.reverse_reverse]
      rfl

/-- No piece is dropped where none is empty. -/
theorem dropEmptyLast_of_forall {pieces : List (List Char)}
    (filled : ∀ piece ∈ pieces, piece ≠ []) :
    dropEmptyLast pieces = pieces := by
  fun_induction dropEmptyLast pieces with
  | case1 => rfl
  | case2 last empty =>
      exact absurd (List.isEmpty_iff.mp empty) (filled last List.mem_cons_self)
  | case3 => rfl
  | case4 piece next pieces ih =>
      rw [ih fun other member => filled other (List.mem_cons_of_mem _ member)]

/-- Filled pieces that are printed as a list are read back. -/
theorem topLevelPieces_intercalate {pieces : List (List Char)}
    (passes : ∀ piece ∈ pieces, Passes 0 piece) (filled : ∀ piece ∈ pieces, IsFilled piece) :
    topLevelPieces ',' ([',', ' '].intercalate pieces) = pieces := by
  cases pieces with
  | nil => rfl
  | cons piece rest =>
      obtain ⟨here, later⟩ := List.forall_mem_cons.mp filled
      have others : (rest.map (' ' :: ·)).map trimBoth = rest := by
        rw [List.map_map]
        refine (List.map_congr_left fun other member => ?_).trans (List.map_id rest)
        exact (trimBoth_cons_blank (by decide) other).trans (later other member).trimBoth_eq
      rw [topLevelPieces, splitTop_intercalate passes, List.reverse_nil, List.nil_append,
        List.map_cons, others, here.trimBoth_eq,
        dropEmptyLast_of_forall fun other member => (filled other member).ne_nil]

end Text

/-! ### Characters of types -/

/-- A character of a word: no blank and no mark. -/
def IsWordChar (c : Char) : Prop := ¬isBlank c ∧ c ∉ typeMarks

namespace IsWordChar

variable {c : Char}

/-- A character of a word is no bracket. -/
theorem bracketStep_eq (isWord : IsWordChar c) : bracketStep c = 0 := by
  have other := isWord.2
  simp only [typeMarks, List.mem_cons, List.not_mem_nil, or_false, not_or] at other
  simp [bracketStep, other]

theorem ne_mark (isWord : IsWordChar c) {mark : Char} (isMark : mark ∈ typeMarks) : c ≠ mark :=
  fun same => isWord.2 (same ▸ isMark)

end IsWordChar

section Names

variable (qualifiers : List TypeWord) (name : TypeWord)

theorem TypeWord.exists_cons : ∃ c rest, name.text.toList = c :: rest :=
  List.exists_cons_of_ne_nil (mt String.toList_eq_nil_iff.mp name.filled)

/-- A name behind qualifiers has dots and characters of words. -/
theorem mem_qualifiedChars : ∀ c ∈ qualifiedChars qualifiers name, c = '.' ∨ IsWordChar c := by
  intro c member
  rcases List.mem_append.mp member with inside | inside
  · obtain ⟨word, _, inside⟩ := List.mem_flatMap.mp inside
    rcases List.mem_append.mp inside with inside | isPoint
    · exact .inr (word.plain c inside)
    · exact .inl (List.mem_singleton.mp isPoint)
  · exact .inr (name.plain c inside)

/-- A name behind qualifiers begins with a character of a word. -/
theorem head?_qualifiedChars : ∃ c ∈ (qualifiedChars qualifiers name).head?, IsWordChar c := by
  have starts (word : TypeWord) (rest : List Char) :
      ∃ c ∈ (word.text.toList ++ rest).head?, IsWordChar c := by
    obtain ⟨c, others, same⟩ := word.exists_cons
    rw [same]
    exact ⟨c, rfl, word.plain c (same ▸ List.mem_cons_self)⟩
  cases qualifiers with
  | nil =>
      rw [qualifiedChars, List.flatMap_nil, List.nil_append, ← List.append_nil name.text.toList]
      exact starts name []
  | cons word rest =>
      rw [qualifiedChars, List.flatMap_cons, List.append_assoc, List.append_assoc]
      exact starts word _

/-- A name behind qualifiers ends with a character of a word. -/
theorem getLast?_qualifiedChars :
    ∃ c ∈ (qualifiedChars qualifiers name).getLast?, IsWordChar c := by
  have filled : name.text.toList ≠ [] := mt String.toList_eq_nil_iff.mp name.filled
  refine ⟨name.text.toList.getLast filled, ?_, name.plain _ (List.getLast_mem filled)⟩
  rw [qualifiedChars, List.getLast?_append, List.getLast?_eq_some_getLast filled]
  rfl

/-- Behind the last point stands the name. -/
theorem afterLast_qualifiedChars :
    afterLast (· = '.') (qualifiedChars qualifiers name) = name.text.toList := by
  have inName : ∀ c ∈ name.text.toList.reverse, !decide (c = '.') := by
    intro c member
    have other : c ≠ '.' :=
      IsWordChar.ne_mark (name.plain c (List.mem_reverse.mp member)) (by decide)
    simp [other]
  have atPoint : ((qualifiers.flatMap (·.text.toList ++ ['.'])).reverse.takeWhile
      fun c => !decide (c = '.')) = [] := by
    rcases List.eq_nil_or_concat qualifiers with rfl | ⟨front, last, rfl⟩
    · rfl
    · simp
  rw [afterLast, qualifiedChars, List.reverse_append, List.takeWhile_append_of_pos inName, atPoint,
    List.append_nil, List.reverse_reverse]

end Names

/-- A type begins with a character of a word. -/
theorem SourceType.head?_chars : ∀ type : SourceType, ∃ c ∈ type.chars.head?, IsWordChar c
  | .named qualifiers name arguments => by
    obtain ⟨c, starts, isWord⟩ := head?_qualifiedChars qualifiers name
    refine ⟨c, ?_, isWord⟩
    rw [SourceType.chars, List.head?_append, starts]
    rfl
  | .array element => by
    obtain ⟨c, starts, isWord⟩ := element.head?_chars
    refine ⟨c, ?_, isWord⟩
    rw [SourceType.chars, List.head?_append, starts]
    rfl

/-- Arguments are put between angle brackets, with a comma and a blank between each two. -/
theorem angledChars_cons (argument : List Char) (rest : List (List Char)) :
    angledChars (argument :: rest) =
      '<' :: ([',', ' '].intercalate (argument :: rest) ++ ['>']) := rfl

/-- A type ends with its name, or with a bracket that closes. -/
theorem getLast?_named (qualifiers : List TypeWord) (name : TypeWord)
    (arguments : List (List Char)) :
    ∃ c ∈ (qualifiedChars qualifiers name ++ angledChars arguments).getLast?,
      c = '>' ∨ IsWordChar c := by
  cases arguments with
  | nil =>
      obtain ⟨c, ends, isWord⟩ := getLast?_qualifiedChars qualifiers name
      rw [angledChars, List.append_nil]
      exact ⟨c, ends, .inr isWord⟩
  | cons argument rest =>
      refine ⟨'>', ?_, .inl rfl⟩
      rw [angledChars_cons, ← List.cons_append, ← List.append_assoc, List.getLast?_concat]
      rfl

/-- A type is filled. -/
theorem SourceType.isFilled (type : SourceType) : IsFilled type.chars where
  first := type.head?_chars.imp fun _ starts => ⟨starts.1, starts.2.1⟩
  last := by
    cases type with
    | named qualifiers name arguments =>
        obtain ⟨c, ends, isEnd⟩ :=
          getLast?_named qualifiers name (TypeArgument.allChars arguments)
        refine ⟨c, ends, ?_⟩
        rcases isEnd with rfl | isWord
        · decide
        · exact isWord.1
    | array element =>
        refine ⟨']', ?_, by decide⟩
        rw [SourceType.chars, List.getLast?_append]
        rfl

/-- A prefix that starts with no blank keeps a type filled. -/
theorem SourceType.isFilled_append (type : SourceType) {c : Char} (filled : ¬isBlank c)
    (rest : List Char) : IsFilled (c :: rest ++ type.chars) where
  first := ⟨c, rfl, filled⟩
  last := by
    obtain ⟨d, ends, alsoFilled⟩ := type.isFilled.last
    refine ⟨d, ?_, alsoFilled⟩
    rw [List.getLast?_append, ends]
    rfl

/-- An argument is filled. -/
theorem TypeArgument.isFilled : ∀ argument : TypeArgument, IsFilled argument.chars
  | .plain type => type.isFilled
  | .wildcard => ⟨⟨'?', rfl, by decide⟩, ⟨'?', rfl, by decide⟩⟩
  | .upper bound => bound.isFilled_append (by decide) _
  | .lower bound => bound.isFilled_append (by decide) _

/-- Arguments are spelled one by one. -/
theorem TypeArgument.allChars_eq (arguments : List TypeArgument) :
    TypeArgument.allChars arguments = arguments.map (·.chars) := by
  induction arguments with
  | nil => rfl
  | cons argument rest ih => rw [TypeArgument.allChars, List.map_cons, ih]

/-! ### Commas inside of types -/

section Passes

variable {depth : Int}

/-- A name behind qualifiers has no comma of its own. -/
theorem passes_qualifiedChars (qualifiers : List TypeWord) (name : TypeWord) :
    Passes depth (qualifiedChars qualifiers name) := by
  refine passes_of_forall fun c member => ?_
  rcases mem_qualifiedChars qualifiers name c member with rfl | isWord
  · decide
  · exact ⟨isWord.bracketStep_eq, isWord.ne_mark (by decide)⟩

/-- The commas between arguments stand inside brackets. -/
theorem passes_angledChars (outside : 0 ≤ depth) {arguments : List (List Char)}
    (passes : ∀ argument ∈ arguments, Passes (depth + 1) argument) :
    Passes depth (angledChars arguments) := by
  have inside : depth + 1 ≠ 0 := by omega
  have listed : Passes (depth + 1) ([',', ' '].intercalate arguments) := by
    induction arguments with
    | nil => exact .nil
    | cons argument rest ih =>
        obtain ⟨here, later⟩ := List.forall_mem_cons.mp passes
        cases rest with
        | nil =>
            rw [List.intercalate_singleton]
            exact here
        | cons next others =>
            have comma : Passes (depth + 1) [','] := passes_singleton (by decide) fun _ => inside
            have blank : Passes (depth + 1) [' '] :=
              passes_singleton (by decide) (absurd · (by decide))
            rw [List.intercalate_cons_cons]
            exact (here.append (comma.append blank)).append (ih later)
  cases arguments with
  | nil => exact .nil
  | cons argument rest =>
      rw [angledChars_cons]
      exact listed.bracketed (by decide) (by decide)

mutual

/-- No comma in a type is outside of its brackets. -/
theorem SourceType.passes : ∀ (type : SourceType) {depth : Int}, 0 ≤ depth →
    Passes depth type.chars
  | .named qualifiers name arguments, depth, outside => by
    unfold SourceType.chars
    exact (passes_qualifiedChars qualifiers name).append (passes_angledChars outside
      (TypeArgument.passes_allChars arguments (by omega)))
  | .array element, depth, outside => by
    have brackets : Passes depth ['[', ']'] := .bracketed (by decide) (by decide) .nil
    unfold SourceType.chars
    exact (element.passes outside).append brackets

/-- An argument has no comma outside brackets. -/
theorem TypeArgument.passes : ∀ (argument : TypeArgument) {depth : Int}, 0 ≤ depth →
    Passes depth argument.chars
  | .plain type, depth, outside => by
    unfold TypeArgument.chars
    exact type.passes outside
  | .wildcard, depth, _ => by
    unfold TypeArgument.chars
    exact passes_singleton (by decide) (absurd · (by decide))
  | .upper bound, depth, outside => by
    unfold TypeArgument.chars
    exact (passes_of_forall (List.all_iff_forall_prop.mp (by decide))).append (bound.passes outside)
  | .lower bound, depth, outside => by
    unfold TypeArgument.chars
    exact (passes_of_forall (List.all_iff_forall_prop.mp (by decide))).append (bound.passes outside)

/-- No argument has a comma outside brackets. -/
theorem TypeArgument.passes_allChars : ∀ (arguments : List TypeArgument) {depth : Int},
    0 ≤ depth → ∀ cs ∈ TypeArgument.allChars arguments, Passes depth cs
  | [], _, _ => by
    unfold TypeArgument.allChars
    exact List.forall_mem_nil _
  | argument :: rest, _, outside => by
    unfold TypeArgument.allChars
    exact List.forall_mem_cons.mpr
      ⟨argument.passes outside, TypeArgument.passes_allChars rest outside⟩

end

end Passes

/-! ### How types are written -/

namespace Output

variable {type : List Char}

/-- The element type of an array is what stands before its last brackets. -/
theorem elementType?_append_brackets (element : List Char) :
    elementType? (element ++ ['[', ']']) = some element := by
  rw [elementType?, stripEnd?_eq_some_iff.mpr rfl]
  rfl

/-- What ends otherwise than arrays do is no array. -/
theorem elementType?_eq_none {c : Char} (ends : c ∈ type.getLast?) (other : c ≠ ']' ∧ c ≠ '.') :
    elementType? type = none := by
  have never {ending : List Char} {d : Char} (last : ending.getLast? = some d) (apart : c ≠ d) :
      stripEnd? ending type = none := by
    refine Option.eq_none_iff_forall_ne_some.mpr fun rest stripped => apart ?_
    rw [stripEnd?_eq_some_iff.mp stripped, List.getLast?_append, last] at ends
    exact (Option.some.inj ends).symm
  rw [elementType?, never rfl other.1, never rfl other.2]
  rfl

theorem typeChars_wildcard : typeChars ['?'] = "any" := by
  rw [typeChars]
  rfl

/-- An array is written as one of what its elements are written as. -/
theorem typeChars_array {element : List Char} (filled : IsFilled element) :
    typeChars (element ++ ['[', ']']) = arrayImage (typeChars element) := by
  have isArray := elementType?_append_brackets element
  have noWildcard : ¬((element ++ ['[', ']']).isEmpty || element ++ ['[', ']'] = ['?']) := by
    obtain ⟨c, rest, rfl⟩ := List.exists_cons_of_ne_nil filled.ne_nil
    simp
  rw [typeChars, if_neg noWildcard]
  split
  · rename_i found isElement
    obtain rfl := Option.some.inj (isArray.symm.trans isElement)
    rw [filled.trimBoth_eq, arrayOf_eq]
  · rename_i none
    rw [isArray] at none
    cases none

/-- A wildcard with a bound is written as the bound is. -/
theorem typeChars_bound {bound : List Char} (filled : IsFilled bound) (noWildcard : type ≠ ['?'])
    (noArray : elementType? type = none) (isBound : boundType? type = some bound) :
    typeChars type = typeChars bound := by
  have there : ¬(type.isEmpty || type = ['?']) := by
    rw [Bool.or_eq_true, decide_eq_true_eq, List.isEmpty_iff]
    rintro (rfl | same)
    · cases isBound
    · exact noWildcard same
  rw [typeChars, if_neg there]
  split
  · rename_i isElement
    rw [noArray] at isElement
    cases isElement
  · split
    · rename_i found same
      obtain rfl := Option.some.inj (isBound.symm.trans same)
      rw [filled.trimBoth_eq]
    · rename_i none
      rw [isBound] at none
      cases none

/-- Any other type is written as a name with arguments. -/
theorem typeChars_named (filled : type ≠ []) (noWildcard : type ≠ ['?'])
    (noArray : elementType? type = none) (noBound : boundType? type = none) :
    typeChars type =
      namedType (String.ofList (afterLast (· = '.') (nameAndArguments type).1))
        ((nameAndArguments type).2.map typeChars) := by
  have there : ¬(type.isEmpty || type = ['?']) := by
    rw [Bool.or_eq_true, decide_eq_true_eq, List.isEmpty_iff]
    exact fun either => either.elim filled noWildcard
  rw [typeChars, if_neg there]
  split
  · rename_i isElement
    rw [noArray] at isElement
    cases isElement
  · split
    · rename_i isBound
      rw [noBound] at isBound
      cases isBound
    · exact congrArg _ (List.attach_map_val ..)

/-- What starts with a word has no bound. -/
theorem boundType?_eq_none {c : Char} (starts : c ∈ type.head?) (isWord : IsWordChar c) :
    boundType? type = none := by
  obtain ⟨rest, rfl⟩ := List.head?_eq_some_iff.mp starts
  have other : '?' ≠ c := (isWord.ne_mark (by decide)).symm
  have never {mark : List Char} (asks : mark.head? = some '?') :
      stripStart? mark (c :: rest) = none := by
    obtain ⟨tail, rfl⟩ := List.head?_eq_some_iff.mp asks
    exact if_neg other
  rw [boundType?, never rfl, never rfl]
  rfl

section Named

variable (qualifiers : List TypeWord) (name : TypeWord)

/-- The angle brackets of a type are where it is cut into its name and its arguments. -/
theorem nameAndArguments_named {arguments : List (List Char)}
    (passes : ∀ argument ∈ arguments, Passes 0 argument)
    (filled : ∀ argument ∈ arguments, IsFilled argument) :
    nameAndArguments (qualifiedChars qualifiers name ++ angledChars arguments) =
      (qualifiedChars qualifiers name, arguments) := by
  have noAngle : ∀ c ∈ qualifiedChars qualifiers name, ¬decide (c = '<') := by
    intro c member isAngle
    rcases mem_qualifiedChars qualifiers name c member with rfl | isWord
    · cases of_decide_eq_true isAngle
    · exact isWord.ne_mark (by decide) (of_decide_eq_true isAngle)
  unfold nameAndArguments
  cases arguments with
  | nil => rw [angledChars, List.append_nil, cutAt_of_forall noAngle]
  | cons argument rest =>
      have closes : stripEnd? ['>'] (qualifiedChars qualifiers name ++
          '<' :: ([',', ' '].intercalate (argument :: rest) ++ ['>'])) =
            some (qualifiedChars qualifiers name ++
              '<' :: [',', ' '].intercalate (argument :: rest)) := by
        rw [stripEnd?_eq_some_iff, List.append_assoc]
        rfl
      have trimmed : IsFilled (qualifiedChars qualifiers name) :=
        ⟨(head?_qualifiedChars qualifiers name).imp fun _ starts => ⟨starts.1, starts.2.1⟩,
          (getLast?_qualifiedChars qualifiers name).imp fun _ ends => ⟨ends.1, ends.2.1⟩⟩
      rw [angledChars_cons, cutAt_append noAngle (decide_eq_true rfl), closes]
      dsimp only
      rw [trimmed.trimBoth_eq, List.dropLast_concat, topLevelPieces_intercalate passes filled]

/-- What a named type ends with is no sign of an array. -/
theorem elementType?_named (mark : List Char) (arguments : List (List Char)) :
    elementType? (mark ++ (qualifiedChars qualifiers name ++ angledChars arguments)) = none := by
  obtain ⟨c, ends, isEnd⟩ := getLast?_named qualifiers name arguments
  refine elementType?_eq_none (c := c) ?_ ?_
  · rw [List.getLast?_append, ends]
    rfl
  · rcases isEnd with rfl | isWord
    · decide
    · exact ⟨isWord.ne_mark (by decide), isWord.ne_mark (by decide)⟩

/-- A type with a name is written as the family of its name says. -/
theorem typeChars_spelled (arguments : List TypeArgument) :
    typeChars (SourceType.named qualifiers name arguments).chars =
      (TypeFamily.ofName name.text).image name.text
        ((TypeArgument.allChars arguments).map typeChars) := by
  obtain ⟨c, starts, isWord⟩ := (SourceType.named qualifiers name arguments).head?_chars
  have noWildcard : (SourceType.named qualifiers name arguments).chars ≠ ['?'] := by
    intro same
    rw [same] at starts
    exact isWord.ne_mark (by decide) (Option.some.inj starts).symm
  have noArray := elementType?_named qualifiers name [] (TypeArgument.allChars arguments)
  have parts := nameAndArguments_named qualifiers name
    (TypeArgument.passes_allChars arguments (Int.le_refl 0)) fun cs member => by
      rw [TypeArgument.allChars_eq] at member
      obtain ⟨argument, _, rfl⟩ := List.mem_map.mp member
      exact argument.isFilled
  rw [typeChars_named (SourceType.isFilled _).ne_nil noWildcard noArray
    (boundType?_eq_none starts isWord), SourceType.chars, parts, afterLast_qualifiedChars,
    String.ofList_toList, namedType_eq]

end Named

/-- The marks of a bound. -/
def IsBoundMark (mark : List Char) : Prop :=
  mark = "? extends ".toList ∨ mark = "? super ".toList

/-- A bound is what stands behind its mark. -/
theorem IsBoundMark.boundType?_append {mark : List Char} (isMark : IsBoundMark mark)
    (bound : List Char) : boundType? (mark ++ bound) = some bound := by
  rcases isMark with rfl | rfl
  · rw [boundType?, stripStart?_eq_some_iff.mpr rfl]
    rfl
  · have other : stripStart? "? extends ".toList ("? super ".toList ++ bound) = none := rfl
    rw [boundType?, other, stripStart?_eq_some_iff.mpr rfl]
    rfl

theorem IsBoundMark.exists_eq {mark : List Char} (isMark : IsBoundMark mark) :
    ∃ rest, mark = '?' :: ' ' :: rest := by
  rcases isMark with rfl | rfl <;> exact ⟨_, rfl⟩

/-- **A bound** is written as if it stood by itself: a bound that is an array may be cut before its
mark is, which makes no difference. -/
theorem typeChars_append {mark : List Char} (isMark : IsBoundMark mark) :
    ∀ type : SourceType, typeChars (mark ++ type.chars) = typeChars type.chars
  | .named qualifiers name arguments => by
    obtain ⟨rest, rfl⟩ := isMark.exists_eq
    exact typeChars_bound (SourceType.isFilled _) (by simp)
      (elementType?_named qualifiers name _ _) (isMark.boundType?_append _)
  | .array element => by
    obtain ⟨rest, rfl⟩ := isMark.exists_eq
    have filled := element.isFilled_append (by decide : ¬isBlank '?') (' ' :: rest)
    rw [SourceType.chars, ← List.append_assoc, typeChars_array filled,
      typeChars_array element.isFilled, typeChars_append isMark element]

mutual

theorem typeChars_eq_image : ∀ type : SourceType, typeChars type.chars = type.image
  | .named qualifiers name arguments => by
    unfold SourceType.image
    rw [typeChars_spelled, map_typeChars_eq_images arguments]
  | .array element => by
    unfold SourceType.image
    rw [SourceType.chars, typeChars_array element.isFilled, typeChars_eq_image element]

/-- An argument is written as its image. -/
theorem typeChars_argument : ∀ argument : TypeArgument, typeChars argument.chars = argument.image
  | .plain type => by
    unfold TypeArgument.image
    exact typeChars_eq_image type
  | .wildcard => by
    unfold TypeArgument.image
    exact typeChars_wildcard
  | .upper bound => by
    unfold TypeArgument.image
    exact (typeChars_append (.inl rfl) bound).trans (typeChars_eq_image bound)
  | .lower bound => by
    unfold TypeArgument.image
    exact (typeChars_append (.inr rfl) bound).trans (typeChars_eq_image bound)

/-- Arguments are written as their images. -/
theorem map_typeChars_eq_images : ∀ arguments : List TypeArgument,
    (TypeArgument.allChars arguments).map typeChars = TypeArgument.images arguments
  | [] => by
    unfold TypeArgument.allChars TypeArgument.images
    rfl
  | argument :: rest => by
    unfold TypeArgument.allChars TypeArgument.images
    rw [List.map_cons, typeChars_argument argument, map_typeChars_eq_images rest]

end

/-- **Types are written as they are put together,** however they are nested. -/
theorem typeName_spelled (type : SourceType) : typeName type.spelled = type.image := by
  rw [typeName, SourceType.spelled, String.toList_ofList, type.isFilled.trimBoth_eq,
    typeChars_eq_image]

/-- The type `java.util.Map<String, ? extends A<int[], ?>[]>` with its text and its image. -/
example :
    let word (text : String) (filled : text ≠ "")
        (plain : text.toList.all fun c => ¬isBlank c ∧ c ∉ typeMarks) : TypeWord :=
      ⟨text, filled, List.all_iff_forall_prop.mp plain⟩
    let int : SourceType := .named [] (word "int" (by decide) (by decide)) []
    let text : SourceType := .named [] (word "String" (by decide) (by decide)) []
    let pair : SourceType :=
      .named [] (word "A" (by decide) (by decide)) [.plain (.array int), .wildcard]
    let util := [word "java" (by decide) (by decide), word "util" (by decide) (by decide)]
    let type : SourceType :=
      .named util (word "Map" (by decide) (by decide)) [.plain text, .upper (.array pair)]
    type.spelled = "java.util.Map<String, ? extends A<int[], ?>[]>" ∧
      type.image = "Map<string, (A<number[], any>)[]>" := by
  decide +kernel

end Output

end Transcode
