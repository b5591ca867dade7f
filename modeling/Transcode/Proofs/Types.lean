import Transcode.Proofs.Statements

/-!
# Types that are read back

Types as they stand in declarations, with qualifiers, arguments in angles and array marks, lists of
them with commas between, and modifiers. Each is read back as the text that it is spelled with, if
what follows cannot belong to it.
-/

namespace Transcode

namespace Lexeme

def openAngle : Lexeme := ⟨.punct, "<", by decide +kernel⟩
def closeAngle : Lexeme := ⟨.punct, ">", by decide +kernel⟩
def comma : Lexeme := ⟨.punct, ",", by decide +kernel⟩
def ellipsis : Lexeme := ⟨.punct, "...", by decide +kernel⟩
def atSign : Lexeme := ⟨.punct, "@", by decide +kernel⟩
def point : Lexeme := ⟨.punct, ".", by decide +kernel⟩
def extendsWord : Lexeme := ⟨.ident, "extends", by decide +kernel⟩
def implementsWord : Lexeme := ⟨.ident, "implements", by decide +kernel⟩
def throwsWord : Lexeme := ⟨.ident, "throws", by decide +kernel⟩

/-- Whether a lexeme can be the first word of a type. -/
def startsType (lexeme : Lexeme) : Bool :=
  lexeme.isIdent && (!isKeyword lexeme.text || isTypeWord lexeme.text) && !lexeme.isModifier &&
    !lexeme.is "record"

/-- What ends a list of type arguments that is not closed. -/
def endsAngles (lexeme : Lexeme) : Bool := lexeme.isAny ["\x7b", ";", "(", "="]

end Lexeme

/-! ### Types and their spelling -/

/-- Whether angles are nested in lexemes that can stand between angles, with a number of angles open
before the first. -/
def nestsAngles : Nat → List Lexeme → Bool
  | depth, [] => depth = 0
  | depth, lexeme :: lexemes =>
    if lexeme.is "<" then nestsAngles (depth + 1) lexemes
    else if lexeme.is ">" then depth ≠ 0 && nestsAngles (depth - 1) lexemes
    else !lexeme.endsAngles && nestsAngles depth lexemes

/-- What can stand between angles. -/
structure Angled where
  inside : List Lexeme
  nested : nestsAngles 0 inside

/-- A group in angles, the angles included. -/
def Angled.lexemes (angled : Angled) : List Lexeme :=
  .openAngle :: (angled.inside ++ [.closeAngle])

/-- A group in angles, or nothing. -/
def anglesOf (angled? : Option Angled) : List Lexeme := angled?.elim [] Angled.lexemes

/-- A type: a word, words after points, arguments in angles, and a number of array marks. -/
structure TypeUse where
  head : Lexeme
  starts : head.startsType
  qualifiers : List Word
  arguments? : Option Angled
  marks : Nat

/-- Words with a point before each. -/
def pointed (words : List Word) : List Lexeme := words.flatMap fun word => [.point, word.lexeme]

/-- Array marks. -/
def arrayMarks : Nat → List Lexeme
  | 0 => []
  | number + 1 => .openSquare :: .closeSquare :: arrayMarks number

namespace TypeUse

/-- A type as it is spelled. -/
def lexemes (type : TypeUse) : List Lexeme :=
  type.head :: (pointed type.qualifiers ++ (anglesOf type.arguments? ++ arrayMarks type.marks))

/-- The text of a type. -/
def text (type : TypeUse) : String := spell type.lexemes

end TypeUse

/-- Lexemes with commas between them. -/
def separated (items : List (List Lexeme)) : List Lexeme := [Lexeme.comma].intercalate items

/-- Items have a comma between each two. -/
theorem separated_cons_cons (first second : List Lexeme) (others : List (List Lexeme)) :
    separated (first :: second :: others) = first ++ .comma :: separated (second :: others) := by
  rw [separated, List.intercalate_cons_cons, List.append_assoc]
  rfl

@[simp] theorem separated_singleton (item : List Lexeme) : separated [item] = item := by
  simp [separated]

/-- Types after a word, or nothing if there are none. -/
def typesAfter (word : Lexeme) : List TypeUse → List Lexeme
  | [] => []
  | first :: others => word :: separated ((first :: others).map TypeUse.lexemes)

/-- A word that modifies a declaration. -/
structure Modifier where
  lexeme : Lexeme
  modifies : lexeme.isModifier

/-! ### What follows -/

/-- Whether tokens do not start with one of several words or signs. -/
def clearOf (texts : List String) (tokens : List Token) : Bool :=
  !tokens.head?.any (·.isAny texts)

/-- What is clear of some texts is clear of fewer. -/
theorem clearOf_mono {texts others : List String} {tokens : List Token}
    (follows : clearOf texts tokens) (fewer : others ⊆ texts) : clearOf others tokens := by
  cases tokens with
  | nil => rfl
  | cons token tokens =>
      have none : ∀ text ∈ texts, ¬token.is text := by
        simpa [clearOf, Token.isAny] using follows
      simpa [clearOf, Token.isAny] using fun text among => none text (fewer among)

/-- Tokens before others start with none of the words if the first of their lexemes is none. -/
theorem clearOf_spells {texts : List String} {lexemes : List Lexeme} {early late : List Token}
    (first : !lexemes.head?.any (·.isAny texts)) (spells : Spells lexemes early)
    (follows : clearOf texts late) : clearOf texts (early ++ late) := by
  cases spells with
  | nil => exact follows
  | cons writes _ => simpa [clearOf, writes.isAny_eq] using first

/-- Lexemes before tokens start with none of the words if their own first is none. -/
theorem clearOf_lay {texts : List String} {lexemes : List Lexeme} {tokens : List Token}
    (first : !lexemes.head?.any (·.isAny texts)) (pen : Pen)
    (follows : clearOf texts tokens) : clearOf texts (pen.lay lexemes ++ tokens) :=
  clearOf_spells first (pen.spells_lay lexemes) follows

/-- Lexemes whose first is none of the words, whatever follows them. -/
theorem clearOf_lay_head {texts : List String} {lexemes : List Lexeme}
    (first : lexemes.head?.any (!·.isAny texts)) (pen : Pen) (tokens : List Token) :
    clearOf texts (pen.lay lexemes ++ tokens) := by
  cases lexemes with
  | nil => cases first
  | cons lexeme lexemes => exact first

/-- A text that tokens are clear of is not seen. -/
theorem not_sees_of_clearOf {reading : Reading} {text : String} {texts : List String}
    (follows : clearOf texts reading.rest) (among : text ∈ texts) : ¬reading.sees text := by
  cases there : reading.rest with
  | nil => simp [Reading.sees, there]
  | cons token tokens =>
      rw [there] at follows
      have none : ∀ text ∈ texts, ¬token.is text := by
        simpa [clearOf, Token.isAny] using follows
      simpa [Reading.sees, there] using none text among

/-- The signs that go on with a type. -/
def typeSigns : List String := [".", "<", "[", "..."]

namespace Span

variable {rest : List Token}

theorem endsAngles_eq {lexeme : Lexeme} {token : Token} (writes : lexeme.Writes token) :
    endsAngles token = lexeme.endsAngles := writes.isAny_eq _

/-- A group in angles ends at the angle that closes it. -/
theorem angles_of_spells {depth : Nat} {lexemes : List Lexeme} {tokens : List Token}
    {closing : Token} (nested : nestsAngles depth lexemes) (spells : Spells lexemes tokens)
    (closes : Lexeme.closeAngle.Writes closing) (rest : List Token) :
    angles (depth + 1) (tokens ++ closing :: rest) = ⟨tokens ++ [closing], rest, true⟩ := by
  fun_induction nestsAngles depth lexemes generalizing tokens with
  | case1 depth =>
    cases spells
    rw [of_decide_eq_true nested]
    have opens : Lexeme.closeAngle.is "<" = false := rfl
    have ends : Lexeme.closeAngle.is ">" := rfl
    simp [angles, closes.is_eq, opens, ends, ending]
  | case2 depth lexeme lexemes opens ih =>
    obtain _ | ⟨writes, spells⟩ := spells
    simp [angles, writes.is_eq, opens, ih nested spells, cons]
  | case3 depth lexeme lexemes noOpening isClosing ih =>
    obtain _ | ⟨writes, spells⟩ := spells
    simp only [Bool.and_eq_true, decide_eq_true_eq] at nested
    obtain ⟨depth, rfl⟩ := Nat.exists_eq_succ_of_ne_zero nested.1
    simp only [Nat.succ_eq_add_one, Nat.add_sub_cancel] at ih nested
    simp [angles, writes.is_eq, noOpening, isClosing, ih nested.2 spells, cons]
  | case4 depth lexeme lexemes noOpening noClosing ih =>
    obtain _ | ⟨writes, spells⟩ := spells
    simp only [Bool.and_eq_true, Bool.not_eq_true'] at nested
    simp [angles, writes.is_eq, noOpening, noClosing, endsAngles_eq writes, nested.1,
      ih nested.2 spells, cons]

/-- Angle brackets that nest are cut off with what is between them. -/
theorem angles_group (angled : Angled) {tokens : List Token} (spells : Spells angled.lexemes tokens)
    (rest : List Token) : angles 0 (tokens ++ rest) = ⟨tokens, rest, true⟩ := by
  obtain _ | ⟨opens, spells⟩ := spells
  obtain ⟨inside, ends, rfl, spellsInside, spellsEnd⟩ := Spells.exists_append spells
  obtain _ | ⟨closes, _ | _⟩ := spellsEnd
  have read := angles_of_spells angled.nested spellsInside closes rest
  have isOpening : Lexeme.openAngle.is "<" := rfl
  simp [angles, opens.is_eq, isOpening, read, cons]

/-- Without a point there is no qualifier. -/
theorem qualifiers_eq_none (follows : clearOf ["."] rest) : qualifiers rest = none rest := by
  unfold qualifiers
  split
  · rename_i point word rest
    have noPoint : ¬point.is "." := by simpa [clearOf, Token.isAny] using follows
    simp [noPoint]
  · rfl

/-- Qualifiers are cut off as they are spelled. -/
theorem qualifiers_of_spells (words : List Word) {tokens : List Token}
    (spells : Spells (pointed words) tokens) (follows : clearOf ["."] rest) :
    qualifiers (tokens ++ rest) = ⟨tokens, rest, false⟩ := by
  induction words generalizing tokens with
  | nil =>
      cases spells
      exact qualifiers_eq_none follows
  | cons word words ih =>
      obtain _ | ⟨point, _ | ⟨writes, spells⟩⟩ := spells
      have isPoint : Lexeme.point.is "." := rfl
      simp [qualifiers, point.is_eq, isPoint, writes.isIdent_eq, word.isIdent, ih spells, cons]

/-- Without a bracket there is no mark of an array. -/
theorem arrayMarks_eq_none (follows : clearOf ["["] rest) : arrayMarks rest = none rest := by
  unfold arrayMarks
  split
  · rename_i opening closing rest
    have noOpening : ¬opening.is "[" := by simpa [clearOf, Token.isAny] using follows
    simp [noOpening]
  · rfl

/-- Marks of arrays are cut off as they are spelled. -/
theorem arrayMarks_of_spells (number : Nat) {tokens : List Token}
    (spells : Spells (Transcode.arrayMarks number) tokens) (follows : clearOf ["["] rest) :
    arrayMarks (tokens ++ rest) = ⟨tokens, rest, false⟩ := by
  induction number generalizing tokens with
  | zero =>
      cases spells
      exact arrayMarks_eq_none follows
  | succ number ih =>
      obtain _ | ⟨opens, _ | ⟨closes, spells⟩⟩ := spells
      have isOpening : Lexeme.openSquare.is "[" := rfl
      have isClosing : Lexeme.closeSquare.is "]" := rfl
      simp [arrayMarks, opens.is_eq, closes.is_eq, isOpening, isClosing, ih spells, cons]

end Span

namespace Parser

open Reading (passes_next passes_expect passes_pass sees_of_rest sees_of_is not_done_of_rest
  consumes_of_sees consumes_next)

variable {before reading : Reading} {rest : List Token}

/-! ### One type -/

/-- Angle brackets that nest are read. -/
theorem reads_angleGroup (angled : Angled) {tokens : List Token}
    (spells : Spells angled.lexemes tokens) (there : reading.rest = tokens ++ rest) :
    reading.Reads (angleGroup reading) id tokens rest := by
  have span := Span.angles_group angled spells rest
  rw [← there] at span
  unfold angleGroup
  rw [span]
  exact ⟨passes_pass rfl, rfl⟩

/-- A group in angles, or nothing. -/
theorem reads_typeParameters (angled? : Option Angled) {tokens : List Token}
    (spells : Spells (anglesOf angled?) tokens) (there : reading.rest = tokens ++ rest)
    (follows : clearOf ["<"] rest) : reading.Reads (typeParameters reading) id tokens rest := by
  unfold typeParameters
  cases angled? with
  | none =>
    cases spells
    have left : reading.rest = rest := there
    rw [← left] at follows
    rw [if_neg (not_sees_of_clearOf follows List.mem_cons_self)]
    exact ⟨⟨left, rfl⟩, rfl⟩
  | some angled =>
    have opens : reading.sees "<" := by
      obtain _ | ⟨writes, _⟩ := spells
      rw [List.cons_append] at there
      rw [Reading.sees_eq_is there, writes.is_eq]
      rfl
    rw [if_pos opens]
    exact reads_angleGroup angled spells there

/-- A type in its parts. -/
theorem reads_typeText_of_parts {head : Token} {names afterNames arguments afterArguments marks :
    List Token} (there : reading.rest = head :: (names ++ afterNames)) (isIdent : head.isIdent)
    (isType : isKeyword head.text = false ∨ isTypeWord head.text)
    (readNames : Span.qualifiers (names ++ afterNames) = ⟨names, afterNames, false⟩)
    (readArguments : ∀ after : Reading, after.rest = afterNames →
      after.Reads (typeParameters after) id arguments afterArguments)
    (readMarks : Span.arrayMarks afterArguments = ⟨marks, rest, false⟩)
    (follows : clearOf ["..."] rest) :
    reading.Reads (typeText reading) id (some (Token.join (head :: names ++ arguments ++ marks)))
      rest := by
  have named := passes_next there
  have qualified : reading.next.Passes afterNames
      (reading.next.pass (Span.qualifiers (names ++ afterNames))) :=
    passes_pass (congrArg Span.rest readNames)
  have noHead : ¬(!head.isIdent || (isKeyword head.text && !isTypeWord head.text)) := by
    rcases isType with isType | isType <;> simp [isIdent, isType]
  have read := readArguments _ qualified.rest_eq
  rw [typeText_cons there noHead]
  dsimp only
  rcases step : typeParameters (reading.next.pass (Span.qualifiers (names ++ afterNames)))
    with ⟨inAngles, after⟩
  rw [step] at read
  obtain ⟨angled, same⟩ := read
  dsimp only [id] at angled same ⊢
  have marked : after.Passes rest (after.pass (Span.arrayMarks after.rest)) := by
    rw [angled.rest_eq]
    exact passes_pass (congrArg Span.rest readMarks)
  have noDots : ¬(after.pass (Span.arrayMarks after.rest)).sees "..." := by
    rw [← marked.rest_eq] at follows
    exact not_sees_of_clearOf follows List.mem_cons_self
  rw [if_neg noDots, Reading.skip, if_neg noDots]
  refine ⟨named.trans (qualified.trans (angled.trans marked)), ?_⟩
  rw [angled.rest_eq, readMarks, readNames, same, List.append_nil]
  rfl

/-- A type is read, with any gaps in it, if no sign follows that goes on with it. -/
theorem reads_typeText_of_spells (type : TypeUse) {tokens : List Token}
    (spells : Spells type.lexemes tokens) (there : reading.rest = tokens ++ rest)
    (follows : clearOf typeSigns rest) :
    reading.Reads (typeText reading) id (some (Token.join tokens)) rest := by
  obtain ⟨first, starts, words, arguments?, number⟩ := type
  simp only [Lexeme.startsType, Bool.and_eq_true, Bool.or_eq_true, Bool.not_eq_true'] at starts
  obtain ⟨⟨⟨isIdent, isType⟩, _⟩, _⟩ := starts
  obtain _ | @⟨_, head, _, _, isHead, spells⟩ := spells
  obtain ⟨names, late, rfl, spellsNames, spells⟩ := Spells.exists_append spells
  obtain ⟨arguments, marks, rfl, spellsArguments, spellsMarks⟩ := Spells.exists_append spells
  have afterArguments : clearOf [".", "<"] (marks ++ rest) := by
    refine clearOf_spells ?_ spellsMarks (clearOf_mono follows (by decide))
    cases number <;> rfl
  have afterName : clearOf ["."] (arguments ++ (marks ++ rest)) := by
    refine clearOf_spells ?_ spellsArguments (clearOf_mono afterArguments (by decide))
    cases arguments? <;> rfl
  have read := reads_typeText_of_parts (by simpa using there) (isHead.isIdent_eq.trans isIdent)
    (isHead.text ▸ isType) (Span.qualifiers_of_spells words spellsNames afterName)
    (fun after left => reads_typeParameters arguments? spellsArguments left
      (clearOf_mono afterArguments (by decide)))
    (Span.arrayMarks_of_spells number spellsMarks (clearOf_mono follows (by decide)))
    (clearOf_mono follows (by decide))
  simpa only [List.cons_append, List.append_assoc] using read

/-- A type is read back if no sign follows that goes on with it. -/
theorem reads_typeText (type : TypeUse) {pen : Pen}
    (there : reading.rest = pen.lay type.lexemes ++ rest) (follows : clearOf typeSigns rest) :
    reading.Reads (typeText reading) id (some type.text) rest := by
  have read := reads_typeText_of_spells type (pen.spells_lay _) there follows
  rwa [Pen.join_lay] at read

/-- Without a bracket nothing is passed for marks of arrays. -/
theorem passes_arrayMarks (left : reading.rest = rest) (follows : clearOf ["["] rest) :
    reading.Passes rest (reading.pass (Span.arrayMarks reading.rest)) := by
  refine passes_pass ?_
  rw [left, Span.arrayMarks_eq_none follows, Span.none]

theorem append_noMarks (type : String) (tokens : List Token) :
    type ++ String.join (List.replicate ((Span.none tokens).taken.length / 2) "[]") = type := by
  simp [Span.none]

/-! ### Several types -/

/-- What can follow a list of types. -/
def listEnds : List String := "," :: typeSigns

/-- Types between commas are read. -/
theorem reads_typesWithin (first : TypeUse) (others : List TypeUse) {bound : Nat} {pen : Pen}
    (enough : before.rest.length < bound)
    (there : before.rest = pen.lay (separated ((first :: others).map TypeUse.lexemes)) ++ rest)
    (follows : clearOf listEnds rest) :
    before.Reads (typesWithin bound before) id ((first :: others).map TypeUse.text) rest := by
  induction others generalizing first bound before pen with
  | nil =>
    obtain ⟨bound, rfl⟩ := Nat.exists_eq_add_one.mpr (Nat.zero_lt_of_lt enough)
    rw [List.map_singleton, separated_singleton] at there
    have read := reads_typeText first there (clearOf_mono follows (by decide))
    have noComma : ¬(typeText before).2.sees "," := by
      rw [← read.rest_eq] at follows
      exact not_sees_of_clearOf follows List.mem_cons_self
    rw [typesWithin_succ read.eq, if_neg noComma]
    exact ⟨read.toPasses, rfl⟩
  | cons second others ih =>
    obtain ⟨bound, rfl⟩ := Nat.exists_eq_add_one.mpr (Nat.zero_lt_of_lt enough)
    rw [List.map_cons, List.map_cons, separated_cons_cons, Pen.lay_append, Pen.lay_cons,
      List.append_assoc, List.cons_append] at there
    have read := reads_typeText first there rfl
    have isComma : (typeText before).2.sees "," := sees_of_is read.rest_eq rfl
    have passed := passes_next read.rest_eq
    have fewer : (typeText before).2.next.rest.length < bound :=
      Nat.lt_of_lt_of_le ((proceeds_typeText before).onward.consumes (consumes_of_sees isComma)).2
        (Nat.le_of_lt_succ enough)
    have later := ih second fewer passed.rest_eq
    rw [typesWithin_succ read.eq, if_pos isComma]
    exact ⟨read.toPasses.trans (passed.trans later.toPasses),
      congrArg (first.text :: ·) later.value_eq⟩

/-- Types after a word are read back, and so is their absence. -/
theorem reads_heritage (text : String) {word : Lexeme} (isWord : word.is text)
    (types : List TypeUse) {pen : Pen}
    (there : before.rest = pen.lay (typesAfter word types) ++ rest)
    (follows : clearOf (text :: listEnds) rest) :
    before.Reads (heritage text before) id (types.map TypeUse.text) rest := by
  unfold heritage
  cases types with
  | nil =>
    have left : before.rest = rest := there
    rw [← left] at follows
    rw [if_neg (not_sees_of_clearOf follows List.mem_cons_self)]
    exact ⟨⟨left, rfl⟩, rfl⟩
  | cons first others =>
    rw [typesAfter, Pen.lay_cons, List.cons_append] at there
    have named := passes_next there
    have read := reads_typesWithin first others (Nat.lt_succ_self _) named.rest_eq
      (clearOf_mono follows (List.subset_cons_self _ _))
    rw [if_pos (sees_of_is there isWord)]
    unfold typeList
    rw [read.eq]
    exact ⟨named.trans read.toPasses, rfl⟩

/-! ### Modifiers -/

/-- Whether a token starts a modifier or an annotation. -/
def startsPreamble (token : Token) : Bool :=
  token.is "@" || token.isIdent && isModifier token.text

/-- Modifiers are read. -/
theorem reads_preambleWithin (modifiers : List Modifier) {bound : Nat} {pen : Pen}
    (enough : before.rest.length < bound)
    (there : before.rest = pen.lay (modifiers.map (·.lexeme)) ++ rest)
    (follows : !rest.head?.any startsPreamble) :
    before.Reads (preambleWithin bound before) id ⟨modifiers.map (·.lexeme.text), []⟩ rest := by
  induction modifiers generalizing bound before pen with
  | nil =>
    obtain ⟨bound, rfl⟩ := Nat.exists_eq_add_one.mpr (Nat.zero_lt_of_lt enough)
    have left : before.rest = rest := there
    unfold preambleWithin
    rw [left]
    cases rest with
    | nil => exact ⟨⟨left, rfl⟩, rfl⟩
    | cons token tokens =>
        simp only [List.head?_cons, Option.any_some, startsPreamble, Bool.not_or,
          Bool.and_eq_true, Bool.not_eq_true'] at follows
        dsimp only
        rw [if_neg (by simp [follows.1]), if_neg (Bool.eq_false_iff.mp follows.2)]
        exact ⟨⟨left, rfl⟩, rfl⟩
  | cons modifier modifiers ih =>
    obtain ⟨bound, rfl⟩ := Nat.exists_eq_add_one.mpr (Nat.zero_lt_of_lt enough)
    rw [List.map_cons, Pen.lay_cons, List.cons_append] at there
    have noSign : ¬modifier.lexeme.is "@" :=
      Lexeme.not_is_of_isIdent (Bool.and_eq_true_iff.mp modifier.modifies).1 .atSign (by decide)
    have modifies : (pen.token modifier.lexeme).isIdent &&
        isModifier (pen.token modifier.lexeme).text := modifier.modifies
    have passed := passes_next there
    have fewer : before.next.rest.length < bound :=
      Nat.lt_of_lt_of_le (consumes_next (not_done_of_rest there)).2 (Nat.le_of_lt_succ enough)
    have later := ih fewer passed.rest_eq
    unfold preambleWithin
    rw [there]
    dsimp only
    rw [if_neg (by simp [noSign]), if_pos modifies, later.eq]
    exact ⟨passed.trans later.toPasses, rfl⟩

/-- Modifiers are read back up to a word or sign that is none. -/
theorem reads_preamble (modifiers : List Modifier) {pen : Pen}
    (there : before.rest = pen.lay (modifiers.map (·.lexeme)) ++ rest)
    (follows : !rest.head?.any startsPreamble) :
    before.Reads (preamble before) id ⟨modifiers.map (·.lexeme.text), []⟩ rest :=
  reads_preambleWithin modifiers (Nat.lt_succ_self _) there follows

/-- Without modifiers and annotations none are read. -/
theorem reads_no_preamble (follows : !before.rest.head?.any startsPreamble) :
    before.Reads (preamble before) id ⟨[], []⟩ before.rest := by
  have nothing : before.rest = Pen.atStart.lay (([] : List Modifier).map (·.lexeme)) ++
      before.rest := rfl
  exact reads_preamble [] nothing follows

end Parser

end Transcode
