import Transcode.Proofs.Legibility
import Transcode.Proofs.OutlineNodes
import Transcode.Proofs.ParameterTexts
import Transcode.Proofs.Replay

/-!
# Parameters of a text in its graph

A method or constructor keeps its parameters in a graph as one text. What the parser reads without
a problem as a type has closed angles with all commas in them (`Parser.exists_tokens_of_typeText`),
so the text of a list of parameters is cut where it was put together, and the parameters are read
back (`parameters_read_back`). One thing goes wrong: a name that is a modifier without being a
keyword is dropped as a modifier (`parameters_sealed`).
-/

namespace Transcode

open Text

/-! ### Tokens in types -/

/-- The signs in a type beside its words, with the blank between its tokens. -/
def signsOfTypes : List Char := [' ', '.', ',', '?', '&', '<', '>', '[', ']']

/-- The characters of types. -/
def isTypeChar (c : Char) : Bool :=
  Lexer.continuesWord c && !isBlank c || signsOfTypes.contains c

/-- A type's text of words and the signs of types. Its square brackets are nested, two angles do
not open at once, and no word is a modifier. -/
structure IsPlainType (type : String) : Prop where
  chars : ∀ c ∈ type.toList, isTypeChar c
  noShift : ¬['<', '<'] <:+: type.toList
  squares : nesting '[' ']' [] 0 type.toList = some 0
  words : ∀ word ∈ words type, ¬isModifier word

instance : DecidablePred IsPlainType := fun type =>
  letI : Decidable (∀ c ∈ type.toList, isTypeChar c) := List.decidableBAll _ _
  decidable_of_iff ((∀ c ∈ type.toList, isTypeChar c) ∧ ¬['<', '<'] <:+: type.toList ∧
      nesting '[' ']' [] 0 type.toList = some 0 ∧ ∀ word ∈ words type, ¬isModifier word)
    ⟨fun ⟨chars, noShift, squares, words⟩ => ⟨chars, noShift, squares, words⟩,
      fun plain => ⟨plain.chars, plain.noShift, plain.squares, plain.words⟩⟩

namespace Token

variable {token : Token}

/-- A token as it is cut from a text. -/
def IsCut (token : Token) : Prop := ∃ c rest,
  (Lexer.nextPiece c rest).1.kind = some token.kind ∧
    token.text.toList = (Lexer.nextPiece c rest).1.text

/-- A token in a type. What it does to the depth of angles is told by its text as a whole. -/
structure IsTypePart (token : Token) : Prop where
  solid : IsSolid token.text
  single : token.is "<" ∨ token.is ">" ∨ token.is "," ∨
    ∀ c ∈ token.text.toList, c ∉ ['<', '>', ',']

/-- The characters of words are no signs. -/
theorem not_mem_of_continuesWord {c : Char} (continues : Lexer.continuesWord c) :
    c ∉ ['<', '>', '(', ')', '[', ']', '\x7b', '\x7d', ',', '@', '"', '\''] := by
  have none : ['<', '>', '(', ')', '[', ']', '\x7b', '\x7d', ',', '@', '"', '\''].all
      (!Lexer.continuesWord ·) := by decide +kernel
  intro member
  have here := List.all_eq_true.mp none c member
  rw [continues] at here
  cases here

/-- What starts a word may go on in it. -/
theorem continuesWord_of_startsWord {c : Char} (starts : Lexer.startsWord c) :
    Lexer.continuesWord c := by
  simp only [Lexer.startsWord, Lexer.continuesWord, isAlphanumeric, Bool.or_eq_true] at starts ⊢
  rcases starts with (isLetter | line) | dollar
  · exact .inl (.inl (.inl isLetter))
  · exact .inl (.inr line)
  · exact .inr dollar

/-- An identifier has characters of words. -/
theorem continuesWord_of_isIdent (cut : token.IsCut) (isIdent : token.isIdent) :
    ∀ c ∈ token.text.toList, Lexer.continuesWord c := by
  obtain ⟨c, rest, isKind, text⟩ := cut
  rw [of_decide_eq_true isIdent] at isKind
  rw [text]
  fun_cases Lexer.nextPiece c rest with
  | case4 _ _ _ starts =>
    exact List.forall_mem_cons.mpr ⟨continuesWord_of_startsWord starts,
      fun d member => List.mem_takeWhile_imp member⟩
  | _ => simp_all [Lexer.nextPiece]

/-- The only blank in a type stands between its tokens. -/
theorem not_isBlank_of_isTypeChar {c : Char} (isChar : isTypeChar c) (other : c ≠ ' ') :
    ¬isBlank c := by
  have none : signsOfTypes.all fun sign => sign = ' ' || !isBlank sign := by decide
  rw [isTypeChar, Bool.or_eq_true, Bool.and_eq_true, Bool.not_eq_true'] at isChar
  rcases isChar with ⟨_, filled⟩ | isSign
  · exact Bool.eq_false_iff.mp filled
  · simpa [other] using List.all_eq_true.mp none c (List.contains_iff_mem.mp isSign)

/-- A piece of characters of types does not touch the depth of angles, or is one sign. -/
theorem text_nextPiece_of_isTypeChar (c : Char) (rest : List Char) :
    (Lexer.nextPiece c rest).1.kind ≠ none →
      (∀ d ∈ (Lexer.nextPiece c rest).1.text, isTypeChar d) →
        (Lexer.nextPiece c rest).1.text ≠ ['<', '<'] →
          (∀ d ∈ (Lexer.nextPiece c rest).1.text, d ∉ [' ', '<', '>', ',']) ∨
            (Lexer.nextPiece c rest).1.kind = some .punct ∧
              (Lexer.nextPiece c rest).1.text ∈ [['<'], ['>'], [',']] := by
  have plain (test : Char → Bool) (fails : [' ', '<', '>', ','].all (!test ·)) {d : Char}
      (passes : test d) : d ∉ [' ', '<', '>', ','] := fun listed => by
    have here := List.all_eq_true.mp fails d listed
    rw [passes] at here
    cases here
  fun_cases Lexer.nextPiece c rest with
  | case1 => exact fun isKind => absurd rfl isKind
  | case2 => exact fun isKind => absurd rfl isKind
  | case3 => exact fun isKind => absurd rfl isKind
  | case4 _ _ _ starts =>
    refine fun _ _ _ => .inl (List.forall_mem_cons.mpr ⟨?_, fun d member => ?_⟩)
    · exact plain Lexer.continuesWord (by decide +kernel) (continuesWord_of_startsWord starts)
    · exact plain _ (by decide +kernel) (List.mem_takeWhile_imp member)
  | case5 _ _ _ _ starts =>
    refine fun _ _ _ => .inl (List.forall_mem_cons.mpr ⟨?_, fun d member => ?_⟩)
    · refine plain (fun c => isAsciiDigit c || c = '.') (by decide) ?_
      rw [Lexer.startsNumber, Bool.or_eq_true, Bool.and_eq_true] at starts
      exact Bool.or_eq_true_iff.mpr (starts.imp id And.left)
    · exact plain _ (by decide +kernel) (List.mem_takeWhile_imp member)
  | case6 _ _ _ _ _ isQuote =>
    intro _ chars
    subst isQuote
    exact absurd (chars '"' List.mem_cons_self) (by decide +kernel)
  | case7 _ _ _ _ _ _ isQuote =>
    intro _ chars
    subst isQuote
    exact absurd (chars '\'' List.mem_cons_self) (by decide +kernel)
  | case8 _ _ _ _ _ _ _ operator left found =>
    intro _ chars noShift
    have operators : Lexer.longOperators.all fun operator => !operator.all isTypeChar ||
        operator = ['<', '<'] || operator.all fun d => d ∉ [' ', '<', '>', ','] := by
      decide +kernel
    obtain ⟨candidate, member, taken⟩ := List.exists_of_findSome?_eq_some found
    obtain ⟨_, _, same⟩ := Option.map_eq_some_iff.mp taken
    obtain ⟨rfl, _⟩ := Prod.mk.inj same
    have here := List.all_eq_true.mp operators candidate member
    have all : candidate.all isTypeChar := List.all_eq_true.mpr chars
    left
    simpa [all, noShift] using here
  | case9 filled =>
    intro _ _ _
    by_cases sign : c ∈ ['<', '>', ',']
    · right
      simpa using sign
    · left
      refine List.forall_mem_singleton.mpr ?_
      rw [List.mem_cons, not_or]
      refine ⟨?_, sign⟩
      rintro rfl
      exact filled (by decide)

theorem IsCut.text_ne (cut : token.IsCut) : token.text ≠ "" := by
  obtain ⟨c, rest, _, text⟩ := cut
  exact mt String.toList_eq_nil_iff.mpr (text ▸ Lexer.text_nextPiece_ne_nil c rest)

/-- A token of characters of types is a part of a type, unless two angles open at once. -/
theorem IsCut.isTypePart (cut : token.IsCut) (chars : ∀ c ∈ token.text.toList, isTypeChar c)
    (noShift : token.text.toList ≠ ['<', '<']) : token.IsTypePart := by
  have filled := cut.text_ne
  obtain ⟨c, rest, isKind, text⟩ := cut
  rw [text] at noShift
  rcases text_nextPiece_of_isTypeChar c rest (by rw [isKind]; exact Option.some_ne_none _)
    (text ▸ chars) noShift with plain | ⟨isSign, which⟩
  · rw [← text] at plain
    refine ⟨⟨filled, fun d member => ?_⟩, .inr <| .inr <| .inr fun d member listed => ?_⟩
    · exact not_isBlank_of_isTypeChar (chars d member) fun same => plain d member (by simp [same])
    · exact plain d member (List.mem_cons_of_mem _ listed)
  · rw [isKind, Option.some.injEq] at isSign
    rw [← text] at which
    have sign (text : String) (same : token.text.toList = text.toList) : token.is text := by
      simp [is, isSign, String.toList_inj.mp same]
    refine ⟨⟨filled, fun d member => ?_⟩, ?_⟩
    · have noBlank : ['<', '>', ','].all fun mark => !isBlank mark := by decide
      have isMark : d ∈ ['<', '>', ','] := by
        simp only [List.mem_cons, List.not_mem_nil, or_false] at which
        rcases which with same | same | same <;> rw [same, List.mem_singleton] at member <;>
          simp [member]
      simpa using List.all_eq_true.mp noBlank d isMark
    · simp only [List.mem_cons, List.not_mem_nil, or_false] at which
      rcases which with opens | closes | comma
      · exact .inl (sign "<" opens)
      · exact .inr (.inl (sign ">" closes))
      · exact .inr (.inr (.inl (sign "," comma)))

/-! ### Depth of angles -/

/-- The depth of angles behind tokens, with all commas in angles. -/
def angleDepth (depth : Nat) (tokens : List Token) : Option Nat :=
  nesting '<' '>' [','] depth (tokens.flatMap (·.textAfterGap.toList))

variable {tokens others : List Token} {depth : Nat}

/-- The depth behind a token is that behind its characters. -/
theorem angleDepth_cons (depth : Nat) (token : Token) (tokens : List Token) :
    angleDepth depth (token :: tokens) =
      (nesting '<' '>' [','] depth token.text.toList).bind (angleDepth · tokens) := by
  have gap (cs : List Char) : nesting '<' '>' [','] depth (' ' :: cs) =
      nesting '<' '>' [','] depth cs := by simp [nesting]
  have same : nesting '<' '>' [','] depth token.textAfterGap.toList =
      nesting '<' '>' [','] depth token.text.toList := by
    unfold textAfterGap
    split
    · rw [String.toList_append]
      exact gap _
    · rfl
  rw [angleDepth, List.flatMap_cons, nesting_append, same]
  rfl

/-- The depth behind tokens is where the others start from. -/
theorem angleDepth_append (depth : Nat) (tokens others : List Token) :
    angleDepth depth (tokens ++ others) =
      (angleDepth depth tokens).bind (angleDepth · others) := by
  rw [angleDepth, List.flatMap_append, nesting_append]
  rfl

/-- The gap before the first token does not count. -/
theorem nesting_join (depth : Nat) (tokens : List Token) :
    nesting '<' '>' [','] depth (join tokens).toList = angleDepth depth tokens := by
  cases tokens with
  | nil => rfl
  | cons token rest =>
      rw [angleDepth_cons, join, String.toList_append, nesting_append, String.toList_join,
        List.flatMap_map]
      rfl

/-- An opening angle is one deeper. -/
theorem angleDepth_open (opens : token.is "<") (depth : Nat) (tokens : List Token) :
    angleDepth depth (token :: tokens) = angleDepth (depth + 1) tokens := by
  rw [angleDepth_cons, text_eq_of_is opens, show "<".toList = ['<'] from rfl, nesting_open]
  rfl

/-- A closing angle is one less deep. -/
theorem angleDepth_close (closes : token.is ">") (depth : Nat) (tokens : List Token) :
    angleDepth (depth + 1) (token :: tokens) = angleDepth depth tokens := by
  rw [angleDepth_cons, text_eq_of_is closes, show ">".toList = ['>'] from rfl,
    nesting_close (by decide)]
  rfl

/-- Any other part of a type is at the same depth. -/
theorem IsTypePart.angleDepth_cons (part : token.IsTypePart) (noOpening : ¬token.is "<")
    (noClosing : ¬token.is ">") (deep : token.is "," → depth ≠ 0) (tokens : List Token) :
    angleDepth depth (token :: tokens) = angleDepth depth tokens := by
  rw [Token.angleDepth_cons]
  rcases part.single with opens | closes | isComma | plain
  · exact absurd opens noOpening
  · exact absurd closes noClosing
  · rw [text_eq_of_is isComma, show ",".toList = [','] from rfl,
      nesting_inside (by decide) (by decide) (deep isComma)]
    rfl
  · rw [nesting_of_forall fun c member => ?_]
    · rfl
    · simpa using plain c member

/-- Tokens without angles and commas leave the depth as it is. -/
theorem angleDepth_of_forall (parts : ∀ token ∈ tokens, token.IsTypePart)
    (plain : ∀ token ∈ tokens, ¬token.isAny ["<", ">", ","]) (depth : Nat) :
    angleDepth depth tokens = some depth := by
  induction tokens with
  | nil => rfl
  | cons token rest ih =>
      obtain ⟨part, others⟩ := List.forall_mem_cons.mp parts
      obtain ⟨here, later⟩ := List.forall_mem_cons.mp plain
      simp only [isAny, List.any_cons, List.any_nil, Bool.or_false, Bool.or_eq_true,
        not_or] at here
      rw [part.angleDepth_cons here.1 here.2.1 (absurd · here.2.2), ih others later]

/-- A group in angles that is closed ends outside of them. -/
theorem angleDepth_angles (parts : ∀ token ∈ (Span.angles depth tokens).taken, token.IsTypePart)
    (closed : (Span.angles depth tokens).closed) (deep : depth ≠ 0) :
    angleDepth depth (Span.angles depth tokens).taken = some 0 := by
  fun_induction Span.angles depth tokens with
  | case1 => cases closed
  | case2 depth token rest opens ih =>
    obtain ⟨_, others⟩ := List.forall_mem_cons.mp parts
    exact (angleDepth_open opens _ _).trans (ih others closed depth.succ_ne_zero)
  | case3 depth token rest _ closes last =>
    obtain rfl : depth = 1 := by omega
    exact angleDepth_close closes 0 []
  | case4 depth token rest _ closes more ih =>
    obtain ⟨_, others⟩ := List.forall_mem_cons.mp parts
    obtain ⟨above, rfl⟩ : ∃ above, depth = above + 1 := ⟨depth - 1, by omega⟩
    exact (angleDepth_close closes _ _).trans (ih others closed (by omega))
  | case5 => cases closed
  | case6 depth token rest noOpening noClosing _ ih =>
    obtain ⟨part, others⟩ := List.forall_mem_cons.mp parts
    exact (part.angleDepth_cons noOpening noClosing (fun _ => deep) _).trans
      (ih others closed deep)

/-! ### Texts of types -/

/-- Each token stands in the joined text. -/
theorem infix_join (member : token ∈ tokens) : token.text.toList <:+: (join tokens).toList := by
  cases tokens with
  | nil => cases member
  | cons first rest =>
      rw [join, String.toList_append]
      rcases List.mem_cons.mp member with rfl | later
      · exact (List.prefix_append _ _).isInfix
      · have gap : token.text.toList <:+: token.textAfterGap.toList := by
          unfold textAfterGap
          split
          · rw [String.toList_append]
            exact (List.suffix_append _ _).isInfix
          · exact List.infix_refl _
        have inside : token.textAfterGap.toList <:+:
            ((rest.map textAfterGap).map String.toList).flatten :=
          List.infix_of_mem_flatten
            (List.mem_map_of_mem (List.mem_map_of_mem later))
        rw [String.toList_join, List.flatMap_def]
        exact (gap.trans inside).trans (List.suffix_append _ _).isInfix

/-- Tokens stand with single blanks between them. -/
theorem isSpaced_join (filled : tokens ≠ []) (solid : ∀ token ∈ tokens, IsSolid token.text)
    {ending : String} (noBlanks : ∀ c ∈ ending.toList, ¬isBlank c) :
    IsSpaced (join tokens ++ ending) := by
  have goesOn (tokens : List Token) (solid : ∀ token ∈ tokens, IsSolid token.text) :
      ∀ word, IsSolid word →
        IsSpaced (word ++ String.join (tokens.map textAfterGap) ++ ending) := by
    induction tokens with
    | nil =>
        intro word isSolid
        refine IsSolid.isSpaced ⟨?_, fun c member => ?_⟩
        · simp [String.append_eq_empty_iff, isSolid.1]
        · rw [String.toList_append, List.map_nil, String.join_nil, String.append_empty] at member
          exact (List.mem_append.mp member).elim (isSolid.2 c) (noBlanks c)
    | cons token rest ih =>
        obtain ⟨here, later⟩ := List.forall_mem_cons.mp solid
        intro word isSolid
        rw [List.map_cons, String.join_cons, textAfterGap]
        split
        · have rest := (ih later token.text here).cons isSolid
          simpa only [String.append_assoc] using rest
        · have both : IsSolid (word ++ token.text) := by
            refine ⟨by simp [String.append_eq_empty_iff, isSolid.1], fun c member => ?_⟩
            rw [String.toList_append] at member
            exact (List.mem_append.mp member).elim (isSolid.2 c) (here.2 c)
          have rest := ih later _ both
          simpa only [String.append_assoc] using rest
  obtain ⟨first, rest, rfl⟩ := List.exists_cons_of_ne_nil filled
  obtain ⟨here, later⟩ := List.forall_mem_cons.mp solid
  exact goesOn rest later first.text here

/-- The text of array marks. -/
theorem mem_marks {number : Nat} {c : Char}
    (member : c ∈ (String.join (List.replicate number "[]")).toList) : c = '[' ∨ c = ']' := by
  rw [String.toList_join, List.mem_flatMap] at member
  obtain ⟨text, listed, inside⟩ := member
  rw [List.eq_of_mem_replicate listed] at inside
  simpa using inside

/-- **Tokens of a type** make a type's text if that is plain, and angles are closed. -/
theorem isTypeText_join (filled : tokens ≠ []) (cut : ∀ token ∈ tokens, token.IsCut)
    (closed : (∀ token ∈ tokens, token.IsTypePart) → angleDepth 0 tokens = some 0) (number : Nat)
    (plain : IsPlainType (join tokens ++ String.join (List.replicate number "[]"))) :
    Output.IsTypeText (join tokens ++ String.join (List.replicate number "[]")) := by
  have parts : ∀ token ∈ tokens, token.IsTypePart := by
    intro token member
    have inside : token.text.toList <:+:
        (join tokens ++ String.join (List.replicate number "[]")).toList := by
      rw [String.toList_append]
      exact (infix_join member).trans (List.prefix_append _ _).isInfix
    refine (cut token member).isTypePart (fun c there => plain.chars c (inside.subset there)) ?_
    intro shift
    exact plain.noShift (shift ▸ inside)
  constructor
  · refine isSpaced_join filled (fun token member => (parts token member).solid) fun c member => ?_
    rcases mem_marks member with rfl | rfl <;> decide
  · intro c member
    have none : ['(', ')', '\x7b', '\x7d', '@'].all (!isTypeChar ·) := by decide +kernel
    intro listed
    have here := List.all_eq_true.mp none c listed
    rw [plain.chars c member] at here
    cases here
  · rw [String.toList_append, nesting_append, nesting_join, closed parts]
    refine nesting_of_forall (fun c member => ?_) 0
    rcases mem_marks member with rfl | rfl <;> decide
  · exact plain.squares
  · exact plain.words

end Token

/-! ### Parameters -/

/-- A parameter with a word for a name, and with a type whose text is nested if it is plain. -/
def SyntaxTree.IsParameter (tree : SyntaxTree) : Prop := ∃ type name,
  tree.get? "type" = some type ∧ tree.name = some name ∧ name ≠ "" ∧
    (∀ c ∈ name.toList, Lexer.continuesWord c) ∧ (IsPlainType type → Output.IsTypeText type)

namespace Parser

open Reading SyntaxTree Token Transcode.Span

variable {reading : Reading} {tokens : List Token}

/-- An identifier is no angle and no comma. -/
theorem not_isAny_of_isIdent {token : Token} (cut : token.IsCut) (isIdent : token.isIdent) :
    ¬token.isAny ["<", ">", ","] := by
  have word := continuesWord_of_isIdent cut isIdent
  have other {text : String} {c : Char} (starts : c ∈ text.toList)
      (sign : ¬Lexer.continuesWord c) : ¬token.is text := fun is =>
    sign (word c (text_eq_of_is is ▸ starts))
  simp only [isAny, List.any_cons, List.any_nil, Bool.or_false, Bool.or_eq_true, not_or]
  exact ⟨other (c := '<') (by decide) (by decide +kernel),
    other (c := '>') (by decide) (by decide +kernel),
    other (c := ',') (by decide) (by decide +kernel)⟩

/-- A token with another text is no angle and no comma. -/
theorem not_isAny_of_is {token : Token} {text : String} (is : token.is text)
    (other : text ∉ ["<", ">", ","]) : ¬token.isAny ["<", ">", ","] := by
  simp only [List.mem_cons, List.not_mem_nil, or_false, not_or] at other
  simp [isAny, is_eq is, other]

/-- Qualifiers are no angles and no commas. -/
theorem not_isAny_qualifiers (cut : ∀ token ∈ tokens, token.IsCut) :
    ∀ token ∈ (qualifiers tokens).taken, ¬token.isAny ["<", ">", ","] := by
  fun_induction qualifiers tokens with
  | case1 point word rest both ih =>
    obtain ⟨is, isIdent⟩ := Bool.and_eq_true_iff.mp both
    obtain ⟨here, later⟩ := List.forall_mem_cons.mp (List.forall_mem_cons.mp cut).2
    exact List.forall_mem_cons.mpr ⟨not_isAny_of_is is (by decide), List.forall_mem_cons.mpr
      ⟨not_isAny_of_isIdent here isIdent, ih later⟩⟩
  | _ => exact List.forall_mem_nil _

/-- Marks of arrays are no angles and no commas. -/
theorem not_isAny_arrayMarks :
    ∀ token ∈ (Span.arrayMarks tokens).taken, ¬token.isAny ["<", ">", ","] := by
  fun_induction Span.arrayMarks tokens with
  | case1 opening closing rest both ih =>
    obtain ⟨opens, closes⟩ := Bool.and_eq_true_iff.mp both
    exact List.forall_mem_cons.mpr ⟨not_isAny_of_is opens (by decide), List.forall_mem_cons.mpr
      ⟨not_isAny_of_is closes (by decide), ih⟩⟩
  | _ => exact List.forall_mem_nil _

/-- The arguments of a type that are read without a problem. -/
theorem exists_arguments (cut : reading.All IsCut) (live : (typeParameters reading).2.Live) :
    (∀ token ∈ (typeParameters reading).1, token.IsCut) ∧
      ((∀ token ∈ (typeParameters reading).1, token.IsTypePart) →
        angleDepth 0 (typeParameters reading).1 = some 0) := by
  unfold typeParameters at live ⊢
  split at live
  · rename_i sees
    rw [if_pos sees]
    obtain ⟨opening, rest, there, opens⟩ := exists_rest_of_sees sees
    have taken : (angleGroup reading).1 = (angles 0 reading.rest).taken := by
      unfold angleGroup
      dsimp only
      split <;> rfl
    have closed : (angles 0 reading.rest).closed := by
      unfold angleGroup at live
      dsimp only at live
      split at live
      · rename_i ends
        exact (Bool.or_eq_true_iff.mp ends).resolve_right fun none => live.2 (done_iff.mp none)
      · exact absurd live.1 (List.cons_ne_nil _ _)
    have inside : angles 0 reading.rest = (angles 1 rest).cons opening := by
      rw [there, angles, if_pos opens]
    rw [taken]
    refine ⟨(splits_angles 0 _).all cut, fun parts => ?_⟩
    rw [inside] at closed parts ⊢
    obtain ⟨_, others⟩ := List.forall_mem_cons.mp parts
    exact (angleDepth_open opens 0 _).trans (angleDepth_angles others closed Nat.one_ne_zero)
  · rename_i sees
    rw [if_neg sees]
    exact ⟨List.forall_mem_nil _, fun _ => rfl⟩

/-- A type that is read without a problem is made of tokens whose angles are closed. -/
theorem exists_tokens_of_typeText {type : String} {after : Reading}
    (read : typeText reading = (some type, after)) (live : after.Live)
    (cut : reading.All IsCut) : ∃ tokens, tokens ≠ [] ∧ (∀ token ∈ tokens, token.IsCut) ∧
      ((∀ token ∈ tokens, token.IsTypePart) → angleDepth 0 tokens = some 0) ∧
      type = join tokens := by
  rcases there : reading.rest with _ | ⟨head, rest⟩
  · rw [typeText, there] at read
    cases read
  by_cases starts : !head.isIdent || (isKeyword head.text && !isTypeWord head.text)
  · rw [typeText, there] at read
    dsimp only at read
    rw [if_pos starts] at read
    cases read
  rw [typeText_cons there starts] at read
  obtain ⟨typeIs, rfl⟩ := Prod.mk.inj read
  obtain rfl := Option.some.inj typeIs
  have cutRest : ∀ token ∈ head :: rest, token.IsCut := there ▸ cut
  obtain ⟨cutHead, cutOthers⟩ := List.forall_mem_cons.mp cutRest
  have isIdent : head.isIdent := by
    by_contra other
    exact starts (by simp [other])
  let named := reading.next.pass (qualifiers rest)
  have next : reading.next.rest = rest := by rw [Reading.next, there]
  have cutNamed : named.All IsCut :=
    (onward_pass reading.next (next ▸ splits_qualifiers rest)).all (reading.onward_next.all cut)
  have marked := (proceeds_skip _ "...").live live
  have liveArguments := (proceeds_pass _ (splits_arrayMarks _)).live marked
  obtain ⟨cutArguments, closed⟩ := exists_arguments cutNamed liveArguments
  have cutAfter := (onward_typeParameters named).all cutNamed
  have ellipsis : ∀ token ∈ (if ((typeParameters named).2.pass
      (Span.arrayMarks (typeParameters named).2.rest)).sees "..." then
        ((typeParameters named).2.pass (Span.arrayMarks (typeParameters named).2.rest)).rest.take 1
      else []), token.IsCut ∧ ¬token.isAny ["<", ">", ","] := by
    split
    · rename_i sees
      obtain ⟨token, others, left, is⟩ := exists_rest_of_sees sees
      rw [left, List.take_succ_cons, List.take_zero]
      refine List.forall_mem_singleton.mpr ⟨?_, not_isAny_of_is is (by decide)⟩
      exact (onward_pass _ (splits_arrayMarks _)).all cutAfter token (left ▸ List.mem_cons_self)
    · exact List.forall_mem_nil _
  refine ⟨_, ?_, ?_, fun parts => ?_, rfl⟩
  · exact List.cons_ne_nil _ _
  · simp only [List.forall_mem_append, List.forall_mem_cons]
    exact ⟨⟨⟨⟨cutHead, (splits_qualifiers rest).all cutOthers⟩, cutArguments⟩,
      (splits_arrayMarks _).all cutAfter⟩, fun token member => (ellipsis token member).1⟩
  · simp only [List.forall_mem_append, List.forall_mem_cons] at parts
    obtain ⟨⟨⟨⟨partHead, partNames⟩, partArguments⟩, partMarks⟩, partEllipsis⟩ := parts
    have first := angleDepth_of_forall (List.forall_mem_cons.mpr ⟨partHead, partNames⟩)
      (List.forall_mem_cons.mpr ⟨not_isAny_of_isIdent cutHead isIdent,
        not_isAny_qualifiers cutOthers⟩) 0
    rw [angleDepth_append, angleDepth_append, angleDepth_append, first]
    dsimp only [Option.bind_some]
    rw [closed partArguments]
    dsimp only [Option.bind_some]
    rw [angleDepth_of_forall partMarks not_isAny_arrayMarks]
    exact angleDepth_of_forall partEllipsis (fun token member => (ellipsis token member).2) 0

/-- A parameter that is read without a problem. -/
theorem isParameter_parameter (cut : reading.All IsCut)
    (clean : (parameter reading).2.problems = []) : (parameter reading).1.IsParameter := by
  obtain ⟨type, name, rest, isType, there, isIdent⟩ := exists_of_parameter_clean clean
  have read := parameter_eq rfl (Prod.ext isType rfl) there isIdent
  rw [read] at clean ⊢
  have front := (proceeds_preamble reading).onward.all cut
  have cutName : name.IsCut :=
    (proceeds_typeText _).onward.all front name (there ▸ List.mem_cons_self)
  have live : (typeText (preamble reading).2).2.Live := by
    refine ⟨?_, there ▸ List.cons_ne_nil _ _⟩
    exact ((proceeds_next _).trans (proceeds_pass _ (splits_arrayMarks _))).clean clean
  obtain ⟨tokens, filled, cutTokens, closed, rfl⟩ :=
    exists_tokens_of_typeText (Prod.ext isType rfl) live front
  have some : join tokens ≠ "" := by
    obtain ⟨first, others, rfl⟩ := List.exists_cons_of_ne_nil filled
    simp [join, String.append_eq_empty_iff, (cutTokens first List.mem_cons_self).text_ne]
  refine ⟨_, name.text, ?_, rfl, cutName.text_ne, continuesWord_of_isIdent cutName isIdent,
    isTypeText_join filled cutTokens closed
      ((Span.arrayMarks (typeText (preamble reading).2).2.next.rest).taken.length / 2)⟩
  refine (get?_put_of_ne (by decide) _ _).trans ((get?_put_of_ne (by decide) _ _).trans ?_)
  exact get?_put_self (fun empty => some (String.append_eq_empty_iff.mp empty).1) _ _

/-- Parameters that are read without a problem have a type and a name. -/
theorem isParameter_parametersWithin (bound : Nat) (cut : reading.All IsCut)
    (clean : (parametersWithin bound reading).2.problems = []) :
    ∀ tree ∈ (parametersWithin bound reading).1, tree.IsParameter := by
  induction bound generalizing reading with
  | zero => exact List.forall_mem_nil _
  | succ bound ih =>
      rw [parametersWithin_succ] at clean ⊢
      split at clean
      · rename_i ends
        rw [if_pos ends]
        exact List.forall_mem_nil _
      rename_i more
      rw [if_neg more]
      split at clean
      · rename_i comma
        rw [if_pos comma]
        have next := (proceeds_next (parameter reading).2).trans
          (proceeds_parametersWithin (parameter reading).2.next bound)
        exact List.forall_mem_cons.mpr ⟨isParameter_parameter cut (next.clean clean),
          ih (((proceeds_parameter reading).onward.trans (onward_next _)).all cut) clean⟩
      · rename_i last
        rw [if_neg last]
        exact List.forall_mem_singleton.mpr (isParameter_parameter cut clean)

/-- There is no parameter in a body. -/
theorem not_parameter_methodBody : ∀ tree ∈ (methodBody reading).1, tree.kind ≠ .parameter := by
  unfold methodBody
  split
  · exact List.forall_mem_singleton.mpr SyntaxKind.noConfusion
  split
  · exact List.forall_mem_nil _
  split
  · exact List.forall_mem_nil _
  · exact List.forall_mem_singleton.mpr SyntaxKind.noConfusion

/-- The parameters of a method that is read without a problem have a type and a name. -/
theorem isParameter_methodRest (method : SyntaxTree) (cut : reading.All IsCut)
    (clean : (methodRest method reading).2.problems = []) :
    ∀ tree ∈ (methodRest method reading).1.childrenOf .parameter, tree.IsParameter := by
  rw [methodRest_eq] at clean ⊢
  intro tree member
  obtain ⟨child, isParameter⟩ := List.mem_filter.mp member
  rcases List.mem_append.mp child with listed | other
  · have later := ((proceeds_expect _ ")" "to close parameter list").trans
      (proceeds_pass _ (splits_arrayMarks _))).trans
        ((proceeds_heritage (afterParameters reading) "throws").trans (proceeds_methodBody _))
    exact isParameter_parametersWithin _ ((reading.onward_expect _ _).all cut)
      (later.clean clean) tree listed
  · exact absurd (of_decide_eq_true isParameter) (not_parameter_methodBody tree other)

end Parser

/-! ### Callables -/

namespace SyntaxTree

variable {tree : SyntaxTree}

/-- All parameters of the methods and constructors in a tree are as the parser reads them. -/
def HasParameters (tree : SyntaxTree) : Prop := ∀ callable ∈ tree.declaredCallables,
  ∀ parameter ∈ callable.childrenOf .parameter, parameter.IsParameter

/-- A callable of several trees is one of some of them. -/
theorem mem_declaredCallablesOf {callable : SyntaxTree} {trees : List SyntaxTree} :
    callable ∈ declaredCallablesOf trees ↔ ∃ tree ∈ trees, callable ∈ tree.declaredCallables := by
  induction trees with
  | nil => simp [declaredCallablesOf]
  | cons tree rest ih => rw [declaredCallablesOf, List.mem_append, ih, List.exists_mem_cons_iff]

/-- A callable has its own parameters. -/
theorem hasParameters_of_callable (isCallable : tree.kind = .method ∨ tree.kind = .constructor)
    (parameters : ∀ parameter ∈ tree.childrenOf .parameter, parameter.IsParameter) :
    tree.HasParameters := by
  obtain ⟨kind, name, children, range, attributes⟩ := tree
  rcases isCallable with rfl | rfl <;> exact List.forall_mem_singleton.mpr parameters

/-- The callables of a type are those of its members. -/
theorem hasParameters_of_type (isType : tree.kind = .classDecl ∨ tree.kind = .interfaceDecl)
    (members : ∀ child ∈ tree.children, child.HasParameters) : tree.HasParameters := by
  obtain ⟨kind, name, children, range, attributes⟩ := tree
  intro callable member
  have inside : callable ∈ declaredCallablesOf children := by
    rcases isType with rfl | rfl <;> exact member
  obtain ⟨child, listed, there⟩ := mem_declaredCallablesOf.mp inside
  exact members child listed callable there

/-- A tree that is neither a type nor a method or constructor. -/
theorem hasParameters_of_other (kind : SyntaxKind) (isKind : tree.kind = kind)
    (other : kind ∉ [.classDecl, .interfaceDecl, .method, .constructor]) :
    tree.HasParameters := by
  obtain ⟨own, name, children, range, attributes⟩ := tree
  obtain rfl : own = kind := isKind
  have none : declaredCallables ⟨own, name, children, range, attributes⟩ = [] := by
    cases own <;> first | rfl | exact absurd (by simp) other
  rw [HasParameters, none]
  exact List.forall_mem_nil _

/-- Texts do not change the parameters. -/
theorem HasParameters.put (has : tree.HasParameters) (key text : String) :
    (tree.put key text).HasParameters := by
  obtain ⟨kind, name, children, range, attributes⟩ := tree
  cases kind
  case method | constructor =>
    exact List.forall_mem_singleton.mpr (List.forall_mem_singleton.mp has)
  all_goals exact has

end SyntaxTree

namespace Parser

open Reading SyntaxTree Transcode.Span
open Token (IsCut)

variable {reading : Reading}

theorem hasParameters_giveUp (message : String) (span : Span) (reading : Reading) :
    (giveUp message span reading).1.HasParameters :=
  hasParameters_of_other .fault rfl (by decide)

theorem hasParameters_recover (message : String) (reading : Reading) :
    (recover message reading).1.HasParameters := hasParameters_giveUp message _ reading

/-- Modifiers and annotations do not change the parameters. -/
theorem hasParameters_putPreamble {preamble : Preamble} {tree : SyntaxTree}
    (has : tree.HasParameters) : (putPreamble preamble tree).HasParameters :=
  (has.put _ _).put _ _

/-- The parameters of a method or constructor that is read without a problem. -/
theorem hasParameters_methodRest {method : SyntaxTree}
    (isCallable : method.kind = .method ∨ method.kind = .constructor) (range : SourceRange)
    (cut : reading.All IsCut) (clean : (methodRest method reading).2.problems = []) :
    SyntaxTree.HasParameters { (methodRest method reading).1 with range := range } := by
  refine hasParameters_of_callable ?_ (isParameter_methodRest method cut clean)
  rw [methodRest_eq]
  exact isCallable

/-- Fields that are put together are a field or a block. -/
theorem kind_groupFields {fields : List SyntaxTree} (each : ∀ field ∈ fields, field.kind = .field)
    (range : SourceRange) :
    (groupFields fields range).kind = .field ∨ (groupFields fields range).kind = .block := by
  unfold groupFields
  split
  · exact .inl (each _ List.mem_cons_self)
  · exact .inr rfl

/-- A member with a type that is read without a problem has its parameters. -/
theorem hasParameters_typedMember (owner : String) (preamble : Preamble)
    (typeParams : List Token) (start : Position) (cut : reading.All IsCut)
    (clean : (typedMember owner preamble typeParams start reading).2.problems = []) :
    (typedMember owner preamble typeParams start reading).1.HasParameters := by
  revert clean
  fun_cases typedMember owner preamble typeParams start reading with
  | case1 =>
    intro clean
    exact (hasParameters_putPreamble (hasParameters_methodRest (.inr rfl) _
      (reading.onward_next.all cut) clean)).put _ _
  | case2 => exact fun _ => hasParameters_recover _ _
  | case3 => exact fun _ => hasParameters_recover _ _
  | case4 => exact fun _ => hasParameters_recover _ _
  | case5 _ _ type after read name rest there isName _ node =>
    intro clean
    have named := ((proceeds_typeText reading).onward.of_eq read).trans after.onward_next
    exact (hasParameters_putPreamble (hasParameters_methodRest (.inl rfl) _
      (named.all cut) clean)).put _ _
  | case6 _ type after read name rest there isName noMethod fields afterFields readFields =>
    intro _
    have typed := (proceeds_typeText reading).onward.of_eq read
    have cutName := typed.all cut name (there ▸ List.mem_cons_self)
    have worded : after.next.Worded := fun token member =>
      (((typed.trans after.onward_next).all cut) token member).text_ne
    have each := isField_of_mem_fieldsWithin preamble type (after.rest.length + 1) worded
      cutName.text_ne
    rw [readFields] at each
    rcases kind_groupFields (fun field member => (each field member).1) _ with isKind | isKind
    · exact hasParameters_of_other .field isKind (by decide)
    · exact hasParameters_of_other .block isKind (by decide)

mutual

/-- A member that is read without a problem has its parameters. -/
theorem hasParameters_memberWithin : ∀ (bound : Nat) (owner? : Option String) {reading : Reading},
    reading.All IsCut → (memberWithin bound owner? reading).2.problems = [] →
      (memberWithin bound owner? reading).1.HasParameters
  | 0, _, _, _ => by
    unfold memberWithin
    exact fun _ => hasParameters_of_other .block rfl (by decide)
  | bound + 1, owner?, reading, cut => by
    have after : (preamble reading).2.All IsCut := (proceeds_preamble reading).onward.all cut
    have inside := (onward_next _).all after
    unfold memberWithin
    dsimp only
    split
    · exact fun clean => hasParameters_putPreamble
        (hasParameters_typeWithin bound (.inl rfl) _ _ inside clean)
    split
    · exact fun clean => hasParameters_putPreamble
        (hasParameters_typeWithin bound (.inr rfl) _ _ inside clean)
    split
    · exact fun _ => hasParameters_giveUp _ _ _
    split
    · exact fun _ => hasParameters_giveUp _ _ _
    split
    · exact fun _ => hasParameters_giveUp _ _ _
    split
    · exact fun _ => hasParameters_recover _ _
    split
    · exact fun _ => hasParameters_of_other .block rfl (by decide)
    · intro clean
      rw [plainMember_eq] at clean ⊢
      exact hasParameters_typedMember _ _ _ _ ((proceeds_angles _).onward.all after) clean

/-- A type that is read without a problem has the parameters of its members. -/
theorem hasParameters_typeWithin : ∀ (bound : Nat) {kind : SyntaxKind},
    kind = .classDecl ∨ kind = .interfaceDecl → ∀ (word : String) (start : Position)
      {reading : Reading}, reading.All IsCut →
        (typeWithin bound kind word start reading).2.problems = [] →
          (typeWithin bound kind word start reading).1.HasParameters
  | 0, _, _, _, _, _, _ => by
    unfold typeWithin
    exact fun _ => hasParameters_of_other .block rfl (by decide)
  | bound + 1, kind, isType, word, start, reading, cut => by
    unfold typeWithin
    split
    · exact fun _ => hasParameters_recover _ _
    · rename_i name _ left
      have header := reading.onward_next.trans (proceeds_typeHeader reading.next
        { kind, name := some name.text, range := name.range }).onward
      split
      · exact fun _ => hasParameters_recover _ _
      · dsimp only
        split
        · exact fun clean => hasParameters_of_type isType
            (hasParameters_membersWithin bound _ _ _ ((header.trans (onward_next _)).all cut) clean)
        · exact fun _ => hasParameters_of_type isType
            (List.forall_mem_singleton.mpr (hasParameters_recover _ _))

/-- Members that are read without a problem have their parameters. -/
theorem hasParameters_membersWithin : ∀ (bound : Nat) (owner word : String)
    (header : SourceRange) {reading : Reading}, reading.All IsCut →
      (membersWithin bound owner word header reading).2.problems = [] →
        ∀ tree ∈ (membersWithin bound owner word header reading).1, tree.HasParameters
  | 0, _, _, _, _, _ => by
    unfold membersWithin
    exact fun _ => List.forall_mem_nil _
  | bound + 1, owner, word, header, reading, cut => by
    unfold membersWithin
    split
    · exact fun _ => List.forall_mem_nil _
    split
    · exact fun _ => List.forall_mem_nil _
    split
    · exact hasParameters_membersWithin bound owner word header (reading.onward_next.all cut)
    · intro clean
      have later := proceeds_membersWithin bound owner word header
        (memberWithin bound (some owner) reading).2
      exact List.forall_mem_cons.mpr
        ⟨hasParameters_memberWithin bound _ cut (later.clean clean),
          hasParameters_membersWithin bound owner word header
            ((proceeds_memberWithin bound _ reading).onward.all cut) clean⟩

end

/-- A declaration that is read without a problem has its parameters. -/
theorem hasParameters_declaration (cut : reading.All IsCut)
    (clean : (declaration reading).2.problems = []) : (declaration reading).1.HasParameters := by
  revert clean
  unfold declaration
  split
  · exact fun _ => hasParameters_of_other .package rfl (by decide)
  split
  · exact fun _ => hasParameters_of_other .importDecl rfl (by decide)
  split
  · exact fun _ => hasParameters_of_other .fault rfl (by decide)
  · exact hasParameters_memberWithin _ none cut

/-- A text that is read without a problem has its parameters. -/
theorem hasParameters_declarationsWithin (bound : Nat) (cut : reading.All IsCut)
    (clean : (declarationsWithin bound reading).2.problems = []) :
    ∀ tree ∈ (declarationsWithin bound reading).1, tree.HasParameters := by
  induction bound generalizing reading with
  | zero => exact List.forall_mem_nil _
  | succ bound ih =>
      revert clean
      rw [declarationsWithin_succ]
      split
      · exact fun _ => List.forall_mem_nil _
      split
      · exact ih (reading.onward_next.all cut)
      · intro clean
        have later := proceeds_declarationsWithin (declaration reading).2 bound
        exact List.forall_mem_cons.mpr ⟨hasParameters_declaration cut (later.clean clean),
          ih ((proceeds_declaration reading).onward.all cut) clean⟩

end Parser

/-! ### Texts -/

/-- The parameters of a method or constructor. -/
def SyntaxTree.parameters (tree : SyntaxTree) : List Output.Parameter :=
  (tree.childrenOf .parameter).map fun parameter =>
    ⟨parameter.textAt "type", parameter.name.getD ""⟩

/-- A name as it may be given: no keyword, and without blanks. -/
def IsLegalName (name : String) : Prop := ¬isKeyword name ∧ ∀ c ∈ name.toList, ¬isBlank c

instance : DecidablePred IsLegalName := fun name =>
  letI : Decidable (∀ c ∈ name.toList, ¬isBlank c) := List.decidableBAll _ _
  inferInstanceAs (Decidable (¬isKeyword name ∧ ∀ c ∈ name.toList, ¬isBlank c))

/-- The only modifier that is a legal name. -/
theorem IsLegalName.isModifier_iff {name : String} (legal : IsLegalName name) :
    isModifier name ↔ name = "sealed" := by
  have others : modifierWords.all fun word => isKeyword word || word = "sealed" := by decide
  constructor
  · intro modifies
    have here := List.all_eq_true.mp others name (List.contains_iff_mem.mp modifies)
    simpa [legal.1] using here
  · rintro rfl
    decide

/-- A legal name of characters of words. -/
theorem IsLegalName.isNameText {name : String} (legal : IsLegalName name) (filled : name ≠ "")
    (word : ∀ c ∈ name.toList, Lexer.continuesWord c) : Output.IsNameText name where
  solid := ⟨filled, legal.2⟩
  plain c member := by
    have other := Token.not_mem_of_continuesWord (word c member)
    simp only [List.mem_cons, List.not_mem_nil, or_false, not_or] at other
    simp [bracketStep, other]

namespace SyntaxTree

variable {tree : SyntaxTree}

/-- An outline has the name of the tree as its label. -/
theorem IsOutlinedAs.name_eq {content : NodeSpec} (outlined : tree.IsOutlinedAs content) :
    tree.name = some content.label := by
  obtain ⟨outline, made, isContent⟩ := outlined
  rw [← isContent, Outline.spec]
  obtain ⟨name, named, made⟩ := bind_eq_ok_iff.mp made
  dsimp only at made
  split at made <;> obtain rfl := Except.ok.inj made <;>
    exact (Outline.declaredName_eq_ok_iff.mp named).1

/-- The list of parameters that a method or constructor is given in a graph. -/
theorem IsOutlinedAs.textAt_params {content : NodeSpec} (outlined : tree.IsOutlinedAs content)
    (each : ∀ parameter ∈ tree.childrenOf .parameter, parameter.IsParameter) :
    content.attributes.textAt "params" =
      ", ".intercalate (tree.parameters.map (·.declared)) := by
  have text (parameter : SyntaxTree) (member : parameter ∈ tree.childrenOf .parameter) :
      Outline.parameterText parameter = some (Output.Parameter.declared
        ⟨parameter.textAt "type", parameter.name.getD ""⟩) := by
    obtain ⟨type, name, isType, isName, _⟩ := each parameter member
    have typed : parameter.textAt "type" = type := congrArg (·.getD "") isType
    rw [Outline.parameterText, isName, isType, typed]
    rfl
  have texts : (tree.childrenOf .parameter).filterMap Outline.parameterText =
      tree.parameters.map (·.declared) := by
    rw [List.filterMap_congr text, List.filterMap_eq_map', parameters, List.map_map]
    rfl
  have missing : (takeOver declarationKeys tree.attributes tree.range).get? "params" = none :=
    Outline.get?_takeOver_of_not_mem (by decide) (by decide) _ _
  have own : Dict.textAt (if (tree.parameters.map (·.declared)).isEmpty then
      takeOver declarationKeys tree.attributes tree.range
      else (takeOver declarationKeys tree.attributes tree.range).insert "params"
        (", ".intercalate (tree.parameters.map (·.declared)))) "params" =
      ", ".intercalate (tree.parameters.map (·.declared)) := by
    split
    · rename_i none
      rw [Dict.textAt, missing, List.isEmpty_iff.mp none]
      rfl
    · rw [Dict.textAt, Dict.get?_insert, if_pos rfl]
      rfl
  obtain ⟨outline, made, isContent⟩ := outlined
  rw [← isContent, Outline.spec]
  obtain ⟨name, _, made⟩ := bind_eq_ok_iff.mp made
  dsimp only at made
  rw [texts] at made
  split at made <;> obtain rfl := Except.ok.inj made
  · exact own
  · rw [Dict.textAt, Dict.get?_insert, if_neg (by decide)]
    exact own

end SyntaxTree

/-- The lexer cuts a text into tokens. -/
theorem isCut_tokenize (source : String) : ∀ token ∈ (tokenize source).1, token.IsCut := by
  intro token member
  obtain ⟨c, rest, isKind, text, _⟩ := exists_nextPiece_of_token member
  exact ⟨c, rest, isKind, text⟩

/-- A text that is read without a problem has parameters with names and with types whose angles
are closed. -/
theorem hasParameters_parseSource {source : String} {parsed : ParsedSource}
    (read : parseSource source = .ok parsed) (clean : parsed.diagnostics = []) :
    ∀ callable ∈ parsed.tree.callables,
      ∀ parameter ∈ callable.childrenOf .parameter, parameter.IsParameter := by
  unfold parseSource at read
  split at read
  · cases read
  · cases read
    let reading : Reading := { rest := (tokenize source).1, finish := Position.endOf source }
    have cut : reading.All Token.IsCut := isCut_tokenize source
    have accepted : (Parser.declarationsWithin ((tokenize source).1.length + 1)
        reading).2.problems = [] :=
      List.reverse_eq_nil_iff.mp (List.append_eq_nil_iff.mp clean).2
    intro callable member
    obtain ⟨tree, listed, there⟩ := SyntaxTree.mem_declaredCallablesOf.mp member
    exact Parser.hasParameters_declarationsWithin _ cut accepted tree listed callable there

/-- **Parameters are read back.** The callables of the graph of a text that is read without a
problem are its methods and constructors in order. One with plain types and legal names has its
parameters read back from its node, with their types and in their order, unless one of them is named
as the only modifier that is no keyword. -/
theorem parameters_read_back {source : String} {parsed : ParsedSource} {graph : CodeGraph}
    (read : parseSource source = .ok parsed) (clean : parsed.diagnostics = [])
    (built : buildGraph parsed.tree = .ok graph) :
    List.Forall₂ (fun callable node => callable.name = some node.label ∧
      ((∀ parameter ∈ callable.parameters,
          IsPlainType parameter.type ∧ IsLegalName parameter.name) →
        (Output.parameters (node.textAt "params") = callable.parameters ↔
          ∀ parameter ∈ callable.parameters, parameter.name ≠ "sealed")))
      parsed.tree.callables (graph.nodes.filter (·.kind.isCallable)) := by
  have each := hasParameters_parseSource read clean
  have aligned := callables_buildGraph built
  refine List.Forall₂.imp (fun _ _ => And.right) ((forall₂_congr_of_mem
    fun callable member node _ => ⟨fun outlined => ⟨outlined, ?_⟩, And.left⟩).mp aligned)
  have parameters := each callable member
  refine ⟨outlined.name_eq, fun plain => ?_⟩
  have text : node.textAt "params" = ", ".intercalate (callable.parameters.map (·.declared)) :=
    outlined.textAt_params parameters
  have texts : ∀ parameter ∈ callable.parameters,
      Output.IsTypeText parameter.type ∧ Output.IsNameText parameter.name := by
    intro parameter listed
    obtain ⟨isPlain, isLegal⟩ := plain parameter listed
    obtain ⟨tree, child, rfl⟩ := List.mem_map.mp listed
    obtain ⟨type, name, isType, isName, filled, word, closed⟩ := parameters tree child
    have typed : tree.textAt "type" = type := congrArg (·.getD "") isType
    rw [typed] at isPlain ⊢
    rw [isName] at isLegal ⊢
    exact ⟨closed isPlain, isLegal.isNameText filled word⟩
  rw [text, Output.parameters_intercalate (fun parameter listed => (texts parameter listed).1)
    fun parameter listed => (texts parameter listed).2]
  exact forall₂_congr fun parameter listed => not_congr (plain parameter listed).2.isModifier_iff

/-- A constructor with a type that has a comma, and with a modifier before another type. -/
theorem parameters_read_back_constructor :
    ∃ parsed graph,
      parseSource "class A \x7b A(Map<B, C[]> m, final int... xs) \x7b \x7d \x7d" = .ok parsed ∧
      parsed.diagnostics = [] ∧ buildGraph parsed.tree = .ok graph ∧
      (graph.nodes.filter (·.kind.isCallable)).map
          (fun node => Output.parameters (node.textAt "params")) =
        [[⟨"Map<B, C[]>", "m"⟩, ⟨"int...", "xs"⟩]] := by
  obtain ⟨parsed, read, tested⟩ : ∃ parsed,
      parseSource "class A \x7b A(Map<B, C[]> m, final int... xs) \x7b \x7d \x7d" = .ok parsed ∧
      decide (parsed.diagnostics = [] ∧ parsed.tree.callables.map (·.parameters) =
        [[⟨"Map<B, C[]>", "m"⟩, ⟨"int...", "xs"⟩]]) := exists_tested (by decide +kernel)
  obtain ⟨clean, given⟩ := of_decide_eq_true tested
  obtain ⟨graph, built⟩ := exists_buildGraph read
  refine ⟨parsed, graph, read, clean, built, ?_⟩
  have aligned := parameters_read_back read clean built
  obtain ⟨callable, same, isGiven⟩ := List.map_eq_singleton_iff.mp given
  rw [same] at aligned
  obtain ⟨node, _, ⟨_, back⟩, last, nodes⟩ := List.forall₂_cons_left_iff.mp aligned
  rw [nodes, List.forall₂_nil_left_iff.mp last, List.map_singleton]
  rw [isGiven] at back
  refine congrArg ([·]) ((back ?_).mpr ?_) <;> decide +kernel

/-- A parameter that is named as a modifier is lost, and its type is taken for the name. -/
theorem parameters_sealed :
    ∃ parsed graph,
      parseSource "class A \x7b void f(int sealed) \x7b \x7d \x7d" = .ok parsed ∧
      parsed.diagnostics = [] ∧ buildGraph parsed.tree = .ok graph ∧ ¬isKeyword "sealed" ∧
      parsed.tree.callables.map (·.parameters) = [[⟨"int", "sealed"⟩]] ∧
      (graph.nodes.filter (·.kind.isCallable)).map
        (fun node => Output.parameters (node.textAt "params")) = [[⟨"", "int"⟩]] := by
  obtain ⟨parsed, read, tested⟩ : ∃ parsed,
      parseSource "class A \x7b void f(int sealed) \x7b \x7d \x7d" = .ok parsed ∧
      decide (parsed.diagnostics = [] ∧ parsed.tree.callables.map (·.parameters) =
        [[⟨"int", "sealed"⟩]]) := exists_tested (by decide +kernel)
  obtain ⟨_, graph, same, built, back⟩ : ∃ parsed graph,
      parseSource "class A \x7b void f(int sealed) \x7b \x7d \x7d" = .ok parsed ∧
      buildGraph parsed.tree = .ok graph ∧
      decide ((graph.nodes.filter (·.kind.isCallable)).map
        (fun node => Output.parameters (node.textAt "params")) = [[⟨"", "int"⟩]]) :=
    exists_tested_graph (by decide +kernel)
  obtain rfl := Except.ok.inj (read.symm.trans same)
  obtain ⟨clean, given⟩ := of_decide_eq_true tested
  exact ⟨parsed, graph, read, clean, built, by decide, given, of_decide_eq_true back⟩

end Transcode
