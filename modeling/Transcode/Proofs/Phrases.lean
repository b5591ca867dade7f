import Mathlib.Data.List.Forall2
import Transcode.Proofs.Parts
import Transcode.Proofs.Spelling

/-!
# Phrases

A phrase is a list of lexemes in which brackets are nested and no `;` stands outside of them. The
parser cuts stretches of tokens by counting brackets, in three ways. All of them take a phrase as a
whole, whatever follows it.
-/

namespace Transcode

namespace Lexeme

/-! ### Words and signs -/

/-- Whether a lexeme is a given word or sign; literals in quotes never are. -/
def is (lexeme : Lexeme) (text : String) : Bool :=
  lexeme.kind ≠ .text && lexeme.kind ≠ .char && lexeme.text = text

/-- Whether a lexeme is one of several words or signs. -/
def isAny (lexeme : Lexeme) (texts : List String) : Bool := texts.any lexeme.is

/-- Whether a lexeme is a word. -/
def isIdent (lexeme : Lexeme) : Bool := lexeme.kind = .ident

/-- Whether a lexeme can be a name. -/
def isName (lexeme : Lexeme) : Bool := lexeme.isIdent && !isKeyword lexeme.text

/-- Whether a lexeme is a word that modifies a declaration. -/
def isModifier (lexeme : Lexeme) : Bool := lexeme.isIdent && Transcode.isModifier lexeme.text

/-- An opening bracket of a group. -/
def opens (lexeme : Lexeme) : Bool := lexeme.isAny ["(", "[", "\x7b"]

/-- A closing bracket of a group. -/
def closes (lexeme : Lexeme) : Bool := lexeme.isAny [")", "]", "\x7d"]

def openRound : Lexeme := ⟨.punct, "(", by decide +kernel⟩
def closeRound : Lexeme := ⟨.punct, ")", by decide +kernel⟩
def openSquare : Lexeme := ⟨.punct, "[", by decide +kernel⟩
def closeSquare : Lexeme := ⟨.punct, "]", by decide +kernel⟩
def openBrace : Lexeme := ⟨.punct, "\x7b", by decide +kernel⟩
def closeBrace : Lexeme := ⟨.punct, "\x7d", by decide +kernel⟩
def semicolon : Lexeme := ⟨.punct, ";", by decide +kernel⟩
def colon : Lexeme := ⟨.punct, ":", by decide +kernel⟩
def ifWord : Lexeme := ⟨.ident, "if", by decide +kernel⟩
def elseWord : Lexeme := ⟨.ident, "else", by decide +kernel⟩
def whileWord : Lexeme := ⟨.ident, "while", by decide +kernel⟩
def doWord : Lexeme := ⟨.ident, "do", by decide +kernel⟩
def forWord : Lexeme := ⟨.ident, "for", by decide +kernel⟩
def returnWord : Lexeme := ⟨.ident, "return", by decide +kernel⟩

variable {lexeme : Lexeme}

/-- The text of a lexeme tells its kind. -/
theorem eq_of_text_eq {first second : Lexeme} (same : first.text = second.text) :
    first = second := by
  obtain ⟨kind, text, whole⟩ := first
  obtain ⟨other, _, wholeOther⟩ := second
  cases same
  have kinds := (List.cons.inj (whole.symm.trans wholeOther)).1
  cases kinds
  rfl

/-- What has the text of a word is the word. -/
theorem is_of_text_eq {text : String} (same : lexeme.text = text)
    (word : Lexer.pieces text.toList = [⟨some .ident, text.toList, none⟩]) : lexeme.is text := by
  have whole : lexeme = ⟨.ident, text, word⟩ := eq_of_text_eq same
  rw [whole]
  simp [Lexeme.is]

/-- A lexeme is one word or sign only. -/
theorem is_eq {text : String} (is : lexeme.is text) (other : String) :
    lexeme.is other = decide (text = other) := by
  have token : (Pen.atStart.token lexeme).is text := is
  exact Token.is_eq token other

theorem text_eq_of_is {text : String} (is : lexeme.is text) : lexeme.text = text :=
  Token.text_eq_of_is (show (Pen.atStart.token lexeme).is text from is)

/-- What closes does not open. -/
theorem not_opens_of_closes (closes : lexeme.closes) : ¬lexeme.opens := by
  simp only [Lexeme.closes, isAny, List.any_cons, List.any_nil, Bool.or_false, Bool.or_eq_true]
    at closes
  rcases closes with is | is | is <;> simp [opens, isAny, is_eq is]

/-- What is neither an opening nor a closing bracket is no bracket at all. -/
theorem not_bracket_of_is {text : String} (is : lexeme.is text)
    (other : text ∉ ["(", "[", "\x7b", ")", "]", "\x7d"]) : ¬lexeme.opens ∧ ¬lexeme.closes := by
  simp only [List.mem_cons, List.not_mem_nil, or_false, not_or] at other
  simp [opens, closes, isAny, is_eq is, other]

/-- A word is no sign. -/
theorem not_is_of_isIdent (isIdent : lexeme.isIdent) (sign : Lexeme) (noWord : ¬sign.isIdent) :
    ¬lexeme.is sign.text := by
  intro is
  simp only [Lexeme.is, Bool.and_eq_true, decide_eq_true_eq] at is
  rw [eq_of_text_eq is.2] at isIdent
  exact noWord isIdent

/-- A word is no bracket. -/
theorem not_bracket_of_isIdent (isIdent : lexeme.isIdent) : ¬lexeme.opens ∧ ¬lexeme.closes := by
  have signs : ∀ sign ∈ [openRound, openSquare, openBrace, closeRound, closeSquare, closeBrace],
      ¬lexeme.is sign.text := by
    intro sign among
    refine not_is_of_isIdent isIdent sign ?_
    revert sign
    decide
  simpa [opens, closes, isAny, and_assoc, openRound, openSquare, openBrace, closeRound,
    closeSquare, closeBrace] using signs

end Lexeme

namespace Pen

variable (pen : Pen) (lexeme : Lexeme)

@[simp] theorem is_token (text : String) : (pen.token lexeme).is text = lexeme.is text := rfl

@[simp] theorem isAny_token (texts : List String) :
    (pen.token lexeme).isAny texts = lexeme.isAny texts := rfl

@[simp] theorem isIdent_token : (pen.token lexeme).isIdent = lexeme.isIdent := rfl

@[simp] theorem isName_token : Span.isName (pen.token lexeme) = lexeme.isName := rfl

@[simp] theorem opens_token : (pen.token lexeme).opens = lexeme.opens := rfl

@[simp] theorem closes_token : (pen.token lexeme).closes = lexeme.closes := rfl

@[simp] theorem text_token : (pen.token lexeme).text = lexeme.text := rfl

/-- Each token that is laid is that of a lexeme. -/
theorem exists_of_mem_lay {lexemes : List Lexeme} {token : Token} (mem : token ∈ pen.lay lexemes) :
    ∃ lexeme ∈ lexemes, ∃ place : Pen, token = place.token lexeme := by
  induction lexemes generalizing pen with
  | nil => cases mem
  | cons lexeme lexemes ih =>
      rcases List.mem_cons.mp mem with rfl | later
      · exact ⟨lexeme, List.mem_cons_self, pen, rfl⟩
      · obtain ⟨other, among, place⟩ := ih _ later
        exact ⟨other, List.mem_cons_of_mem _ among, place⟩

end Pen

/-! ### Lexemes written with any gaps -/

/-- A token is a lexeme, at some place and with or without a gap before it. -/
structure Lexeme.Writes (lexeme : Lexeme) (token : Token) : Prop where
  kind : token.kind = lexeme.kind
  text : token.text = lexeme.text

namespace Lexeme.Writes

variable {lexeme : Lexeme} {token : Token} (writes : lexeme.Writes token)

include writes

theorem is_eq (text : String) : token.is text = lexeme.is text := by
  rw [Token.is, Lexeme.is, writes.kind, writes.text]

theorem isAny_eq (texts : List String) : token.isAny texts = lexeme.isAny texts := by
  rw [Token.isAny, Lexeme.isAny, funext writes.is_eq]

theorem isIdent_eq : token.isIdent = lexeme.isIdent := by
  rw [Token.isIdent, Lexeme.isIdent, writes.kind]

theorem isName_eq : Span.isName token = lexeme.isName := by
  rw [Span.isName, Lexeme.isName, writes.isIdent_eq, writes.text]

end Lexeme.Writes

/-- Tokens are lexemes, with any gaps between them. -/
def Spells (lexemes : List Lexeme) (tokens : List Token) : Prop :=
  List.Forall₂ Lexeme.Writes lexemes tokens

/-- Tokens spell lexemes of the same kinds and texts. -/
theorem spells_iff {lexemes : List Lexeme} {tokens : List Token} : Spells lexemes tokens ↔
    lexemes.map (fun lexeme => (lexeme.kind, lexeme.text)) =
      tokens.map fun token => (token.kind, token.text) := by
  rw [Spells, ← List.forall₂_eq_eq_eq, List.forall₂_map_left_iff, List.forall₂_map_right_iff]
  constructor
  · exact List.Forall₂.imp fun _ _ writes => Prod.ext writes.kind.symm writes.text.symm
  · refine List.Forall₂.imp fun _ _ same => ?_
    exact ⟨(congrArg Prod.fst same).symm, (congrArg Prod.snd same).symm⟩

/-- Tokens that are laid spell their lexemes. -/
theorem Pen.spells_lay (pen : Pen) (lexemes : List Lexeme) : Spells lexemes (pen.lay lexemes) := by
  induction lexemes generalizing pen with
  | nil => exact .nil
  | cons lexeme lexemes ih => exact .cons ⟨rfl, rfl⟩ (ih _)

/-- Tokens that spell two phrases are cut between them. -/
theorem Spells.exists_append {first second : List Lexeme} {tokens : List Token}
    (spells : Spells (first ++ second) tokens) :
    ∃ early late, tokens = early ++ late ∧ Spells first early ∧ Spells second late := by
  induction first generalizing tokens with
  | nil => exact ⟨[], tokens, rfl, .nil, spells⟩
  | cons lexeme first ih =>
      cases spells with
      | @cons _ token _ tokens here later =>
        obtain ⟨early, late, rfl, spellsFirst, spellsSecond⟩ := ih later
        exact ⟨token :: early, late, rfl, .cons here spellsFirst, spellsSecond⟩

/-- Tokens that blanks stand between are joined to the text that they come from. -/
@[simp] theorem Pen.join_lay (pen : Pen) (lexemes : List Lexeme) :
    Token.join (pen.lay lexemes) = spell lexemes := by
  have spaced : ∀ (lexemes : List Lexeme) (first : String) (pen : Pen), pen.started →
      first ++ String.join ((pen.lay lexemes).map Token.textAfterGap) =
        " ".intercalate (first :: lexemes.map (·.text)) := by
    intro lexemes
    induction lexemes with
    | nil => intro first pen _; simp
    | cons lexeme lexemes ih =>
        intro first pen started
        have next := ih lexeme.text (pen.past lexeme) rfl
        have gap : (pen.token lexeme).textAfterGap = " " ++ lexeme.text := if_pos started
        rw [List.map_cons, String.intercalate_cons_cons, ← next, lay_cons, List.map_cons, gap,
          String.join_cons]
        simp only [String.append_assoc]
  cases lexemes with
  | nil => rfl
  | cons lexeme lexemes => exact spaced lexemes lexeme.text (pen.past lexeme) rfl

/-! ### Nested brackets -/

/-- Whether the brackets in lexemes are nested, with a number of brackets open before the first. Any
closing bracket may close any opening one; properly nested brackets are nested in this sense. -/
def nests : Nat → List Lexeme → Bool
  | depth, [] => depth = 0
  | depth, lexeme :: lexemes =>
    if lexeme.opens then nests (depth + 1) lexemes
    else if lexeme.closes then depth ≠ 0 && nests (depth - 1) lexemes
    else nests depth lexemes

/-- The lexemes outside all brackets. -/
def outside : Nat → List Lexeme → List Lexeme
  | _, [] => []
  | depth, lexeme :: lexemes =>
    if lexeme.opens then outside (depth + 1) lexemes
    else if lexeme.closes then outside (depth - 1) lexemes
    else if depth = 0 then lexeme :: outside depth lexemes
    else outside depth lexemes

/-- Whether a word or sign is not among the lexemes outside all brackets. -/
def lacks (text : String) (depth : Nat) (lexemes : List Lexeme) : Bool :=
  (outside depth lexemes).all fun lexeme => !lexeme.is text

/-- Lexemes with nested brackets and no `;` outside of them. -/
structure Phrase where
  lexemes : List Lexeme
  nested : nests 0 lexemes
  unbroken : lacks ";" 0 lexemes

variable {depth : Nat} {lexemes : List Lexeme}

/-- Nested lexemes do not start with a closing bracket. -/
theorem not_closes_of_nests {lexeme : Lexeme} (nested : nests 0 (lexeme :: lexemes)) :
    ¬lexeme.closes := by
  intro closes
  simp [nests, Lexeme.not_opens_of_closes closes, closes] at nested

theorem nests_cons {lexeme : Lexeme} (noBracket : ¬lexeme.opens ∧ ¬lexeme.closes) :
    nests depth (lexeme :: lexemes) = nests depth lexemes := by
  rw [nests, if_neg noBracket.1, if_neg noBracket.2]

/-- Brackets in pairs leave the depth as it was. -/
theorem nests_append (nested : nests depth lexemes) (others : List Lexeme) :
    nests depth (lexemes ++ others) = nests 0 others := by
  fun_induction nests depth lexemes with
  | case1 depth =>
    rw [of_decide_eq_true nested]
    rfl
  | case2 depth lexeme lexemes opens ih => simp [nests, opens, ih nested]
  | case3 depth lexeme lexemes opens closes ih =>
    simp only [Bool.and_eq_true, decide_eq_true_eq] at nested
    simp [nests, opens, closes, nested.1, ih nested.2]
  | case4 depth lexeme lexemes opens closes ih => simp [nests, opens, closes, ih nested]

/-- What is outside of two phrases is what is outside of each. -/
theorem outside_append (nested : nests depth lexemes) (others : List Lexeme) :
    outside depth (lexemes ++ others) = outside depth lexemes ++ outside 0 others := by
  fun_induction nests depth lexemes with
  | case1 depth =>
    rw [of_decide_eq_true nested]
    rfl
  | case2 depth lexeme lexemes opens ih => simp [outside, opens, ih nested]
  | case3 depth lexeme lexemes opens closes ih =>
    simp only [Bool.and_eq_true, decide_eq_true_eq] at nested
    simp [outside, opens, closes, ih nested.2]
  | case4 depth lexeme lexemes opens closes ih =>
    rw [List.cons_append, outside, outside, if_neg opens, if_neg closes, if_neg opens,
      if_neg closes, ih nested]
    split <;> rfl

theorem lacks_append (nested : nests depth lexemes) (text : String) (others : List Lexeme) :
    lacks text depth (lexemes ++ others) = (lacks text depth lexemes && lacks text 0 others) := by
  rw [lacks, outside_append nested, List.all_append, lacks, lacks]

variable {lexeme : Lexeme} {text : String}

/-- What comes behind an opening bracket is one deeper. -/
theorem lacks_cons_of_opens (opens : lexeme.opens) :
    lacks text depth (lexeme :: lexemes) = lacks text (depth + 1) lexemes := by
  rw [lacks, outside, if_pos opens, lacks]

/-- What comes behind a closing bracket is one less deep. -/
theorem lacks_cons_of_closes (closes : lexeme.closes) :
    lacks text depth (lexeme :: lexemes) = lacks text (depth - 1) lexemes := by
  rw [lacks, outside, if_neg (Lexeme.not_opens_of_closes closes), if_pos closes, lacks]

/-- What is no bracket counts only outside all brackets. -/
theorem lacks_cons (opens : ¬lexeme.opens) (closes : ¬lexeme.closes) :
    lacks text depth (lexeme :: lexemes) =
      ((depth ≠ 0 || !lexeme.is text) && lacks text depth lexemes) := by
  rw [lacks, outside, if_neg opens, if_neg closes, lacks]
  by_cases top : depth = 0 <;> simp [top]

namespace Span

/-- A group of nested lexemes ends at the bracket that closes it. -/
theorem group_lay (nested : nests depth lexemes) (pen last : Pen) {closing : Lexeme}
    (closes : closing.closes) (rest : List Token) :
    group depth (pen.lay lexemes ++ last.token closing :: rest) =
      ⟨pen.lay lexemes, last.token closing :: rest, false⟩ := by
  have noOpening := Lexeme.not_opens_of_closes closes
  fun_induction nests depth lexemes generalizing pen with
  | case1 depth =>
    rw [of_decide_eq_true nested]
    simp [group, noOpening, closes, Span.none]
  | case2 depth lexeme lexemes opens ih => simp [group, opens, ih nested, cons]
  | case3 depth lexeme lexemes opens isClosing ih =>
    simp only [Bool.and_eq_true, decide_eq_true_eq] at nested
    simp [group, opens, isClosing, nested.1, ih nested.2, cons]
  | case4 depth lexeme lexemes opens isClosing ih =>
    simp [group, opens, isClosing, ih nested, cons]

/-- A plain statement of nested lexemes ends at the `;` after them. -/
theorem plainStatement_lay (nested : nests depth lexemes) (unbroken : lacks ";" depth lexemes)
    (pen last : Pen) (rest : List Token) :
    plainStatement false depth (pen.lay lexemes ++ last.token .semicolon :: rest) =
      ⟨pen.lay lexemes ++ [last.token .semicolon], rest, true⟩ := by
  have ends : Lexeme.semicolon.is ";" := rfl
  fun_induction nests depth lexemes generalizing pen with
  | case1 depth =>
    rw [of_decide_eq_true nested]
    simp [plainStatement, ends, Span.ending]
  | case2 depth lexeme lexemes opens ih =>
    rw [lacks_cons_of_opens opens] at unbroken
    have noEnd : ¬lexeme.is ";" := fun is =>
      (Lexeme.not_bracket_of_is is (by decide)).1 opens
    simp [plainStatement, noEnd, opens, ih nested unbroken, cons]
  | case3 depth lexeme lexemes opens closes ih =>
    rw [lacks_cons_of_closes closes] at unbroken
    have noEnd : ¬lexeme.is ";" := fun is =>
      (Lexeme.not_bracket_of_is is (by decide)).2 closes
    simp only [Bool.and_eq_true, decide_eq_true_eq] at nested
    simp [plainStatement, noEnd, opens, closes, nested.1, ih nested.2 unbroken, cons]
  | case4 depth lexeme lexemes opens closes ih =>
    rw [lacks_cons opens closes, Bool.and_eq_true] at unbroken
    have goesOn : ¬(depth = 0 ∧ lexeme.is ";") := by
      simpa [← imp_iff_not_or] using unbroken.1
    simp [plainStatement, goesOn, opens, closes, ih nested unbroken.2, cons]

end Span

namespace Token

/-- Nested lexemes without a separator outside all brackets belong to the first part. -/
theorem splitTop_lay {separator : String} (nested : nests depth lexemes)
    (free : lacks separator depth lexemes) (pen : Pen) {tokens part : List Token}
    {parts : List (List Token)} (others : splitTop separator 0 tokens = part :: parts) :
    splitTop separator depth (pen.lay lexemes ++ tokens) =
      (pen.lay lexemes ++ part) :: parts := by
  fun_induction nests depth lexemes generalizing pen with
  | case1 depth =>
    rw [of_decide_eq_true nested]
    exact others
  | case2 depth lexeme lexemes opens ih =>
    rw [lacks_cons_of_opens opens] at free
    simp [splitTop, opens, ih nested free]
  | case3 depth lexeme lexemes opens closes ih =>
    rw [lacks_cons_of_closes closes] at free
    simp only [Bool.and_eq_true, decide_eq_true_eq] at nested
    simp [splitTop, opens, closes, ih nested.2 free]
  | case4 depth lexeme lexemes opens closes ih =>
    rw [lacks_cons opens closes, Bool.and_eq_true] at free
    have goesOn : ¬(depth = 0 ∧ lexeme.is separator) := by
      simpa [← imp_iff_not_or] using free.1
    simp [splitTop, goesOn, opens, closes, ih nested free.2]

/-- A phrase that lacks the separator is not divided. -/
theorem splitTop_lay_alone {separator : String} (nested : nests depth lexemes)
    (free : lacks separator depth lexemes) (pen : Pen) :
    splitTop separator depth (pen.lay lexemes) = [pen.lay lexemes] := by
  have alone : splitTop separator 0 [] = [[]] := rfl
  simpa using splitTop_lay nested free pen alone

/-- A separator divides what comes before it from what comes behind. -/
theorem splitTop_cons_of_is {separator : String} {mark : Lexeme} (is : mark.is separator)
    (noBracket : ¬mark.opens ∧ ¬mark.closes) (pen : Pen) (tokens : List Token) :
    splitTop separator 0 (pen.token mark :: tokens) = [] :: splitTop separator 0 tokens := by
  simp [splitTop, is, noBracket]

end Token

end Transcode
