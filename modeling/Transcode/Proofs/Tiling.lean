import Transcode.Proofs.Positions
import Transcode.Proofs.Spelling

/-!
# Tokens and what stands between them

The tokens of a text stand in it in order, and what stands between them, before the first and after
the last is a row of blanks and comments (`tokens_tile`). For a piece that is no token is a blank or
a comment (`Lexer.isGap_nextPiece`), and the pieces of a text in a row are the text.
-/

namespace Transcode

open Text

namespace Lexer

/-! ### Gaps -/

/-- A comment before given characters: it goes on to the end of its line, or through the first `*/`,
or to the end of the text if there is none. -/
inductive IsComment : List Char → List Char → Prop
  | line {cs rest : List Char} (unbroken : '\n' ∉ cs) (ends : ∀ c ∈ rest.head?, c = '\n') :
      IsComment ('/' :: '/' :: cs) rest
  | block {cs rest : List Char} (first : ¬['*', '/'] <:+: cs ++ ['*']) :
      IsComment ('/' :: '*' :: (cs ++ ['*', '/'])) rest
  | unclosed {cs : List Char} (never : ¬['*', '/'] <:+: cs) : IsComment ('/' :: '*' :: cs) []

/-- Blanks and comments in a row, or nothing at all, before given characters. -/
inductive IsGap : List Char → List Char → Prop
  | nil {rest : List Char} : IsGap [] rest
  | blank {c : Char} {gap rest : List Char} (blank : isBlank c) (later : IsGap gap rest) :
      IsGap (c :: gap) rest
  | comment {cs gap rest : List Char} (comment : IsComment cs (gap ++ rest))
      (later : IsGap gap rest) : IsGap (cs ++ gap) rest

/-- The end of a comment does not start at a character unless the slash comes next. -/
theorem not_infix_cons {c : Char} {cs : List Char}
    (noEnd : ∀ rest, c = '*' → cs = '/' :: rest → False) (later : ¬['*', '/'] <:+: cs) :
    ¬['*', '/'] <:+: c :: cs := by
  intro inside
  rcases List.infix_cons_iff.mp inside with ⟨rest, starts⟩ | inside
  · obtain ⟨same, others⟩ := List.cons.inj starts
    exact noEnd rest same.symm others.symm
  · exact later inside

/-- The rest of a comment that is closed ends with the first `*/`. -/
theorem spanComment_closed {cs : List Char} (closed : (spanComment cs).2.2) :
    ∃ body, (spanComment cs).1 = body ++ ['*', '/'] ∧ ¬['*', '/'] <:+: body ++ ['*'] := by
  fun_induction spanComment cs with
  | case1 => cases closed
  | case2 => exact ⟨[], rfl, by decide⟩
  | case3 c cs noEnd taken rest _ read ih =>
    rw [read] at ih
    obtain ⟨body, split, first⟩ := ih closed
    refine ⟨c :: body, congrArg (c :: ·) split, not_infix_cons (fun others same starts => ?_) first⟩
    -- The body starts with a slash only if the characters after it do.
    have whole := append_spanComment cs
    rw [read] at whole
    obtain ⟨d, body, rfl⟩ : ∃ d others, body = d :: others := by
      cases body with
      | nil => cases starts
      | cons d body => exact ⟨d, body, rfl⟩
    obtain rfl := (List.cons.inj starts).1
    rw [split] at whole
    exact noEnd _ same whole.symm

/-- The rest of a comment that is not closed is all the text. -/
theorem spanComment_unclosed {cs : List Char} (unclosed : ¬(spanComment cs).2.2) :
    spanComment cs = (cs, [], false) ∧ ¬['*', '/'] <:+: cs := by
  fun_induction spanComment cs with
  | case1 => exact ⟨rfl, by decide⟩
  | case2 => exact absurd rfl unclosed
  | case3 c cs noEnd taken rest closed read ih =>
    rw [read] at ih
    obtain ⟨all, never⟩ := ih unclosed
    obtain ⟨rfl, rfl, rfl⟩ : taken = cs ∧ rest = [] ∧ closed = false := by simpa using all
    exact ⟨rfl, not_infix_cons noEnd never⟩

/-- A piece that is no token is a blank or a comment. -/
theorem isGap_nextPiece {c : Char} {cs : List Char} (noToken : (nextPiece c cs).1.kind = none) :
    (isBlank c ∧ (nextPiece c cs).1.text = [c]) ∨
      IsComment (nextPiece c cs).1.text (nextPiece c cs).2 := by
  revert noToken
  fun_cases nextPiece c cs with
  | case1 blank => exact fun _ => .inl ⟨blank, rfl⟩
  | case2 _ opens =>
    intro _
    obtain ⟨slash, second⟩ := Bool.and_eq_true_iff.mp opens
    obtain ⟨cs, rfl⟩ := List.head?_eq_some_iff.mp (of_decide_eq_true second)
    obtain rfl := of_decide_eq_true slash
    refine .inr (.line (fun member => ?_) fun d next => ?_)
    · simpa using List.mem_takeWhile_imp member
    · have stops := List.head?_dropWhile_not (· != '\n') ('/' :: cs)
      rw [Option.mem_def.mp next] at stops
      simpa using stops
  | case3 _ _ opens taken rest closed read =>
    intro _
    obtain ⟨slash, second⟩ := Bool.and_eq_true_iff.mp opens
    obtain ⟨cs, rfl⟩ := List.head?_eq_some_iff.mp (of_decide_eq_true second)
    obtain rfl := of_decide_eq_true slash
    rw [List.drop_one, List.tail_cons] at read
    refine .inr ?_
    by_cases isClosed : (spanComment cs).2.2
    · obtain ⟨body, split, first⟩ := spanComment_closed isClosed
      rw [read] at split
      dsimp only at split ⊢
      rw [split]
      exact .block first
    · obtain ⟨all, never⟩ := spanComment_unclosed isClosed
      obtain ⟨rfl, rfl, _⟩ : cs = taken ∧ [] = rest ∧ false = closed := by
        simpa using all.symm.trans read
      exact .unclosed never
  | case4 => intro noToken; cases noToken
  | case5 => intro noToken; cases noToken
  | case6 => intro noToken; cases noToken
  | case7 => intro noToken; cases noToken
  | case8 => intro noToken; cases noToken
  | case9 => intro noToken; cases noToken

/-! ### Tiles -/

/-- Tokens tile a text that stands after given characters: a gap, a token that is not empty, and so
on up to a last gap. Each token has the range of its place and knows whether its gap is empty; the
first one may have had a gap before the text. -/
inductive Tiled : Bool → List Char → List Token → List Char → Prop
  | last {spaced : Bool} {before gap : List Char} (isGap : IsGap gap []) :
      Tiled spaced before [] gap
  | token {spaced : Bool} {before gap rest cs : List Char} {token : Token} {tokens : List Token}
      (split : gap ++ (token.text.toList ++ rest) = cs)
      (isGap : IsGap gap (token.text.toList ++ rest)) (filled : token.text ≠ "")
      (place : token.range = ⟨.after .first (before ++ gap),
        .after .first (before ++ gap ++ token.text.toList)⟩)
      (apart : token.spaced = (spaced || !gap.isEmpty))
      (later : Tiled false (before ++ gap ++ token.text.toList) tokens rest) :
      Tiled spaced before (token :: tokens) cs

/-- A gap in front makes the first gap longer. -/
theorem Tiled.gap {spaced : Bool} {before gap cs : List Char} {tokens : List Token}
    (tiled : Tiled true (before ++ gap) tokens cs) (filled : gap ≠ [])
    (joins : ∀ {others rest : List Char}, others ++ rest = cs → IsGap others rest →
      IsGap (gap ++ others) rest) : Tiled spaced before tokens (gap ++ cs) := by
  cases tiled with
  | last isGap => exact .last (joins (List.append_nil _) isGap)
  | @token _ _ others rest cs token tokens split isGap filledToken place apart later =>
      have notEmpty : !(gap ++ others).isEmpty := by simp [filled]
      rw [List.append_assoc before] at place later
      refine .token ?_ (joins split isGap) filledToken place ?_ later
      · rw [← split, List.append_assoc]
      · rw [apart, notEmpty, Bool.or_true, Bool.true_or]

/-- The tokens of a text tile it. -/
theorem tiled_tokensAt (spaced : Bool) (before cs : List Char) :
    Tiled spaced before (tokensAt (.after .first before) spaced (pieces cs)) cs := by
  induction cs using pieces_induction generalizing spaced before with
  | nil => exact .last .nil
  | cons c cs ih =>
      have filled := text_nextPiece_ne_nil c cs
      have whole := append_nextPiece c cs
      rw [pieces_cons, tokensAt, ← Position.after_append]
      cases isToken : (nextPiece c cs).1.kind with
      | none =>
          rw [← whole]
          refine (ih true _).gap filled fun joined isGap => ?_
          rcases isGap_nextPiece isToken with ⟨blank, text⟩ | comment
          · rw [text]
            exact .blank blank isGap
          · exact .comment (joined ▸ comment) isGap
      | some kind =>
          have text := String.toList_ofList (l := (nextPiece c cs).1.text)
          have split : [] ++ ((String.ofList (nextPiece c cs).1.text).toList ++
              (nextPiece c cs).2) = c :: cs := by rwa [text]
          refine .token split .nil ?_ ?_ ?_ ?_
          · exact fun none => filled (String.ofList_eq_empty_iff.mp none)
          · rw [text, List.append_nil]
          · exact (Bool.or_false spaced).symm
          · rw [text, List.append_nil]
            exact ih false _

end Lexer

/-! ### Tokens in their text -/

namespace Token

/-- The offset where the last of some tokens ends, or a given one if there is none. -/
def endAfter (start : Nat) (tokens : List Token) : Nat :=
  tokens.getLast?.elim start (·.range.stop.offset)

/-- The end of tokens is that of the first followed by the others. -/
theorem endAfter_cons (start : Nat) (token : Token) (tokens : List Token) :
    endAfter start (token :: tokens) = endAfter token.range.stop.offset tokens := by
  rw [endAfter, endAfter, List.getLast?_cons]
  cases tokens.getLast? <;> rfl

/-- A token stands in a text after a gap that starts at an offset: its text is that between its
offsets and not empty, and it is spaced just if the gap is not empty. -/
def StandsAfter (source : String) (start : Nat) (token : Token) : Prop :=
  ∃ before gap after : String, before ++ gap ++ token.text ++ after = source ∧
    before.utf8ByteSize = start ∧ (before ++ gap).utf8ByteSize = token.range.start.offset ∧
    (before ++ gap ++ token.text).utf8ByteSize = token.range.stop.offset ∧ token.text ≠ "" ∧
    Lexer.IsGap gap.toList (token.text ++ after).toList ∧ (token.spaced ↔ gap ≠ "")

end Token

namespace Lexer

theorem offset_after_first (cs : List Char) :
    (Position.first.after cs).offset = (String.ofList cs).utf8ByteSize :=
  (Position.counts_after cs).1

variable {spaced : Bool} {before cs : List Char} {tokens : List Token}

/-- Among the tokens that tile a text each stands after the ones before. -/
theorem Tiled.standsAfter (tiled : Tiled spaced before tokens cs) (unspaced : spaced = false)
    {earlier later : List Token} {token : Token} (split : tokens = earlier ++ token :: later) :
    token.StandsAfter (.ofList (before ++ cs))
      (Token.endAfter (String.ofList before).utf8ByteSize earlier) := by
  induction tiled generalizing earlier with
  | last => exact absurd split.symm (List.append_ne_nil_of_right_ne_nil _ (List.cons_ne_nil _ _))
  | @token _ before gap rest cs first tokens whole isGap filled place apart others ih =>
      subst unspaced
      cases earlier with
      | nil =>
          obtain ⟨rfl, rfl⟩ := List.cons.inj split
          refine ⟨.ofList before, .ofList gap, .ofList rest, ?_, rfl, ?_, ?_, filled, ?_, ?_⟩
          · simp only [← whole, String.ofList_append, String.ofList_toList, String.append_assoc]
          · rw [place, offset_after_first, String.ofList_append]
          · simp only [place, offset_after_first, String.ofList_append, String.ofList_toList]
          · rwa [String.toList_ofList, String.toList_append, String.toList_ofList]
          · rw [apart, Bool.false_or, ne_eq, String.ofList_eq_empty_iff]
            simp
      | cons head earlier =>
          obtain ⟨rfl, following⟩ := List.cons.inj split
          rw [Token.endAfter_cons, place, offset_after_first, ← whole, ← List.append_assoc,
            ← List.append_assoc]
          exact ih rfl following

/-- After the tokens that tile a text only a gap is left. -/
theorem Tiled.exists_last (tiled : Tiled spaced before tokens cs) :
    ∃ start gap : List Char, start ++ gap = before ++ cs ∧ IsGap gap [] ∧
      (String.ofList start).utf8ByteSize =
        Token.endAfter (String.ofList before).utf8ByteSize tokens := by
  induction tiled with
  | @last _ before gap isGap => exact ⟨before, gap, rfl, isGap, rfl⟩
  | token whole _ _ place _ _ ih =>
      obtain ⟨start, last, joined, isGap, ends⟩ := ih
      refine ⟨start, last, ?_, isGap, ?_⟩
      · rw [joined, ← whole]
        simp only [List.append_assoc]
      · rw [ends, Token.endAfter_cons, place, offset_after_first]

end Lexer

/-- **Tokens tile their text.** The tokens of a text are in order and do not overlap. Each has a
range of the text with the right lines and columns, is not empty, is what the text has between its
offsets, and is spaced just if something stands between it and the token before or the start of the
text. What stands there, and after the last token, is a row of blanks and comments. -/
theorem tokens_tile (source : String) :
    ((tokenize source).1.Pairwise
      fun token later => token.range.stop.offset ≤ later.range.start.offset) ∧
    (∀ earlier token later, (tokenize source).1 = earlier ++ token :: later →
      token.range.IsIn source ∧ token.StandsAfter source (Token.endAfter 0 earlier)) ∧
    ∃ before gap : String, before ++ gap = source ∧ Lexer.IsGap gap.toList [] ∧
      before.utf8ByteSize = Token.endAfter 0 (tokenize source).1 := by
  have tiled := Lexer.tiled_tokensAt false [] source.toList
  refine ⟨ordered_tokenize source, fun earlier token later split => ⟨?_, ?_⟩, ?_⟩
  · exact isIn_tokenize source token (split ▸ List.mem_append_right _ List.mem_cons_self)
  · have stands := tiled.standsAfter rfl split
    rwa [List.nil_append, String.ofList_toList] at stands
  · obtain ⟨start, gap, joined, isGap, ends⟩ := tiled.exists_last
    refine ⟨.ofList start, .ofList gap, ?_, ?_, ends⟩
    · rw [← String.ofList_append, joined, List.nil_append, String.ofList_toList]
    · rwa [String.toList_ofList]

/-- A word after a comment, with an unfinished text before it and an unfinished comment behind. -/
theorem tokens_tile_unfinished :
    (tokenize "\"é \n//\"\n x/*/").1 =
      [⟨.text, "\"é ", ⟨⟨1, 1, 0⟩, ⟨1, 4, 4⟩⟩, false⟩] ++
        ⟨.ident, "x", ⟨⟨3, 2, 10⟩, ⟨3, 3, 11⟩⟩, true⟩ :: [] ∧
    SourceRange.IsIn "\"é \n//\"\n x/*/" ⟨⟨3, 2, 10⟩, ⟨3, 3, 11⟩⟩ ∧
    Token.StandsAfter "\"é \n//\"\n x/*/" 4 ⟨.ident, "x", ⟨⟨3, 2, 10⟩, ⟨3, 3, 11⟩⟩, true⟩ := by
  have tokens : (tokenize "\"é \n//\"\n x/*/").1 =
      [⟨.text, "\"é ", ⟨⟨1, 1, 0⟩, ⟨1, 4, 4⟩⟩, false⟩] ++
        ⟨.ident, "x", ⟨⟨3, 2, 10⟩, ⟨3, 3, 11⟩⟩, true⟩ :: [] := by decide +kernel
  exact ⟨tokens, (tokens_tile _).2.1 _ _ _ tokens⟩

end Transcode
