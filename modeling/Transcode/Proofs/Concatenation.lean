import Transcode.Proofs.Legibility
import Transcode.Proofs.Outcome
import Transcode.Proofs.Ranges
import Transcode.Proofs.Replay
import Transcode.Proofs.Spelling

/-!
# Texts one after the other

Two texts that are each read without a problem are read without a problem as one text, with a line
break between them, and its declarations are those of the first and, with their places moved down,
those of the second (`parseSource_append`). For no piece of a text without faults goes on beyond a
line break (`Lexer.pieces_append_break`), and no declaration without a problem is read differently
if other tokens follow it (`Parser.declarationsWithin_append`).
-/

namespace Transcode

/-! ### Declarations before others -/

namespace Reading

/-- The last token read, if there is one, is a brace or semicolon. -/
def Closed (reading : Reading) : Prop :=
  ∀ token ∈ reading.last, token.is "\x7d" ∨ token.is ";"

variable {reading : Reading}

/-- The last token that was read is the one that was seen. -/
theorem last_next_of_sees {text : String} (sees : reading.sees text) :
    ∀ token ∈ reading.next.last, token.is text := by
  obtain ⟨token, rest, there, is⟩ := exists_rest_of_sees sees
  rw [next, there]
  rintro _ ⟨⟩
  exact is

theorem closed_of_brace (sees : reading.sees "\x7d") : reading.next.Closed :=
  fun token last => .inl (last_next_of_sees sees token last)

theorem closed_of_semicolon (sees : reading.sees ";") : reading.next.Closed :=
  fun token last => .inr (last_next_of_sees sees token last)

end Reading

namespace Parser

open Reading

variable {reading : Reading}

/-- Reading is closed behind the members of a type. -/
theorem closed_membersWithin (bound : Nat) (owner word : String) (header : SourceRange)
    (enough : Call.Suffices ⟨bound, .members owner word header, reading⟩)
    (clean : (membersWithin bound owner word header reading).2.problems = []) :
    (membersWithin bound owner word header reading).2.Closed := by
  induction bound generalizing reading with
  | zero => exact absurd (Call.bound_pos enough) (Nat.lt_irrefl 0)
  | succ bound ih =>
      have filled := rest_ne_nil_of_membersWithin_clean enough clean
      unfold membersWithin at clean ⊢
      rw [if_neg (mt done_iff.mp filled)] at clean ⊢
      split
      · exact closed_of_brace ‹_›
      rw [if_neg ‹_›] at clean
      split
      · rw [if_pos ‹_›] at clean
        exact ih (Call.Calls.suffices (.emptyMember ‹_›) enough) clean
      · rw [if_neg ‹_›] at clean
        exact ih (Call.Calls.suffices
          (.laterMembers (mt done_iff.mp filled) ‹_› ‹_›) enough) clean

/-- Reading is closed behind a type. -/
theorem closed_typeWithin (bound : Nat) (kind : SyntaxKind) (word : String) (start : Position)
    (enough : Call.Suffices ⟨bound, .type kind word start, reading⟩)
    (clean : (typeWithin bound kind word start reading).2.problems = []) :
    (typeWithin bound kind word start reading).2.Closed := by
  obtain ⟨bound, rfl⟩ := Nat.exists_eq_add_one.mpr (Call.bound_pos enough)
  unfold typeWithin at clean ⊢
  split
  · rename_i none
    rw [none] at clean
    exact absurd clean (List.cons_ne_nil _ _)
  rename_i name rest there
  rw [there] at clean
  dsimp only at clean ⊢
  split
  · rw [if_pos ‹_›] at clean
    exact absurd clean (List.cons_ne_nil _ _)
  rw [if_neg ‹_›] at clean
  split
  · rw [if_pos ‹_›] at clean
    exact closed_membersWithin bound _ _ _ (Call.Calls.suffices (.members there ‹_›) enough) clean
  · rw [if_neg ‹_›] at clean
    exact absurd clean (List.cons_ne_nil _ _)

/-- In a text itself, a declaration without a problem is a type. -/
theorem sees_of_memberWithin_clean {bound : Nat}
    (clean : (memberWithin (bound + 1) none reading).2.problems = []) :
    (preamble reading).2.sees "class" ∨ (preamble reading).2.sees "interface" := by
  by_contra other
  obtain ⟨noClass, noInterface⟩ := not_or.mp other
  unfold memberWithin at clean
  dsimp only at clean
  rw [if_neg noClass, if_neg noInterface] at clean
  repeat' split at clean
  all_goals exact List.cons_ne_nil _ _ clean

/-- Reading is closed behind a member outside of types. -/
theorem closed_memberWithin {bound : Nat}
    (enough : Call.Suffices ⟨bound + 1, .member none, reading⟩)
    (clean : (memberWithin (bound + 1) none reading).2.problems = []) :
    (memberWithin (bound + 1) none reading).2.Closed := by
  have sees := sees_of_memberWithin_clean clean
  by_cases isClass : (preamble reading).2.sees "class"
  · rw [memberWithin_class bound none isClass] at clean ⊢
    exact closed_typeWithin _ _ _ _ (Call.Calls.suffices (.type isClass (by decide)) enough) clean
  · have isInterface := sees.resolve_left isClass
    rw [memberWithin_interface bound none isClass isInterface] at clean ⊢
    exact closed_typeWithin _ _ _ _
      (Call.Calls.suffices (.type isInterface (by decide)) enough) clean

/-- Reading is closed behind a package or an import. -/
theorem closed_headerDeclaration (kind : SyntaxKind)
    (clean : (headerDeclaration kind reading).2.problems = []) :
    (headerDeclaration kind reading).2.Closed := by
  have sees := sees_of_expect_clean clean
  unfold headerDeclaration
  dsimp only
  rw [expect_of_sees sees]
  exact closed_of_semicolon sees

/-- Reading is closed behind a declaration. -/
theorem closed_declaration (clean : (declaration reading).2.problems = []) :
    (declaration reading).2.Closed := by
  unfold declaration at clean ⊢
  split
  · rw [if_pos ‹_›] at clean
    exact closed_headerDeclaration _ clean
  rw [if_neg ‹_›] at clean
  split
  · rw [if_pos ‹_›] at clean
    exact closed_headerDeclaration _ clean
  rw [if_neg ‹_›] at clean
  split
  · rw [if_pos ‹_›] at clean
    exact absurd clean (List.cons_ne_nil _ _)
  · rw [if_neg ‹_›] at clean
    exact closed_memberWithin (Call.suffices_of_fuel rfl) clean

/-- Reading is closed behind declarations. -/
theorem closed_declarationsWithin (bound : Nat) (closed : reading.Closed)
    (clean : (declarationsWithin bound reading).2.problems = []) :
    (declarationsWithin bound reading).2.Closed := by
  induction bound generalizing reading with
  | zero => exact closed
  | succ bound ih =>
      rw [declarationsWithin_succ] at clean ⊢
      split
      · exact closed
      rw [if_neg ‹_›] at clean
      split
      · rw [if_pos ‹_›] at clean
        exact ih (closed_of_semicolon ‹_›) clean
      · rw [if_neg ‹_›] at clean
        exact ih (closed_declaration ((proceeds_declarationsWithin _ bound).clean clean)) clean

variable {move : Position → Position} {more : List Token} {first second : Reading}

/-- The same package or import is read, moved. -/
theorem tracks_headerDeclaration (kind : SyntaxKind) (starts : Starts move more first second)
    (filled : first.rest ≠ []) (clean : (headerDeclaration kind first).2.problems = []) :
    Tracks move more (·.moved move) (headerDeclaration kind first)
      (headerDeclaration kind second) := by
  have next := starts.next filled
  obtain ⟨semicolon, rest, there, _⟩ := exists_rest_of_sees (sees_of_expect_clean clean)
  have left : (Span.upTo (·.isAny [";", "\x7b", "\x7d"]) first.next.rest).rest ≠ [] :=
    fun none => List.cons_ne_nil _ _ (there.symm.trans none)
  have last := (next.pass (Span.splits_upTo _ _)).expect clean
  unfold headerDeclaration
  dsimp only
  rw [next.rest, Span.upTo_moved (fun _ => rfl) left, starts.start filled]
  have text (span : Span) : Token.join (span.moved move more).taken = Token.join span.taken :=
    Token.join_moved move span.taken
  refine ⟨?_, last⟩
  dsimp only
  rw [SyntaxTree.moved_eq, ← last.since, text]
  rfl

/-- The same declaration is read, moved. -/
theorem tracks_declaration (starts : Starts move more first second) (filled : first.rest ≠ [])
    (clean : (declaration first).2.problems = []) :
    Tracks move more (·.moved move) (declaration first) (declaration second) := by
  unfold declaration at clean ⊢
  rw [starts.sees filled, starts.sees filled, starts.sees filled]
  split
  · rw [if_pos ‹_›] at clean
    exact tracks_headerDeclaration _ starts filled clean
  rw [if_neg ‹_›] at clean
  split
  · rw [if_pos ‹_›] at clean
    exact tracks_headerDeclaration _ starts filled clean
  rw [if_neg ‹_›] at clean
  split
  · rw [if_pos ‹_›] at clean
    exact absurd clean (List.cons_ne_nil _ _)
  · rw [if_neg ‹_›] at clean
    -- The second state has more tokens left, so its bound is higher.
    have enough : Call.Suffices ⟨first.fuel, .member none, first⟩ := Call.suffices_of_fuel rfl
    have higher : first.fuel ≤ second.fuel :=
      Nat.add_le_add_right (Nat.mul_le_mul_left 4 starts.length_le) 4
    have same : memberWithin second.fuel none first = memberWithin first.fuel none first :=
      Call.run_eq_of_suffices enough higher
    rw [← same] at clean ⊢
    exact tracks_memberWithin_of_type
      (fun kind word start _ _ follows => tracks_typeWithin _ kind word start follows)
      Follows.starts id starts (sees_of_memberWithin_clean clean) (enough.mono higher) clean

/-- **Declarations before others.** Declarations without a problem are read the same, at moved
places, if other tokens follow them, and then those of the other tokens are read. -/
theorem declarationsWithin_append {bound other : Nat} (starts : Starts move more first second)
    (enough : first.rest.length < bound) (enoughOther : second.rest.length < other)
    (clean : (declarationsWithin bound first).2.problems = []) :
    ∃ between : Reading, between.rest = more ∧ between.problems = [] ∧
      declarationsWithin other second =
        ((declarationsWithin bound first).1.map (·.moved move) ++
          (declarationsWithin (more.length + 1) between).1,
        (declarationsWithin (more.length + 1) between).2) := by
  induction bound generalizing first second other with
  | zero => exact absurd enough (Nat.not_lt_zero _)
  | succ bound ih =>
      by_cases done : first.rest = []
      · have rest : second.rest = more := by
          obtain ⟨gap, rest⟩ := starts.rest
          rwa [done] at rest
        rw [rest] at enoughOther
        have same : declarationsWithin other second =
            declarationsWithin (more.length + 1) second :=
          Call.run_eq_of_suffices (show Call.Suffices ⟨_, .declarations, second⟩ from
            rest ▸ Nat.lt_succ_self more.length) enoughOther
        refine ⟨second, rest, starts.clean, ?_⟩
        rw [same, declarationsWithin_succ bound, if_pos (done_iff.mpr done)]
        rfl
      · obtain ⟨other, rfl⟩ := Nat.exists_eq_add_one.mpr (Nat.zero_lt_of_lt enoughOther)
        have fewer {later : Reading} (consumes : first.Consumes later) :
            later.rest.length < bound :=
          Nat.lt_of_lt_of_le consumes.2 (Nat.le_of_lt_succ enough)
        have fewerOther {later : Reading} (consumes : second.Consumes later) :
            later.rest.length < other :=
          Nat.lt_of_lt_of_le consumes.2 (Nat.le_of_lt_succ enoughOther)
        have inside := mt done_iff.mp done
        have insideOther : ¬second.done := by rwa [starts.done done]
        rw [declarationsWithin_succ bound first, if_neg inside] at clean ⊢
        rw [declarationsWithin_succ other second, if_neg insideOther, starts.sees done]
        split
        · rw [if_pos ‹_›] at clean
          exact ih (starts.next done).starts (fewer (consumes_next inside))
            (fewerOther (consumes_next insideOther)) clean
        · rw [if_neg ‹_›] at clean
          obtain ⟨same, after⟩ := tracks_declaration starts done
            ((proceeds_declarationsWithin _ bound).clean clean)
          obtain ⟨between, rest, sound, others⟩ := ih after.starts
            (fewer (consumes_declaration inside)) (fewerOther (consumes_declaration insideOther))
            clean
          refine ⟨between, rest, sound, ?_⟩
          rw [others, same]
          rfl

end Parser

/-! ### Pieces before a line break -/

namespace Lexer

/-- The gap that a line break is. -/
def breakPiece : Piece := ⟨none, ['\n'], none⟩

theorem pieces_break (cs : List Char) : pieces ('\n' :: cs) = breakPiece :: pieces cs := by
  have isBreak : nextPiece '\n' cs = (breakPiece, cs) := if_pos (by decide)
  rw [pieces_cons, isBreak]

/-- A text without faults is cut as by itself before a line break. -/
theorem pieces_append_break (cs rest : List Char)
    (sound : ∀ piece ∈ pieces cs, piece.fault = none) :
    pieces (cs ++ '\n' :: rest) = pieces cs ++ breakPiece :: pieces rest := by
  induction cs using pieces_induction with
  | nil => exact pieces_break rest
  | cons c cs ih =>
      rw [pieces_cons] at sound
      obtain ⟨soundFirst, soundLater⟩ := List.forall_mem_cons.mp sound
      rw [List.cons_append, pieces_cons,
        nextPiece_append separates_break (Piece.isClosed_of_sound soundFirst) (.inl rfl),
        ih soundLater, pieces_cons, List.cons_append]

/-- A text has no problem if no piece has a fault. -/
theorem diagnosticsAt_eq_nil_iff {position : Position} {pieces : List Piece} :
    diagnosticsAt position pieces = [] ↔ ∀ piece ∈ pieces, piece.fault = none := by
  induction pieces generalizing position with
  | nil => simp [diagnosticsAt]
  | cons piece rest ih =>
      rw [List.forall_mem_cons, diagnosticsAt]
      cases piece.fault with
      | none => simp [ih]
      | some fault => simp

/-- Tokens behind a gap are cut as if the text began there. -/
theorem tokensAt_append_gap (position : Position) (spaced : Bool) (pieces others : List Piece)
    {gap : Piece} (isGap : gap.kind = none) :
    tokensAt position spaced (pieces ++ gap :: others) = tokensAt position spaced pieces ++
      tokensAt (position.after (pieces.flatMap (·.text) ++ gap.text)) true others := by
  induction pieces generalizing position spaced with
  | nil => simp [tokensAt, isGap]
  | cons piece rest ih =>
      rw [List.cons_append, tokensAt, tokensAt, List.flatMap_cons, List.append_assoc,
        Position.after_append]
      cases piece.kind with
      | none => exact ih _ _
      | some kind => exact congrArg (_ :: ·) (ih _ _)

end Lexer

/-! ### Texts moved down -/

/-- The place that a position of a text has if another text is put before it that ends with a line
break. -/
def Position.below (text : String) (position : Position) : Position :=
  ⟨text.toList.count '\n' + position.line, position.column, text.utf8ByteSize + position.offset⟩

/-- Going on by a character is the same further down. -/
theorem Position.step_below (text : String) (position : Position) (c : Char) :
    (position.below text).step c = (position.step c).below text := by
  unfold step below
  split <;> simp [Nat.add_assoc]

/-- Going on by characters is the same further down. -/
theorem Position.after_below (text : String) (position : Position) (cs : List Char) :
    (position.below text).after cs = (position.after cs).below text := by
  induction cs generalizing position with
  | nil => rfl
  | cons c cs ih => exact (congrArg (·.after cs) (step_below text position c)).trans (ih _)

/-- After a line break, a text goes on at the first column. -/
theorem Position.endOf_append_break (text : String) :
    endOf (text ++ "\n") = first.below (text ++ "\n") := by
  obtain ⟨offset, line, column⟩ := counts_after (text ++ "\n").toList
  have startsLine : ((text ++ "\n").toList.reverse.takeWhile (· ≠ '\n')).length = 0 := by
    simp [String.toList_append]
  rw [startsLine] at column
  rw [String.ofList_toList] at offset
  change (⟨(endOf (text ++ "\n")).line, _, _⟩ : Position) = _
  exact (mk.injEq ..).mpr ⟨line.trans (Nat.add_comm _ _), column, offset⟩

namespace Lexer

/-- Tokens are cut alike further down. -/
theorem tokensAt_below (text : String) (position : Position) (spaced : Bool)
    (pieces : List Piece) : tokensAt (position.below text) spaced pieces =
      (tokensAt position spaced pieces).map (·.moved (Position.below text)) := by
  induction pieces generalizing position spaced with
  | nil => rfl
  | cons piece rest ih =>
      rw [tokensAt, tokensAt, Position.after_below]
      cases piece.kind with
      | none => exact ih _ _
      | some kind => exact congrArg (_ :: ·) (ih _ _)

/-- Whether a gap stands before a text shows at its first token at most. -/
theorem exists_tokensAt_eq (position : Position) (spaced other : Bool) (pieces : List Piece) :
    ∃ gap, tokensAt position spaced pieces =
      (tokensAt position other pieces).modifyHead (Token.withGap gap) := by
  cases pieces with
  | nil => exact ⟨false, rfl⟩
  | cons piece rest =>
      rw [tokensAt, tokensAt]
      cases piece.kind with
      | none => exact (Token.exists_modifyHead_withGap _).imp fun _ => Eq.symm
      | some kind => exact ⟨spaced, rfl⟩

end Lexer

/-- **Tokens after a line break.** Two texts without faults have, with a line break between them,
the tokens of the first and, further down, those of the second. -/
theorem tokenize_append {one two : String} (sound : (tokenize one).2 = [])
    (soundOther : (tokenize two).2 = []) :
    (tokenize (one ++ "\n" ++ two)).2 = [] ∧ ∃ gap, (tokenize (one ++ "\n" ++ two)).1 =
      (tokenize one).1 ++ ((tokenize two).1.map
        (·.moved (Position.below (one ++ "\n")))).modifyHead (Token.withGap gap) := by
  have sound := Lexer.diagnosticsAt_eq_nil_iff.mp sound
  have soundOther := Lexer.diagnosticsAt_eq_nil_iff.mp soundOther
  have cut : Lexer.pieces (one ++ "\n" ++ two).toList =
      Lexer.pieces one.toList ++ Lexer.breakPiece :: Lexer.pieces two.toList := by
    rw [String.toList_append, String.toList_append, List.append_assoc]
    exact Lexer.pieces_append_break _ _ sound
  have place : Position.first.after (one.toList ++ ['\n']) =
      Position.first.below (one ++ "\n") := by
    rw [← Position.endOf_append_break, Position.endOf, String.toList_append]
    rfl
  unfold tokenize
  dsimp only
  rw [cut]
  constructor
  · refine Lexer.diagnosticsAt_eq_nil_iff.mpr ?_
    exact List.forall_mem_append.mpr ⟨sound, List.forall_mem_cons.mpr ⟨rfl, soundOther⟩⟩
  · obtain ⟨gap, same⟩ := Lexer.exists_tokensAt_eq (Position.first.below (one ++ "\n")) true false
      (Lexer.pieces two.toList)
    refine ⟨gap, ?_⟩
    rw [Lexer.tokensAt_append_gap _ _ _ _ rfl, Lexer.flatMap_text_pieces,
      show Lexer.breakPiece.text = ['\n'] from rfl, place, same, Lexer.tokensAt_below]

/-! ### Texts without problems -/

/-- The state in which reading a text starts. -/
def Reading.ofSource (source : String) : Reading :=
  { rest := (tokenize source).1, finish := .endOf source }

theorem Reading.isOf_ofSource (source : String) : (ofSource source).IsOf source :=
  ⟨⟨[], rfl, rfl⟩, rfl, List.forall_mem_nil _⟩

/-- The declarations of a text, and the state after all its tokens. -/
def Parser.declarationsOf (source : String) : List SyntaxTree × Reading :=
  declarationsWithin ((tokenize source).1.length + 1) (.ofSource source)

/-- The last token of a text without a problem is a brace or semicolon. -/
theorem endsDeclared_tokenize {source : String}
    (clean : (Parser.declarationsOf source).2.problems = []) :
    EndsDeclared (tokenize source).1 := by
  intro token isLast
  have after := (Parser.fit_declarationsWithin ((tokenize source).1.length + 1)
    (Reading.isOf_ofSource source)).2
  obtain ⟨read, whole, last⟩ := after.split
  have none : (Parser.declarationsOf source).2.rest = [] :=
    Parser.rest_declarationsWithin _ (Nat.lt_succ_self _)
  change read ++ (Parser.declarationsOf source).2.rest = _ at whole
  rw [none, List.append_nil] at whole
  have closed : token.is "\x7d" ∨ token.is ";" := by
    refine Parser.closed_declarationsWithin _ ?_ clean token ?_
    · rintro _ ⟨⟩
    · rw [last, whole]
      exact isLast
  refine ⟨fun isWord => ?_, closed⟩
  obtain ⟨c, head, starts⟩ := exists_startsWord (List.mem_of_getLast? isLast) isWord
  rcases closed with is | is <;>
    · rw [Token.text_eq_of_is is] at head
      obtain rfl := Option.some.inj head
      exact absurd starts (by decide +kernel)

/-! ### Two texts as one -/

theorem Token.map_moved_id (tokens : List Token) : tokens.map (·.moved id) = tokens :=
  List.map_id'' (fun _ => rfl) tokens

mutual

/-- A tree that is not moved stays as it is. -/
theorem SyntaxTree.moved_id : ∀ tree : SyntaxTree, tree.moved id = tree
  | ⟨kind, name, children, range, attributes⟩ => by
    rw [moved, movedAll_id children]
    rfl

theorem SyntaxTree.movedAll_id : ∀ trees : List SyntaxTree, movedAll id trees = trees
  | [] => rfl
  | tree :: rest => by rw [movedAll, moved_id tree, movedAll_id rest]

end

/-- The declarations of a text that has the tokens of two others, those of the second moved. -/
theorem Parser.declarationsOf_append {move : Position → Position} {gap : Bool}
    {one two both : String}
    (tokens : (tokenize both).1 = (tokenize one).1 ++
      ((tokenize two).1.map (·.moved move)).modifyHead (Token.withGap gap))
    (clean : (declarationsOf one).2.problems = [])
    (cleanOther : (declarationsOf two).2.problems = []) :
    (declarationsOf both).1 = (declarationsOf one).1 ++
        (declarationsOf two).1.map (·.moved move) ∧
      (declarationsOf both).2.problems = [] := by
  let more := ((tokenize two).1.map (·.moved move)).modifyHead (Token.withGap gap)
  -- The first text is read in place with the tokens of the second after it.
  have starts : Reading.Starts id more (.ofSource one) (.ofSource both) := by
    obtain ⟨same, unchanged⟩ := Token.exists_modifyHead_withGap (tokenize one).1
    refine ⟨⟨same, tokens.trans (congrArg (· ++ more) ?_)⟩, endsDeclared_tokenize clean, rfl⟩
    exact unchanged.symm.trans (congrArg _ (Token.map_moved_id _).symm)
  obtain ⟨between, rest, sound, firstPart⟩ := declarationsWithin_append starts
    (Nat.lt_succ_self _) (Nat.lt_succ_self _) clean
  -- The second text is read from there, with no token after it.
  have startsOther : Reading.Starts move [] (.ofSource two) between :=
    ⟨⟨gap, rest.trans (List.append_nil _).symm⟩, endsDeclared_tokenize cleanOther, sound⟩
  obtain ⟨last, none, soundLast, secondPart⟩ := declarationsWithin_append startsOther
    (Nat.lt_succ_self _) (show between.rest.length < more.length + 1 from
      rest ▸ Nat.lt_succ_self _) cleanOther
  have ended : declarationsWithin (0 + 1) last = ([], last) := by
    rw [declarationsWithin_succ, if_pos (Reading.done_iff.mpr none)]
  have whole : declarationsOf both = ((declarationsOf one).1 ++
      (declarationsOf two).1.map (·.moved move), last) := by
    refine firstPart.trans ?_
    rw [← SyntaxTree.movedAll_eq, SyntaxTree.movedAll_id, secondPart]
    change (_ ++ (_ ++ (declarationsWithin (0 + 1) last).1),
      (declarationsWithin (0 + 1) last).2) = _
    rw [ended, List.append_nil]
    rfl
  rw [whole]
  exact ⟨rfl, soundLast⟩

/-- What is read of a text without a diagnostic. -/
theorem declarations_of_clean {source : String} {parsed : ParsedSource}
    (read : parseSource source = .ok parsed) (clean : parsed.diagnostics = []) :
    ¬Text.isBlankText source ∧ (tokenize source).2 = [] ∧
      (Parser.declarationsOf source).2.problems = [] ∧
      parsed.tree.children = (Parser.declarationsOf source).1 := by
  unfold parseSource at read
  split at read
  · cases read
  · cases read
    obtain ⟨lexical, problems⟩ := List.append_eq_nil_iff.mp clean
    exact ⟨‹_›, lexical, List.reverse_eq_nil_iff.mp problems, rfl⟩

/-- **Two texts as one.** If two texts are read without a diagnostic, so is the first with a line
break and the second after it, as a program whose declarations are those of the first and then
those of the second, whose places are further down by the lines and bytes before them and in the
same columns. -/
theorem parseSource_append {one two : String} {first second : ParsedSource}
    (read : parseSource one = .ok first) (readOther : parseSource two = .ok second)
    (clean : first.diagnostics = []) (cleanOther : second.diagnostics = []) :
    ∃ both, parseSource (one ++ "\n" ++ two) = .ok both ∧ both.diagnostics = [] ∧
      both.tree.kind = .program ∧ both.tree.children = first.tree.children ++
        second.tree.children.map (·.moved (Position.below (one ++ "\n"))) := by
  obtain ⟨filled, sound, clear, children⟩ := declarations_of_clean read clean
  obtain ⟨_, soundOther, clearOther, childrenOther⟩ := declarations_of_clean readOther cleanOther
  obtain ⟨lexical, gap, tokens⟩ := tokenize_append sound soundOther
  obtain ⟨together, problems⟩ := Parser.declarationsOf_append tokens clear clearOther
  have filledBoth : ¬Text.isBlankText (one ++ "\n" ++ two) := by
    simp only [Text.isBlankText, String.toList_append, List.all_append,
      Bool.and_eq_true] at filled ⊢
    exact fun blank => filled blank.1.1
  refine ⟨_, if_neg filledBoth, ?_, rfl, ?_⟩
  · exact List.append_eq_nil_iff.mpr ⟨lexical, List.reverse_eq_nil_iff.mpr problems⟩
  · rw [children, childrenOther]
    exact together

/-- A comment goes on through the end of its line, and a type stands on the next one. -/
theorem parseSource_append_commented :
    ∃ first second both, parseSource "class A \x7b int x; \x7d // B" = .ok first ∧
      parseSource "  interface C \x7b void f(); \x7d" = .ok second ∧
      first.diagnostics = [] ∧ second.diagnostics = [] ∧
      parseSource ("class A \x7b int x; \x7d // B" ++ "\n" ++
        "  interface C \x7b void f(); \x7d") = .ok both ∧
      both.diagnostics = [] ∧ both.tree.kind = .program ∧
      both.tree.children = first.tree.children ++ second.tree.children.map
        (·.moved (Position.below ("class A \x7b int x; \x7d // B" ++ "\n"))) ∧
      both.tree.children.map (·.range) =
        [⟨⟨1, 1, 0⟩, ⟨1, 19, 18⟩⟩, ⟨⟨2, 3, 26⟩, ⟨2, 28, 51⟩⟩] := by
  obtain ⟨first, read, clean⟩ : ∃ first, parseSource "class A \x7b int x; \x7d // B" = .ok first ∧
      decide (first.diagnostics = []) := exists_tested (by decide +kernel)
  obtain ⟨second, readOther, cleanOther⟩ : ∃ second,
      parseSource "  interface C \x7b void f(); \x7d" = .ok second ∧
      decide (second.diagnostics = []) := exists_tested (by decide +kernel)
  obtain ⟨both, readBoth, whole⟩ := parseSource_append read readOther
    (of_decide_eq_true clean) (of_decide_eq_true cleanOther)
  obtain ⟨_, same, ranges⟩ : ∃ both, parseSource ("class A \x7b int x; \x7d // B" ++ "\n" ++
      "  interface C \x7b void f(); \x7d") = .ok both ∧
      decide (both.tree.children.map (·.range) =
        [⟨⟨1, 1, 0⟩, ⟨1, 19, 18⟩⟩, ⟨⟨2, 3, 26⟩, ⟨2, 28, 51⟩⟩]) :=
    exists_tested (by decide +kernel)
  obtain rfl := Except.ok.inj (readBoth.symm.trans same)
  exact ⟨first, second, both, read, readOther, of_decide_eq_true clean,
    of_decide_eq_true cleanOther, readBoth, whole.1, whole.2.1, whole.2.2, of_decide_eq_true ranges⟩

end Transcode
