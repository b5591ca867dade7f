import Transcode.Proofs.Calls

/-!
# Places of tokens

What a position counts is what stands before it in its text (`Position.IsIn`), and so it is for the
ends of all tokens and of all faulty pieces. A state of the parser reads a text (`Reading.IsOf`) if
it has read the first of its tokens and the others are left. Then the range from a start through the
last token read is a range of the text as soon as a token from that start on is read.
-/

namespace Transcode

/-! ### Positions of a text -/

namespace Position

/-- A position of a text: its offset, line and column count what stands before it. -/
def IsIn (source : String) (position : Position) : Prop :=
  ∃ before after : String, before ++ after = source ∧
    position.offset = before.utf8ByteSize ∧
    position.line = 1 + before.toList.count '\n' ∧
    position.column = 1 + (before.toList.reverse.takeWhile (· ≠ '\n')).length

theorem after_singleton (position : Position) (c : Char) : position.after [c] = position.step c :=
  rfl

/-- The position after given characters counts these. -/
theorem counts_after (cs : List Char) :
    (first.after cs).offset = (String.ofList cs).utf8ByteSize ∧
      (first.after cs).line = 1 + cs.count '\n' ∧
      (first.after cs).column = 1 + (cs.reverse.takeWhile (· ≠ '\n')).length := by
  induction cs using List.reverseRecOn with
  | nil => exact ⟨rfl, rfl, rfl⟩
  | append_singleton cs c ih =>
      obtain ⟨offset, line, column⟩ := ih
      rw [after_append, after_singleton, String.ofList_append, String.utf8ByteSize_append,
        List.count_append, List.reverse_append, step]
      by_cases isBreak : c = '\n'
      · subst isBreak
        refine ⟨congrArg (· + _) offset, ?_, ?_⟩ <;> simp [line, Nat.add_assoc]
      · simp [isBreak, offset, line, column]
        omega

/-- A place behind some of a text is in the text. -/
theorem isIn_after {source : String} {before after : List Char}
    (split : before ++ after = source.toList) : (first.after before).IsIn source := by
  refine ⟨.ofList before, .ofList after, ?_, ?_⟩
  · rw [← String.ofList_append, split, String.ofList_toList]
  · rw [String.toList_ofList]
    exact counts_after before

theorem isIn_endOf (source : String) : (endOf source).IsIn source :=
  isIn_after (List.append_nil _)

/-- Going on never goes back. -/
theorem offset_le_after (position : Position) (cs : List Char) :
    position.offset ≤ (position.after cs).offset := by
  induction cs generalizing position with
  | nil => exact Nat.le_refl _
  | cons c cs ih =>
      refine Nat.le_trans ?_ (ih (position.step c))
      unfold step
      split <;> exact Nat.le_add_right _ _

/-- No position is beyond the end of the text. -/
theorem IsIn.le_endOf {source : String} {position : Position} (place : position.IsIn source) :
    position.offset ≤ (endOf source).offset := by
  obtain ⟨before, after, split, offset, _⟩ := place
  rw [endOf, (counts_after _).1, String.ofList_toList, offset, ← split,
    String.utf8ByteSize_append]
  exact Nat.le_add_right _ _

end Position

/-- A range of a text: its ends are positions of it, in order. -/
structure SourceRange.IsIn (source : String) (range : SourceRange) : Prop where
  start : range.start.IsIn source
  stop : range.stop.IsIn source
  ordered : range.start.offset ≤ range.stop.offset

/-- An empty range in a place of the text is in the text. -/
theorem SourceRange.isIn_empty {source : String} {position : Position}
    (within : position.IsIn source) : SourceRange.IsIn source ⟨position, position⟩ :=
  ⟨within, within, Nat.le_refl _⟩

namespace Lexer

variable {source : String} {position : Position}

/-- A piece that stands after given characters has a range of the text. -/
theorem isIn_piece {before after : List Char} {piece : Piece}
    (starts : position = Position.first.after before)
    (split : before ++ (piece.text ++ after) = source.toList) :
    SourceRange.IsIn source ⟨position, position.after piece.text⟩ where
  start := starts ▸ Position.isIn_after split
  stop := by
    rw [starts, ← Position.after_append]
    exact Position.isIn_after ((List.append_assoc ..).trans split)
  ordered := Position.offset_le_after _ _

/-- The tokens among pieces that follow given characters are in place and in order, none of them
before the place where the pieces start. -/
theorem tokensAt_isIn (spaced : Bool) (pieces : List Piece) (before : List Char)
    (starts : position = Position.first.after before)
    (split : before ++ pieces.flatMap (·.text) = source.toList) :
    (∀ token ∈ tokensAt position spaced pieces,
      token.range.IsIn source ∧ position.offset ≤ token.range.start.offset) ∧
    (tokensAt position spaced pieces).Pairwise
      fun token later => token.range.stop.offset ≤ later.range.start.offset := by
  induction pieces generalizing position spaced before with
  | nil => exact ⟨List.forall_mem_nil _, .nil⟩
  | cons piece rest ih =>
      have place := isIn_piece starts split
      have moved : position.after piece.text = Position.first.after (before ++ piece.text) := by
        rw [Position.after_append, ← starts]
      have later (spaced : Bool) := ih spaced _ moved ((List.append_assoc ..).trans split)
      have onward (spaced : Bool) : ∀ token ∈ tokensAt (position.after piece.text) spaced rest,
          token.range.IsIn source ∧ position.offset ≤ token.range.start.offset :=
        fun token member => ⟨((later spaced).1 token member).1,
          place.ordered.trans ((later spaced).1 token member).2⟩
      unfold tokensAt
      dsimp only
      split
      · exact ⟨onward true, (later true).2⟩
      · exact ⟨List.forall_mem_cons.mpr ⟨⟨place, Nat.le_refl _⟩, onward false⟩,
          List.pairwise_cons.mpr ⟨fun token member => ((later false).1 token member).2,
            (later false).2⟩⟩

/-- The problems of pieces are in their places. -/
theorem diagnosticsAt_isIn (pieces : List Piece) (before : List Char)
    (starts : position = Position.first.after before)
    (split : before ++ pieces.flatMap (·.text) = source.toList) :
    ∀ problem ∈ diagnosticsAt position pieces, problem.range.IsIn source := by
  induction pieces generalizing position before with
  | nil => exact List.forall_mem_nil _
  | cons piece rest ih =>
      have moved : position.after piece.text = Position.first.after (before ++ piece.text) := by
        rw [Position.after_append, ← starts]
      have later := ih _ moved ((List.append_assoc ..).trans split)
      unfold diagnosticsAt
      dsimp only
      split
      · exact later
      · exact List.forall_mem_cons.mpr ⟨isIn_piece starts split, later⟩

end Lexer

section

variable (source : String)

theorem isIn_tokenize : ∀ token ∈ (tokenize source).1, token.range.IsIn source :=
  fun token member =>
    ((Lexer.tokensAt_isIn false _ [] rfl (Lexer.flatMap_text_pieces _)).1 token member).1

/-- Each token starts where the one before has ended or later. -/
theorem ordered_tokenize : (tokenize source).1.Pairwise
    fun token later => token.range.stop.offset ≤ later.range.start.offset :=
  (Lexer.tokensAt_isIn false _ [] rfl (Lexer.flatMap_text_pieces _)).2

theorem isIn_lexical : ∀ problem ∈ (tokenize source).2, problem.range.IsIn source :=
  Lexer.diagnosticsAt_isIn _ [] rfl (Lexer.flatMap_text_pieces _)

end

/-! ### Readings of a text -/

namespace Reading

/-- A state that has read the first tokens of a text, with the others left. -/
structure IsOf (source : String) (reading : Reading) : Prop where
  split : ∃ read, read ++ reading.rest = (tokenize source).1 ∧ reading.last = read.getLast?
  finish : reading.finish = .endOf source
  problems : ∀ problem ∈ reading.problems, problem.range.IsIn source

variable {source : String} {reading : Reading}

/-- Each token that is left is in its place. -/
theorem IsOf.isIn_of_mem (reads : reading.IsOf source) {token : Token}
    (left : token ∈ reading.rest) : token.range.IsIn source := by
  obtain ⟨read, split, _⟩ := reads.split
  exact isIn_tokenize source token (split ▸ List.mem_append_right read left)

/-- Where a result is known, so is the reading that comes with it. -/
theorem IsOf.of_eq {α : Type} {result : α × Reading} {value : α} {after : Reading}
    (reads : result.2.IsOf source) (is : result = (value, after)) : after.IsOf source := by
  rwa [is] at reads

theorem IsOf.isIn_taken (reads : reading.IsOf source) {span : Span}
    (splits : span.Splits reading.rest) : ∀ token ∈ span.taken, token.range.IsIn source :=
  fun _ taken => reads.isIn_of_mem (splits ▸ List.mem_append_left _ taken)

/-- The place of the next token is in the text. -/
theorem IsOf.isIn_here (reads : reading.IsOf source) : reading.here.IsIn source := by
  unfold here
  split
  · exact reads.finish ▸ SourceRange.isIn_empty (Position.isIn_endOf source)
  · rename_i token rest there
    exact reads.isIn_of_mem (there ▸ List.mem_cons_self)

theorem start_eq (reading : Reading) : reading.start = reading.here.start := by
  unfold start here
  split <;> rfl

theorem IsOf.isIn_start (reads : reading.IsOf source) : reading.start.IsIn source :=
  reading.start_eq ▸ reads.isIn_here.start

/-- The last token read ends before the next one starts. -/
theorem IsOf.lastEnd_le_start (reads : reading.IsOf source) :
    reading.lastEnd.IsIn source ∧ reading.lastEnd.offset ≤ reading.start.offset := by
  obtain ⟨read, split, last⟩ := reads.split
  unfold lastEnd
  split
  · exact ⟨reads.isIn_start, Nat.le_refl _⟩
  · rename_i token isLast
    obtain ⟨before, rfl⟩ := List.getLast?_eq_some_iff.mp (last.symm.trans isLast)
    have place := isIn_tokenize source token (split ▸ by simp)
    refine ⟨place.stop, ?_⟩
    unfold start
    split
    · rw [reads.finish]
      exact place.stop.le_endOf
    · rename_i next rest there
      have ordered := ordered_tokenize source
      rw [← split, there, List.append_assoc, List.pairwise_append] at ordered
      exact (List.pairwise_cons.mp ordered.2.1).1 next List.mem_cons_self

/-! ### Steps -/

theorem IsOf.pass (reads : reading.IsOf source) {span : Span}
    (splits : span.Splits reading.rest) : (reading.pass span).IsOf source where
  split := by
    obtain ⟨read, split, last⟩ := reads.split
    refine ⟨read ++ span.taken, ?_, ?_⟩
    · rw [List.append_assoc]
      exact (congrArg (read ++ ·) splits).trans split
    · rw [List.getLast?_append, ← last]
      rfl
  finish := reads.finish
  problems := reads.problems

theorem IsOf.next (reads : reading.IsOf source) : reading.next.IsOf source := by
  unfold Reading.next
  split
  · exact reads
  · rename_i token rest there
    obtain ⟨read, split, last⟩ := reads.split
    refine ⟨⟨read ++ [token], ?_, by simp⟩, reads.finish, reads.problems⟩
    rw [List.append_assoc, List.singleton_append, ← there]
    exact split

theorem IsOf.skip (reads : reading.IsOf source) (text : String) :
    (reading.skip text).IsOf source := by
  unfold Reading.skip
  split
  · exact reads.next
  · exact reads

theorem IsOf.report (reads : reading.IsOf source) (message : String) {range : SourceRange}
    (place : range.IsIn source) : (reading.report message range).IsOf source where
  split := reads.split
  finish := reads.finish
  problems := List.forall_mem_cons.mpr ⟨place, reads.problems⟩

theorem IsOf.reportHere (reads : reading.IsOf source) (message : String) :
    (reading.report message reading.here).IsOf source := reads.report message reads.isIn_here

theorem IsOf.reportMissing (reads : reading.IsOf source) (text context : String) :
    (reading.reportMissing text context).IsOf source := reads.reportHere _

/-- A token that is expected is passed or reported in its place. -/
theorem IsOf.expect (reads : reading.IsOf source) (text context : String) :
    (reading.expect text context).IsOf source := by
  unfold Reading.expect
  split
  · exact reads.next
  · exact reads.reportMissing _ _

/-! ### Ranges that end with the last token read -/

/-- A range from an earlier place on is in the text, or empty. -/
theorem IsOf.sinceOrEmpty (reads : reading.IsOf source) {start : Position}
    (place : start.IsIn source) : (reading.sinceOrEmpty start).IsIn source := by
  unfold Reading.sinceOrEmpty
  split
  · exact ⟨place, reads.lastEnd_le_start.1, ‹_›⟩
  · exact SourceRange.isIn_empty place

variable {before after : Reading}

/-- Between two states of one text, the tokens read are those that are no longer left. -/
theorem IsOf.last_eq (first : before.IsOf source) (second : after.IsOf source)
    {between : List Token} (split : between ++ after.rest = before.rest) :
    after.last = between.getLast?.or before.last := by
  obtain ⟨read, whole, last⟩ := first.split
  obtain ⟨later, wholeLater, lastLater⟩ := second.split
  have same : later = read ++ between := by
    rw [← split, ← List.append_assoc, ← wholeLater] at whole
    exact (List.append_cancel_right whole).symm
  rw [lastLater, same, List.getLast?_append, last]

/-- From where a token is read on, a range ends with a later token. -/
theorem IsOf.since_of_consumes (first : before.IsOf source) (second : after.IsOf source)
    (consumes : before.Consumes after) : (after.since before.start).IsIn source := by
  obtain ⟨⟨between, split⟩, fewer⟩ := consumes
  refine ⟨first.isIn_start, second.lastEnd_le_start.1, ?_⟩
  have last := first.last_eq second split
  obtain ⟨read, whole, _⟩ := first.split
  cases between with
  | nil => exact absurd (congrArg List.length split) (Nat.ne_of_lt fewer)
  | cons head others =>
      have there : before.rest = head :: (others ++ after.rest) := split.symm
      have ordered := ordered_tokenize source
      rw [← whole, ← split, List.pairwise_append, List.pairwise_append] at ordered
      have isLast := List.getLast?_eq_getLast_of_ne_nil (List.cons_ne_nil head others)
      rw [isLast, Option.some_or] at last
      change before.start.offset ≤ after.lastEnd.offset
      simp only [start, there, lastEnd, last]
      rcases List.mem_cons.mp (List.getLast_mem (List.cons_ne_nil head others)) with same | later
      · rw [same]
        exact (first.isIn_of_mem (there ▸ List.mem_cons_self)).ordered
      · have headFirst := (first.isIn_of_mem (there ▸ List.mem_cons_self)).ordered
        have between := (List.pairwise_cons.mp ordered.2.1.1).1 _ later
        have lastOne := (first.isIn_of_mem (there ▸ List.mem_cons_of_mem head
          (List.mem_append_left _ later))).ordered
        exact headFirst.trans (between.trans lastOne)

/-- A range that ends with the last token read may go on to a later one. -/
theorem IsOf.since_of_onward (first : before.IsOf source) (second : after.IsOf source)
    {start : Position} (range : (before.since start).IsIn source) (onward : before.Onward after) :
    (after.since start).IsIn source := by
  refine ⟨range.start, second.lastEnd_le_start.1, ?_⟩
  by_cases same : before.rest.length ≤ after.rest.length
  · have left := onward.rest_eq same
    have same : [] ++ after.rest = before.rest := left
    have last := first.last_eq second same
    have ends : after.lastEnd = before.lastEnd := by
      have finish := second.finish.trans first.finish.symm
      simp only [List.getLast?_nil, Option.none_or] at last
      simp only [lastEnd, last, Reading.start, left, finish]
    exact range.ordered.trans (Nat.le_of_eq (congrArg Position.offset ends.symm))
  · have consumes : before.Consumes after := ⟨onward, Nat.lt_of_not_le same⟩
    exact range.ordered.trans (first.lastEnd_le_start.2.trans
      (first.since_of_consumes second consumes).ordered)

end Reading

end Transcode
