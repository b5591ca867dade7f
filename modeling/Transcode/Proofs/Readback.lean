import Transcode.Proofs.BodyItems
import Transcode.Proofs.Concatenation

/-!
# Bodies that are read back

The lines that statements are encoded as, put together as one text, are read back one by one: each
line of the text is read as what it was written for, at the same level (`bodies_read_back`). This is
so of every source that is read without a problem, since then no text that goes into a line is
empty, starts with a blank, goes over a line break or ends with a carriage return; only the text of
a statement must not be taken for a placeholder.
-/

namespace Transcode

open Text Output

/-! ### Texts in lines -/

namespace Text

variable {text : String}

/-- A text that stays whole at the end of a line: its last character is no carriage return. -/
def EndsWhole (text : String) : Prop := ∃ c ∈ text.toList.getLast?, c ≠ '\r'

/-- A text ends as its last part does. -/
theorem EndsWhole.append (whole : EndsWhole text) (first : String) : EndsWhole (first ++ text) := by
  obtain ⟨c, last, other⟩ := whole
  refine ⟨c, ?_, other⟩
  rw [String.toList_append, List.getLast?_append, last]
  rfl

/-- A text that ends whole is not empty. -/
theorem EndsWhole.ne_empty (whole : EndsWhole text) : text ≠ "" := by
  rintro rfl
  obtain ⟨_, none, _⟩ := whole
  cases none

/-- A text that is read back from a line of code. -/
structure IsReadable (text : String) : Prop where
  unbroken : Unbroken text
  filled : ∃ c ∈ text.toList.head?, ¬isBlank c
  whole : EndsWhole text
  noSlot : slotOf? text.toList = none

/-- A text on one line that starts plain and ends whole can be read back. -/
theorem IsReadable.of_starts (unbroken : Unbroken text) (plain : StartsPlain text)
    (whole : EndsWhole text) : IsReadable text where
  unbroken := unbroken
  filled := plain.imp fun _ starts => ⟨starts.1, starts.2.1⟩
  whole := whole
  noSlot := plain.slotOf?_eq_none

/-- A piece that ends whole loses nothing at its end. -/
theorem dropReturn_of_getLast? {piece : List Char} (whole : ∃ c ∈ piece.getLast?, c ≠ '\r') :
    dropReturn piece = piece := by
  obtain ⟨c, last, other⟩ := whole
  unfold dropReturn
  split
  · rename_i rest stripped
    rw [stripEnd?_eq_some_iff.mp stripped, List.getLast?_concat] at last
    exact absurd (Option.some.inj last).symm other
  · rfl

/-- Pieces that stay whole at their ends are lines as they are. -/
theorem linesOfPieces_eq_self {pieces : List (List Char)}
    (whole : ∀ piece ∈ pieces, ∃ c ∈ piece.getLast?, c ≠ '\r') : linesOfPieces pieces = pieces := by
  fun_induction linesOfPieces pieces with
  | case1 => rfl
  | case2 last empty =>
      obtain ⟨_, none, _⟩ := whole last List.mem_cons_self
      rw [List.isEmpty_iff.mp empty] at none
      cases none
  | case3 => rfl
  | case4 piece next others ih =>
      obtain ⟨here, later⟩ := List.forall_mem_cons.mp whole
      rw [dropReturn_of_getLast? here, ih later]

/-- Lines that are of one line each, and stay whole at their ends, are the lines of their text. -/
theorem lines_intercalate {texts : List String} (unbroken : ∀ text ∈ texts, Unbroken text)
    (whole : ∀ text ∈ texts, EndsWhole text) : lines ("\n".intercalate texts) = texts := by
  by_cases none : texts = []
  · rw [none]
    rfl
  · have pieces : splitWhere (· = '\n') (['\n'].intercalate (texts.map String.toList)) =
        texts.map String.toList := by
      refine splitWhere_intercalate (mt List.map_eq_nil_iff.mp none) fun piece member => ?_
      obtain ⟨text, listed, rfl⟩ := List.mem_map.mp member
      exact unbroken text listed
    have each : ∀ piece ∈ texts.map String.toList, ∃ c ∈ piece.getLast?, c ≠ '\r' := by
      intro piece member
      obtain ⟨text, listed, rfl⟩ := List.mem_map.mp member
      exact whole text listed
    rw [lines, String.toList_intercalate, show "\n".toList = ['\n'] from rfl, pieces,
      linesOfPieces_eq_self each, List.map_map]
    exact (List.map_congr_left fun text _ => String.ofList_toList).trans (List.map_id texts)

end Text

/-! ### Reading of lines -/

section Pad

variable {text : String} (level : Nat)

/-- Padding takes two bytes for each level. -/
theorem utf8ByteSize_bodyPad : (bodyPad level).utf8ByteSize = 2 * level := by
  have blanks (number : Nat) :
      (String.ofList (List.replicate number ' ')).utf8ByteSize = number := by
    induction number with
    | zero => rfl
    | succ number ih =>
        rw [List.replicate_succ', String.ofList_append, String.utf8ByteSize_append, ih]
        rfl
  exact blanks (2 * level)

/-- Padding is blank. -/
theorem isBlank_of_mem_bodyPad : ∀ c ∈ (bodyPad level).toList, isBlank c := by
  intro c member
  rw [bodyPad, String.toList_ofList] at member
  rw [List.eq_of_mem_replicate member]
  decide

/-- What is read of an indented text: its level, and the text itself. -/
theorem read_pad (filled : ∃ c ∈ text.toList.head?, ¬isBlank c) :
    lineLevel (bodyPad level ++ text).toList = level ∧
      trimStart (bodyPad level ++ text).toList = text.toList ∧
        ¬isBlankText (bodyPad level ++ text) := by
  obtain ⟨c, starts, other⟩ := filled
  obtain ⟨rest, same⟩ := List.head?_eq_some_iff.mp starts
  have blanks := isBlank_of_mem_bodyPad level
  rw [String.toList_append, same]
  refine ⟨?_, ?_, fun blank => ?_⟩
  · rw [lineLevel, List.takeWhile_append_of_pos blanks, List.takeWhile_cons_of_neg other,
      List.append_nil, String.ofList_toList, utf8ByteSize_bodyPad]
    exact Nat.mul_div_cancel_left level (by decide)
  · rw [trimStart_append, if_pos (trimStart_of_forall blanks), trimStart_cons_of_not_blank other]
  · rw [isBlankText, String.toList_append, same, List.all_append, List.all_cons] at blank
    exact other (Bool.and_eq_true_iff.mp (Bool.and_eq_true_iff.mp blank).2).1

end Pad

namespace Output.BodyLine

/-- A line of code with a text that is read back, or of a slot with a number. -/
def IsReadable : BodyLine → Prop
  | .code _ text => Text.IsReadable text
  | .slot _ name => ∃ number : Nat, name = toString number

variable {line : BodyLine}

/-- The text of a slot is of one line, starts with the mark of a loop and ends with a digit. -/
theorem slot_text (number : Nat) : Unbroken (loopMark ++ toString number) ∧
    (∃ c ∈ (loopMark ++ toString number).toList.head?, ¬isBlank c) ∧
      EndsWhole (loopMark ++ toString number) := by
  have digits : ∀ c ∈ (toString number).toList, c.isDigit := by
    intro c member
    have inDigits : c ∈ Nat.toDigits 10 number := by simpa using member
    exact Nat.isDigit_of_mem_toDigits (by decide) (by decide) inDigits
  refine ⟨.append (by decide) fun member => absurd (digits _ member) (by decide),
    ⟨'@', by rw [String.toList_append]; rfl, by decide⟩, .append ?_ loopMark⟩
  have filled : (toString number).toList ≠ [] := by simp [Nat.toDigits_ne_nil]
  refine ⟨_, List.getLast?_eq_some_getLast filled, fun same => ?_⟩
  exact absurd (digits _ (same ▸ List.getLast_mem filled)) (by decide)

/-- **A line** is read back as what it was written for. -/
theorem IsReadable.readLine? (readable : line.IsReadable) : readLine? line.written = some line := by
  cases line with
  | code level text =>
      obtain ⟨isLevel, isText, filled⟩ := read_pad level readable.filled
      rw [Output.readLine?, written, if_neg filled, slotOf?_pad, readable.noSlot, isLevel, isText,
        String.ofList_toList]
  | slot level name =>
      obtain ⟨number, rfl⟩ := readable
      obtain ⟨isLevel, _, filled⟩ := read_pad level (slot_text number).2.1
      rw [Output.readLine?, written, String.append_assoc, if_neg filled, slotOf?_pad,
        slotOf?_loopMark, isLevel]

/-- A line that can be read back is written on one line and ends whole. -/
theorem IsReadable.written (readable : line.IsReadable) :
    Unbroken line.written ∧ EndsWhole line.written := by
  cases line with
  | code level text =>
      exact ⟨(unbroken_bodyPad level).append readable.unbroken, readable.whole.append _⟩
  | slot level name =>
      obtain ⟨number, rfl⟩ := readable
      obtain ⟨unbroken, _, whole⟩ := slot_text number
      rw [BodyLine.written, String.append_assoc]
      exact ⟨(unbroken_bodyPad level).append unbroken, whole.append _⟩

end Output.BodyLine

/-- An item whose code is read back, or a loop. -/
def BodyItem.IsReadable (item : BodyItem) : Prop := ∀ text ∈ item.code?, Text.IsReadable text

/-- Items that are all read back. -/
def Readable (items : BodyItems) : Prop := ∀ entry ∈ items, entry.2.IsReadable

/-- The lines of items that can be read back can be. -/
theorem isReadable_of_mem_readings {items : BodyItems} (readable : Readable items) (slot : Nat) :
    ∀ line ∈ readings slot items, line.IsReadable := by
  induction items generalizing slot with
  | nil => exact List.forall_mem_nil _
  | cons entry rest ih =>
      obtain ⟨here, later⟩ := List.forall_mem_cons.mp readable
      rw [readings]
      split
      · rename_i text code
        exact List.forall_mem_cons.mpr ⟨here text code, ih later slot⟩
      · exact List.forall_mem_cons.mpr ⟨⟨slot, rfl⟩, ih later _⟩

/-- **A body** is read back line by line. -/
theorem read_bodyText {items : BodyItems} (readable : Readable items) :
    (lines (bodyText items)).map readLine? = (readings 0 items).map some := by
  have each := isReadable_of_mem_readings readable 0
  have texts : ∀ text ∈ (readings 0 items).map (·.written), Unbroken text ∧ EndsWhole text := by
    intro text member
    obtain ⟨line, listed, rfl⟩ := List.mem_map.mp member
    exact (each line listed).written
  rw [bodyText, lines_intercalate (fun text member => (texts text member).1)
    fun text member => (texts text member).2, List.map_map]
  exact List.map_congr_left fun line member => (each line member).readLine?

/-! ### Tokens of a text without problems -/

namespace Lexer

/-- A literal that is closed ends with its quote. -/
theorem exists_eq_of_spanQuoted {quote : Char} {cs taken left : List Char}
    (closed : spanQuoted quote cs = (taken, left, true)) : ∃ inside, taken = inside ++ [quote] := by
  fun_induction spanQuoted quote cs generalizing taken left with
  | case1 => cases closed
  | case2 => cases closed
  | case3 c rest other first more ends read ih =>
    cases closed
    obtain ⟨inside, rfl⟩ := ih read
    exact ⟨'\\' :: c :: inside, rfl⟩
  | case4 => cases closed
  | case5 =>
    cases closed
    exact ⟨[], rfl⟩
  | case6 c rest _ _ _ first more ends read ih =>
    cases closed
    obtain ⟨inside, rfl⟩ := ih read
    exact ⟨c :: inside, rfl⟩

/-- A token without a fault does not end with a carriage return. -/
theorem getLast?_nextPiece {c : Char} {rest : List Char} {kind : TokenKind}
    (isToken : (nextPiece c rest).1.kind = some kind) (sound : (nextPiece c rest).1.fault = none) :
    ∃ last ∈ (nextPiece c rest).1.text.getLast?, last ≠ '\r' := by
  have head : '\r' ≠ c := by
    rintro rfl
    exact not_isBlank_of_nextPiece isToken (by decide)
  have of_not_mem {text : List Char} (filled : text ≠ []) (free : '\r' ∉ text) :
      ∃ last ∈ text.getLast?, last ≠ '\r' :=
    ⟨_, List.getLast?_eq_some_getLast filled, fun same => free (same ▸ List.getLast_mem filled)⟩
  have while_ {test : Char → Bool} (fails : test '\r' = false) :
      ∃ last ∈ (c :: rest.takeWhile test).getLast?, last ≠ '\r' := by
    refine of_not_mem (List.cons_ne_nil _ _)
      (List.not_mem_cons_of_ne_of_not_mem head fun member => ?_)
    rw [List.mem_takeWhile_imp member] at fails
    cases fails
  -- A literal in quotes is closed by the sign that opens it.
  have quoted {taken left : List Char} {fault : LexicalFault} {closed : Bool}
      (read : spanQuoted c rest = (taken, left, closed))
      (sound : (if closed then none else some fault) = none) :
      ∃ last ∈ (c :: taken).getLast?, last ≠ '\r' := by
    obtain rfl : closed = true := by
      by_contra opened
      rw [if_neg opened] at sound
      cases sound
    obtain ⟨inside, rfl⟩ := exists_eq_of_spanQuoted read
    refine ⟨c, ?_, head.symm⟩
    rw [← List.cons_append, List.getLast?_concat]
    rfl
  have operator {operator left : List Char}
      (found : longOperator? (c :: rest) = some (operator, left)) :
      ∃ last ∈ operator.getLast?, last ≠ '\r' := by
    have none : ∀ operator ∈ longOperators, '\r' ∉ operator := by decide
    obtain ⟨candidate, member, taken⟩ := List.exists_of_findSome?_eq_some found
    obtain ⟨_, _, same⟩ := Option.map_eq_some_iff.mp taken
    obtain ⟨rfl, _⟩ := Prod.mk.inj same
    exact of_not_mem (longOperator?_ne_nil found) (none _ member)
  revert isToken sound
  fun_cases nextPiece c rest with
  | case1 | case2 | case3 => rintro ⟨⟩
  | case4 => exact fun _ _ => while_ (by decide +kernel)
  | case5 => exact fun _ _ => while_ (by decide +kernel)
  | case6 _ _ _ _ _ _ taken left closed read => exact fun _ => quoted read
  | case7 _ _ _ _ _ _ _ taken left closed read => exact fun _ => quoted read
  | case8 _ _ _ _ _ _ _ sign left found => exact fun _ _ => operator found
  | case9 => exact fun _ _ => ⟨c, rfl, head.symm⟩

end Lexer

/-- Where nothing is wrong with the tokens, they end whole. -/
theorem endsWhole_tokenize {source : String} (sound : (tokenize source).2 = []) :
    ∀ token ∈ (tokenize source).1, EndsWhole token.text := by
  intro token member
  obtain ⟨piece, listed, isKind, text⟩ := Lexer.exists_piece_of_mem_tokensAt _ _ _ token member
  have noFault : piece.fault = none := Lexer.diagnosticsAt_eq_nil_iff.mp sound piece listed
  obtain ⟨c, rest, rfl⟩ := Lexer.exists_nextPiece_of_mem _ _ piece listed
  rw [EndsWhole, text, String.toList_ofList]
  exact Lexer.getLast?_nextPiece isKind noFault

/-- Tokens that end whole do so joined. -/
theorem Token.endsWhole_join {head : Token} {others : List Token}
    (whole : ∀ token ∈ head :: others, EndsWhole token.text) :
    EndsWhole (join (head :: others)) := by
  have goesOn (text : String) (ends : EndsWhole text) (tokens : List Token)
      (whole : ∀ token ∈ tokens, EndsWhole token.text) :
      EndsWhole (text ++ String.join (tokens.map textAfterGap)) := by
    induction tokens generalizing text with
    | nil =>
        rw [List.map_nil, String.join_nil, String.append_empty]
        exact ends
    | cons token rest ih =>
        obtain ⟨here, later⟩ := List.forall_mem_cons.mp whole
        rw [List.map_cons, String.join_cons, ← String.append_assoc]
        refine ih _ (.append ?_ text) later
        unfold textAfterGap
        split
        · exact here.append " "
        · exact here
  obtain ⟨first, later⟩ := List.forall_mem_cons.mp whole
  exact goesOn head.text first others later

/-! ### Statements of a text without problems -/

namespace SyntaxTree

/-- The text of a plain statement or return ends whole. -/
def EndsWhole (tree : SyntaxTree) : Prop :=
  tree.kind = .statement ∨ tree.kind = .returnStmt → Text.EndsWhole (tree.textAt "text")

end SyntaxTree

namespace Parser

open SyntaxTree

/-- Of tokens that end whole statements that end whole are made. -/
theorem wholeTexts : LineTexts (Text.EndsWhole ·.text) SyntaxTree.EndsWhole where
  other other := by
    rintro (isKind | isKind) <;> exact absurd (by rw [isKind]; decide) other
  block isBlock _ := by
    rintro (isKind | isKind) <;> cases isBlock.symm.trans isKind
  put {tree key} whole other text isKind := by
    simp only [List.mem_cons, List.not_mem_nil, or_false, not_or] at other
    rw [textAt_put_of_ne other.1]
    exact whole isKind
  withRange whole _ := whole
  plain whole _ _ _ ends children range _ := by
    rw [textAt_put_of_none rfl]
    rcases ends with rfl | rfl
    · rw [String.append_empty]
      exact Token.endsWhole_join whole
    · exact .append ⟨';', rfl, by decide⟩ _
  label {token} _ _ tree whole := by
    unfold putLabel
    split
    · rename_i isText
      rw [Bool.or_eq_true, decide_eq_true_eq, decide_eq_true_eq] at isText
      intro _
      have ends := (whole isText).append (token.text ++ ": ")
      rw [textAt_put ends.ne_empty]
      exact ends
    · rename_i noText
      rw [Bool.or_eq_true, decide_eq_true_eq, decide_eq_true_eq] at noText
      exact fun isText => absurd isText noText
  branch _ _ _ := by
    rintro (isKind | isKind) <;> cases isKind

end Parser

namespace SyntaxTree

/-- The texts of a statement that go into lines are read back. -/
structure ReadsBack (tree : SyntaxTree) : Prop where
  legible : tree.IsLegible
  unmarked : tree.IsUnmarked
  whole : tree.EndsWhole

variable {tree : SyntaxTree}

/-- The text of a statement that reads back can be. -/
theorem ReadsBack.isReadable (reads : tree.ReadsBack)
    (isText : tree.kind = .statement ∨ tree.kind = .returnStmt) :
    IsReadable (tree.textAt "text") := by
  obtain ⟨legible, unmarked, whole⟩ := reads
  replace whole := whole isText
  rcases isText with isKind | isKind
  · have free := unmarked isKind
    simp only [IsLegible, isKind] at legible
    obtain ⟨unbroken, flush⟩ := legible
    refine ⟨unbroken, ?_, whole, slotOf?_of_not_prefix flush free⟩
    obtain ⟨c, rest, same⟩ := List.exists_cons_of_ne_nil
      (mt String.toList_eq_nil_iff.mp whole.ne_empty)
    have starts := List.head?_dropWhile_not isBlank (tree.textAt "text").toList
    rw [show (tree.textAt "text").toList.dropWhile isBlank = _ from flush, same] at starts
    exact ⟨c, by rw [same]; rfl, by simpa using starts⟩
  · simp only [IsLegible, isKind] at legible
    exact .of_starts legible.1 legible.2 whole

/-- A text behind a label starts as the label does. -/
theorem isReadable_labelled {label : Option String} {text : String}
    (labels : ∀ given ∈ label, Unbroken given ∧ StartsPlain given) (unbroken : Unbroken text)
    (plain : StartsPlain text) (whole : Text.EndsWhole text) :
    IsReadable (BodyItem.labelled label text) := by
  cases label with
  | none => exact .of_starts unbroken plain whole
  | some label =>
      obtain ⟨labelUnbroken, labelPlain⟩ := labels label rfl
      exact .of_starts ((labelUnbroken.append (by decide)).append unbroken)
        ((labelPlain.append ": ").append text) (whole.append _)

/-- Where there are no items there is nothing to be read. -/
theorem readable_getD {items? : Option BodyItems} (readable : ∀ items ∈ items?, Readable items) :
    Readable (items?.getD []) := by
  cases items? with
  | none => exact List.forall_mem_nil _
  | some items => exact readable items rfl

mutual

/-- The items of a statement can be read back. -/
theorem readable_items : ∀ {tree : SyntaxTree}, tree.Everywhere ReadsBack →
    ∀ (isBranch : Bool) (level : Nat), Readable (tree.items isBranch level)
  | ⟨kind, name, children, range, attributes⟩, ⟨here, below⟩, isBranch, level => by
    have closing : Readable [(level, .close)] := by
      refine List.forall_mem_singleton.mpr ?_
      rintro _ ⟨⟩
      exact .of_starts (by decide) ⟨'\x7d', rfl, by decide⟩ ⟨'\x7d', rfl, by decide⟩
    have branch (number level : Nat) : Readable ((branchItems number level children).getD []) :=
      readable_getD (readable_branchItems below number level)
    unfold items
    cases kind
    case statement | returnStmt =>
      refine List.forall_mem_singleton.mpr ?_
      rintro _ ⟨⟩
      exact here.isReadable (by simp)
    case block =>
      dsimp only
      split
      · exact readable_itemsOf below level
      · refine List.forall_mem_append.mpr ⟨List.forall_mem_cons.mpr ⟨?_, readable_itemsOf below _⟩,
          closing⟩
        rintro _ ⟨⟩
        exact isReadable_labelled here.legible (by decide) ⟨'\x7b', rfl, by decide⟩
          ⟨'\x7b', rfl, by decide⟩
    case branch =>
      obtain ⟨labels, condition⟩ := here.legible
      refine List.forall_mem_append.mpr ⟨List.forall_mem_append.mpr
        ⟨List.forall_mem_cons.mpr ⟨?_, branch 0 _⟩, ?_⟩, closing⟩
      · rintro _ ⟨⟩
        refine isReadable_labelled labels
          (.append (.append (by decide) condition) (by decide)) ?_ ?_
        · rw [String.append_assoc]
          exact .append ⟨'i', rfl, by decide⟩ _
        · exact .append ⟨'\x7b', rfl, by decide⟩ _
      · refine readable_getD fun items made => ?_
        obtain ⟨others, there, rfl⟩ := Option.map_eq_some_iff.mp made
        refine List.forall_mem_cons.mpr ⟨?_, readable_branchItems below 1 _ others there⟩
        rintro _ ⟨⟩
        exact .of_starts (by decide) ⟨'\x7d', rfl, by decide⟩ ⟨'\x7b', rfl, by decide⟩
    case forLoop | whileLoop | doLoop =>
      refine List.forall_mem_singleton.mpr ?_
      rintro _ ⟨⟩
    all_goals exact List.forall_mem_nil _

/-- The items of statements can be read back. -/
theorem readable_itemsOf : ∀ {trees : List SyntaxTree}, AllEverywhere ReadsBack trees →
    ∀ level : Nat, Readable (itemsOf level trees)
  | [], _, _ => by
    unfold itemsOf
    exact List.forall_mem_nil _
  | _ :: _, ⟨first, rest⟩, level => by
    unfold itemsOf
    exact List.forall_mem_append.mpr ⟨readable_items first false level,
      readable_itemsOf rest level⟩

/-- The items of branches can be read back. -/
theorem readable_branchItems : ∀ {trees : List SyntaxTree}, AllEverywhere ReadsBack trees →
    ∀ number level : Nat, ∀ items ∈ branchItems number level trees, Readable items
  | [], _, _, _, _, made => by
    unfold branchItems at made
    cases made
  | _ :: _, ⟨first, rest⟩, number, level, items, made => by
    unfold branchItems at made
    split at made
    · exact readable_branchItems rest number level items made
    · cases number with
      | zero =>
          cases made
          exact readable_items first true level
      | succ number => exact readable_branchItems rest number level items made

end

mutual

/-- The bodies of the loops of a statement can be read back. -/
theorem readable_loopBodies : ∀ {tree : SyntaxTree}, tree.Everywhere ReadsBack →
    ∀ body ∈ tree.loopBodies, Readable body
  | ⟨kind, name, children, range, attributes⟩, ⟨_, below⟩ => by
    unfold loopBodies
    cases kind
    case block => exact readable_loopBodiesOf below
    case branch =>
      exact List.forall_mem_append.mpr
        ⟨readable_branchLoopBodies below 0, readable_branchLoopBodies below 1⟩
    case forLoop | whileLoop | doLoop =>
      exact List.forall_mem_cons.mpr ⟨readable_getD (readable_branchItems below 0 0),
        readable_branchLoopBodies below 0⟩
    all_goals exact List.forall_mem_nil _

/-- The bodies of the loops of statements can be read back. -/
theorem readable_loopBodiesOf : ∀ {trees : List SyntaxTree}, AllEverywhere ReadsBack trees →
    ∀ body ∈ loopBodiesOf trees, Readable body
  | [], _ => by
    unfold loopBodiesOf
    exact List.forall_mem_nil _
  | _ :: _, ⟨first, rest⟩ => by
    unfold loopBodiesOf
    exact List.forall_mem_append.mpr ⟨readable_loopBodies first, readable_loopBodiesOf rest⟩

/-- The bodies of the loops of branches can be read back. -/
theorem readable_branchLoopBodies : ∀ {trees : List SyntaxTree}, AllEverywhere ReadsBack trees →
    ∀ number : Nat, ∀ body ∈ branchLoopBodies number trees, Readable body
  | [], _, _ => by
    unfold branchLoopBodies
    exact List.forall_mem_nil _
  | _ :: _, ⟨first, rest⟩, number => by
    unfold branchLoopBodies
    split
    · exact readable_branchLoopBodies rest number
    · cases number with
      | zero => exact readable_loopBodies first
      | succ number => exact readable_branchLoopBodies rest number

end

/-- The bodies of a callable can be read back. -/
theorem readable_callableBodies (reads : tree.Everywhere ReadsBack) :
    ∀ body ∈ tree.callableBodies, Readable body := by
  unfold callableBodies
  split
  · rename_i body first
    have member : body ∈ tree.children := (List.mem_filter.mp (List.mem_of_head? first)).1
    have below := (everywhere_iff.mp ((everywhere_iff.mp reads).2 body member)).2
    exact List.forall_mem_cons.mpr ⟨readable_itemsOf (allEverywhere_iff.mpr below) 0,
      readable_loopBodiesOf (allEverywhere_iff.mpr below)⟩
  · exact List.forall_mem_nil _

mutual

/-- The bodies of a declaration can be read back. -/
theorem readable_declaredBodies : ∀ {tree : SyntaxTree}, tree.Everywhere ReadsBack →
    ∀ body ∈ tree.declaredBodies, Readable body
  | ⟨kind, name, children, range, attributes⟩, reads => by
    unfold declaredBodies
    cases kind
    case classDecl | interfaceDecl => exact readable_declaredBodiesOf reads.2
    case method | constructor => exact readable_callableBodies reads
    all_goals exact List.forall_mem_nil _

/-- The bodies of declarations can be read back. -/
theorem readable_declaredBodiesOf : ∀ {trees : List SyntaxTree}, AllEverywhere ReadsBack trees →
    ∀ body ∈ declaredBodiesOf trees, Readable body
  | [], _ => by
    unfold declaredBodiesOf
    exact List.forall_mem_nil _
  | _ :: _, ⟨first, rest⟩ => by
    unfold declaredBodiesOf
    exact List.forall_mem_append.mpr ⟨readable_declaredBodies first,
      readable_declaredBodiesOf rest⟩

end

/-- All bodies of a tree can be read back. -/
theorem readable_bodies (reads : tree.Everywhere ReadsBack) :
    ∀ body ∈ tree.bodies, Readable body := by
  unfold bodies
  split
  · exact readable_declaredBodiesOf (allEverywhere_iff.mpr (everywhere_iff.mp reads).2)
  · exact readable_declaredBodies reads

end SyntaxTree

/-- **Bodies are read back.** A source without problems has a graph. Its bodies, in the order in
which the nodes were created, are the bodies of all methods, constructors and loops in the source,
and each line of a body is read as the item that it was written for, at its level. -/
theorem bodies_read_back {source : String} {parsed : ParsedSource}
    (read : parseSource source = .ok parsed) (clean : parsed.diagnostics = [])
    (unmarked : parsed.tree.Everywhere SyntaxTree.IsUnmarked) :
    ∃ graph, buildGraph parsed.tree = .ok graph ∧
      graph.bodies.map (fun body => (lines body).map readLine?) =
        parsed.tree.bodies.map fun items => (readings 0 items).map some := by
  obtain ⟨graph, built⟩ := exists_buildGraph read
  have sound : (tokenize source).2 = [] := by
    unfold parseSource at read
    split at read
    · cases read
    · cases read
      exact (List.append_eq_nil_iff.mp clean).1
  have whole := Parser.wholeTexts.everywhere_parseSource (endsWhole_tokenize sound) read
  have reads : parsed.tree.Everywhere SyntaxTree.ReadsBack :=
    (((everywhere_legible read).and unmarked).and whole).imp fun _ all => ⟨all.1.1, all.1.2, all.2⟩
  refine ⟨graph, built, ?_⟩
  rw [bodies_buildGraph built, List.map_map]
  exact List.map_congr_left fun items member =>
    read_bodyText (SyntaxTree.readable_bodies reads items member)

/-- A method with a block that has a label, a branch, and a loop as the other branch. -/
theorem bodies_read_back_branches :
    let source :=
      "class A \x7b void f() \x7b a: \x7b if (x) g(); else while (y) return; \x7d \x7d \x7d"
    ∃ parsed : ParsedSource, parseSource source = .ok parsed ∧ parsed.diagnostics = [] ∧
      parsed.tree.Everywhere SyntaxTree.IsUnmarked ∧
      parsed.tree.bodies =
        [[(0, .block (some "a")), (1, .branch none "x"), (2, .statement "g();"), (1, .alternative),
          (2, .loop), (1, .close), (0, .close)], [(0, .statement "return;")]] ∧
      ∃ graph, buildGraph parsed.tree = .ok graph ∧
        graph.bodies.map (fun body => (lines body).map readLine?) =
          parsed.tree.bodies.map fun items => (readings 0 items).map some := by
  intro source
  obtain ⟨parsed, read, tested⟩ : ∃ parsed, parseSource source = .ok parsed ∧
      decide (parsed.diagnostics = [] ∧ parsed.tree.Everywhere SyntaxTree.IsUnmarked ∧
        parsed.tree.bodies =
          [[(0, .block (some "a")), (1, .branch none "x"), (2, .statement "g();"),
            (1, .alternative), (2, .loop), (1, .close), (0, .close)],
              [(0, .statement "return;")]]) :=
    exists_tested (by decide +kernel)
  obtain ⟨clean, unmarked, shown⟩ := of_decide_eq_true tested
  exact ⟨parsed, read, clean, unmarked, shown, bodies_read_back read clean unmarked⟩

end Transcode
