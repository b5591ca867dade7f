import Transcode.Proofs.Encoding
import Transcode.Proofs.Positions
import Transcode.Proofs.Unbounded

/-!
# Ranges of what is read

Whatever the parser reads, the trees that it makes and the problems that it reports have ranges of
the text, function by function and in the order of the parser. A range that runs through the last
token read is in order since a token was read from its start on. Only a bound that is used up would
give an empty range that ends before it starts; so the bounds must suffice.
-/

namespace Transcode

/-- A tree of a text: its range and those of all trees in it are ranges of the text. -/
def SyntaxTree.IsIn (source : String) (tree : SyntaxTree) : Prop :=
  tree.Everywhere (·.range.IsIn source)

namespace SyntaxTree

variable {source : String} {tree : SyntaxTree}

/-- A tree is in place if its own range is and its children are. -/
theorem isIn_iff :
    tree.IsIn source ↔ tree.range.IsIn source ∧ ∀ child ∈ tree.children, child.IsIn source :=
  everywhere_iff

/-- Texts do not matter. -/
theorem IsIn.put (place : tree.IsIn source) (key text : String) :
    (tree.put key text).IsIn source := by
  obtain ⟨here, below⟩ := isIn_iff.mp place
  exact isIn_iff.mpr ⟨here, below⟩

/-- A tree that gets another range in place stays in place. -/
theorem IsIn.withRange (place : tree.IsIn source) {range : SourceRange}
    (within : range.IsIn source) : { tree with range }.IsIn source :=
  isIn_iff.mpr ⟨within, (isIn_iff.mp place).2⟩

end SyntaxTree

namespace Parser

open Reading SyntaxTree Transcode.Span

variable {source : String} {reading : Reading}

/-- A tree of a text, and a state that reads the text. -/
def Fits (source : String) (result : SyntaxTree × Reading) : Prop :=
  result.1.IsIn source ∧ result.2.IsOf source

/-- Trees of a text, and a state that reads the text. -/
def AllFit (source : String) (result : List SyntaxTree × Reading) : Prop :=
  (∀ tree ∈ result.1, tree.IsIn source) ∧ result.2.IsOf source

theorem AllFit.nil (reads : reading.IsOf source) : AllFit source ([], reading) :=
  ⟨List.forall_mem_nil _, reads⟩

theorem AllFit.single {tree : SyntaxTree} (place : tree.IsIn source) (reads : reading.IsOf source) :
    AllFit source ([tree], reading) := ⟨List.forall_mem_singleton.mpr place, reads⟩

/-- A tree in place before others that are. -/
theorem AllFit.cons {tree : SyntaxTree} {result : List SyntaxTree × Reading}
    (first : tree.IsIn source) (others : AllFit source result) :
    AllFit source (tree :: result.1, result.2) :=
  ⟨List.forall_mem_cons.mpr ⟨first, others.1⟩, others.2⟩

theorem isIn_putPreamble (preamble : Preamble) {tree : SyntaxTree} (place : tree.IsIn source) :
    (putPreamble preamble tree).IsIn source := (place.put _ _).put _ _

/-! ### Groups and faults -/

theorem isIn_faultNode {range : SourceRange} (place : range.IsIn source) (tokens : List Token) :
    (faultNode range tokens).IsIn source := isIn_iff.mpr ⟨place, List.forall_mem_nil _⟩

theorem isIn_emptyBlock {start : Position} (place : (reading.since start).IsIn source) :
    (emptyBlock start reading).IsIn source := isIn_iff.mpr ⟨place, List.forall_mem_nil _⟩

/-- What is called stands among the tokens. -/
theorem mem_of_mem_callees {created : Bool} {tokens : List Token} {token : Token}
    (called : token ∈ Token.callees created tokens) : token ∈ tokens := by
  fun_induction Token.callees created tokens with
  | case1 created first next rest _ ih =>
    rcases List.mem_cons.mp called with rfl | later
    · exact List.mem_cons_self
    · exact List.mem_cons_of_mem first (ih later)
  | case2 created first next rest _ ih => exact List.mem_cons_of_mem first (ih called)
  | case3 => exact absurd called List.not_mem_nil

/-- Calls have the ranges of their tokens. -/
theorem isIn_callNodes {tokens : List Token} (each : ∀ token ∈ tokens, token.range.IsIn source) :
    ∀ tree ∈ callNodes tokens, tree.IsIn source := by
  intro tree member
  obtain ⟨token, called, rfl⟩ := List.mem_map.mp member
  exact isIn_iff.mpr ⟨each token (mem_of_mem_callees called), List.forall_mem_nil _⟩

/-- The fault and the problem of giving up have the range of what is passed. -/
theorem fits_giveUp (message : String) {span : Span} (splits : span.Splits reading.rest)
    (reads : reading.IsOf source) : Fits source (giveUp message span reading) := by
  have after := reads.pass splits
  have place := after.sinceOrEmpty reads.isIn_start
  exact ⟨isIn_faultNode place _, after.report message place⟩

theorem fits_recover (message : String) (reads : reading.IsOf source) :
    Fits source (recover message reading) := fits_giveUp message (splits_recovery 0 _) reads

/-- What is left behind angle brackets is of the text, and so are the problems. -/
theorem isOf_angleGroup (reads : reading.IsOf source) : (angleGroup reading).2.IsOf source := by
  have after := reads.pass (splits_angles 0 _)
  unfold angleGroup
  dsimp only
  split
  · exact after
  · exact after.reportHere _

/-- What is left behind type parameters is of the text. -/
theorem isOf_typeParameters (reads : reading.IsOf source) :
    (typeParameters reading).2.IsOf source := by
  unfold typeParameters
  split
  · exact isOf_angleGroup reads
  · exact reads

/-- The tokens of a group are in place too. -/
theorem isOf_roundGroup (reads : reading.IsOf source) :
    (∀ token ∈ (roundGroup reading).1, token.range.IsIn source) ∧
      (roundGroup reading).2.2.IsOf source := by
  have splits := splits_group 0 reading.next.rest
  have inside := reads.next.pass splits
  unfold roundGroup
  split
  · dsimp only
    split
    · split
      · exact ⟨reads.next.isIn_taken splits, inside.next⟩
      · exact ⟨reads.next.isIn_taken splits, inside.reportHere _⟩
    · exact ⟨List.forall_mem_nil _, reads.reportMissing _ _⟩
  · exact ⟨List.forall_mem_nil _, reads.reportMissing _ _⟩

/-! ### Types, modifiers and annotations -/

/-- What is left behind a type is of the text. -/
theorem isOf_typeText (reads : reading.IsOf source) : (typeText reading).2.IsOf source := by
  cases there : reading.rest with
  | nil =>
      unfold typeText
      rwa [there]
  | cons head rest =>
      by_cases starts : !head.isIdent || (isKeyword head.text && !isTypeWord head.text)
      · unfold typeText
        rw [there]
        dsimp only
        rwa [if_pos starts]
      · rw [typeText_cons there starts]
        have named : (reading.next.pass (qualifiers rest)).IsOf source := by
          refine reads.next.pass ?_
          rw [next, there]
          exact splits_qualifiers rest
        exact ((isOf_typeParameters named).pass (splits_arrayMarks _)).skip _

/-- What is left behind types between commas is of the text. -/
theorem isOf_typesWithin (bound : Nat) (reads : reading.IsOf source) :
    (typesWithin bound reading).2.IsOf source := by
  induction bound generalizing reading with
  | zero => exact reads
  | succ bound ih =>
      have first := isOf_typeText reads
      unfold typesWithin
      split <;> rename_i typed <;> rw [typed] at first
      · exact first
      · split
        · exact ih first.next
        · exact first

theorem isOf_typeList (reads : reading.IsOf source) : (typeList reading).2.IsOf source := by
  have types := isOf_typesWithin (reading.rest.length + 1) reads
  unfold typeList
  dsimp only
  split
  · exact types.reportHere _
  · exact types

theorem isOf_heritage (word : String) (reads : reading.IsOf source) :
    (heritage word reading).2.IsOf source := by
  unfold heritage
  split
  · exact isOf_typeList reads.next
  · exact reads

theorem isOf_annotationTag (reads : reading.IsOf source) :
    (annotationTag reading).2.IsOf source := by
  have named := reads.next.pass (splits_dottedNames _)
  unfold annotationTag
  dsimp only
  split
  · exact (isOf_roundGroup named).2
  · exact named

/-- What is left behind modifiers and annotations is of the text. -/
theorem isOf_preambleWithin (bound : Nat) (reads : reading.IsOf source) :
    (preambleWithin bound reading).2.IsOf source := by
  induction bound generalizing reading with
  | zero => exact reads
  | succ bound ih =>
      unfold preambleWithin
      split
      · exact reads
      split
      · exact ih (isOf_annotationTag reads)
      split
      · exact ih reads.next
      · exact reads

theorem isOf_preamble (reads : reading.IsOf source) : (preamble reading).2.IsOf source :=
  isOf_preambleWithin _ reads

/-! ### Statements -/

/-- A plain statement has the range from its first token to its last. -/
theorem fits_plainStatement {head : Token} {rest : List Token}
    (there : reading.rest = head :: rest) (reads : reading.IsOf source) :
    Fits source (plainStatement head reading) := by
  have place : head.range.IsIn source := reads.isIn_of_mem (there ▸ List.mem_cons_self)
  unfold plainStatement
  split
  · exact ⟨isIn_faultNode place _, reads.next.report _ place⟩
  · rename_i opens
    let endsWithBlock := blockStatementWords.contains head.text
    have splits := splits_plainStatement endsWithBlock 0 reading.rest
    have after := reads.pass splits
    have consumes : reading.Consumes
        (reading.pass (.plainStatement endsWithBlock 0 reading.rest)) := by
      have read := consumes_plainStatement there
      unfold plainStatement at read
      rw [if_neg opens] at read
      dsimp only at read
      split at read <;> exact read
    have node (kind : SyntaxKind) (text : String) : (SyntaxTree.put {
        kind, children := callNodes (Span.plainStatement endsWithBlock 0 reading.rest).taken
        range := (reading.pass (.plainStatement endsWithBlock 0 reading.rest)).since
          reading.start } "text" text).IsIn source :=
      isIn_iff.mpr ⟨reads.since_of_consumes after consumes,
        isIn_callNodes (reads.isIn_taken splits)⟩
    dsimp only
    split
    · exact ⟨node _ _, after⟩
    · exact ⟨node _ _, after.reportHere _⟩

/-- The problem of a malformed header has the range of the header. -/
theorem isOf_forNode (header : List Token) {start : Position} (reads : reading.IsOf source)
    (place : (reading.since start).IsIn source) :
    (forNode header start reading).2.IsOf source := by
  unfold forNode
  dsimp only
  split
  · exact reads
  · exact reads.report _ place

/-- A label moves the start of a range to its own, which is in place. -/
theorem isIn_putLabel (label : String) {tree : SyntaxTree} (place : tree.IsIn source) :
    (putLabel label tree).IsIn source := by
  unfold putLabel
  split <;> exact place.put _ _

/-- A conditional is in place with its calls and branches. -/
theorem isIn_conditional (kind : SyntaxKind) {condition : List Token} {range : SourceRange}
    {branches : List SyntaxTree} (each : ∀ token ∈ condition, token.range.IsIn source)
    (place : range.IsIn source) (inside : ∀ tree ∈ branches, tree.IsIn source) :
    (conditional kind condition range branches).IsIn source :=
  isIn_iff.mpr ⟨place, List.forall_mem_append.mpr ⟨isIn_callNodes each, inside⟩⟩

mutual

/-- A block has the range from the brace that opens it on. -/
theorem fits_blockWithin : ∀ (bound : Nat) {reading : Reading}, reading.IsOf source →
    reading.sees "\x7b" → Call.Suffices ⟨bound, .block, reading⟩ →
      Fits source (blockWithin bound reading)
  | 0, _, _, _, enough => absurd (Call.bound_pos enough) (Nat.lt_irrefl 0)
  | bound + 1, reading, reads, opens, enough => by
    have inside := fit_statementsWithin bound reads.isIn_here
      (reads.expect "\x7b" "to open block") (Call.Calls.statements.suffices enough)
    have consumes := consumes_blockWithin bound opens
    unfold blockWithin at consumes ⊢
    exact ⟨isIn_iff.mpr ⟨reads.since_of_consumes inside.2 consumes, inside.1⟩, inside.2⟩

/-- Statements are in place one by one. -/
theorem fit_statementsWithin : ∀ (bound : Nat) {opening : SourceRange} {reading : Reading},
    opening.IsIn source → reading.IsOf source →
      Call.Suffices ⟨bound, .statements opening, reading⟩ →
        AllFit source (statementsWithin bound opening reading)
  | 0, _, _, _, reads, _ => by
    unfold statementsWithin
    exact .nil reads
  | bound + 1, opening, reading, place, reads, enough => by
    unfold statementsWithin
    split
    · exact .nil (reads.report _ place)
    split
    · exact .nil reads.next
    · have first := fit_statementWithin bound reads
        (Call.Calls.suffices (.statement ‹_› ‹_›) enough)
      have others := fit_statementsWithin bound place first.2
        (Call.Calls.suffices (.laterStatements ‹_› ‹_›) enough)
      exact ⟨List.forall_mem_append.mpr ⟨first.1, others.1⟩, others.2⟩

/-- A statement is in place with those inside it. -/
theorem fit_statementWithin : ∀ (bound : Nat) {reading : Reading}, reading.IsOf source →
    Call.Suffices ⟨bound, .statement, reading⟩ →
      AllFit source ((statementWithin bound reading).1.toList, (statementWithin bound reading).2)
  | 0, _, reads, _ => by
    unfold statementWithin
    exact .nil reads
  | bound + 1, reading, reads, enough => by
    cases there : reading.rest with
    | nil =>
        unfold statementWithin
        rw [there]
        exact .nil reads
    | cons head rest =>
        have more := Call.not_done_of_cons there
        have named := consumes_next more
        have since {after : Reading} (later : after.IsOf source)
            (onward : reading.next.Onward after) : (after.since reading.start).IsIn source :=
          reads.since_of_consumes later (named.onward onward)
        have group := isOf_roundGroup reads.next
        have afterGroup := (proceeds_roundGroup reading.next).onward
        have governed (is : reading.sees "if" ∨ reading.sees "while") :=
          fits_bodyWithin bound group.2 (since group.2 afterGroup)
            (Call.Calls.suffices (.governed is) enough)
        have sees {text : String} (is : head.is text) : reading.sees text :=
          Call.sees_of_head there is
        unfold statementWithin
        simp only [there]
        split
        · have twice := onward_next reading.next
          have body := fits_bodyWithin bound reads.next.next (since reads.next.next twice)
            (Call.Calls.suffices (.labelled more) enough)
          refine .single ((isIn_putLabel _ body.1).withRange ?_) body.2
          exact since body.2 (twice.trans (proceeds_bodyWithin bound _ _).onward)
        split
        · exact .nil reads.next
        split
        · have inner := fits_blockWithin bound reads (sees ‹_›)
            (Call.Calls.suffices (.innerBlock (sees ‹_›)) enough)
          exact .single inner.1 inner.2
        split
        · have consequence := governed (.inl (sees ‹_›))
          have between := afterGroup.trans (proceeds_bodyWithin bound reading.start _).onward
          split
          · have further := between.trans (onward_next _)
            have alternative := fits_bodyWithin bound consequence.2.next
              (since consequence.2.next further)
              (Call.Calls.suffices (.alternative (sees ‹_›) rfl ‹_›) enough)
            have range := since alternative.2
              (further.trans (proceeds_bodyWithin bound _ _).onward)
            refine .single ((isIn_conditional _ group.1 range ?_).put _ _) alternative.2
            exact List.forall_mem_cons.mpr ⟨consequence.1,
              List.forall_mem_singleton.mpr alternative.1⟩
          · exact .single (isIn_conditional _ group.1 (since consequence.2 between)
              (List.forall_mem_singleton.mpr consequence.1)) consequence.2
        split
        · have header := isOf_forNode (roundGroup reading.next).1 group.2
            (since group.2 afterGroup)
          have between :=
            afterGroup.trans (proceeds_forNode _ (roundGroup reading.next).1 reading.start).onward
          have body := fits_bodyWithin bound header (since header between)
            (Call.Calls.suffices (.forBody (sees ‹_›)) enough)
          refine .single (isIn_iff.mpr ⟨since body.2
            (between.trans (proceeds_bodyWithin bound _ _).onward), ?_⟩) body.2
          exact List.forall_mem_append.mpr ⟨isIn_callNodes group.1,
            List.forall_mem_singleton.mpr body.1⟩
        split
        · have body := governed (.inr (sees ‹_›))
          exact .single (isIn_conditional _ group.1
            (since body.2 (afterGroup.trans (proceeds_bodyWithin bound _ _).onward))
            (List.forall_mem_singleton.mpr body.1)) body.2
        split
        · have body := fits_bodyWithin bound reads.next (since reads.next (.refl _))
            (Call.Calls.suffices (.doBody (sees ‹_›)) enough)
          have condition := isOf_roundGroup (body.2.expect "while" "after do body")
          have after := condition.2.expect ";" "after do/while condition"
          have between := ((proceeds_bodyWithin bound reading.start reading.next).onward.trans
            (onward_expect _ "while" "after do body")).trans (proceeds_roundGroup _).onward
          exact .single (isIn_conditional _ condition.1
            (since after (between.trans (onward_expect _ _ _)))
            (List.forall_mem_singleton.mpr body.1)) after
        · have plain := fits_plainStatement there reads
          refine .single (plain.1.withRange ?_) plain.2
          exact reads.since_of_consumes plain.2 (consumes_plainStatement there)

/-- A body is in place, be it a block or one statement. -/
theorem fits_bodyWithin : ∀ (bound : Nat) {start : Position} {reading : Reading},
    reading.IsOf source → (reading.since start).IsIn source →
      Call.Suffices ⟨bound, .body start, reading⟩ → Fits source (bodyWithin bound start reading)
  | 0, _, _, reads, place, _ => by
    unfold bodyWithin
    exact ⟨isIn_emptyBlock place, reads⟩
  | bound + 1, start, reading, reads, place, enough => by
    unfold bodyWithin
    split
    · exact ⟨isIn_emptyBlock place, reads.reportHere _⟩
    · rename_i inside
      simp only [Bool.or_eq_true, not_or] at inside
      have read := fit_statementWithin bound reads
        (Call.Calls.suffices (.governedStatement inside.2 inside.1) enough)
      have onward := (proceeds_statementWithin bound reading).onward
      split <;> rename_i made <;> rw [made] at read onward
      · exact ⟨read.1 _ List.mem_cons_self, read.2⟩
      · exact ⟨isIn_emptyBlock (reads.since_of_onward read.2 place onward), read.2⟩

end

theorem fits_block (reads : reading.IsOf source) (opens : reading.sees "\x7b") :
    Fits source (block reading) := fits_blockWithin _ reads opens (Call.suffices_of_fuel rfl)

/-! ### Members -/

/-- A malformed parameter has the range of what is skipped. -/
theorem fits_malformed {start : Position} (place : start.IsIn source)
    (reads : reading.IsOf source) : Fits source (parametersWithin.malformed start reading) := by
  have after := reads.pass (splits_upTo (·.isAny [",", ")", "\x7b", ";"]) _)
  have range := after.sinceOrEmpty place
  exact ⟨isIn_faultNode range _, after.report _ range⟩

theorem fits_parameter (reads : reading.IsOf source) : Fits source (parameter reading) := by
  have front := isOf_preamble reads
  have typed := isOf_typeText front
  unfold parameter
  dsimp only
  split
  · rename_i type name rest isType there
    split
    · have after := typed.next.pass (splits_arrayMarks _)
      have consumes := consumes_of_typeText (Prod.ext isType rfl)
      refine ⟨isIn_putPreamble _ (IsIn.put (isIn_iff.mpr ⟨?_, List.forall_mem_nil _⟩) _ _), after⟩
      exact reads.since_of_consumes after ((proceeds_preamble reading).onward.consumes
        (consumes.onward ((onward_next _).trans (onward_pass _ (splits_arrayMarks _)))))
    · exact fits_malformed reads.isIn_start typed
  · exact fits_malformed reads.isIn_start typed

/-- Parameters are in place one by one. -/
theorem fit_parametersWithin (bound : Nat) (reads : reading.IsOf source) :
    AllFit source (parametersWithin bound reading) := by
  induction bound generalizing reading with
  | zero => exact .nil reads
  | succ bound ih =>
      have first := fits_parameter reads
      rw [parametersWithin_succ]
      split
      · exact .nil reads
      split
      · exact .cons first.1 (ih first.2.next)
      · exact .single first.1 first.2

theorem fit_methodParameters (reads : reading.IsOf source) :
    AllFit source (methodParameters reading) := fit_parametersWithin _ (reads.expect _ _)

theorem isOf_thrownTypes (reads : reading.IsOf source) :
    (thrownTypes reading).2.IsOf source :=
  isOf_heritage _ (((fit_methodParameters reads).2.expect _ _).pass (splits_arrayMarks _))

/-- The body of a method is in place, if it has one. -/
theorem fit_methodBody (reads : reading.IsOf source) : AllFit source (methodBody reading) := by
  unfold methodBody
  split
  · have body := fits_block reads ‹_›
    exact .single body.1 body.2
  split
  · exact .nil (fits_recover _ reads.next).2
  split
  · exact .nil reads.next
  · have fault := fits_recover "expected method body or ';'" reads
    exact .single fault.1 fault.2

/-- A method has the range from its first token to the last of its body. -/
theorem fits_methodRest {method : SyntaxTree} (place : method.range.IsIn source)
    (reads : reading.IsOf source) : Fits source (methodRest method reading) := by
  have body := fit_methodBody (isOf_thrownTypes reads)
  rw [methodRest_eq]
  exact ⟨isIn_iff.mpr ⟨place, List.forall_mem_append.mpr ⟨(fit_methodParameters reads).1, body.1⟩⟩,
    body.2⟩

/-- The tokens of an initial value are of the text, and so is what is left. -/
theorem isOf_initialValue (reads : reading.IsOf source) :
    (∀ token ∈ (initialValue reading).1, token.range.IsIn source) ∧
      (initialValue reading).2.IsOf source := by
  have marked := reads.pass (splits_arrayMarks _)
  unfold initialValue
  dsimp only
  split
  · have splits := splits_initializer 0
      (reading.pass (Span.arrayMarks reading.rest)).next.rest
    exact ⟨marked.next.isIn_taken splits, marked.next.pass splits⟩
  · exact ⟨List.forall_mem_nil _, marked⟩

/-- Each declarator has the range from its name on. -/
theorem fit_fieldsWithin (preamble : Preamble) (type : String) (bound : Nat) (name : Token)
    (reads : reading.IsOf source) (place : (reading.since name.range.start).IsIn source) :
    AllFit source (fieldsWithin preamble type bound name reading) := by
  induction bound generalizing reading name with
  | zero => exact .nil reads
  | succ bound ih =>
      have initial := isOf_initialValue reads
      have field : (fieldNode preamble type name reading).IsIn source := by
        refine IsIn.put (isIn_putPreamble _ (IsIn.put ?_ _ _)) _ _
        exact isIn_iff.mpr ⟨reads.since_of_onward initial.2 place
          (proceeds_initialValue reading).onward, isIn_callNodes initial.1⟩
      have missing := (initial.2.next.reportHere "expected field name after ','")
      rw [fieldsWithin_succ]
      dsimp only
      split
      · split
        · rename_i other rest there
          split
          · refine .cons field (ih other initial.2.next.next ?_)
            have start : (initialValue reading).2.next.start = other.range.start := by
              rw [Reading.start, there]
            rw [← start]
            exact initial.2.next.since_of_consumes initial.2.next.next
              (consumes_next (Call.not_done_of_cons there))
          · exact .single field missing
        · exact .single field missing
      · exact .single field initial.2

/-- Fields that are put together have the range of all of them. -/
theorem isIn_groupFields {fields : List SyntaxTree} {range : SourceRange}
    (each : ∀ field ∈ fields, field.IsIn source) (place : range.IsIn source) :
    (groupFields fields range).IsIn source := by
  unfold groupFields
  split
  · exact each _ List.mem_cons_self
  · exact IsIn.put (isIn_iff.mpr ⟨place, each⟩) _ _

/-- A member with a type has the range from its first modifier on. -/
theorem fits_typedMember (owner : String) (preamble : Preamble) (typeParams : List Token)
    {before : Reading} (first : before.IsOf source) (front : before.Onward reading)
    (reads : reading.IsOf source) :
    Fits source (typedMember owner preamble typeParams before.start reading) := by
  have typed := isOf_typeText reads
  -- A method has the range from the start of its modifiers on, whatever range it had before.
  have finish {method : SyntaxTree} {later : Reading} (consumes : reading.Consumes later)
      (place : method.range.IsIn source) (laterReads : later.IsOf source) :
      Fits source (((Parser.putPreamble preamble { (methodRest method later).1 with
          range := (methodRest method later).2.since before.start }).put "typeParams"
        (Token.join typeParams)), (methodRest method later).2) := by
    have member := fits_methodRest place laterReads
    refine ⟨(isIn_putPreamble _ (member.1.withRange ?_)).put _ _, member.2⟩
    exact first.since_of_consumes member.2
      (front.consumes (consumes.onward (proceeds_methodRest _ _).onward))
  fun_cases typedMember owner preamble typeParams before.start reading with
  | case1 _ is =>
    refine finish (consumes_next ?_) reads.isIn_here reads.next
    intro none
    rw [done_iff.mp none] at is
    exact Bool.false_ne_true is
  | case2 _ after read => exact fits_recover _ (typed.of_eq read)
  | case3 _ _ after read => exact fits_recover _ (typed.of_eq read)
  | case4 _ _ after read => exact fits_recover _ (typed.of_eq read)
  | case5 _ _ type after read name rest there =>
    have afterType := typed.of_eq read
    have place : name.range.IsIn source := afterType.isIn_of_mem (there ▸ List.mem_cons_self)
    exact finish ((consumes_of_typeText read).onward after.onward_next) place afterType.next
  | case6 _ type after read name rest there _ _ fields afterFields readFields last =>
    have afterType := typed.of_eq read
    have start : after.start = name.range.start := by rw [Reading.start, there]
    have some := fit_fieldsWithin preamble type (after.rest.length + 1) name afterType.next
      (start ▸ afterType.since_of_consumes afterType.next
        (consumes_next (Call.not_done_of_cons there)))
    have onward :=
      (proceeds_fieldsWithin after.next preamble type (after.rest.length + 1) name).onward
    rw [readFields] at some onward
    have lastReads := some.2.expect ";" "after field declaration"
    have consumes := (consumes_of_typeText read).onward
      (after.onward_next.trans (onward.trans (onward_expect _ ";" "after field declaration")))
    exact ⟨isIn_groupFields some.1 (first.since_of_consumes lastReads (front.consumes consumes)),
      lastReads⟩

/-- A member without modifiers has the range from its first token on. -/
theorem fits_plainMember (owner : String) (preamble : Preamble) {before : Reading}
    (first : before.IsOf source) (front : before.Onward reading) (reads : reading.IsOf source) :
    Fits source (plainMember owner preamble before.start reading) := by
  rw [plainMember_eq]
  exact fits_typedMember owner preamble _ first (front.trans (onward_typeParameters reading))
    (isOf_typeParameters reads)

theorem isOf_typeHeader (node : SyntaxTree) (reads : reading.IsOf source) :
    (typeHeader node reading).2.IsOf source :=
  isOf_heritage _ (isOf_heritage _ (isOf_heritage _ (isOf_typeParameters reads)))

mutual

/-- A member is in place with those inside it. -/
theorem fits_memberWithin : ∀ (bound : Nat) (owner? : Option String) {reading : Reading},
    reading.IsOf source → Call.Suffices ⟨bound, .member owner?, reading⟩ →
      Fits source (memberWithin bound owner? reading)
  | 0, _, _, _, enough => absurd (Call.bound_pos enough) (Nat.lt_irrefl 0)
  | bound + 1, owner?, reading, reads, enough => by
    have front := (proceeds_preamble reading).onward
    have after := isOf_preamble reads
    have named (kind : SyntaxKind) {word : String} (sees : (preamble reading).2.sees word)
        (listed : (kind, word) ∈ [(SyntaxKind.classDecl, "class"), (.interfaceDecl, "interface")]) :
        Fits source (typeWithin bound kind word reading.start (preamble reading).2.next) :=
      fits_typeWithin bound kind word after.next
        (reads.since_of_consumes after.next (front.consumes (consumes_of_sees sees)))
        (Call.Calls.suffices (.type sees listed) enough)
    unfold memberWithin
    dsimp only
    split
    · have type := named .classDecl ‹_› (by decide)
      exact ⟨isIn_putPreamble _ type.1, type.2⟩
    split
    · have type := named .interfaceDecl ‹_› (by decide)
      exact ⟨isIn_putPreamble _ type.1, type.2⟩
    split
    · exact fits_giveUp _ (splits_declaration _) after
    split
    · exact fits_giveUp _ (splits_declaration _) after
    split
    · exact fits_giveUp _ (splits_declaration _) after
    split
    · exact fits_recover _ after
    split
    · have body := fits_block after ‹_›
      exact ⟨body.1.put _ _, body.2⟩
    · exact fits_plainMember _ _ reads front after

/-- A type declaration is in place with its members. -/
theorem fits_typeWithin : ∀ (bound : Nat) (kind : SyntaxKind) (word : String) {start : Position}
    {reading : Reading}, reading.IsOf source → (reading.since start).IsIn source →
      Call.Suffices ⟨bound, .type kind word start, reading⟩ →
        Fits source (typeWithin bound kind word start reading)
  | 0, _, _, _, _, reads, place, _ => by
    unfold typeWithin
    exact ⟨isIn_emptyBlock place, reads⟩
  | bound + 1, kind, word, start, reading, reads, place, enough => by
    unfold typeWithin
    split
    · exact fits_recover _ reads
    rename_i name rest there
    split
    · exact fits_recover _ reads
    · let node : SyntaxTree := { kind, name := some name.text, range := name.range }
      have header := isOf_typeHeader node reads.next
      have onward := reading.onward_next.trans (proceeds_typeHeader reading.next node).onward
      have range := reads.since_of_onward header place onward
      dsimp only
      split
      · have members := fit_membersWithin bound name.text word range header.next
          (Call.Calls.suffices (.members there ‹_›) enough)
        have between := (proceeds_membersWithin bound name.text word
          ((typeHeader node reading.next).2.since start)
          (typeHeader node reading.next).2.next).onward
        exact ⟨isIn_iff.mpr ⟨header.since_of_onward members.2 range
          ((onward_next _).trans between), members.1⟩, members.2⟩
      · have fault := fits_recover "malformed type declaration"
          (header.reportMissing "\x7b" "to open type body")
        exact ⟨isIn_iff.mpr ⟨header.since_of_onward fault.2 range (proceeds_recover _ _).onward,
          List.forall_mem_singleton.mpr fault.1⟩, fault.2⟩

/-- Members are in place one by one. -/
theorem fit_membersWithin : ∀ (bound : Nat) (owner word : String) {header : SourceRange}
    {reading : Reading}, header.IsIn source → reading.IsOf source →
      Call.Suffices ⟨bound, .members owner word header, reading⟩ →
        AllFit source (membersWithin bound owner word header reading)
  | 0, _, _, _, _, _, reads, _ => by
    unfold membersWithin
    exact .nil reads
  | bound + 1, owner, word, header, reading, place, reads, enough => by
    unfold membersWithin
    split
    · exact .nil (reads.report _ place)
    split
    · exact .nil reads.next
    split
    · exact fit_membersWithin bound owner word place reads.next
        (Call.Calls.suffices (.emptyMember ‹_›) enough)
    · have first := fits_memberWithin bound (some owner) reads
        (Call.Calls.suffices (.member ‹_› ‹_› ‹_›) enough)
      exact .cons first.1 (fit_membersWithin bound owner word place first.2
        (Call.Calls.suffices (.laterMembers ‹_› ‹_› ‹_›) enough))

end

/-! ### Texts -/

/-- A package or an import has the range from its word to its semicolon. -/
theorem fits_headerDeclaration (kind : SyntaxKind) (more : ¬reading.done)
    (reads : reading.IsOf source) : Fits source (headerDeclaration kind reading) := by
  have splits := splits_upTo (·.isAny [";", "\x7b", "\x7d"]) reading.next.rest
  have after := (reads.next.pass splits).expect ";" "after declaration"
  have consumes := (consumes_next more).onward
    ((onward_pass _ splits).trans (onward_expect _ ";" "after declaration"))
  exact ⟨isIn_iff.mpr ⟨reads.since_of_consumes after consumes, List.forall_mem_nil _⟩, after⟩

/-- A declaration is in place, and so is a fault. -/
theorem fits_declaration (more : ¬reading.done) (reads : reading.IsOf source) :
    Fits source (declaration reading) := by
  unfold declaration
  split
  · exact fits_headerDeclaration _ more reads
  split
  · exact fits_headerDeclaration _ more reads
  split
  · exact ⟨isIn_faultNode reads.isIn_here _, reads.next.report _ reads.isIn_here⟩
  · exact fits_memberWithin _ none reads (Call.suffices_of_fuel rfl)

/-- The declarations of a text are in place one by one. -/
theorem fit_declarationsWithin (bound : Nat) (reads : reading.IsOf source) :
    AllFit source (declarationsWithin bound reading) := by
  induction bound generalizing reading with
  | zero => exact .nil reads
  | succ bound ih =>
      rw [declarationsWithin_succ]
      split
      · exact .nil reads
      split
      · exact ih reads.next
      · have first := fits_declaration ‹_› reads
        exact .cons first.1 (ih first.2)

end Parser

/-- **Every place is right.** Whatever a text that is not blank holds, it is read, and each range in
the syntax tree and in the diagnostics of tokens and parser is in order: its ends stand between
characters of the text, their offsets count the bytes before them, their lines the line breaks
before them, and their columns the characters since the last of these. -/
theorem places_right {source : String} (filled : ¬Text.isBlankText source) :
    ∃ parsed, parseSource source = .ok parsed ∧ parsed.tree.IsIn source ∧
      ∀ problem ∈ parsed.diagnostics, problem.range.IsIn source := by
  let reading : Reading := { rest := (tokenize source).1, finish := .endOf source }
  have reads : reading.IsOf source :=
    ⟨⟨[], rfl, rfl⟩, rfl, List.forall_mem_nil _⟩
  have fit := Parser.fit_declarationsWithin ((tokenize source).1.length + 1) reads
  refine ⟨_, if_neg filled, SyntaxTree.isIn_iff.mpr ⟨?_, fit.1⟩, ?_⟩
  · exact ⟨reads.isIn_start, Position.isIn_endOf source, reads.isIn_start.le_endOf⟩
  · exact List.forall_mem_append.mpr ⟨isIn_lexical source, fun problem member =>
      fit.2.problems problem (List.mem_reverse.mp member)⟩

/-- A class that is never closed is reported in place. -/
theorem places_right_unclosed :
    ¬Text.isBlankText "class A \x7b\n  int x" ∧
      ∃ parsed, parseSource "class A \x7b\n  int x" = .ok parsed ∧
        parsed.tree.IsIn "class A \x7b\n  int x" ∧
        ∀ problem ∈ parsed.diagnostics, problem.range.IsIn "class A \x7b\n  int x" :=
  ⟨by decide +kernel, places_right (by decide +kernel)⟩

end Transcode
