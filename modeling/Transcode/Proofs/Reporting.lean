import Transcode.Proofs.Legibility
import Transcode.Proofs.Outcome
import Transcode.Proofs.Positions

/-!
# No fault goes unreported

Each fault node of a syntax tree has a problem of its own, in its place (`faults_reported`). A fault
node is only made together with a problem that has its range (`Parser.reports_giveUp`), and what is
done with the node later keeps it a fault and never makes its range smaller: it stands in a list of
other nodes, or under a label, and then the range goes through from the label to the end of the
fault (`Parser.range_statementWithin`).
-/

namespace Transcode

/-- A range within another: it starts no earlier and ends no later. -/
structure SourceRange.Within (inner outer : SourceRange) : Prop where
  start : outer.start.offset ≤ inner.start.offset
  stop : inner.stop.offset ≤ outer.stop.offset

theorem SourceRange.Within.refl (range : SourceRange) : range.Within range :=
  ⟨Nat.le_refl _, Nat.le_refl _⟩

/-- A range within a range within a third is within the third. -/
theorem SourceRange.Within.trans {inner range outer : SourceRange} (first : inner.Within range)
    (second : range.Within outer) : inner.Within outer :=
  ⟨Nat.le_trans second.start first.start, Nat.le_trans first.stop second.stop⟩

/-! ### Faults of a tree -/

namespace SyntaxTree

mutual

/-- The ranges of the fault nodes, a node before its children. -/
def faults : SyntaxTree → List SourceRange
  | ⟨kind, _, children, range, _⟩ => (if kind = .fault then [range] else []) ++ faultsOf children

/-- The ranges of the fault nodes of several trees. -/
def faultsOf : List SyntaxTree → List SourceRange
  | [] => []
  | tree :: rest => faults tree ++ faultsOf rest

end

/-- The faults of several trees are those of each, one after another. -/
theorem faultsOf_eq_flatMap (trees : List SyntaxTree) : faultsOf trees = trees.flatMap faults := by
  induction trees with
  | nil => rfl
  | cons tree rest ih => rw [faultsOf, ih, List.flatMap_cons]

/-- Faults of trees that follow one another follow one another. -/
theorem faultsOf_append (trees others : List SyntaxTree) :
    faultsOf (trees ++ others) = faultsOf trees ++ faultsOf others := by
  simp only [faultsOf_eq_flatMap, List.flatMap_append]

theorem faultsOf_singleton (tree : SyntaxTree) : faultsOf [tree] = tree.faults := by
  rw [faultsOf, faultsOf, List.append_nil]

/-- A tree has its own fault, if it is one, and those of its children. -/
theorem faults_eq (tree : SyntaxTree) : tree.faults =
    (if tree.kind = .fault then [tree.range] else []) ++ faultsOf tree.children := by
  cases tree
  rw [faults]

theorem faults_of_kind {tree : SyntaxTree} (kind : SyntaxKind) (isKind : tree.kind = kind)
    (sound : kind ≠ .fault) : tree.faults = faultsOf tree.children := by
  rw [faults_eq, if_neg (isKind ▸ sound), List.nil_append]

/-- Texts do not matter. -/
theorem faults_put (tree : SyntaxTree) (key text : String) :
    (tree.put key text).faults = tree.faults := by
  rw [faults_eq, faults_eq]
  rfl

mutual

/-- There are as many ranges as fault nodes. -/
theorem length_faults : ∀ tree : SyntaxTree, tree.faults.length = tree.count .fault
  | ⟨kind, _, children, _, _⟩ => by
    rw [faults, count, List.length_append, length_faultsOf children]
    split <;> rfl

/-- There are as many ranges as fault nodes in several trees. -/
theorem length_faultsOf : ∀ trees : List SyntaxTree,
    (faultsOf trees).length = counts .fault trees
  | [] => rfl
  | tree :: rest => by
    rw [faultsOf, counts, List.length_append, length_faults tree, length_faultsOf rest]

end

mutual

/-- The faults of a tree are the ranges of its fault nodes. -/
theorem everywhere_of_faults {holds : SourceRange → Prop} : ∀ {tree : SyntaxTree},
    (∀ range ∈ tree.faults, holds range) →
      tree.Everywhere fun node => node.kind = .fault → holds node.range
  | ⟨kind, name, children, range, attributes⟩, each => by
    rw [faults, List.forall_mem_append] at each
    refine ⟨fun faulty => each.1 range ?_, allEverywhere_of_faultsOf each.2⟩
    rw [if_pos faulty]
    exact List.mem_singleton_self range

/-- The faults of several trees are the ranges of their fault nodes. -/
theorem allEverywhere_of_faultsOf {holds : SourceRange → Prop} : ∀ {trees : List SyntaxTree},
    (∀ range ∈ faultsOf trees, holds range) →
      AllEverywhere (fun node => node.kind = .fault → holds node.range) trees
  | [], _ => trivial
  | tree :: rest, each => by
    rw [faultsOf, List.forall_mem_append] at each
    exact ⟨everywhere_of_faults each.1, allEverywhere_of_faultsOf each.2⟩

end

end SyntaxTree

/-! ### Reports -/

/-- Each of the given ranges has a problem of its own within it, in the same order. -/
def Covered : List SourceRange → List Diagnostic → Prop :=
  List.SublistForall₂ fun range problem => problem.range.Within range

/-- Reports of ranges that follow one another are put together. -/
theorem Covered.append {ranges others : List SourceRange} {problems later : List Diagnostic}
    (first : Covered ranges problems) (second : Covered others later) :
    Covered (ranges ++ others) (problems ++ later) := by
  obtain ⟨own, same, inside⟩ := List.sublistForall₂_iff.mp first
  obtain ⟨ownLater, sameLater, insideLater⟩ := List.sublistForall₂_iff.mp second
  exact List.sublistForall₂_iff.mpr
    ⟨own ++ ownLater, List.rel_append same sameLater, inside.append insideLater⟩

/-- There are at least as many problems as ranges. -/
theorem Covered.length_le {ranges : List SourceRange} {problems : List Diagnostic}
    (covered : Covered ranges problems) : ranges.length ≤ problems.length := by
  obtain ⟨own, same, inside⟩ := List.sublistForall₂_iff.mp covered
  exact same.length_eq ▸ inside.length_le

/-- A range that grows still has its problem within it. -/
theorem Covered.widen {range outer : SourceRange} {ranges : List SourceRange}
    {problems : List Diagnostic} (covered : Covered (range :: ranges) problems)
    (wider : range.Within outer) : Covered (outer :: ranges) problems := by
  induction problems with
  | nil => cases covered
  | cons problem problems ih =>
      cases covered with
      | cons within others => exact .cons (within.trans wider) others
      | cons_right others => exact .cons_right (ih others)

/-- Each range has a problem within it. -/
theorem Covered.exists_within {ranges : List SourceRange} {problems : List Diagnostic}
    (covered : Covered ranges problems) :
    ∀ range ∈ ranges, ∃ problem ∈ problems, problem.range.Within range := by
  induction covered with
  | nil => exact List.forall_mem_nil _
  | cons within _ ih =>
      refine List.forall_mem_cons.mpr ⟨⟨_, List.mem_cons_self, within⟩, fun range member => ?_⟩
      exact (ih range member).imp fun _ found => ⟨List.mem_cons_of_mem _ found.1, found.2⟩
  | cons_right _ ih =>
      exact fun range member =>
        (ih range member).imp fun _ found => ⟨List.mem_cons_of_mem _ found.1, found.2⟩

namespace Reading

/-- From one reading to a later one, a problem of its own was reported for each fault of some
trees. -/
def Reports (before after : Reading) (trees : List SyntaxTree) : Prop :=
  ∃ found, after.problems.reverse = before.problems.reverse ++ found ∧
    Covered (SyntaxTree.faultsOf trees) found

variable {before between after : Reading} {trees others : List SyntaxTree}

/-- What is reported of trees that follow one another is reported of all of them. -/
theorem Reports.append (first : before.Reports between trees)
    (second : between.Reports after others) : before.Reports after (trees ++ others) := by
  obtain ⟨found, kept, covered⟩ := first
  obtain ⟨further, keptLater, coveredLater⟩ := second
  refine ⟨found ++ further, ?_, ?_⟩
  · rw [keptLater, kept, List.append_assoc]
  · rw [SyntaxTree.faultsOf_append]
    exact covered.append coveredLater

/-- Trees without faults need no problem. -/
theorem Proceeds.reports (proceeds : before.Proceeds after)
    (sound : SyntaxTree.faultsOf trees = []) : before.Reports after trees := by
  obtain ⟨found, kept⟩ := proceeds.kept
  refine ⟨found.reverse, ?_, ?_⟩
  · rw [← kept, List.reverse_append]
  · rw [sound]
    exact .nil

theorem Proceeds.reports_nil (proceeds : before.Proceeds after) : before.Reports after [] :=
  proceeds.reports rfl

theorem Reports.later (reports : between.Reports after trees) (proceeds : before.Proceeds between) :
    before.Reports after trees := proceeds.reports_nil.append reports

/-- What was reported is reported later on. -/
theorem Reports.earlier (reports : before.Reports between trees)
    (proceeds : between.Proceeds after) : before.Reports after trees := by
  have whole := reports.append proceeds.reports_nil
  rwa [List.append_nil] at whole

/-- Only the faults of the trees matter. -/
theorem Reports.congr (reports : before.Reports after trees)
    (same : SyntaxTree.faultsOf others = SyntaxTree.faultsOf trees) :
    before.Reports after others := by
  obtain ⟨found, kept, covered⟩ := reports
  exact ⟨found, kept, same ▸ covered⟩

variable {tree other : SyntaxTree}

/-- What is made of a tree without making faults or taking some away. -/
theorem Reports.remade (reports : before.Reports after [tree]) (same : other.faults = tree.faults) :
    before.Reports after [other] :=
  reports.congr (by rw [SyntaxTree.faultsOf_singleton, SyntaxTree.faultsOf_singleton, same])

theorem Reports.put (reports : before.Reports after [tree]) (key text : String) :
    before.Reports after [tree.put key text] := reports.remade (SyntaxTree.faults_put tree key text)

/-- What is no fault has its faults reported with those below it. -/
theorem Reports.node (reports : before.Reports after trees) (kind : SyntaxKind)
    (isKind : tree.kind = kind) (sound : kind ≠ .fault)
    (below : SyntaxTree.faultsOf tree.children = SyntaxTree.faultsOf trees) :
    before.Reports after [tree] :=
  reports.congr (by
    rw [SyntaxTree.faultsOf_singleton, SyntaxTree.faults_of_kind kind isKind sound, below])

/-- A fault may have a wider range than its problem. -/
theorem Reports.withRange (reports : before.Reports after [tree]) {range : SourceRange}
    (wider : tree.kind = .fault → tree.range.Within range) :
    before.Reports after [{ tree with range }] := by
  by_cases faulty : tree.kind = .fault
  · obtain ⟨found, kept, covered⟩ := reports
    refine ⟨found, kept, ?_⟩
    rw [SyntaxTree.faultsOf_singleton, SyntaxTree.faults_eq, if_pos faulty] at covered ⊢
    exact covered.widen (wider faulty)
  · exact reports.node tree.kind rfl faulty (by
      rw [SyntaxTree.faultsOf_singleton, SyntaxTree.faults_of_kind tree.kind rfl faulty])

/-- The tokens to come are in order. -/
def InOrder (reading : Reading) : Prop :=
  reading.rest.Pairwise fun token later => token.range.start.offset ≤ later.range.start.offset

/-- Where tokens are in order, reading on does not come to an earlier place. -/
theorem InOrder.start_le (ordered : before.InOrder) (onward : before.Onward after)
    (more : after.rest ≠ []) : before.start.offset ≤ after.start.offset := by
  obtain ⟨token, rest, there⟩ := List.exists_cons_of_ne_nil more
  obtain ⟨passed, split⟩ := onward
  unfold start
  rw [there] at split ⊢
  cases passed with
  | nil =>
      rw [← split]
      exact Nat.le_refl _
  | cons first passed =>
      rw [← split]
      rw [InOrder, ← split] at ordered
      exact (List.pairwise_cons.mp ordered).1 token (List.mem_append_right _ List.mem_cons_self)

theorem Onward.inOrder (onward : before.Onward after) (ordered : before.InOrder) :
    after.InOrder := ordered.sublist onward.sublist

end Reading

namespace Parser

open Reading SyntaxTree Transcode.Span

variable {reading : Reading}

/-- A fault node is one fault. -/
theorem faults_faultNode (range : SourceRange) (tokens : List Token) :
    (faultNode range tokens).faults = [range] := by
  rw [faultNode, faults_put, faults_eq, if_pos rfl]
  rfl

/-- Calls are no faults. -/
theorem faultsOf_callNodes (tokens : List Token) : faultsOf (callNodes tokens) = [] := by
  rw [faultsOf_eq_flatMap, List.flatMap_eq_nil_iff]
  intro tree member
  obtain ⟨token, _, rfl⟩ := List.mem_map.mp member
  exact faults_of_kind .call rfl (by decide)

theorem faults_emptyBlock (start : Position) (reading : Reading) :
    (emptyBlock start reading).faults = [] := faults_of_kind .block rfl (by decide)

theorem faults_putPreamble (preamble : Preamble) (tree : SyntaxTree) :
    (putPreamble preamble tree).faults = tree.faults := by
  rw [putPreamble, faults_put, faults_put]

/-- A label keeps the faults of what it labels. -/
theorem faults_putLabel (label : String) (tree : SyntaxTree) :
    (putLabel label tree).faults = tree.faults := by
  unfold putLabel
  split <;> exact faults_put _ _ _

/-- A label keeps the kind of what it labels. -/
theorem kind_putLabel (label : String) (tree : SyntaxTree) :
    (putLabel label tree).kind = tree.kind := by
  unfold putLabel
  split <;> rfl

/-- A label keeps the range of what it labels. -/
theorem range_putLabel (label : String) (tree : SyntaxTree) :
    (putLabel label tree).range = tree.range := by
  unfold putLabel
  split <;> rfl

/-- A fault is reported as it is made. -/
theorem reports_faultNode (message : String) (range : SourceRange) (tokens : List Token) :
    reading.Reports (reading.report message range) [faultNode range tokens] := by
  refine ⟨[⟨message, range⟩], List.reverse_cons, ?_⟩
  rw [faultsOf_singleton, faults_faultNode]
  exact .cons (.refl range) .nil

/-- Giving up makes a fault and the problem in its range. -/
theorem reports_giveUp (message : String) {span : Span} (splits : span.Splits reading.rest) :
    reading.Reports (giveUp message span reading).2 [(giveUp message span reading).1] :=
  (reports_faultNode _ _ _).later (reading.proceeds_pass splits)

/-- A recovery makes a fault and the problem in its range. -/
theorem reports_recover (message : String) :
    reading.Reports (recover message reading).2 [(recover message reading).1] :=
  reports_giveUp message (splits_recovery 0 _)

/-- A block that is made where one is missing has no fault. -/
theorem reports_emptyBlock {after : Reading} (proceeds : reading.Proceeds after) (start : Position)
    (last : Reading) : reading.Reports after [emptyBlock start last] :=
  proceeds.reports (by rw [faultsOf_singleton, faults_emptyBlock])

/-! ### Statements -/

/-- A plain statement is read, or a fault with its problem. -/
theorem reports_plainStatement (head : Token) :
    reading.Reports (plainStatement head reading).2 [(plainStatement head reading).1] := by
  by_cases closes : head.closes
  · unfold plainStatement
    rw [if_pos closes]
    exact (reports_faultNode _ _ _).later reading.proceeds_next
  · refine (proceeds_plainStatement reading head).reports ?_
    unfold plainStatement
    rw [if_neg closes, faultsOf_singleton]
    dsimp only
    generalize isKind : (if head.text = "return" then SyntaxKind.returnStmt else .statement) = kind
    have sound : kind ≠ .fault := by
      rw [← isKind]
      split <;> decide
    split <;> rw [faults_put, faults_of_kind kind rfl sound] <;> exact faultsOf_callNodes _

/-- A statement of no special form goes through to the last token read. -/
theorem range_plainStatement {head : Token} {rest : List Token}
    (there : reading.rest = head :: rest) : (plainStatement head reading).1.range =
      (plainStatement head reading).2.since reading.start := by
  unfold plainStatement
  split
  · have last : reading.next.last = some head := by rw [next, there]
    rw [Reading.since, lastEnd, report, last, start, there]
    rfl
  · dsimp only
    split <;> rfl

theorem proceeds_governed (reading : Reading) :
    reading.Proceeds (roundGroup reading.next).2.2 :=
  reading.proceeds_next.trans (proceeds_roundGroup _)

/-- The calls of a condition add no fault to the branches. -/
theorem faultsOf_branches (condition : List Token) (branches : List SyntaxTree) :
    faultsOf (callNodes condition ++ branches) = faultsOf branches := by
  rw [faultsOf_append, faultsOf_callNodes, List.nil_append]

/-- A block has the range from its first token to where it was left. -/
theorem range_blockWithin (bound : Nat) (reading : Reading) :
    (blockWithin bound reading).1.range = (blockWithin bound reading).2.since reading.start := by
  cases bound with
  | zero =>
      rw [blockWithin]
      rfl
  | succ => rw [blockWithin]

/-- A statement goes through to the last token read. -/
theorem range_statementWithin (bound : Nat) (reading : Reading) :
    ∀ tree ∈ (statementWithin bound reading).1,
      tree.range = (statementWithin bound reading).2.since reading.start := by
  cases bound with
  | zero =>
      rw [statementWithin]
      rintro _ ⟨⟩
  | succ bound =>
      unfold statementWithin
      dsimp only
      split
      · rintro _ ⟨⟩
      split
      · rintro _ ⟨⟩
        rfl
      split
      · rintro _ ⟨⟩
      split
      · rintro _ ⟨⟩
        exact range_blockWithin bound reading
      split
      · split <;> (rintro _ ⟨⟩; rfl)
      split
      · rintro _ ⟨⟩
        rfl
      split
      · rintro _ ⟨⟩
        rfl
      split
      · rintro _ ⟨⟩
        rfl
      · rintro _ ⟨⟩
        rfl

/-- A fault that is governed by another statement goes through to the last token read. -/
theorem range_bodyWithin (bound : Nat) (start : Position) (reading : Reading)
    (faulty : (bodyWithin bound start reading).1.kind = .fault) :
    reading.rest ≠ [] ∧ (bodyWithin bound start reading).1.range =
      (bodyWithin bound start reading).2.since reading.start := by
  cases bound with
  | zero =>
      rw [bodyWithin] at faulty
      cases faulty
  | succ bound =>
      have place := range_statementWithin bound reading
      unfold bodyWithin at faulty ⊢
      split
      · rw [if_pos ‹_›] at faulty
        cases faulty
      · rename_i more
        rw [if_neg more] at faulty
        refine ⟨fun none => more ?_, ?_⟩
        · rw [done_iff.mpr none, Bool.or_true]
        · split <;> rename_i made <;> rw [made] at faulty place
          · exact place _ rfl
          · cases faulty

mutual

/-- The faults of a block are those of its statements. -/
theorem reports_blockWithin : ∀ (bound : Nat) {reading : Reading}, reading.InOrder →
    reading.Reports (blockWithin bound reading).2 [(blockWithin bound reading).1]
  | 0, reading, _ => by
    unfold blockWithin
    exact reports_emptyBlock (.refl reading) _ _
  | bound + 1, reading, ordered => by
    have opened := reading.proceeds_expect "\x7b" "to open block"
    have inside := reports_statementsWithin bound reading.here (opened.onward.inOrder ordered)
    unfold blockWithin
    exact (inside.later opened).node .block rfl (by decide) rfl

/-- The faults of statements are reported one by one. -/
theorem reports_statementsWithin : ∀ (bound : Nat) (opening : SourceRange) {reading : Reading},
    reading.InOrder → reading.Reports (statementsWithin bound opening reading).2
      (statementsWithin bound opening reading).1
  | 0, opening, reading, _ => by
    unfold statementsWithin
    exact (Proceeds.refl reading).reports rfl
  | bound + 1, opening, reading, ordered => by
    unfold statementsWithin
    split
    · exact (reading.proceeds_report _ _).reports rfl
    split
    · exact reading.proceeds_next.reports rfl
    · have first := reports_statementWithin bound ordered
      exact first.append (reports_statementsWithin bound opening
        ((proceeds_statementWithin bound reading).onward.inOrder ordered))

/-- The faults of a statement are those of its parts, and its own if it cannot be read. -/
theorem reports_statementWithin : ∀ (bound : Nat) {reading : Reading}, reading.InOrder →
    reading.Reports (statementWithin bound reading).2 (statementWithin bound reading).1.toList
  | 0, reading, _ => by
    unfold statementWithin
    exact (Proceeds.refl reading).reports rfl
  | bound + 1, reading, ordered => by
    have later {after : Reading} (proceeds : reading.Proceeds after) : after.InOrder :=
      proceeds.onward.inOrder ordered
    have group := proceeds_governed reading
    have governed := (reports_bodyWithin bound reading.start (later group)).later group
    unfold statementWithin
    dsimp only
    split
    · exact (Proceeds.refl reading).reports rfl
    split
    · have twice := reading.proceeds_next.trans reading.next.proceeds_next
      have body := reports_bodyWithin bound reading.start (later twice)
      refine Reports.withRange ((body.later twice).remade (faults_putLabel _ _)) fun faulty => ?_
      rw [kind_putLabel] at faulty
      obtain ⟨more, place⟩ := range_bodyWithin bound reading.start _ faulty
      rw [range_putLabel, place]
      exact ⟨ordered.start_le twice.onward more, Nat.le_refl _⟩
    split
    · exact reading.proceeds_next.reports rfl
    split
    · exact reports_blockWithin bound ordered
    split
    · split
      · have between := (group.trans (proceeds_bodyWithin bound reading.start _)).trans
          (proceeds_next _)
        have both := governed.append
          ((reports_bodyWithin bound reading.start (later between)).later (proceeds_next _))
        exact (both.node .branch rfl (by decide) (faultsOf_branches _ _)).put _ _
      · exact governed.node .branch rfl (by decide) (faultsOf_branches _ _)
    split
    · have header := group.trans
        (proceeds_forNode _ (roundGroup reading.next).1 reading.start)
      exact ((reports_bodyWithin bound reading.start (later header)).later header).node .forLoop
        (kind_forNode _ _ _) (by decide) (faultsOf_branches _ _)
    split
    · exact governed.node .whileLoop rfl (by decide) (faultsOf_branches _ _)
    split
    · have body := (reports_bodyWithin bound reading.start
        (later reading.proceeds_next)).later reading.proceeds_next
      refine Reports.node (body.earlier ?_) .doLoop rfl (by decide) (faultsOf_branches _ _)
      exact ((proceeds_expect _ _ _).trans (proceeds_roundGroup _)).trans (proceeds_expect _ _ _)
    · refine Reports.withRange (reports_plainStatement _) fun _ => ?_
      rw [range_plainStatement ‹_›]
      exact .refl _

/-- The faults of a body are those of the block that it is, or of its one statement. -/
theorem reports_bodyWithin : ∀ (bound : Nat) (start : Position) {reading : Reading},
    reading.InOrder →
      reading.Reports (bodyWithin bound start reading).2 [(bodyWithin bound start reading).1]
  | 0, start, reading, _ => by
    unfold bodyWithin
    exact reports_emptyBlock (.refl reading) _ _
  | bound + 1, start, reading, ordered => by
    have read := reports_statementWithin bound ordered
    unfold bodyWithin
    split
    · exact reports_emptyBlock (reading.proceeds_report _ _) _ _
    · split <;> rename_i made <;> rw [made] at read
      · exact read
      · exact read.append (reports_emptyBlock (.refl _) _ _)

end

theorem reports_block (ordered : reading.InOrder) :
    reading.Reports (block reading).2 [(block reading).1] := reports_blockWithin _ ordered

/-! ### Members -/

theorem reports_parameter : reading.Reports (parameter reading).2 [(parameter reading).1] := by
  have malformed (start : Position) (reading : Reading) :
      reading.Reports (parametersWithin.malformed start reading).2
        [(parametersWithin.malformed start reading).1] :=
    (reports_faultNode _ _ _).later (reading.proceeds_pass (splits_upTo _ _))
  refine Reports.later ?_ ((proceeds_preamble reading).trans (proceeds_typeText _))
  unfold parameter
  dsimp only
  split
  · split
    · refine ((proceeds_next _).trans (proceeds_pass _ (splits_arrayMarks _))).reports ?_
      rw [faultsOf_singleton, faults_putPreamble, faults_put]
      exact faults_of_kind .parameter rfl (by decide)
    · exact malformed _ _
  · exact malformed _ _

/-- The faults of parameters are reported one by one. -/
theorem reports_parametersWithin (fuel : Nat) (reading : Reading) :
    reading.Reports (parametersWithin fuel reading).2 (parametersWithin fuel reading).1 := by
  induction fuel generalizing reading with
  | zero => exact (Proceeds.refl reading).reports rfl
  | succ fuel ih =>
      rw [parametersWithin_succ]
      split
      · exact (Proceeds.refl reading).reports rfl
      split
      · exact reports_parameter.append ((ih _).later (proceeds_next _))
      · exact reports_parameter

/-- A method without a body has no fault in it. -/
theorem reports_methodBody (ordered : reading.InOrder) :
    reading.Reports (methodBody reading).2 (methodBody reading).1 := by
  unfold methodBody
  split
  · exact reports_block ordered
  split
  · exact (reading.proceeds_next.trans (proceeds_recover _ _)).reports rfl
  split
  · exact reading.proceeds_next.reports rfl
  · exact reports_recover _

/-- The faults of a method are those of its parameters and its body. -/
theorem reports_methodRest {method : SyntaxTree} (kind : SyntaxKind)
    (isKind : method.kind = kind) (sound : kind ≠ .fault) (ordered : reading.InOrder) :
    reading.Reports (methodRest method reading).2 [(methodRest method reading).1] := by
  have parameters : reading.Reports (methodParameters reading).2 (methodParameters reading).1 :=
    (reports_parametersWithin _ _).later (reading.proceeds_expect _ _)
  have between : (methodParameters reading).2.Proceeds (thrownTypes reading).2 :=
    ((proceeds_expect _ _ _).trans (proceeds_pass _ (splits_arrayMarks _))).trans
      (proceeds_heritage _ _)
  have body := reports_methodBody ((proceeds_thrownTypes reading).onward.inOrder ordered)
  rw [methodRest_eq]
  exact (parameters.append (body.later between)).node kind isKind sound rfl

/-- Declarators of a field are no faults. -/
theorem faultsOf_fieldsWithin (preamble : Preamble) (type : String) (fuel : Nat) (name : Token)
    (reading : Reading) : faultsOf (fieldsWithin preamble type fuel name reading).1 = [] := by
  have one (name : Token) (reading : Reading) :
      (fieldNode preamble type name reading).faults = [] := by
    rw [fieldNode, faults_put, faults_putPreamble, faults_put,
      faults_of_kind .field rfl (by decide)]
    exact faultsOf_callNodes _
  induction fuel generalizing name reading with
  | zero => rfl
  | succ fuel ih =>
      rw [fieldsWithin_succ]
      dsimp only
      split
      · split
        · split
          · rw [faultsOf, one, ih, List.append_nil]
          · rw [faultsOf_singleton, one]
        · rw [faultsOf_singleton, one]
      · rw [faultsOf_singleton, one]

/-- Fields that are put together are no fault. -/
theorem faults_groupFields {fields : List SyntaxTree} (sound : faultsOf fields = [])
    (range : SourceRange) : (groupFields fields range).faults = [] := by
  unfold groupFields
  split
  · rwa [faultsOf_singleton] at sound
  · rw [faults_put, faults_of_kind .block rfl (by decide)]
    exact sound

/-- A member with a type is read, or a fault with its problem. -/
theorem reports_typedMember (owner : String) (preamble : Preamble) (typeParams : List Token)
    (start : Position) (ordered : reading.InOrder) :
    reading.Reports (typedMember owner preamble typeParams start reading).2
      [(typedMember owner preamble typeParams start reading).1] := by
  have typed := proceeds_typeText reading
  have finish {method : SyntaxTree} {later : Reading} (kind : SyntaxKind)
      (isKind : method.kind = kind) (sound : kind ≠ .fault) (proceeds : reading.Proceeds later)
      (range : SourceRange) : reading.Reports (methodRest method later).2
        [(putPreamble preamble { (methodRest method later).1 with range }).put "typeParams"
          (Token.join typeParams)] := by
    have member := reports_methodRest kind isKind sound (proceeds.onward.inOrder ordered)
    refine ((Reports.withRange (member.later proceeds) ?_).remade
      (faults_putPreamble _ _)).put _ _
    rw [methodRest_eq]
    exact fun faulty => absurd (isKind.symm.trans faulty) sound
  fun_cases typedMember owner preamble typeParams start reading with
  | case1 => exact finish .constructor rfl (by decide) reading.proceeds_next _
  | case2 _ after read => exact (reports_recover _).later (typed.of_eq read)
  | case3 _ _ after read => exact (reports_recover _).later (typed.of_eq read)
  | case4 _ _ after read => exact (reports_recover _).later (typed.of_eq read)
  | case5 _ _ type after read =>
    exact finish .method rfl (by decide) ((typed.of_eq read).trans after.proceeds_next) _
  | case6 _ type after read name rest there _ _ fields afterFields readFields =>
    have sound := faultsOf_fieldsWithin preamble type (after.rest.length + 1) name after.next
    have proceeds := proceeds_fieldsWithin after.next preamble type (after.rest.length + 1) name
    rw [readFields] at sound proceeds
    refine Proceeds.reports ?_ ?_
    · exact ((typed.of_eq read).trans after.proceeds_next).trans
        (proceeds.trans (proceeds_expect _ _ _))
    · rw [faultsOf_singleton]
      exact faults_groupFields sound _

theorem reports_plainMember (owner : String) (preamble : Preamble) (start : Position)
    (ordered : reading.InOrder) :
    reading.Reports (plainMember owner preamble start reading).2
      [(plainMember owner preamble start reading).1] := by
  rw [plainMember_eq]
  exact (reports_typedMember owner preamble _ start
    ((proceeds_angles reading).onward.inOrder ordered)).later (proceeds_angles reading)

mutual

/-- The faults of a member are those inside it, and its own if it cannot be read. -/
theorem reports_memberWithin : ∀ (bound : Nat) (owner? : Option String) {reading : Reading},
    reading.InOrder → reading.Reports (memberWithin bound owner? reading).2
      [(memberWithin bound owner? reading).1]
  | 0, _, reading, _ => by
    unfold memberWithin
    exact reports_emptyBlock (.refl reading) _ _
  | bound + 1, owner?, reading, ordered => by
    have front := proceeds_preamble reading
    have after := front.onward.inOrder ordered
    have inside := (onward_next _).inOrder after
    have named (kind : SyntaxKind) (word : String) (sound : kind ≠ .fault) :=
      (reports_typeWithin bound sound word reading.start inside).later (proceeds_next _)
    unfold memberWithin
    refine Reports.later ?_ front
    dsimp only
    split
    · exact (named .classDecl "class" (by decide)).remade (faults_putPreamble _ _)
    split
    · exact (named .interfaceDecl "interface" (by decide)).remade (faults_putPreamble _ _)
    split
    · exact reports_giveUp _ (splits_declaration _)
    split
    · exact reports_giveUp _ (splits_declaration _)
    split
    · exact reports_giveUp _ (splits_declaration _)
    split
    · exact reports_recover _
    split
    · exact (reports_block after).put _ _
    · exact reports_plainMember _ _ _ after

/-- The faults of a type declaration are those of its members. -/
theorem reports_typeWithin : ∀ (bound : Nat) {kind : SyntaxKind}, kind ≠ .fault →
    ∀ (word : String) (start : Position) {reading : Reading}, reading.InOrder →
      reading.Reports (typeWithin bound kind word start reading).2
        [(typeWithin bound kind word start reading).1]
  | 0, _, _, _, _, reading, _ => by
    unfold typeWithin
    exact reports_emptyBlock (.refl reading) _ _
  | bound + 1, kind, sound, word, start, reading, ordered => by
    unfold typeWithin
    split
    · exact reports_recover _
    rename_i name rest there
    split
    · exact reports_recover _
    · let node : SyntaxTree := { kind, name := some name.text, range := name.range }
      have header := reading.proceeds_next.trans (proceeds_typeHeader reading.next node)
      dsimp only
      split
      · have members := reports_membersWithin bound name.text word
          ((typeHeader node reading.next).2.since start)
          ((header.trans (proceeds_next _)).onward.inOrder ordered)
        exact (members.later (header.trans (proceeds_next _))).node kind rfl sound rfl
      · exact ((reports_recover _).later (header.trans (proceeds_reportMissing _ _ _))).node kind
          rfl sound rfl

/-- The faults of members are reported one by one. -/
theorem reports_membersWithin : ∀ (bound : Nat) (owner word : String) (header : SourceRange)
    {reading : Reading}, reading.InOrder →
      reading.Reports (membersWithin bound owner word header reading).2
        (membersWithin bound owner word header reading).1
  | 0, _, _, _, reading, _ => by
    unfold membersWithin
    exact (Proceeds.refl reading).reports rfl
  | bound + 1, owner, word, header, reading, ordered => by
    unfold membersWithin
    split
    · exact (reading.proceeds_report _ _).reports rfl
    split
    · exact reading.proceeds_next.reports rfl
    split
    · exact (reports_membersWithin bound owner word header
        (reading.onward_next.inOrder ordered)).later reading.proceeds_next
    · have first := reports_memberWithin bound (some owner) ordered
      exact first.append (reports_membersWithin bound owner word header
        ((proceeds_memberWithin bound _ reading).onward.inOrder ordered))

end

/-! ### Texts -/

/-- A declaration is read, or a fault with its problem. -/
theorem reports_declaration (ordered : reading.InOrder) :
    reading.Reports (declaration reading).2 [(declaration reading).1] := by
  unfold declaration
  split
  · exact (proceeds_headerDeclaration reading _).reports_nil.node .package rfl (by decide) rfl
  split
  · exact (proceeds_headerDeclaration reading _).reports_nil.node .importDecl rfl (by decide) rfl
  split
  · exact (reports_faultNode _ _ _).later reading.proceeds_next
  · exact reports_memberWithin _ none ordered

/-- The faults of a text are reported one by one. -/
theorem reports_declarationsWithin (bound : Nat) {reading : Reading} (ordered : reading.InOrder) :
    reading.Reports (declarationsWithin bound reading).2 (declarationsWithin bound reading).1 := by
  induction bound generalizing reading with
  | zero => exact (Proceeds.refl reading).reports rfl
  | succ bound ih =>
      rw [declarationsWithin_succ]
      split
      · exact (Proceeds.refl reading).reports rfl
      split
      · exact (ih (reading.onward_next.inOrder ordered)).later reading.proceeds_next
      · exact (reports_declaration ordered).append
          (ih ((proceeds_declaration reading).onward.inOrder ordered))

end Parser

/-- The tokens of a text are in order. -/
theorem inOrder_tokenize (source : String) :
    Reading.InOrder { rest := (tokenize source).1, finish := .endOf source } :=
  (ordered_tokenize source).imp_of_mem fun {token _} member _ ordered =>
    Nat.le_trans (isIn_tokenize source token member).ordered ordered

/-- **No fault goes unreported.** A text that is not blank is read with a problem of its own for
each fault node, in the same order and within the place of the node. So there are no more fault
nodes than diagnostics, and none if there are no diagnostics. -/
theorem faults_reported {source : String} (filled : ¬Text.isBlankText source) :
    ∃ parsed, parseSource source = .ok parsed ∧ Covered parsed.tree.faults parsed.diagnostics ∧
      parsed.tree.count .fault ≤ parsed.diagnostics.length ∧
      (parsed.tree.Everywhere fun node => node.kind = .fault →
        ∃ problem ∈ parsed.diagnostics, problem.range.Within node.range) ∧
      (parsed.diagnostics = [] → parsed.tree.Everywhere (·.kind ≠ .fault)) := by
  let reading : Reading := { rest := (tokenize source).1, finish := .endOf source }
  let read := Parser.declarationsWithin ((tokenize source).1.length + 1) reading
  obtain ⟨found, kept, covered⟩ : reading.Reports read.2 read.1 :=
    Parser.reports_declarationsWithin _ (inOrder_tokenize source)
  let tree : SyntaxTree :=
    { kind := .program, children := read.1, range := ⟨reading.start, .endOf source⟩ }
  let problems := (tokenize source).2 ++ read.2.problems.reverse
  have whole : Covered tree.faults problems := by
    have split : problems = (tokenize source).2 ++ found := congrArg (_ ++ ·) kept
    have below : tree.faults = SyntaxTree.faultsOf read.1 :=
      SyntaxTree.faults_of_kind .program rfl (by decide)
    rw [below, split]
    exact Covered.append .nil covered
  have reported := SyntaxTree.everywhere_of_faults whole.exists_within
  refine ⟨⟨tree, problems⟩, if_neg filled, whole, ?_, reported, fun (none : problems = []) => ?_⟩
  · rw [← SyntaxTree.length_faults]
    exact whole.length_le
  · refine reported.imp fun node covered faulty => ?_
    obtain ⟨problem, found, _⟩ := covered faulty
    rw [none] at found
    cases found

/-- A bracket that closes nothing, behind two labels. -/
theorem faults_reported_labelled :
    ¬Text.isBlankText "class A \x7b void f() \x7b a: b: ) \x7d \x7d" ∧
      ∃ parsed, parseSource "class A \x7b void f() \x7b a: b: ) \x7d \x7d" = .ok parsed ∧
        parsed.tree.count .fault = 1 ∧ Covered parsed.tree.faults parsed.diagnostics ∧
        parsed.tree.count .fault ≤ parsed.diagnostics.length ∧
        (parsed.tree.Everywhere fun node => node.kind = .fault →
          ∃ problem ∈ parsed.diagnostics, problem.range.Within node.range) ∧
        (parsed.diagnostics = [] → parsed.tree.Everywhere (·.kind ≠ .fault)) := by
  have filled : ¬Text.isBlankText "class A \x7b void f() \x7b a: b: ) \x7d \x7d" := by
    decide +kernel
  obtain ⟨parsed, read, result⟩ := faults_reported filled
  obtain ⟨other, again, one⟩ :
      ∃ parsed, parseSource "class A \x7b void f() \x7b a: b: ) \x7d \x7d" = .ok parsed ∧
        parsed.tree.count .fault == 1 := exists_tested (by decide +kernel)
  cases read.symm.trans again
  exact ⟨filled, parsed, read, beq_iff_eq.mp one, result⟩

end Transcode
