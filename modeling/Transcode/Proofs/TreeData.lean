import Transcode.Engine
import Transcode.Proofs.Codecs
import Transcode.Proofs.Ranges

/-!
# Syntax trees written as JSON and read again

A tree takes two levels of nesting for each node on its longest path and one more, since the range
of a leaf has positions (`SyntaxTree.depth_toJson`). So the trees that nest no deeper than what is
read for use are those that are no higher than what is decoded, and every omission of the writer is
a default of the reader (`SyntaxTree.decoder_toJson_iff`). Positions are numbers of 64 bits
(`SyntaxTree.Fits`), as those of a source text that memory can hold are.
-/

namespace Transcode

/-! ### Places -/

/-- The numbers of a position fit 64 bits. -/
structure Position.Fits (position : Position) : Prop where
  line : position.line < Nat.pow 2 64
  column : position.column < Nat.pow 2 64
  offset : position.offset < Nat.pow 2 64

instance (position : Position) : Decidable position.Fits :=
  decidable_of_iff (position.line < Nat.pow 2 64 ∧ position.column < Nat.pow 2 64 ∧
      position.offset < Nat.pow 2 64)
    ⟨fun ⟨line, column, offset⟩ => ⟨line, column, offset⟩,
      fun ⟨line, column, offset⟩ => ⟨line, column, offset⟩⟩

/-- The ends of a range fit 64 bits. -/
structure SourceRange.Fits (range : SourceRange) : Prop where
  start : range.start.Fits
  stop : range.stop.Fits

instance (range : SourceRange) : Decidable range.Fits :=
  decidable_of_iff (range.start.Fits ∧ range.stop.Fits)
    ⟨fun ⟨start, stop⟩ => ⟨start, stop⟩, fun ⟨start, stop⟩ => ⟨start, stop⟩⟩

/-- All ranges in a tree fit 64 bits. -/
def SyntaxTree.Fits (tree : SyntaxTree) : Prop := tree.Everywhere (·.range.Fits)

instance (tree : SyntaxTree) : Decidable tree.Fits :=
  inferInstanceAs (Decidable (tree.Everywhere (·.range.Fits)))

/-- A position of 64-bit numbers is read back. -/
theorem Position.decoder_toJson {position : Position} (fits : position.Fits) :
    Position.decoder position.toJson = .ok position := by
  refine Field.decoder_object (Field.run_seq (f := mk position.line position.column)
    (Field.run_seq (f := mk position.line) (Field.run_map mk ?_) ?_) ?_)
  · exact Field.run_named rfl (Decoder.natural_of_lt fits.line)
  · exact Field.run_named rfl (Decoder.natural_of_lt fits.column)
  · exact Field.run_named rfl (Decoder.natural_of_lt fits.offset)

/-- A position nests one deep. -/
theorem Position.isWithin_toJson {position : Position} (fits : position.Fits) :
    position.toJson.IsWithin 1 :=
  Json.isWithin_object (List.forall_mem_cons.mpr ⟨Json.isWithin_natural fits.line,
    List.forall_mem_cons.mpr ⟨Json.isWithin_natural fits.column,
      List.forall_mem_singleton.mpr (Json.isWithin_natural fits.offset)⟩⟩)

/-- A range is read back. -/
theorem SourceRange.decoder_toJson {range : SourceRange} (fits : range.Fits) :
    SourceRange.decoder range.toJson = .ok range := by
  refine Field.decoder_object (Field.run_seq (f := mk range.start) (Field.run_map mk ?_) ?_)
  · exact Field.run_named rfl (Position.decoder_toJson fits.start)
  · exact Field.run_named rfl (Position.decoder_toJson fits.stop)

/-- A range nests two deep. -/
theorem SourceRange.isWithin_toJson {range : SourceRange} (fits : range.Fits) :
    range.toJson.IsWithin 2 :=
  Json.isWithin_object (List.forall_mem_cons.mpr ⟨Position.isWithin_toJson fits.start,
    List.forall_mem_singleton.mpr (Position.isWithin_toJson fits.stop)⟩)

theorem SyntaxKind.decoder_name (kind : SyntaxKind) :
    SyntaxKind.decoder (.text kind.name) = .ok kind := by
  cases kind <;> rfl

namespace SyntaxTree

variable {tree : SyntaxTree}

theorem fits_iff : tree.Fits ↔ tree.range.Fits ∧ ∀ child ∈ tree.children, child.Fits :=
  everywhere_iff

/-! ### Entries -/

/-- The entries of a tree as data. -/
def entries (tree : SyntaxTree) : List (String × Json) :=
  [("kind", .text tree.kind.name)] ++ Json.entryIfSome "name" .text tree.name
    ++ Json.entryIfAny "children" toJson tree.children ++ [("range", tree.range.toJson)]
    ++ Json.entryIfNonempty "attributes" .text tree.attributes

/-- Trees are written one by one. -/
theorem toJsons_eq_map (trees : List SyntaxTree) : toJsons trees = trees.map toJson := by
  induction trees with
  | nil => rfl
  | cons tree rest ih => rw [toJsons, ih, List.map_cons]

/-- A tree is written as its entries. -/
theorem toJson_eq (tree : SyntaxTree) : tree.toJson = .object tree.entries := by
  obtain ⟨kind, name, children, range, attributes⟩ := tree
  rw [toJson, toJsons_eq_map, entries]
  cases children <;> rfl

/-- Trees are at most so high if each is. -/
theorem heights_le_iff {trees : List SyntaxTree} {bound : Nat} :
    heights trees ≤ bound ↔ ∀ tree ∈ trees, tree.height ≤ bound := by
  induction trees with
  | nil => simp [heights]
  | cons tree rest ih => rw [heights, Nat.max_le, ih, List.forall_mem_cons]

/-- A tree is one higher than the highest of its children. -/
theorem height_le_succ_iff {bound : Nat} :
    tree.height ≤ bound + 1 ↔ ∀ child ∈ tree.children, child.height ≤ bound := by
  obtain ⟨kind, name, children, range, attributes⟩ := tree
  rw [height, Nat.succ_le_succ_iff, heights_le_iff]

/-- A tree has a height. -/
theorem height_pos (tree : SyntaxTree) : 0 < tree.height := by
  obtain ⟨kind, name, children, range, attributes⟩ := tree
  rw [height]
  exact Nat.succ_pos _

/-- The entries of a tree are laid out under its names. -/
theorem laidOut_entries {bound : Nat} (fits : tree.range.Fits)
    (below : ∀ child ∈ tree.children, child.toJson.IsWithin (2 * bound + 1)) :
    Json.LaidOut ["kind", "name", "children", "range", "attributes"] (2 * bound + 2)
      tree.entries :=
  (((Json.LaidOut.single (Json.isWithin_text _)).append
    (.entryIfSome fun _ _ => Json.isWithin_text _)).append
      (.entryIfAny below)).append
        (.single ((SourceRange.isWithin_toJson fits).mono (by omega))) |>.append
          (.entryIfNonempty fun _ _ => Json.isWithin_text _)

/-! ### Depth -/

/-- A tree that is so high nests at most so deep. -/
theorem isWithin_toJson {bound : Nat} (fits : tree.Fits) (low : tree.height ≤ bound) :
    tree.toJson.IsWithin (2 * bound + 1) := by
  induction bound generalizing tree with
  | zero => exact absurd low (Nat.not_le_of_lt tree.height_pos)
  | succ bound ih =>
      obtain ⟨here, below⟩ := fits_iff.mp fits
      have lower := height_le_succ_iff.mp low
      rw [toJson_eq]
      exact (laidOut_entries here fun child member =>
        ih (below child member) (lower child member)).isWithin

/-- An entry nests less deep than its tree. -/
theorem depth_lt_of_mem {name : String} {json : Json} (member : (name, json) ∈ tree.entries) :
    json.depth < tree.toJson.depth := by
  rw [toJson_eq, Json.depth]
  exact Nat.lt_succ_of_le (Json.entriesDepth_le_iff.mp (Nat.le_refl _) _ member)

/-- The range alone nests two levels, and the children two levels more than the deepest of them. -/
theorem height_le_of_depth {bound : Nat} (shallow : tree.toJson.depth ≤ 2 * bound + 2) :
    tree.height ≤ bound := by
  induction bound generalizing tree with
  | zero =>
      have written : ("range", tree.range.toJson) ∈ tree.entries := by simp [entries]
      have deep := depth_lt_of_mem written
      have range : tree.range.toJson.depth = 2 := rfl
      omega
  | succ bound ih =>
      refine height_le_succ_iff.mpr fun child member => ih ?_
      have written : ("children", .array (tree.children.map toJson)) ∈ tree.entries := by
        obtain ⟨kind, name, children, range, attributes⟩ := tree
        cases children with
        | nil => cases member
        | cons first rest => simp [entries, Json.entryIfAny]
      have deep := depth_lt_of_mem written
      rw [Json.depth] at deep
      exact Json.itemsDepth_le_iff.mp (by omega) _ (List.mem_map_of_mem member)

/-- **How deep a tree nests**: two levels for each node on its longest path and one more. -/
theorem depth_toJson (fits : tree.Fits) : tree.toJson.depth = 2 * tree.height + 1 := by
  refine Nat.le_antisymm (isWithin_toJson fits (Nat.le_refl _)).depth_le ?_
  by_contra shallow
  have positive := tree.height_pos
  have low : tree.height ≤ tree.height - 1 := height_le_of_depth (by omega)
  omega

/-! ### Reading -/

/-- A tree is read back within its height. -/
theorem decoderWithin_toJson {bound : Nat} (fits : tree.Fits) (low : tree.height ≤ bound) :
    decoderWithin bound tree.toJson = .ok tree := by
  -- The reader counts the height down, so the induction is on its bound and not on the tree.
  induction bound generalizing tree with
  | zero => exact absurd low (Nat.not_le_of_lt tree.height_pos)
  | succ bound ih =>
      obtain ⟨here, below⟩ := fits_iff.mp fits
      have lower := height_le_succ_iff.mp low
      have laidOut := laidOut_entries here fun child member =>
        isWithin_toJson (below child member) (lower child member)
      have holds : Record.Holds { entries := tree.entries } tree.entries :=
        Record.holds_self (laidOut.distinct (by decide))
      rw [toJson_eq]
      obtain ⟨kind, name, children, range, attributes⟩ := tree
      refine Field.decoder_object (Field.run_seq (f := mk kind name children range)
        (Field.run_seq (f := mk kind name children)
          (Field.run_seq (f := mk kind name)
            (Field.run_seq (f := mk kind) (Field.run_map mk ?_) ?_) ?_) ?_) ?_)
      · exact Field.run_required holds (by simp [entries]) kind.decoder_name
      · exact Field.run_entryIfSome holds .text (by simp [entries]) fun _ _ => ⟨nofun, rfl⟩
      · exact Field.run_entryIfAny holds toJson (by simp [entries]) fun child member =>
          ih (below child member) (lower child member)
      · exact Field.run_required holds (by simp [entries]) (SourceRange.decoder_toJson here)
      · exact Field.run_entryIfNonempty holds .text (by simp [entries]) fun _ _ => rfl

/-- What is read is never higher than the bound. -/
theorem yields_low (bound : Nat) : (decoderWithin bound).Yields (·.height ≤ bound) := by
  induction bound with
  | zero => exact fun json tree read => by cases read
  | succ bound ih =>
      refine .record (.pass (.pass (.seq (.pass (.map .any ?_)) (.named (.list ih) (by simp)))))
      exact fun kind _ name children low range attributes => height_le_succ_iff.mpr low

/-- **Trees are read back** as long as they nest no deeper than what is read for use. -/
theorem decoder_toJson_iff (fits : tree.Fits) :
    decoder tree.toJson = .ok tree ↔ tree.toJson.depth ≤ Json.maxDepth := by
  constructor
  · intro read
    have low : tree.height ≤ maxHeight := yields_low maxHeight _ _ read
    rw [depth_toJson fits, Json.maxDepth]
    rw [maxHeight, Json.maxDepth] at low
    omega
  · intro shallow
    exact decoderWithin_toJson fits (height_le_of_depth (Nat.le_succ_of_le shallow))

/-- A text that denotes a tree is read as the tree. -/
theorem ofJsonText_of_read? (fits : tree.Fits) (shallow : tree.toJson.depth ≤ Json.maxDepth)
    {text : String} (denotes : Json.read? text = some tree.toJson) :
    ofJsonText text = .ok tree := by
  unfold ofJsonText
  rw [denotes, Option.map_some, (decoder_toJson_iff fits).mpr shallow]

end SyntaxTree

/-! ### Trees of source texts -/

/-- A text has no more characters than bytes. -/
theorem length_le_utf8ByteSize (text : String) : text.toList.length ≤ text.utf8ByteSize := by
  suffices every : ∀ cs : List Char, cs.length ≤ (String.ofList cs).utf8ByteSize by
    simpa using every text.toList
  intro cs
  induction cs with
  | nil => exact Nat.zero_le _
  | cons c cs ih =>
      rw [← List.singleton_append, String.ofList_append, String.utf8ByteSize_append]
      have positive := c.utf8Size_pos
      simp
      omega

/-- The positions of a text that memory can hold fit 64 bits: a line break or character is a byte at
least, and lines and columns count from one. -/
theorem Position.IsIn.fits {source : String} (held : source.utf8ByteSize < Nat.pow 2 63)
    {position : Position} (place : position.IsIn source) : position.Fits := by
  obtain ⟨before, after, rfl, offset, line, column⟩ := place
  rw [String.utf8ByteSize_append] at held
  have size := length_le_utf8ByteSize before
  have breaks : before.toList.count '\n' ≤ before.toList.length := List.count_le_length
  have since : (before.toList.reverse.takeWhile (· ≠ '\n')).length ≤ before.toList.length := by
    simpa using (List.takeWhile_sublist (· ≠ '\n') (l := before.toList.reverse)).length_le
  have room : Nat.pow 2 63 < Nat.pow 2 64 := by decide
  exact ⟨by omega, by omega, by omega⟩

/-- A range in a text that is held in memory has 64-bit numbers. -/
theorem SourceRange.IsIn.fits {source : String} (held : source.utf8ByteSize < Nat.pow 2 63)
    {range : SourceRange} (within : range.IsIn source) : range.Fits :=
  ⟨within.start.fits held, within.stop.fits held⟩

/-- A tree in place in such a text has 64-bit numbers. -/
theorem SyntaxTree.IsIn.fits {source : String} (held : source.utf8ByteSize < Nat.pow 2 63)
    {tree : SyntaxTree} (place : tree.IsIn source) : tree.Fits :=
  place.imp fun _ within => within.fits held

/-- What is parsed is in place. -/
theorem places_of_parseSource {source : String} {parsed : ParsedSource}
    (parses : parseSource source = .ok parsed) :
    parsed.tree.IsIn source ∧ ∀ problem ∈ parsed.diagnostics, problem.range.IsIn source := by
  have filled : ¬Text.isBlankText source := fun blank => by
    unfold parseSource at parses
    rw [if_pos blank] at parses
    cases parses
  obtain rfl := Except.ok.inj ((if_neg filled).symm.trans parses)
  let reading : Reading := { rest := (tokenize source).1, finish := .endOf source }
  have reads : reading.IsOf source := ⟨⟨[], rfl, rfl⟩, rfl, List.forall_mem_nil _⟩
  have fit := Parser.fit_declarationsWithin ((tokenize source).1.length + 1) reads
  have whole : SourceRange.IsIn source ⟨reading.start, .endOf source⟩ :=
    ⟨reads.isIn_start, Position.isIn_endOf source, reads.isIn_start.le_endOf⟩
  refine ⟨SyntaxTree.isIn_iff.mpr ⟨whole, fit.1⟩, ?_⟩
  exact List.forall_mem_append.mpr ⟨isIn_lexical source, fun problem member =>
    fit.2.problems problem (List.mem_reverse.mp member)⟩

/-- A parsed source is written as plain data. -/
theorem ParsedSource.plain_toJson {parsed : ParsedSource} (fits : parsed.tree.Fits)
    (problems : ∀ problem ∈ parsed.diagnostics, problem.range.Fits) : parsed.toJson.Plain := by
  have tree := (SyntaxTree.isWithin_toJson fits (Nat.le_refl _)).plain
  have diagnostics : (Json.array (parsed.diagnostics.map (·.toJson))).Plain :=
    Json.plain_array_map fun problem member => .object (List.forall_mem_cons.mpr ⟨.text _,
      List.forall_mem_cons.mpr ⟨.text _, List.forall_mem_singleton.mpr
        (SourceRange.isWithin_toJson (problems problem member)).plain⟩⟩)
  exact .object (List.forall_mem_cons.mpr ⟨tree, List.forall_mem_singleton.mpr diagnostics⟩)

/-- **Trees survive JSON.** A tree that nests at most 127 levels deep is read back from its data,
and from every text that denotes this data, such as the written one. So what is written of a source
text has a tree from whose text the same graph is built as from the source text itself. Two bounds
are those of the machine: positions are numbers of 64 bits, and no text has more bytes than half of
these numbers can count. -/
theorem SyntaxTree.treeData_roundTrip :
    (∀ tree : SyntaxTree, tree.Fits → tree.toJson.depth ≤ Json.maxDepth →
      decoder tree.toJson = .ok tree ∧ Json.read? tree.toJson.pretty = some tree.toJson ∧
        ∀ text, Json.read? text = some tree.toJson → ofJsonText text = .ok tree) ∧
    ∀ (source : String) (parsed : ParsedSource), source.utf8ByteSize < Nat.pow 2 63 →
      parseSource source = .ok parsed → parsed.tree.toJson.depth ≤ Json.maxDepth →
        ∃ written ast, Engine.treeOfSource source = .ok written ∧
          Json.read? written.pretty = some written ∧ written.valueAt? "ast" = some ast ∧
            Json.read? ast.pretty = some ast ∧ ∀ text, Json.read? text = some ast →
              Engine.graphOfTree text = Engine.graphOfSource source := by
  have denoted {tree : SyntaxTree} (fits : tree.Fits) :
      Json.read? tree.toJson.pretty = some tree.toJson :=
    Json.read?_pretty (isWithin_toJson fits (Nat.le_refl _)).plain
  refine ⟨fun tree fits shallow => ⟨(decoder_toJson_iff fits).mpr shallow, denoted fits,
    fun text denotes => ofJsonText_of_read? fits shallow denotes⟩, ?_⟩
  intro source parsed held parses shallow
  obtain ⟨place, problems⟩ := places_of_parseSource parses
  have fits := place.fits held
  refine ⟨parsed.toJson, parsed.tree.toJson, ?_, Json.read?_pretty ?_, rfl, denoted fits, ?_⟩
  · unfold Engine.treeOfSource
    rw [parses]
    rfl
  · exact ParsedSource.plain_toJson fits fun problem member => (problems problem member).fits held
  · intro text denotes
    unfold Engine.graphOfTree Engine.graphOfSource
    rw [ofJsonText_of_read? fits shallow denotes, parses]
    rfl

/-- A class with an empty name that calls something without one, and a class as it is parsed. -/
theorem SyntaxTree.treeData_roundTrip_class :
    let range : SourceRange := ⟨⟨1, 1, 0⟩, ⟨2, 3, Nat.pow 2 64 - 1⟩⟩
    let tree : SyntaxTree := {
      kind := .classDecl
      name := some ""
      children := [{ kind := .call, range }]
      range
      attributes := Dict.empty.insert "modifiers" "" }
    let source := "class A \x7b int f() \x7b g( \x7d"
    tree.Fits ∧ tree.toJson.depth = 5 ∧ SyntaxTree.decoder tree.toJson = .ok tree ∧
      ∃ parsed, parseSource source = .ok parsed ∧ source.utf8ByteSize < Nat.pow 2 63 ∧
        parsed.diagnostics ≠ [] ∧ parsed.tree.toJson.depth ≤ Json.maxDepth ∧
          ∃ written ast, Engine.treeOfSource source = .ok written ∧
            written.valueAt? "ast" = some ast ∧
              Engine.graphOfTree ast.pretty = Engine.graphOfSource source := by
  intro range tree source
  have fits : tree.Fits := by decide
  have depth : tree.toJson.depth = 5 := SyntaxTree.depth_toJson fits
  have held : source.utf8ByteSize < Nat.pow 2 63 := by decide +kernel
  obtain ⟨parsed, parses, tested⟩ : ∃ parsed, parseSource source = .ok parsed ∧
      (!parsed.diagnostics.isEmpty && decide (parsed.tree.toJson.depth ≤ Json.maxDepth)) = true :=
    exists_tested (by decide +kernel)
  obtain ⟨faulty, shallow⟩ := Bool.and_eq_true_iff.mp tested
  have within := of_decide_eq_true shallow
  obtain ⟨back, -, -⟩ := treeData_roundTrip.1 tree fits (depth.trans_le (by decide))
  obtain ⟨written, ast, isWritten, -, isAst, denoted, same⟩ :=
    treeData_roundTrip.2 source parsed held parses within
  refine ⟨fits, depth, back, parsed, parses, held, ?_, within, written, ast, isWritten, isAst,
    same _ denoted⟩
  simpa using faulty

end Transcode
