import Transcode.Proofs.Codecs
import Transcode.Rule.Codec

/-!
# Rules written as data and read again

Every part of a rule is read back from its data, also after this was stored: each omission of a
writer is a default of its reader (`Rule.reads_toJson`). The numbers in a rule must fit the machine
(`Rule.Fits`), as they do in every rule that was read (`Rule.yields_fits`).
-/

namespace Transcode

open Decoder (Reads)

variable {bound : Nat}

/-! ### Texts that are read -/

/-- A template is read back as its text. -/
theorem Template.reads_toJson (template : Template) :
    Reads bound Template.decoder template.toJson template where
  within := Json.isWithin_text _
  read := by
    rw [toJson, Json.sorted_text]
    unfold Template.decoder Decoder.refine
    dsimp only
    rw [template.read_source]
    rfl

/-- A pattern for texts is read back as its text. -/
theorem TextPattern.reads_toJson (pattern : TextPattern) :
    Reads bound TextPattern.decoder pattern.toJson pattern where
  within := Json.isWithin_text _
  read := by
    rw [toJson, Json.sorted_text]
    unfold TextPattern.decoder Decoder.refine
    dsimp only
    rw [pattern.ofSource?_source]

/-! ### Choices -/

theorem Role.reads_toJson (role : Role) : Reads bound Role.decoder role.toJson role where
  within := by cases role <;> exact Json.isWithin_text _
  read := by cases role <;> rw [toJson, Json.sorted_text] <;> rfl

theorem NodeKind.reads_name (kind : NodeKind) :
    Reads bound NodeKind.decoder (.text kind.name) kind :=
  ⟨Json.isWithin_text _, by rw [Json.sorted_text]; exact kind.decoder_name⟩

/-- A kind of nodes is read back also where its name may be written loosely. -/
theorem NodeKind.reads_name_loose (kind : NodeKind) :
    Reads bound (Decoder.looseChoice NodeKind.names) (.text kind.name) kind :=
  ⟨Json.isWithin_text _, by rw [Json.sorted_text]; cases kind <;> rfl⟩

theorem EdgeKind.reads_name (kind : EdgeKind) :
    Reads bound EdgeKind.decoder (.text kind.name) kind :=
  ⟨Json.isWithin_text _, by rw [Json.sorted_text]; exact kind.decoder_name⟩

/-! ### Source patterns -/

/-- A test of an attribute is read back. -/
theorem AttributeTest.reads_toJson (test : AttributeTest) :
    Reads (bound + 1) AttributeTest.decoder test.toJson test := by
  cases test with
  | equals text => exact .tagged rfl ((Reads.text text).map equals)
  | hasWord word => exact .tagged rfl ((Reads.text word).map hasWord)
  | lacksWord word => exact .tagged rfl ((Reads.text word).map lacksWord)
  | matching pattern => exact .tagged rfl (pattern.reads_toJson.map matching)
  | present expected => exact .tagged rfl ((Reads.bool expected).map present)
  | absent expected => exact .tagged rfl ((Reads.bool expected).map absent)

namespace NodeFilter

variable {decode : Decoder NodeKind}

/-- The fields of a filter are read back. -/
theorem reads_fields (filter : NodeFilter)
    (kinds : ∀ kind : NodeKind, decode.Reads (bound + 1) (.text kind.name) kind) :
    Field.Reads ["kinds", "label", "attributes"] (bound + 2)
      (fields decode) filter.entries filter :=
  (((Field.Reads.list "kinds" fun kind _ => kinds kind).map mk).seq
    (.optional "label" (fun pattern => by simp [TextPattern.toJson]) fun pattern _ =>
      pattern.reads_toJson)).seq
    (.dict "attributes" fun entry _ => entry.2.reads_toJson)

theorem reads_toJson (filter : NodeFilter) : Reads (bound + 3) decoder filter.toJson filter :=
  .record (filter.reads_fields NodeKind.reads_name) (by decide)

end NodeFilter

/-- The numbers of a test fit 64 bits. -/
structure ChildrenTest.Fits (test : ChildrenTest) : Prop where
  min : test.min < Nat.pow 2 64
  max : ∀ max ∈ test.max, max < Nat.pow 2 64

/-- The numbers of the tests in a pattern fit 64 bits. -/
def SourcePattern.Fits (pattern : SourcePattern) : Prop :=
  ∀ node ∈ pattern.nodes, ∀ test ∈ node.children, test.Fits

/-- The numbers of a rule fit: its confidence has 32 bits. -/
structure Rule.Fits (rule : Rule) : Prop where
  confidence : rule.confidence < Nat.pow 2 32
  sourcePattern : rule.sourcePattern.Fits

/-- A test of children is read back. -/
theorem ChildrenTest.reads_toJson {test : ChildrenTest} (fits : test.Fits) :
    Reads (bound + 4) ChildrenTest.decoder test.toJson test := by
  have fields : Field.Reads _ (bound + 3) _ _ _ :=
    ((((Field.Reads.defaulted "edge" .contains test.edge.reads_name).map mk).seq
      (.optional "all" (fun filter => by simp [NodeFilter.toJson, Json.sorted])
        fun filter (_ : filter ∈ test.all) => filter.reads_toJson)).seq
      (.defaulted "min" 0 (.natural fits.min))).seq
      (.optional "max" (fun number => by simp) fun number there => .natural (fits.max number there))
  exact .record fields (by decide)

/-- A node of a pattern is read back. -/
theorem PatternNode.reads_toJson {node : PatternNode} (fits : ∀ test ∈ node.children, test.Fits) :
    Reads (bound + 5) PatternNode.decoder node.toJson node :=
  .objectRecord (((((Field.Reads.required "name" (.text node.name)).map mk).seq
    (.defaulted "role" .context node.role.reads_toJson)).seq
    (node.filter.reads_fields NodeKind.reads_name_loose).flattened).seq
    (.optional "children" (fun test => by simp [ChildrenTest.toJson, Json.sorted]) fun test there =>
      ChildrenTest.reads_toJson (fits test there))) (by decide)

/-- An edge of a pattern is read back. -/
theorem PatternEdge.reads_toJson (edge : PatternEdge) :
    Reads (bound + 1) PatternEdge.decoder edge.toJson edge :=
  .record ((((Field.Reads.required "source" (.text edge.source)).map mk).seq
    (.required "target" (.text edge.target))).seq
    (.required "kind" edge.kind.reads_name)) (by decide)

/-- A constraint is read back. -/
theorem Constraint.reads_toJson (constraint : Constraint) :
    Reads (bound + 2) Constraint.decoder constraint.toJson constraint := by
  have both (left right : Template) : Reads (bound + 1) (Template.decoder.pair Template.decoder)
      (.array [left.toJson, right.toJson]) (left, right) :=
    .pair left.reads_toJson right.reads_toJson
  cases constraint with
  | equal left right => exact .tagged rfl ((both left right).map fun two => equal two.1 two.2)
  | differ left right => exact .tagged rfl ((both left right).map fun two => differ two.1 two.2)

/-- A source pattern is read back. -/
theorem SourcePattern.reads_toJson {pattern : SourcePattern} (fits : pattern.Fits) :
    Reads (bound + 7) SourcePattern.decoder pattern.toJson pattern :=
  .record ((((Field.Reads.required "nodes" (.list fun node member =>
      PatternNode.reads_toJson (fits node member))).map mk).seq
    (.list "edges" fun edge _ => edge.reads_toJson)).seq
    (.list "constraints" fun constraint _ => constraint.reads_toJson)) (by decide)

/-! ### Target patterns -/

/-- A node of a target is read back. -/
theorem TemplateNode.reads_toJson (node : TemplateNode) :
    Reads (bound + 2) TemplateNode.decoder node.toJson node :=
  .record (((((((Field.Reads.required "name" (.text node.name)).map mk).seq
    (.optional "copyFrom" (fun name => by simp) fun name _ => .text name)).seq
    (.optional "kind" (fun kind => by simp) fun kind _ => kind.reads_name)).seq
    (.optional "label" (fun template => by simp [Template.toJson]) fun template _ =>
      template.reads_toJson)).seq
    (.dict "set" fun entry _ => entry.2.reads_toJson)).seq
    (.list "remove" fun name _ => .text name)) (by decide)

/-- A target pattern is read back. -/
theorem TargetPattern.reads_toJson (target : TargetPattern) :
    Reads (bound + 4) TargetPattern.decoder target.toJson target :=
  .record (((((Field.Reads.required "nodes" (.list fun node _ => node.reads_toJson)).map mk).seq
    (.list "edges" fun edge _ => edge.reads_toJson)).seq
    (.optional "root" (fun name => by simp) fun name _ => .text name)).seq
    (.dict "boundary" fun entry _ => .text entry.2)) (by decide)

/-! ### Rules -/

/-- **A rule is read back** from its data, of which no part nests deeper than eight levels. -/
theorem Rule.reads_toJson {rule : Rule} (fits : rule.Fits) :
    Reads (bound + 8) Rule.decoder rule.toJson rule :=
  .record (((((((((((Field.Reads.required "id" (.text rule.id)).map mk).seq
    (.required "name" (.text rule.name))).seq
    (.defaulted "source" "" (.text rule.source))).seq
    (.defaulted "target" "" (.text rule.target))).seq
    (.defaulted "description" "" (.text rule.description))).seq
    (.required "confidence" (.naturalBelow fits.confidence (by decide)))).seq
    (.defaulted "automated" true (.bool rule.automated))).seq
    (.defaulted "crossDeclaration" false (.bool rule.crossDeclaration))).seq
    (.required "sourcePattern" (SourcePattern.reads_toJson fits.sourcePattern))).seq
    (.required "targetPattern" rule.targetPattern.reads_toJson)) (by decide)

/-! ### Numbers of rules that are read -/

/-- A test of children that is read has 64-bit numbers. -/
theorem ChildrenTest.yields_fits : ChildrenTest.decoder.Yields ChildrenTest.Fits :=
  .record (.seq (.seq (.pass (.map .any fun _ _ _ _ min _ max => ⟨min, max⟩))
    (.named (.naturalBelow (Nat.pow 2 64)) (by simp)))
    (.named (.optional (.naturalBelow (Nat.pow 2 64))) (by simp)))

/-- A node of a pattern that is read has 64-bit numbers. -/
theorem PatternNode.yields_fits :
    PatternNode.decoder.Yields fun node => ∀ test ∈ node.children, test.Fits :=
  .objectRecord (.seq (.pass (.pass (.map .any fun _ _ _ _ _ fits => fits)))
    (.named (.optional ChildrenTest.yields_fits) (by simp)))

/-- A source pattern that is read has 64-bit numbers. -/
theorem SourcePattern.yields_fits : SourcePattern.decoder.Yields SourcePattern.Fits :=
  .record (.pass (.pass (.map (.named (.list PatternNode.yields_fits) (by simp))
    fun _ fits _ _ => fits)))

/-- **The numbers fit in every rule that is read.** -/
theorem Rule.yields_fits : Rule.decoder.Yields Rule.Fits :=
  .record (.pass (.seq (.pass (.pass (.seq (.pass (.pass (.pass (.pass (.map .any
    fun _ _ _ _ _ _ _ confidence _ _ _ sourcePattern _ => ⟨confidence, sourcePattern⟩)))))
    (.named (.naturalBelow (Nat.pow 2 32)) (by simp)))))
    (.named SourcePattern.yields_fits (by simp))))

end Transcode
