import Transcode.Proofs.Declarations
import Transcode.Proofs.FreshName
import Transcode.Proofs.Slots

/-!
# Slots of encoded bodies

The encoding of statements takes numbers from where it starts and leaves each of them twice: as a
line and as a loop (`slotted_encodeStatements`). So in the outlines of a tree whose texts make plain
lines, every body stands for the loops that it is kept with (`Outline.placed_of_ofTree`).
-/

namespace Transcode

open Output (slotOf? slotsIn slotsIn_intercalate slotOf?_pad slotOf?_of_head slotOf?_loopMark)

/-! ### Texts -/

namespace Text

/-- A text of one line. -/
def Unbroken (text : String) : Prop := '\n' ∉ text.toList

instance (text : String) : Decidable (Unbroken text) := inferInstanceAs (Decidable ('\n' ∉ _))

/-- A text that starts with a character that is neither blank nor the first of the mark of a
loop. -/
def StartsPlain (text : String) : Prop := ∃ c ∈ text.toList.head?, ¬isBlank c ∧ c ≠ '@'

/-- Texts on one line stay on one line together. -/
theorem Unbroken.append {first second : String} (one : Unbroken first) (other : Unbroken second) :
    Unbroken (first ++ second) := by
  rw [Unbroken, String.toList_append, List.mem_append]
  exact fun member => member.elim one other

/-- What comes behind does not change how a text starts. -/
theorem StartsPlain.append {first : String} (plain : StartsPlain first) (second : String) :
    StartsPlain (first ++ second) := by
  obtain ⟨c, starts, filled⟩ := plain
  refine ⟨c, ?_, filled⟩
  rw [String.toList_append, List.head?_append, starts]
  rfl

/-- A text that starts plain has no blank in front. -/
theorem StartsPlain.trimStart_eq {text : String} (plain : StartsPlain text) :
    trimStart text.toList = text.toList := by
  obtain ⟨c, starts, filled, _⟩ := plain
  obtain ⟨rest, same⟩ := List.head?_eq_some_iff.mp starts
  rw [same, trimStart_cons_of_not_blank filled]

/-- A text that starts plain stands for no slot. -/
theorem StartsPlain.slotOf?_eq_none {text : String} (plain : StartsPlain text) :
    slotOf? text.toList = none := by
  obtain ⟨c, starts, filled, other⟩ := plain
  obtain ⟨rest, same⟩ := List.head?_eq_some_iff.mp starts
  rw [same]
  exact slotOf?_of_head filled other rest

end Text

open Text

/-- A line that does not stand for a loop. -/
structure IsPlainLine (line : String) : Prop where
  unbroken : Unbroken line
  noSlot : slotOf? line.toList = none

theorem unbroken_bodyPad (depth : Nat) : Unbroken (bodyPad depth) := by
  rw [Unbroken, bodyPad, String.toList_ofList]
  exact fun member => absurd (List.eq_of_mem_replicate member) (by decide)

/-- Indentation leaves a line plain. -/
theorem IsPlainLine.pad {text : String} (plain : IsPlainLine text) (depth : Nat) :
    IsPlainLine (bodyPad depth ++ text) where
  unbroken := (unbroken_bodyPad depth).append plain.unbroken
  noSlot := (slotOf?_pad depth text).trans plain.noSlot

/-- A text on one line that starts plain is a plain line. -/
theorem IsPlainLine.of_starts {text : String} (unbroken : Unbroken text)
    (plain : StartsPlain text) :
    IsPlainLine text := ⟨unbroken, plain.slotOf?_eq_none⟩

/-! ### Trees -/

namespace SyntaxTree

mutual

/-- Something is so of a tree and of all trees in it. -/
def Everywhere (holds : SyntaxTree → Prop) : SyntaxTree → Prop
  | ⟨kind, name, children, range, attributes⟩ =>
    holds ⟨kind, name, children, range, attributes⟩ ∧ AllEverywhere holds children

/-- Something is so of several trees and of all trees in them. -/
def AllEverywhere (holds : SyntaxTree → Prop) : List SyntaxTree → Prop
  | [] => True
  | tree :: rest => Everywhere holds tree ∧ AllEverywhere holds rest

end

mutual

/-- Decides whether something is so of a tree and of all trees in it. -/
def decideEverywhere (holds : SyntaxTree → Prop) [DecidablePred holds] :
    (tree : SyntaxTree) → Decidable (Everywhere holds tree)
  | ⟨kind, name, children, range, attributes⟩ =>
    let _ := decideAllEverywhere holds children
    inferInstanceAs (Decidable (holds ⟨kind, name, children, range, attributes⟩ ∧
      AllEverywhere holds children))

/-- Decides whether something is so of several trees and of all trees in them. -/
def decideAllEverywhere (holds : SyntaxTree → Prop) [DecidablePred holds] :
    (trees : List SyntaxTree) → Decidable (AllEverywhere holds trees)
  | [] => inferInstanceAs (Decidable True)
  | tree :: rest =>
    let _ := decideEverywhere holds tree
    let _ := decideAllEverywhere holds rest
    inferInstanceAs (Decidable (Everywhere holds tree ∧ AllEverywhere holds rest))

end

instance (holds : SyntaxTree → Prop) [DecidablePred holds] (tree : SyntaxTree) :
    Decidable (Everywhere holds tree) := decideEverywhere holds tree

variable {holds others : SyntaxTree → Prop} {tree : SyntaxTree}

/-- Something holds everywhere in several trees if it does so in each. -/
theorem allEverywhere_iff {trees : List SyntaxTree} :
    AllEverywhere holds trees ↔ ∀ tree ∈ trees, tree.Everywhere holds := by
  induction trees with
  | nil => simp [AllEverywhere]
  | cons tree rest ih => rw [AllEverywhere, ih, List.forall_mem_cons]

/-- Something holds everywhere in a tree if it holds of it and everywhere below. -/
theorem everywhere_iff :
    tree.Everywhere holds ↔ holds tree ∧ ∀ child ∈ tree.children, child.Everywhere holds := by
  obtain ⟨kind, name, children, range, attributes⟩ := tree
  rw [Everywhere, allEverywhere_iff]

mutual

theorem Everywhere.imp (weaker : ∀ tree, holds tree → others tree) :
    ∀ {tree : SyntaxTree}, tree.Everywhere holds → tree.Everywhere others
  | ⟨_, _, _, _, _⟩, ⟨here, below⟩ => ⟨weaker _ here, AllEverywhere.imp weaker below⟩

/-- What is weaker holds everywhere in several trees, too. -/
theorem AllEverywhere.imp (weaker : ∀ tree, holds tree → others tree) :
    ∀ {trees : List SyntaxTree}, AllEverywhere holds trees → AllEverywhere others trees
  | [], _ => trivial
  | _ :: _, ⟨first, rest⟩ => ⟨first.imp weaker, rest.imp weaker⟩

end

mutual

/-- Two things that hold everywhere hold everywhere together. -/
theorem Everywhere.and : ∀ {tree : SyntaxTree}, tree.Everywhere holds → tree.Everywhere others →
    tree.Everywhere fun tree => holds tree ∧ others tree
  | ⟨_, _, _, _, _⟩, ⟨here, below⟩, ⟨also, alsoBelow⟩ => ⟨⟨here, also⟩, below.and alsoBelow⟩

/-- Two things that hold everywhere in several trees do so together. -/
theorem AllEverywhere.and : ∀ {trees : List SyntaxTree}, AllEverywhere holds trees →
    AllEverywhere others trees → AllEverywhere (fun tree => holds tree ∧ others tree) trees
  | [], _, _ => trivial
  | _ :: _, ⟨first, rest⟩, ⟨also, alsoRest⟩ => ⟨first.and also, rest.and alsoRest⟩

end

/-- The texts of a statement that go into lines make plain lines. -/
def MakesPlainLines (tree : SyntaxTree) : Prop :=
  match tree.kind with
  | .statement | .returnStmt => IsPlainLine (tree.textAt "text")
  | .block => ∀ label ∈ tree.get? "label", Unbroken label ∧ StartsPlain label
  | .branch => (∀ label ∈ tree.get? "label", Unbroken label ∧ StartsPlain label) ∧
      Unbroken (tree.textAt "condition")
  | _ => True

end SyntaxTree

/-- A label with its colon in front of a text. -/
theorem IsPlainLine.label {attributes : Attributes} {text : String}
    (labels : ∀ label ∈ attributes.get? "label", Unbroken label ∧ StartsPlain label)
    (unbroken : Unbroken text) (plain : StartsPlain text) :
    IsPlainLine (labelText attributes ++ text) := by
  unfold labelText
  cases labelled : attributes.get? "label" with
  | none =>
      change IsPlainLine ("" ++ text)
      rw [String.empty_append]
      exact .of_starts unbroken plain
  | some label =>
      obtain ⟨labelUnbroken, labelPlain⟩ := labels label labelled
      have colon : Unbroken ": " := by decide
      exact .of_starts ((labelUnbroken.append colon).append unbroken)
        ((labelPlain.append ": ").append text)

/-! ### Outlines -/

/-- The slots among some outlines: those of the loops. -/
def Outline.slots (outlines : List Outline) : List (Option String) :=
  (outlines.filter (·.kind.isLoop)).map (·.attributes.get? "slot")

mutual

/-- The bodies of an outline and of those in it stand for the loops that they are kept with, each
once. -/
def Outline.Placed : Outline → Prop
  | ⟨_, _, attributes, _, children⟩ =>
    (slotsIn (attributes.textAt "body")).Nodup ∧
      Outline.slots children = (slotsIn (attributes.textAt "body")).map some ∧ AllPlaced children

/-- The bodies of several outlines stand for their loops. -/
def Outline.AllPlaced : List Outline → Prop
  | [] => True
  | outline :: rest => outline.Placed ∧ AllPlaced rest

end

/-- Several outlines are placed if each is. -/
theorem Outline.allPlaced_iff {outlines : List Outline} :
    AllPlaced outlines ↔ ∀ outline ∈ outlines, outline.Placed := by
  induction outlines with
  | nil => simp [AllPlaced]
  | cons outline rest ih => rw [AllPlaced, ih, List.forall_mem_cons]

/-- An outline is placed if its slots are those of its loops, and what is inside is placed. -/
theorem Outline.placed_iff {outline : Outline} : outline.Placed ↔
    (slotsIn (outline.attributes.textAt "body")).Nodup ∧
      slots outline.children = (slotsIn (outline.attributes.textAt "body")).map some ∧
        ∀ child ∈ outline.children, child.Placed := by
  obtain ⟨kind, label, attributes, callees, children⟩ := outline
  rw [Placed, allPlaced_iff]

/-! ### Encoding -/

namespace Encoded

/-- The slots that the lines of an encoding stand for. -/
def slots (encoded : Encoded) : List String :=
  encoded.lines.filterMap fun line => slotOf? line.toList

/-- An encoding that starts at a slot: its lines stand for the slots from there up to the one where
it ends, in order, and its loops have them. -/
structure Slotted (start : Nat) (encoded : Encoded) : Prop where
  upward : start ≤ encoded.slot
  unbroken : ∀ line ∈ encoded.lines, Unbroken line
  numbered : encoded.slots = (List.range' start (encoded.slot - start)).map toString
  taken : Outline.slots encoded.loops = encoded.slots.map some
  placed : ∀ loop ∈ encoded.loops, loop.Placed

variable {start : Nat} {encoded : Encoded}

/-- Where nothing is encoded no slot is taken. -/
theorem Slotted.none (start : Nat) : (Encoded.none start).Slotted start where
  upward := Nat.le_refl start
  unbroken := List.forall_mem_nil _
  numbered := by simp [Encoded.none, slots]
  taken := rfl
  placed := List.forall_mem_nil _

/-- Plain lines around an encoding change no slot. -/
theorem Slotted.within (slotted : encoded.Slotted start) {before after : List String}
    (first : ∀ line ∈ before, IsPlainLine line) (last : ∀ line ∈ after, IsPlainLine line) :
    (encoded.within before after).Slotted start := by
  have noSlots {lines : List String} (plain : ∀ line ∈ lines, IsPlainLine line) :
      (lines.filterMap fun line => slotOf? line.toList) = [] :=
    List.filterMap_eq_nil_iff.mpr fun line member => (plain line member).noSlot
  have same : (encoded.within before after).slots = encoded.slots := by
    simp only [slots, Encoded.within, List.filterMap_append, noSlots first, noSlots last,
      List.nil_append, List.append_nil]
  refine ⟨slotted.upward, fun line member => ?_, same.trans slotted.numbered, ?_, slotted.placed⟩
  · simp only [Encoded.within, List.mem_append] at member
    rcases member with (member | member) | member
    · exact (first line member).unbroken
    · exact slotted.unbroken line member
    · exact (last line member).unbroken
  · rw [same]
    exact slotted.taken

/-- Encodings in a row: the second goes on where the first has ended. -/
theorem Slotted.append (slotted : encoded.Slotted start) {further : Nat → Encoded}
    (goesOn : (further encoded.slot).Slotted encoded.slot) :
    (encoded.append further).Slotted start := by
  have slotsAppend : (encoded.append further).slots =
      encoded.slots ++ (further encoded.slot).slots := List.filterMap_append
  refine ⟨Nat.le_trans slotted.upward goesOn.upward, ?_, ?_, ?_, ?_⟩
  · exact fun line member => (List.mem_append.mp member).elim (slotted.unbroken line)
      (goesOn.unbroken line)
  · obtain ⟨size, ends⟩ := Nat.exists_eq_add_of_le slotted.upward
    obtain ⟨others, endsLater⟩ := Nat.exists_eq_add_of_le goesOn.upward
    have last : (encoded.append further).slot = start + (size + others) := by
      rw [← Nat.add_assoc, ← ends]
      exact endsLater
    rw [slotsAppend, slotted.numbered, goesOn.numbered, last, endsLater, ← List.map_append,
      Nat.add_sub_cancel_left, Nat.add_sub_cancel_left, ends, Nat.add_sub_cancel_left,
      List.range'_append_1]
  · rw [slotsAppend, List.map_append, ← slotted.taken, ← goesOn.taken, Outline.slots,
      Outline.slots, Outline.slots, ← List.map_append, ← List.filter_append]
    rfl
  · exact fun loop member => (List.mem_append.mp member).elim (slotted.placed loop)
      (goesOn.placed loop)

/-- The text of an encoding stands for its slots, each once. -/
theorem Slotted.text (slotted : encoded.Slotted start) :
    slotsIn encoded.text = encoded.slots ∧ encoded.slots.Nodup := by
  refine ⟨slotsIn_intercalate slotted.unbroken, ?_⟩
  rw [slotted.numbered]
  exact (List.nodup_range' ..).map toString_injective

end Encoded

open Encoded (Slotted)

/-- The line of a loop with the loop itself. -/
theorem slotted_loop (kind : SyntaxKind) (range : SourceRange) (attributes : Attributes)
    (depth slot : Nat) {body : Encoded} (slotted : body.Slotted 0) :
    Slotted slot ⟨[bodyPad depth ++ loopMark ++ toString slot],
      [loopOutline kind range attributes slot body], slot + 1⟩ := by
  have line : (Encoded.mk [bodyPad depth ++ loopMark ++ toString slot]
      [loopOutline kind range attributes slot body] (slot + 1)).slots = [toString slot] := by
    refine List.filterMap_cons_some ?_
    rw [String.append_assoc, slotOf?_pad, slotOf?_loopMark]
  have digits : Unbroken (toString slot) := by
    intro member
    have inDigits : '\n' ∈ Nat.toDigits 10 slot := by simpa using member
    exact absurd (Nat.isDigit_of_mem_toDigits (by decide) (by decide) inDigits) (by decide)
  have bodyText : (loopOutline kind range attributes slot body).attributes.textAt "body" =
      body.text := by
    simp [loopOutline, Dict.textAt]
  obtain ⟨sameSlots, distinct⟩ := slotted.text
  refine ⟨Nat.le_succ slot, List.forall_mem_singleton.mpr ?_, ?_, ?_,
    List.forall_mem_singleton.mpr (Outline.placed_iff.mpr ?_)⟩
  · exact ((unbroken_bodyPad depth).append (by decide)).append digits
  · rw [line, Nat.add_sub_cancel_left]
    rfl
  · rw [line]
    simp [Outline.slots, loopOutline, NodeKind.isLoop]
  · rw [bodyText, sameSlots]
    exact ⟨distinct, slotted.taken, slotted.placed⟩

mutual

/-- A statement takes slots one after another, a line for each loop. -/
theorem slotted_encodeStatement : ∀ {tree : SyntaxTree},
    tree.Everywhere SyntaxTree.MakesPlainLines → ∀ (isBranch : Bool) (depth slot : Nat),
      (encodeStatement isBranch depth slot tree).Slotted slot
  | ⟨kind, name, children, range, attributes⟩, ⟨here, below⟩, isBranch, depth, slot => by
    have closing : ∀ line ∈ [bodyPad depth ++ "\x7d"], IsPlainLine line :=
      List.forall_mem_singleton.mpr
        ((IsPlainLine.of_starts (by decide) ⟨'\x7d', rfl, by decide⟩).pad depth)
    have branch (number depth slot : Nat) :
        ((encodeBranch number depth slot children).getD (.none slot)).Slotted slot := by
      cases made : encodeBranch number depth slot children with
      | none => exact .none slot
      | some encoded => exact slotted_encodeBranch below number depth slot encoded made
    unfold encodeStatement
    cases kind
    case statement | returnStmt =>
      exact (Slotted.none slot).within (List.forall_mem_singleton.mpr (here.pad depth))
        (List.forall_mem_nil _)
    case block =>
      have opening : IsPlainLine (labelText attributes ++ "\x7b") :=
        .label here (by decide) ⟨'\x7b', rfl, by decide⟩
      dsimp only
      split
      · exact slotted_encodeStatements below depth slot
      · refine (slotted_encodeStatements below (depth + 1) slot).within ?_ closing
        rw [String.append_assoc]
        exact List.forall_mem_singleton.mpr (opening.pad depth)
    case branch =>
      obtain ⟨labels, condition⟩ := here
      have opening : IsPlainLine (labelText attributes ++
          ("if (" ++ (attributes.textAt "condition" ++ ") \x7b"))) :=
        .label labels (.append (by decide) (condition.append (by decide)))
          (.append ⟨'i', rfl, by decide⟩ _)
      have between : IsPlainLine "\x7d else \x7b" :=
        .of_starts (by decide) ⟨'\x7d', rfl, by decide⟩
      dsimp only
      refine Slotted.within (.append (.within (branch 0 (depth + 1) slot)
        (List.forall_mem_singleton.mpr ?_) (List.forall_mem_nil _)) ?_)
        (List.forall_mem_nil _) closing
      · simp only [String.append_assoc]
        exact opening.pad depth
      · split
        · rename_i alternative made
          exact (slotted_encodeBranch below 1 (depth + 1) _ alternative made).within
            (List.forall_mem_singleton.mpr (between.pad depth)) (List.forall_mem_nil _)
        · exact .none _
    case forLoop | whileLoop | doLoop =>
      exact slotted_loop _ range attributes depth slot (branch 0 0 0)
    all_goals exact .none slot

/-- Statements take slots one after another. -/
theorem slotted_encodeStatements : ∀ {trees : List SyntaxTree},
    SyntaxTree.AllEverywhere SyntaxTree.MakesPlainLines trees → ∀ depth slot : Nat,
      (encodeStatements depth slot trees).Slotted slot
  | [], _, _, slot => by
    unfold encodeStatements
    exact .none slot
  | _ :: _, ⟨first, rest⟩, depth, slot => by
    unfold encodeStatements
    exact (slotted_encodeStatement first false depth slot).append
      (slotted_encodeStatements rest depth _)

/-- A branch takes slots one after another. -/
theorem slotted_encodeBranch : ∀ {trees : List SyntaxTree},
    SyntaxTree.AllEverywhere SyntaxTree.MakesPlainLines trees → ∀ number depth slot : Nat,
      ∀ encoded ∈ encodeBranch number depth slot trees, encoded.Slotted slot
  | [], _, _, _, _, _, made => by
    unfold encodeBranch at made
    cases made
  | _ :: _, ⟨first, rest⟩, number, depth, slot, encoded, made => by
    unfold encodeBranch at made
    split at made
    · exact slotted_encodeBranch rest number depth slot encoded made
    · cases number with
      | zero =>
          cases made
          exact slotted_encodeStatement first true depth slot
      | succ number => exact slotted_encodeBranch rest number depth slot encoded made

end

/-! ### Declarations -/

namespace Outline

/-- A property that outlines of trees have if those of fields and callables do, and types with such
members. Callables are those of trees that are good, as the parts of good trees are. -/
structure Hereditary (good : SyntaxTree → Prop) (holds : Outline → Prop) : Prop where
  below {tree : SyntaxTree} : good tree → ∀ child ∈ tree.children, good child
  field {tree : SyntaxTree} {outline : Outline} : ofField tree = .ok outline → holds outline
  callable {kind : NodeKind} {tree : SyntaxTree} {outline : Outline} :
    kind = .method ∨ kind = .constructor → good tree → ofCallable kind tree = .ok outline →
      holds outline
  type {kind : NodeKind} {members : List Outline} : kind.isType → (∀ child ∈ members, holds child) →
    ∀ (label : String) (attributes : Attributes) (range : SourceRange),
      holds ⟨kind, label, takeOver declarationKeys attributes range, none, members⟩

section Hereditary

variable {good : SyntaxTree → Prop} {holds : Outline → Prop}

mutual

/-- What is hereditary holds of the outlines of a declaration. -/
theorem forall_ofDeclaration (rules : Hereditary good holds) :
    ∀ {tree : SyntaxTree} {outlines : List Outline}, good tree → ofDeclaration tree = .ok outlines →
      ∀ outline ∈ outlines, holds outline
  | ⟨kind, name, children, range, attributes⟩, outlines, isGood, made => by
    have below := rules.below isGood
    unfold ofDeclaration at made
    cases kind
    case classDecl | interfaceDecl =>
      obtain ⟨label, _, made⟩ := bind_eq_ok_iff.mp made
      obtain ⟨members, read, made⟩ := bind_eq_ok_iff.mp made
      cases made
      exact List.forall_mem_singleton.mpr
        (rules.type rfl (forall_ofDeclarations rules below read) label attributes range)
    case method =>
      obtain ⟨outline, read, made⟩ := bind_eq_ok_iff.mp made
      cases made
      exact List.forall_mem_singleton.mpr (rules.callable (.inl rfl) isGood read)
    case constructor =>
      obtain ⟨outline, read, made⟩ := bind_eq_ok_iff.mp made
      cases made
      exact List.forall_mem_singleton.mpr (rules.callable (.inr rfl) isGood read)
    case field =>
      obtain ⟨outline, read, made⟩ := bind_eq_ok_iff.mp made
      cases made
      exact List.forall_mem_singleton.mpr (rules.field read)
    case block =>
      dsimp only at made
      split at made
      · intro outline member
        obtain ⟨_, _, read⟩ := exists_left_of_forall₂ (mapM_eq_ok_iff.mp made) outline member
        exact rules.field read
      · cases made
        exact List.forall_mem_nil _
    all_goals
      cases made
      exact List.forall_mem_nil _

/-- What is hereditary holds of the outlines of declarations. -/
theorem forall_ofDeclarations (rules : Hereditary good holds) :
    ∀ {trees : List SyntaxTree} {outlines : List Outline}, (∀ tree ∈ trees, good tree) →
      ofDeclarations trees = .ok outlines → ∀ outline ∈ outlines, holds outline
  | [], outlines, _, made => by
    unfold ofDeclarations at made
    cases made
    exact List.forall_mem_nil _
  | tree :: rest, outlines, areGood, made => by
    obtain ⟨first, others⟩ := List.forall_mem_cons.mp areGood
    unfold ofDeclarations at made
    obtain ⟨ofFirst, read, made⟩ := bind_eq_ok_iff.mp made
    obtain ⟨ofOthers, readOthers, made⟩ := bind_eq_ok_iff.mp made
    cases made
    exact List.forall_mem_append.mpr ⟨forall_ofDeclaration rules first read,
      forall_ofDeclarations rules others readOthers⟩

end

/-- **The outlines of a tree** have what goes from members to types. -/
theorem Hereditary.forall_ofTree (rules : Hereditary good holds) {tree : SyntaxTree}
    {outlines : List Outline} (isGood : good tree) (made : ofTree tree = .ok outlines) :
    ∀ outline ∈ outlines, holds outline := by
  unfold ofTree at made
  split at made
  · exact forall_ofDeclarations rules (rules.below isGood) made
  · exact forall_ofDeclaration rules isGood made

end Hereditary

/-- What is taken over from a declaration is no body. -/
theorem get?_takeOver_of_not_mem {key : String} {keys : List String} (absent : key ∉ keys)
    (other : key ≠ "location") (attributes : Attributes) (range : SourceRange) :
    (takeOver keys attributes range).get? key = none := by
  rw [takeOver, Dict.get?_insert, if_neg other.symm]
  refine List.foldlRecOn (motive := fun kept : Attributes => kept.get? key = none) keys _ rfl
    fun kept missing taken listed => ?_
  split
  · have apart : taken ≠ key := fun same => absent (same ▸ listed)
    rw [Dict.get?_insert, if_neg apart, missing]
  · exact missing

theorem textAt_declarationKeys (attributes : Attributes) (range : SourceRange) :
    (takeOver declarationKeys attributes range).textAt "body" = "" := by
  rw [Dict.textAt, get?_takeOver_of_not_mem (by decide) (by decide), Option.getD_none]

/-- What has no body and contains no loops. -/
theorem placed_of_bodiless {outline : Outline} (noBody : outline.attributes.textAt "body" = "")
    (inside : ∀ child ∈ outline.children, child.Placed ∧ child.kind.isLoop = false) :
    outline.Placed := by
  have noLoops : outline.children.filter (·.kind.isLoop) = [] :=
    List.filter_eq_nil_iff.mpr fun child member => by simp [(inside child member).2]
  rw [placed_iff, noBody, slots, noLoops]
  exact ⟨List.nodup_nil, rfl, fun child member => (inside child member).1⟩

/-- A field has no body and no loop. -/
theorem placed_of_ofField {tree : SyntaxTree} {outline : Outline}
    (made : ofField tree = .ok outline) : outline.Placed ∧ outline.kind.isLoop = false := by
  obtain ⟨name, _, made⟩ := bind_eq_ok_iff.mp made
  cases made
  exact ⟨placed_of_bodiless (textAt_declarationKeys _ _) (List.forall_mem_nil _), rfl⟩

/-- The body of a method or constructor has a line for each of its loops. -/
theorem placed_of_ofCallable {kind : NodeKind} {tree : SyntaxTree} {outline : Outline}
    (texts : tree.Everywhere SyntaxTree.MakesPlainLines) (noLoop : kind.isLoop = false)
    (made : ofCallable kind tree = .ok outline) :
    outline.Placed ∧ outline.kind.isLoop = false := by
  obtain ⟨name, _, made⟩ := bind_eq_ok_iff.mp made
  dsimp only at made
  split at made
  · cases made
    refine ⟨placed_of_bodiless ?_ (List.forall_mem_nil _), noLoop⟩
    dsimp only
    split
    · exact textAt_declarationKeys _ _
    · rw [Dict.textAt, Dict.get?_insert, if_neg (by decide)]
      exact textAt_declarationKeys _ _
  · rename_i body first
    cases made
    have member : body ∈ tree.children :=
      (List.mem_filter.mp (List.mem_of_head? first)).1
    have below := (SyntaxTree.everywhere_iff.mp texts).2 body member
    have slotted := slotted_encodeStatements
      (SyntaxTree.allEverywhere_iff.mpr (SyntaxTree.everywhere_iff.mp below).2) 0 0
    obtain ⟨sameSlots, distinct⟩ := slotted.text
    refine ⟨placed_iff.mpr ?_, noLoop⟩
    simp only [Dict.textAt, Dict.get?_insert, ↓reduceIte, Option.getD_some, sameSlots]
    exact ⟨distinct, slotted.taken, slotted.placed⟩

/-- A type has no body, and no member of it is a loop. -/
theorem placed_of_type {kind : NodeKind} (isType : kind.isType) (label : String)
    (attributes : Attributes) (range : SourceRange) {members : List Outline}
    (inside : ∀ child ∈ members, child.Placed ∧ child.kind.isLoop = false) :
    Outline.Placed ⟨kind, label, takeOver declarationKeys attributes range, none, members⟩ ∧
      kind.isLoop = false := by
  refine ⟨placed_of_bodiless (textAt_declarationKeys _ _) inside, ?_⟩
  cases kind <;> first | rfl | cases isType

/-- Being placed is hereditary. -/
theorem hereditary_placed : Hereditary (·.Everywhere SyntaxTree.MakesPlainLines)
    fun outline => outline.Placed ∧ outline.kind.isLoop = false where
  below texts := (SyntaxTree.everywhere_iff.mp texts).2
  field := placed_of_ofField
  callable isCallable texts :=
    placed_of_ofCallable texts (by rcases isCallable with rfl | rfl <;> rfl)
  type isType inside label attributes range := placed_of_type isType label attributes range inside

/-- **The outlines of a tree** have bodies that stand for their loops, if all statements in the tree
make plain lines. None of the outlines is a loop. -/
theorem placed_of_ofTree {tree : SyntaxTree} {outlines : List Outline}
    (texts : tree.Everywhere SyntaxTree.MakesPlainLines) (made : ofTree tree = .ok outlines) :
    ∀ outline ∈ outlines, outline.Placed ∧ outline.kind.isLoop = false :=
  hereditary_placed.forall_ofTree texts made

end Outline

end Transcode
