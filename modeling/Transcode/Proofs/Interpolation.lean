import Transcode.Proofs.BraceGroups
import Transcode.Proofs.PlaceholderTexts

/-!
# Reading and rendering templates

The reader of templates goes through a text once and keeps what it cannot settle yet: plain text,
and what stands behind an opening brace that may open a placeholder. It comes to a placeholder at
every group of the text, and nowhere else (`Marked.Proper.readFrom_eq_ok_iff`). So a text is a
template if its groups are placeholders, and it is rendered as it stands, with texts in place of the
groups (`Template.read_spec`).
-/

namespace Transcode

namespace TemplatePart

/-! ### Reading -/

/-- The characters that the reader has not settled yet, last character first. -/
def unsettled (before : List Char) : Option (List Char) → List Char
  | none => before
  | some inner => inner ++ '\x7b' :: before

variable {plain group : List Char}

/-- At the end of the text everything unsettled is plain. -/
theorem readFrom_nil (before : List Char) (inside : Option (List Char)) :
    readFrom before inside [] = .ok (plainIfAny (unsettled before inside).reverse) := by
  cases inside <;> rfl

/-- An opening brace starts over, whether or not another one is open. -/
theorem readFrom_opening (before : List Char) (inside : Option (List Char)) (rest : List Char) :
    readFrom before inside ('\x7b' :: rest) =
      readFrom (unsettled before inside) (some []) rest := by
  cases inside with
  | none => rw [readFrom, if_pos rfl, unsettled]
  | some inner => rw [readFrom, if_neg (by decide), if_pos rfl, unsettled]

/-- The reader settles nothing while there is no group. -/
theorem readFrom_groupless (rest : List Char) (before : List Char) (inside : Option (List Char))
    (free : ∀ inner ∈ inside, BraceFree inner)
    (groupless : Groupless ((unsettled before inside).reverse ++ plain)) :
    ∃ before' inside', unsettled before' inside' = plain.reverse ++ unsettled before inside ∧
      readFrom before inside (plain ++ rest) = readFrom before' inside' rest := by
  induction plain generalizing before inside with
  | nil => exact ⟨before, inside, rfl, rfl⟩
  | cons c plain ih =>
      -- One character is moved from the text to what is unsettled.
      have moved (next : List Char) (inside' : Option (List Char))
          (same : unsettled next inside' = c :: unsettled before inside)
          (stillFree : ∀ inner ∈ inside', BraceFree inner)
          (step : readFrom before inside (c :: (plain ++ rest)) =
            readFrom next inside' (plain ++ rest)) :
          ∃ before' inside', unsettled before' inside' =
              (c :: plain).reverse ++ unsettled before inside ∧
            readFrom before inside (c :: plain ++ rest) = readFrom before' inside' rest := by
        obtain ⟨last, inLast, kept, further⟩ := ih next inside' stillFree (by
          rw [same, List.reverse_cons, List.append_assoc]
          exact groupless)
        refine ⟨last, inLast, ?_, step.trans further⟩
        rw [kept, same, List.reverse_cons, List.append_assoc, List.singleton_append]
      by_cases opens : c = '\x7b'
      · subst opens
        refine moved (unsettled before inside) (some []) rfl ?_ (readFrom_opening _ _ _)
        exact fun inner here => by cases here; exact List.forall_mem_nil _
      cases inside with
      | none => exact moved (c :: before) none rfl nofun (by rw [readFrom, if_neg opens])
      | some inner =>
          have innerFree := free inner rfl
          by_cases closes : c = '\x7d'
          · subst closes
            have reversedFree : BraceFree inner.reverse := fun c member =>
              innerFree c (List.mem_reverse.mp member)
            refine absurd (isGroup_append reversedFree before.reverse plain) ?_
            simpa [unsettled, inBraces] using groupless inner.reverse
          · refine moved before (some (c :: inner)) rfl ?_
              (by rw [readFrom, if_neg closes, if_neg opens])
            exact fun inner here => by
              cases here
              exact List.forall_mem_cons.mpr ⟨by simp [isBrace, opens, closes], innerFree⟩

/-- Behind an opening brace the reader goes on to the closing brace of a group. -/
theorem readFrom_group (before inner : List Char) (free : BraceFree group) (rest : List Char) :
    readFrom before (some inner) (group ++ '\x7d' :: rest) = (do
      let placeholder ← readPlaceholder (inner.reverse ++ group)
      let others ← readFrom [] none rest
      return plainIfAny before.reverse ++ placeholder :: others) := by
  induction group generalizing inner with
  | nil => rw [List.nil_append, readFrom, if_pos rfl, List.append_nil]
  | cons c group ih =>
      obtain ⟨here, later⟩ := List.forall_mem_cons.mp free
      have closes : c ≠ '\x7d' := fun same => here (by simp [isBrace, same])
      have opens : c ≠ '\x7b' := fun same => here (by simp [isBrace, same])
      rw [List.cons_append, readFrom, if_neg closes, if_neg opens, ih (c :: inner) later,
        List.reverse_cons, List.append_assoc, List.singleton_append]

/-- Plain text and a group are read as such, and then the rest from scratch. -/
theorem readFrom_piece (groupless : Groupless plain) (free : BraceFree group) (rest : List Char) :
    readFrom [] none (plain ++ (inBraces group ++ rest)) = (do
      let placeholder ← readPlaceholder group
      let others ← readFrom [] none rest
      return plainIfAny plain ++ placeholder :: others) := by
  obtain ⟨before, inside, kept, same⟩ :=
    readFrom_groupless (inBraces group ++ rest) [] none nofun groupless
  have opened : inBraces group ++ rest = '\x7b' :: (group ++ '\x7d' :: rest) := by simp [inBraces]
  rw [same, opened, readFrom_opening, kept, readFrom_group _ _ free, unsettled, List.append_nil,
    List.reverse_reverse, List.reverse_nil, List.nil_append]

/-- A text without groups is plain. -/
theorem readFrom_last (groupless : Groupless plain) :
    readFrom [] none plain = .ok (plainIfAny plain) := by
  obtain ⟨before, inside, kept, same⟩ := readFrom_groupless [] [] none nofun groupless
  rw [List.append_nil] at same
  rw [same, readFrom_nil, kept, unsettled, List.append_nil, List.reverse_reverse]

end TemplatePart

open TemplatePart
  (readFrom readAll plainIfAny readFrom_last readFrom_piece readPlaceholder_eq_ok_iff)

/-- The parts of a text cut at its groups, with a placeholder for each. -/
def Marked.parts : Marked → List Placeholder → List TemplatePart
  | .last plain, _ => plainIfAny plain
  | .piece plain _ _, [] => plainIfAny plain
  | .piece plain _ rest, placeholder :: others =>
    plainIfAny plain ++ placeholder.toPart :: rest.parts others

/-- A text is read if its groups are placeholders, as its plain texts and the placeholders. -/
theorem Marked.Proper.readFrom_eq_ok_iff {marked : Marked} (proper : marked.Proper)
    {parts : List TemplatePart} : readFrom [] none marked.text = .ok parts ↔
      ∃ placeholders, List.Forall₂ Placeholder.IsWritten placeholders marked.groups ∧
        marked.parts placeholders = parts := by
  induction marked generalizing parts with
  | last plain =>
      rw [text_last, readFrom_last proper, groups]
      simp [Marked.parts]
  | piece plain group rest ih =>
      rw [text_piece, readFrom_piece proper.1 proper.2.1, bind_eq_ok_iff, groups]
      constructor
      · rintro ⟨part, isPart, later⟩
        obtain ⟨others, isOthers, later⟩ := bind_eq_ok_iff.mp later
        obtain rfl := Except.ok.inj later
        obtain ⟨placeholder, written, rfl⟩ := readPlaceholder_eq_ok_iff.mp isPart
        obtain ⟨placeholders, aligned, rfl⟩ := (ih proper.2.2).mp isOthers
        exact ⟨placeholder :: placeholders, .cons written aligned, rfl⟩
      · rintro ⟨placeholders, aligned, rfl⟩
        cases aligned with
        | cons written later =>
            refine ⟨_, readPlaceholder_eq_ok_iff.mpr ⟨_, written, rfl⟩, ?_⟩
            exact bind_eq_ok_iff.mpr ⟨_, (ih proper.2.2).mpr ⟨_, later, rfl⟩, rfl⟩

/-! ### Rendering -/

namespace Placeholder

/-- What a node has that a placeholder asks for; it is empty if there is no such node or no such
attribute. -/
def value (lookup : String → Option Node) (placeholder : Placeholder) : String :=
  match placeholder.part with
  | .label => ((lookup placeholder.node).map (·.label)).getD ""
  | .attribute key => ((lookup placeholder.node).bind (·.get? key)).getD ""

/-- The text in place of a placeholder: its value through its filters, from left to right. -/
def text (lookup : String → Option Node) (placeholder : Placeholder) : String :=
  placeholder.filters.foldl TextFilter.apply (placeholder.value lookup)

theorem reference?_toPart (placeholder : Placeholder) :
    placeholder.toPart.reference? = some placeholder.node := rfl

/-- A placeholder is rendered as its text. -/
theorem render_toPart (lookup : String → Option Node) (placeholder : Placeholder) :
    placeholder.toPart.render lookup = placeholder.text lookup := by
  obtain ⟨node, part, filters⟩ := placeholder
  cases found : lookup node <;> cases part <;>
    simp only [toPart, TemplatePart.render, text, value, found] <;> rfl

end Placeholder

namespace Marked

variable {marked : Marked} {placeholders : List Placeholder}
  (aligned : List.Forall₂ Placeholder.IsWritten placeholders marked.groups)

include aligned

/-- The references of a template are those of its placeholders. -/
theorem references_parts :
    (marked.parts placeholders).filterMap (·.reference?) = placeholders.map (·.node) := by
  have plainHasNone (plain : List Char) : (plainIfAny plain).filterMap (·.reference?) = [] := by
    unfold plainIfAny
    split <;> rfl
  induction marked generalizing placeholders with
  | last plain =>
      cases aligned
      exact plainHasNone plain
  | piece plain group rest ih =>
      cases aligned with
      | cons _ later =>
          rw [parts, List.filterMap_append, plainHasNone, List.nil_append, List.map_cons,
            List.filterMap_cons_some (Placeholder.reference?_toPart _), ih later]

/-- The texts of the parts together are the text with other texts in place of its groups. -/
theorem flatMap_render_parts (lookup : String → Option Node) :
    (marked.parts placeholders).flatMap (fun part => (part.render lookup).toList) =
      marked.fill (placeholders.map fun placeholder => (placeholder.text lookup).toList) := by
  have plainStays (plain : List Char) :
      (plainIfAny plain).flatMap (fun part => (part.render lookup).toList) = plain := by
    unfold plainIfAny
    split
    · rename_i empty
      rw [List.isEmpty_iff.mp empty, List.flatMap_nil]
    · rw [List.flatMap_singleton, TemplatePart.render, String.toList_ofList]
  induction marked generalizing placeholders with
  | last plain =>
      cases aligned
      exact plainStays plain
  | piece plain group rest ih =>
      cases aligned with
      | cons _ later =>
          rw [parts, List.flatMap_append, plainStays, List.flatMap_cons, ih later,
            Placeholder.render_toPart]
          rfl

end Marked

namespace Template

/-- A template whose parts are read is read with these parts. -/
theorem exists_read_of_readAll {source : String} {parts : List TemplatePart}
    (reads : readAll source = .ok parts) :
    ∃ template, read source = .ok template ∧ template.parts = parts :=
  ⟨⟨source, parts, reads⟩, read_source ⟨source, parts, reads⟩, rfl⟩

/-- A template whose parts are rejected is rejected for the same fault. -/
theorem read_of_readAll_error {source : String} {fault : TemplateFault}
    (fails : readAll source = .error fault) : read source = .error fault := by
  unfold read
  split
  · rename_i parts reads
    cases fails.symm.trans reads
  · rename_i other reads
    exact congrArg Except.error (Except.error.inj (reads.symm.trans fails))

/-- **Templates.** A text can be cut at its brace groups in one way. If every group is written as a
placeholder, the text is a template; it takes text from the nodes that its placeholders name, in
their order, and it is rendered as the text itself with the text of each placeholder in place of the
group and its braces, so that all other characters stay, also braces. If some group is not written
as a placeholder, the text is no template. -/
theorem read_spec (source : String) :
    ∃ marked : Marked, (marked.Proper ∧ marked.text = source.toList) ∧
      (∀ other : Marked, other.Proper → other.text = source.toList → other = marked) ∧
      (∀ group, group ∈ marked.groups ↔ IsGroup source.toList group) ∧
      ((∀ group, IsGroup source.toList group →
          ∃ placeholder : Placeholder, placeholder.IsWritten group) →
        ∃ template placeholders, Template.read source = .ok template ∧
          List.Forall₂ Placeholder.IsWritten placeholders marked.groups ∧
          template.references = placeholders.map (·.node) ∧
          ∀ lookup : String → Option Node, (template.render lookup).toList =
            marked.fill (placeholders.map fun placeholder => (placeholder.text lookup).toList)) ∧
      ((∃ group, IsGroup source.toList group ∧
          ∀ placeholder : Placeholder, ¬placeholder.IsWritten group) →
        ∃ fault, Template.read source = .error fault) := by
  obtain ⟨marked, proper, same⟩ := Marked.exists_of_text source.toList
  have isGroup_iff {group : List Char} : group ∈ marked.groups ↔ IsGroup source.toList group :=
    same ▸ proper.mem_groups_iff
  have reads {parts : List TemplatePart} : readFrom [] none marked.text = .ok parts ↔ _ :=
    proper.readFrom_eq_ok_iff
  rw [same] at reads
  refine ⟨marked, ⟨proper, same⟩, fun other also sameText => ?_, fun group => isGroup_iff,
    fun written => ?_, fun ⟨group, isGroup, unwritten⟩ => ?_⟩
  · exact also.eq_of_text proper (sameText.trans same.symm)
  · obtain ⟨placeholders, aligned⟩ : ∃ placeholders,
        List.Forall₂ (fun group (placeholder : Placeholder) => placeholder.IsWritten group)
          marked.groups placeholders :=
      exists_forall₂ fun group member => written group (isGroup_iff.mp member)
    obtain ⟨template, isTemplate, parts⟩ :=
      exists_read_of_readAll (reads.mpr ⟨placeholders, aligned.flip, rfl⟩)
    refine ⟨template, placeholders, isTemplate, aligned.flip, ?_, fun lookup => ?_⟩
    · rw [references, parts, Marked.references_parts aligned.flip]
    · rw [render, String.toList_join, List.flatMap_map, parts,
        Marked.flatMap_render_parts aligned.flip lookup]
  · cases outcome : readAll source with
    | error fault => exact ⟨fault, read_of_readAll_error outcome⟩
    | ok parts =>
        obtain ⟨placeholders, aligned, _⟩ := reads.mp outcome
        obtain ⟨placeholder, _, isWritten⟩ :=
          exists_left_of_forall₂ aligned group (isGroup_iff.mpr isGroup)
        exact absurd isWritten (unwritten placeholder)

/-- A brace without a partner stays, also next to a placeholder. -/
example : (Template.read "a\x7b\x7b x.label | lower_first \x7d\x7d").toOption.map (fun template =>
    (template.references, template.render fun _ => none)) = some (["x"], "a\x7b\x7d") := by
  decide +kernel

end Template

end Transcode
