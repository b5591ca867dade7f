import Mathlib.Data.List.Induction
import Transcode.Proofs.Outcome
import Transcode.Proofs.Slots
import Transcode.Proofs.TypeImages
import Transcode.Rule.Template

/-!
# How placeholders are written

Between its braces a placeholder has a path and then filters, each after a bar, with any blanks
around them. The path is a node's name, which ends at the first dot, and a part of the node. What is
written so is read as what it says, and nothing else is read
(`TemplatePart.readPlaceholder_eq_ok_iff`).
-/

namespace Transcode

namespace Text

/-! ### Cutting and trimming -/

section Cuts

variable {c : Char} {cs before behind : List Char} {pieces : List (List Char)}

/-- A text is cut at the first place of a character. -/
theorem cutAt_eq_some_iff : cutAt (· = c) cs = (before, some behind) ↔
    c ∉ before ∧ cs = before ++ c :: behind := by
  constructor
  · intro cut
    induction cs generalizing before with
    | nil => simp [cutAt] at cut
    | cons d cs ih =>
        rw [cutAt] at cut
        split at cut
        · rename_i same
          obtain ⟨rfl, rest⟩ := Prod.mk.inj cut
          rw [of_decide_eq_true same, Option.some.inj rest]
          exact ⟨List.not_mem_nil, rfl⟩
        · rename_i other
          obtain ⟨rfl, rest⟩ := Prod.mk.inj cut
          obtain ⟨absent, same⟩ := ih (Prod.ext rfl rest)
          refine ⟨fun member => (List.mem_cons.mp member).elim
            (fun same => other (decide_eq_true same.symm)) absent, ?_⟩
          rw [List.cons_append, ← same]
  · rintro ⟨absent, rfl⟩
    refine cutAt_append (fun d member same => absent ?_) (decide_eq_true rfl)
    exact of_decide_eq_true same ▸ member

/-- The pieces of a text between the places of a character. -/
theorem splitWhere_eq_iff : splitWhere (· = c) cs = pieces ↔
    pieces ≠ [] ∧ (∀ piece ∈ pieces, c ∉ piece) ∧ [c].intercalate pieces = cs := by
  constructor
  · rintro rfl
    refine ⟨splitWhere_ne_nil _ _, ?_⟩
    induction cs with
    | nil => exact ⟨List.forall_mem_singleton.mpr List.not_mem_nil, rfl⟩
    | cons d cs ih =>
        obtain ⟨free, joined⟩ := ih
        obtain ⟨piece, rest, cut⟩ :=
          List.exists_cons_of_ne_nil (splitWhere_ne_nil (fun d => decide (d = c)) cs)
        rw [splitWhere]
        rw [cut] at free joined ⊢
        split
        · rename_i same
          refine ⟨List.forall_mem_cons.mpr ⟨List.not_mem_nil, free⟩, ?_⟩
          rw [List.intercalate_cons_cons, joined, of_decide_eq_true same]
          rfl
        · rename_i other
          obtain ⟨here, later⟩ := List.forall_mem_cons.mp free
          refine ⟨List.forall_mem_cons.mpr ⟨fun member => (List.mem_cons.mp member).elim
            (fun same => other (decide_eq_true same.symm)) here, later⟩, ?_⟩
          rw [← joined]
          cases rest with
          | nil => rfl
          | cons next others =>
              rw [List.intercalate_cons_cons, List.intercalate_cons_cons]
              rfl
  · rintro ⟨filled, free, rfl⟩
    exact splitWhere_intercalate filled free

end Cuts

/-- A text with blanks around a part that neither starts nor ends with one. -/
def IsPadded (core cs : List Char) : Prop := IsFilled core ∧ ∃ before behind,
  cs = before ++ (core ++ behind) ∧ (∀ c ∈ before, isBlank c) ∧ ∀ c ∈ behind, isBlank c

/-- Blanks behind a text are trimmed. -/
theorem trimBoth_append_blanks (cs : List Char) {behind : List Char}
    (blank : ∀ c ∈ behind, isBlank c) : trimBoth (cs ++ behind) = trimBoth cs := by
  induction behind using List.reverseRecOn with
  | nil => rw [List.append_nil]
  | append_singleton behind c ih =>
      obtain ⟨early, last⟩ := List.forall_mem_append.mp blank
      rw [← List.append_assoc, trimBoth_append_blank (last c (List.mem_singleton_self c)), ih early]

/-- Blanks in front of a text are trimmed. -/
theorem trimBoth_blanks_append {before : List Char} (blank : ∀ c ∈ before, isBlank c)
    (cs : List Char) : trimBoth (before ++ cs) = trimBoth cs := by
  induction before with
  | nil => rfl
  | cons c before ih =>
      obtain ⟨here, later⟩ := List.forall_mem_cons.mp blank
      rw [List.cons_append, trimBoth_cons_blank here, ih later]

/-- A text without its first blanks has a first character that is none, if it has any. -/
theorem not_isBlank_of_head?_dropWhile (cs : List Char) {c : Char}
    (first : c ∈ (cs.dropWhile isBlank).head?) : ¬isBlank c := by
  have shown := List.head?_dropWhile_not isBlank cs
  rw [Option.mem_def.mp first] at shown
  simpa using shown

/-- Trimming takes off the blanks around a text. -/
theorem isPadded_iff {core cs : List Char} : IsPadded core cs ↔ core ≠ [] ∧ trimBoth cs = core := by
  constructor
  · rintro ⟨filled, before, behind, rfl, blankBefore, blankBehind⟩
    refine ⟨filled.ne_nil, ?_⟩
    rw [trimBoth_blanks_append blankBefore, trimBoth_append_blanks core blankBehind,
      filled.trimBoth_eq]
  · rintro ⟨some, rfl⟩
    let start := trimStart cs
    have whole : trimEnd start ++ (start.reverse.takeWhile isBlank).reverse = start := by
      rw [trimEnd, ← List.reverse_append, List.takeWhile_append_dropWhile, List.reverse_reverse]
    obtain ⟨c, rest, starts⟩ := List.exists_cons_of_ne_nil some
    have same : trimEnd start = c :: rest := starts
    refine ⟨⟨⟨c, by rw [starts]; rfl, not_isBlank_of_head?_dropWhile cs ?_⟩, ?_⟩,
      cs.takeWhile isBlank, (start.reverse.takeWhile isBlank).reverse, ?_,
      fun d member => List.mem_takeWhile_imp member,
      fun d member => List.mem_takeWhile_imp (List.mem_reverse.mp member)⟩
    · change c ∈ start.head?
      rw [← whole, same]
      rfl
    · have last : (start.reverse.dropWhile isBlank).head? = (trimEnd start).getLast? := by
        rw [trimEnd, List.getLast?_reverse]
      refine ⟨(trimEnd start).getLast (by rw [same]; exact List.cons_ne_nil _ _),
        List.getLast?_eq_getLast_of_ne_nil _, ?_⟩
      refine not_isBlank_of_head?_dropWhile start.reverse ?_
      rw [last]
      exact List.getLast?_eq_getLast_of_ne_nil _
    · rw [show trimBoth cs = trimEnd start from rfl, whole]
      exact (List.takeWhile_append_dropWhile (p := isBlank) (l := cs)).symm

end Text

open Text

/-! ### Filters -/

namespace TextFilter

/-- How a filter is written: by its name, and with the word that it drops in parentheses, which must
stand on one line. -/
inductive IsWritten : TextFilter → List Char → Prop
  | propertyName : IsWritten .propertyName "property_name".toList
  | accessorKind : IsWritten .accessorKind "accessor_kind".toList
  | trimUnderscores : IsWritten .trimUnderscores "trim_underscore".toList
  | lowerFirst : IsWritten .lowerFirst "lower_first".toList
  | upperFirst : IsWritten .upperFirst "upper_first".toList
  | dropWord {word : String} {argument : List Char} (padded : IsPadded word.toList argument)
    (unbroken : '\n' ∉ argument) :
    IsWritten (.dropWord word) ("drop_word(".toList ++ (argument ++ [')']))

variable {filter : TextFilter} {cs core : List Char} {name : String}

/-- A call without an argument is a name. -/
theorem eq_of_call?_none (call : call? cs = some (name, none)) :
    name ≠ "" ∧ cs = name.toList := by
  unfold call? at call
  dsimp only at call
  split at call
  · cases call
  rename_i filled
  split at call
  · rename_i all
    obtain ⟨rfl, _⟩ := Prod.mk.inj (Option.some.inj call)
    refine ⟨by simpa using filled, ?_⟩
    rw [String.toList_ofList, ← List.append_nil (cs.takeWhile isNameChar), ← all,
      List.takeWhile_append_dropWhile]
  · split at call
    · split at call <;> cases call
    · cases call
  · cases call

/-- A call with an argument is a name with the argument in parentheses behind it. -/
theorem eq_of_call?_some {trimmed : List Char} (call : call? cs = some (name, some trimmed)) :
    ∃ argument, cs = name.toList ++ '(' :: (argument ++ [')']) ∧ '\n' ∉ argument ∧
      trimBoth argument = trimmed := by
  unfold call? at call
  dsimp only at call
  split at call
  · cases call
  split at call
  · cases call
  · rename_i rest behind
    split at call
    · rename_i argument closed
      split at call
      · cases call
      · rename_i unbroken
        obtain ⟨rfl, same⟩ := Prod.mk.inj (Option.some.inj call)
        refine ⟨argument, ?_, by simpa using unbroken, Option.some.inj same⟩
        rw [String.toList_ofList, ← stripEnd?_eq_some_iff.mp closed, ← behind,
          List.takeWhile_append_dropWhile]
    · cases call
  · cases call

/-- A call of a known name is the written form of its filter. -/
theorem isWritten_of_named? {argument : Option (List Char)}
    (call : call? cs = some (name, argument))
    (named : named? name argument = some filter) : filter.IsWritten cs := by
  cases argument with
  | none =>
      obtain ⟨_, rfl⟩ := eq_of_call?_none call
      obtain ⟨before, behind, split, _⟩ := List.lookup_eq_some_iff.mp named
      have listed : (name, filter) ∈ plainNames :=
        split ▸ List.mem_append_right before List.mem_cons_self
      simp only [plainNames, List.mem_cons, Prod.mk.injEq, List.not_mem_nil, or_false] at listed
      rcases listed with ⟨rfl, rfl⟩ | ⟨rfl, rfl⟩ | ⟨rfl, rfl⟩ | ⟨rfl, rfl⟩ | ⟨rfl, rfl⟩
      · exact .propertyName
      · exact .accessorKind
      · exact .trimUnderscores
      · exact .lowerFirst
      · exact .upperFirst
  | some trimmed =>
      obtain ⟨argument, rfl, unbroken, rfl⟩ := eq_of_call?_some call
      simp only [named?, Option.ite_none_right_eq_some, Option.some.injEq] at named
      obtain ⟨known, rfl⟩ := named
      obtain ⟨rfl, filled⟩ : name = "drop_word" ∧ trimBoth argument ≠ [] := by simpa using known
      refine .dropWord (isPadded_iff.mpr ?_) unbroken
      rw [String.toList_ofList]
      exact ⟨filled, rfl⟩

/-- The name of the one filter that has an argument ends at the parenthesis. -/
theorem call?_dropWord {argument : List Char} (unbroken : '\n' ∉ argument) :
    call? ("drop_word(".toList ++ (argument ++ [')'])) =
      some ("drop_word", some (trimBoth argument)) := by
  have taken : ("drop_word(".toList ++ (argument ++ [')'])).takeWhile isNameChar =
      "drop_word".toList := rfl
  have dropped : ("drop_word(".toList ++ (argument ++ [')'])).dropWhile isNameChar =
      '(' :: (argument ++ [')']) := rfl
  have closed : stripEnd? [')'] (argument ++ [')']) = some argument := stripEnd?_eq_some_iff.mpr rfl
  unfold call?
  rw [taken, dropped]
  simp [closed, unbroken]

/-- The written form of a filter is a call of its name. -/
theorem exists_named?_of_isWritten (written : filter.IsWritten cs) :
    ∃ name argument, call? cs = some (name, argument) ∧ named? name argument = some filter := by
  cases written with
  | propertyName => exact ⟨"property_name", none, rfl, rfl⟩
  | accessorKind => exact ⟨"accessor_kind", none, rfl, rfl⟩
  | trimUnderscores => exact ⟨"trim_underscore", none, rfl, rfl⟩
  | lowerFirst => exact ⟨"lower_first", none, rfl, rfl⟩
  | upperFirst => exact ⟨"upper_first", none, rfl, rfl⟩
  | @dropWord word argument padded unbroken =>
      obtain ⟨filled, trimmed⟩ := isPadded_iff.mp padded
      refine ⟨"drop_word", some (trimBoth argument), call?_dropWord unbroken, ?_⟩
      rw [trimmed]
      simp [named?, filled]

theorem IsWritten.ne_nil (written : filter.IsWritten cs) : cs ≠ [] := by
  cases written <;> exact List.cons_ne_nil _ _

/-- Filters are read as they are written. -/
theorem read_eq_ok_iff :
    read cs = .ok filter ↔ ∃ core, IsPadded core cs ∧ filter.IsWritten core := by
  constructor
  · intro isRead
    unfold read at isRead
    split at isRead
    · cases isRead
    rename_i name argument call
    split at isRead
    · rename_i known named
      cases isRead
      have written := isWritten_of_named? call named
      exact ⟨trimBoth cs, isPadded_iff.mpr ⟨written.ne_nil, rfl⟩, written⟩
    · cases isRead
  · rintro ⟨core, padded, written⟩
    obtain ⟨name, argument, call, named⟩ := exists_named?_of_isWritten written
    unfold read
    rw [(isPadded_iff.mp padded).2, call]
    dsimp only
    rw [named]

end TextFilter

/-! ### Paths -/

/-- How a part of a node is written behind the dot. -/
inductive NodePart.IsWritten : NodePart → List Char → Prop
  | label : IsWritten .label "label".toList
  | keyed {key : String} (filled : key ≠ "") :
    IsWritten (.attribute key) ("attr.".toList ++ key.toList)

/-- What a placeholder asks for: a part of the node with a name, and changes of its text. -/
structure Placeholder where
  node : String
  part : NodePart
  filters : List TextFilter

namespace Placeholder

/-- The placeholder as a part of a template. -/
def toPart (placeholder : Placeholder) : TemplatePart :=
  .value placeholder.node placeholder.part placeholder.filters

/-- How the path of a placeholder is written: the name goes up to the first dot. -/
def PathIsWritten (placeholder : Placeholder) (cs : List Char) : Prop :=
  '.' ∉ placeholder.node.toList ∧
    ∃ rest, cs = placeholder.node.toList ++ '.' :: rest ∧ placeholder.part.IsWritten rest

/-- How a placeholder is written between its braces: a path, and filters after bars, with blanks
around each of them or not. -/
def IsWritten (placeholder : Placeholder) (inner : List Char) : Prop :=
  ∃ path calls, ['|'].intercalate (path :: calls) = inner ∧ (∀ piece ∈ path :: calls, '|' ∉ piece) ∧
    (∃ core, IsPadded core path ∧ placeholder.PathIsWritten core) ∧
    List.Forall₂ (fun call filter => ∃ core, IsPadded core call ∧ TextFilter.IsWritten filter core)
      calls placeholder.filters

end Placeholder

namespace TemplatePart

variable {path rest inner : List Char} {part : NodePart} {node : String}

/-- A part of a node is read from its written forms and from nothing else. -/
theorem readNodePart_eq_ok_iff : readNodePart path rest = .ok part ↔ part.IsWritten rest := by
  constructor
  · intro isRead
    unfold readNodePart at isRead
    split at isRead
    · cases isRead
      subst rest
      exact .label
    split at isRead
    · rename_i c key stripped
      cases isRead
      have filled : String.ofList (c :: key) ≠ "" := by simp
      have same : rest = "attr.".toList ++ (String.ofList (c :: key)).toList := by
        rw [String.toList_ofList (l := c :: key), stripStart?_eq_some_iff.mp stripped]
      exact same ▸ .keyed filled
    · cases isRead
  · intro written
    unfold readNodePart
    cases written with
    | label => exact if_pos rfl
    | @keyed key filled =>
        have notEmpty : key.toList ≠ [] := by simpa using filled
        obtain ⟨c, cs, same⟩ := List.exists_cons_of_ne_nil notEmpty
        have other : "attr.".toList ++ key.toList ≠ "label".toList := fun same =>
          absurd (List.cons.inj same).1 (by decide)
        rw [if_neg other, stripStart?_eq_some_iff.mpr rfl, same]
        dsimp only
        rw [← same, String.ofList_toList]

/-- A path is read from the name of a node, a dot and a written part of it, and from nothing
else. -/
theorem readPath_eq_ok_iff : readPath path = .ok (node, part) ↔
    '.' ∉ node.toList ∧ ∃ rest, path = node.toList ++ '.' :: rest ∧ part.IsWritten rest := by
  constructor
  · intro isRead
    unfold readPath at isRead
    split at isRead
    · cases isRead
    rename_i before rest cut
    obtain ⟨absent, same⟩ := cutAt_eq_some_iff.mp cut
    cases found : readNodePart path rest with
    | error fault => simp [found, Except.map] at isRead
    | ok value =>
        rw [found] at isRead
        cases isRead
        rw [String.toList_ofList]
        exact ⟨absent, rest, same, readNodePart_eq_ok_iff.mp found⟩
  · rintro ⟨absent, rest, same, written⟩
    unfold readPath
    rw [cutAt_eq_some_iff.mpr ⟨absent, same⟩]
    dsimp only
    rw [readNodePart_eq_ok_iff.mpr written, String.ofList_toList]
    rfl

/-- The filters of a placeholder are read as they are written. -/
theorem mapM_read_eq_ok_iff {calls : List (List Char)} {filters : List TextFilter} :
    calls.mapM TextFilter.read = .ok filters ↔
      List.Forall₂ (fun call filter => ∃ core, IsPadded core call ∧
        TextFilter.IsWritten filter core)
        calls filters := by
  simp only [mapM_eq_ok_iff, TextFilter.read_eq_ok_iff]

/-- **Placeholders** are read as they are written. -/
theorem readPlaceholder_eq_ok_iff {read : TemplatePart} : readPlaceholder inner = .ok read ↔
    ∃ placeholder : Placeholder, placeholder.IsWritten inner ∧ placeholder.toPart = read := by
  constructor
  · intro isRead
    unfold readPlaceholder at isRead
    split at isRead
    · cases isRead
    rename_i path calls cut
    obtain ⟨_, free, joined⟩ := splitWhere_eq_iff.mp cut
    obtain ⟨⟨node, part⟩, ofPath, isRead⟩ := bind_eq_ok_iff.mp isRead
    obtain ⟨filters, ofCalls, isRead⟩ := bind_eq_ok_iff.mp isRead
    obtain ⟨absent, rest, same, written⟩ := readPath_eq_ok_iff.mp ofPath
    have filled : trimBoth path ≠ [] := by simp [same]
    refine ⟨⟨node, part, filters⟩, ⟨path, calls, joined, free, ⟨trimBoth path, ?_, ?_⟩,
      mapM_read_eq_ok_iff.mp ofCalls⟩, Except.ok.inj isRead⟩
    · exact isPadded_iff.mpr ⟨filled, rfl⟩
    · exact ⟨absent, rest, same, written⟩
  · rintro ⟨placeholder, ⟨path, calls, joined, free, ⟨core, padded, written⟩, filters⟩, rfl⟩
    unfold readPlaceholder
    rw [splitWhere_eq_iff.mpr ⟨List.cons_ne_nil _ _, free, joined⟩]
    dsimp only
    rw [(isPadded_iff.mp padded).2, readPath_eq_ok_iff.mpr written]
    refine bind_eq_ok_iff.mpr ⟨(placeholder.node, placeholder.part), rfl, ?_⟩
    exact bind_eq_ok_iff.mpr ⟨placeholder.filters, mapM_read_eq_ok_iff.mpr filters, rfl⟩

end TemplatePart

end Transcode
