import Mathlib.Data.List.Infix
import Transcode.Rule.Template

/-!
# Groups of braces

A group of a text is what stands in braces without a brace inside. Two groups never overlap. So a
text can be cut at its groups in one way (`Marked.exists_of_text`, `Marked.Proper.eq_of_text`), and
what stands between the cuts are all the groups there are (`Marked.Proper.mem_groups_iff`). Braces
in the plain texts around them have no partner.
-/

namespace Transcode

open TemplatePart (isBrace)

/-- A text without braces. -/
def BraceFree (cs : List Char) : Prop := ∀ c ∈ cs, ¬isBrace c

/-- A text in braces. -/
def inBraces (cs : List Char) : List Char := '\x7b' :: (cs ++ ['\x7d'])

/-- A group of a text stands in it in braces, and no brace stands in the group. -/
def IsGroup (text group : List Char) : Prop := BraceFree group ∧ inBraces group <:+: text

/-- A text without groups; there may be braces in it all the same. -/
def Groupless (text : List Char) : Prop := ∀ group, ¬IsGroup text group

section Groups

variable {text part plain other group : List Char} {rest behind : List Char}

theorem IsGroup.of_part (isGroup : IsGroup part group) (inside : part <:+: text) :
    IsGroup text group :=
  ⟨isGroup.1, isGroup.2.trans inside⟩

theorem Groupless.of_part (groupless : Groupless text) (inside : part <:+: text) :
    Groupless part :=
  fun group isGroup => groupless group (isGroup.of_part inside)

/-- Text between two braces is a group wherever it stands. -/
theorem isGroup_append (free : BraceFree group) (before behind : List Char) :
    IsGroup (before ++ (inBraces group ++ behind)) group :=
  ⟨free, before, behind, by rw [List.append_assoc]⟩

theorem groupless_nil : Groupless [] := fun _ isGroup =>
  absurd (List.infix_nil.mp isGroup.2) (List.cons_ne_nil _ _)

/-- A character before a text without groups makes a group only if it opens one. -/
theorem Groupless.cons (groupless : Groupless plain) (c : Char) : Groupless (c :: plain) ∨
    ∃ group behind, BraceFree group ∧ c :: plain = inBraces group ++ behind ∧ Groupless behind := by
  by_cases still : Groupless (c :: plain)
  · exact .inl still
  obtain ⟨group, free, inside⟩ : ∃ group, IsGroup (c :: plain) group := by
    simpa [Groupless] using still
  rcases List.infix_cons_iff.mp inside with ⟨behind, starts⟩ | inside
  · refine .inr ⟨group, behind, free, starts.symm, groupless.of_part ?_⟩
    have tail : plain = group ++ ['\x7d'] ++ behind := (List.cons.inj starts).2.symm
    exact tail ▸ (List.suffix_append _ _).isInfix
  · exact absurd ⟨free, inside⟩ (groupless group)

/-- Before a group that is followed by anything, no other group starts in the plain text. -/
theorem eq_nil_of_inBraces_append (groupless : Groupless (other ++ plain)) (free : BraceFree group)
    (same : inBraces group ++ rest = plain ++ '\x7b' :: behind) : plain = [] := by
  cases plain with
  | nil => rfl
  | cons c plain =>
      simp only [inBraces, List.cons_append, List.append_assoc, List.cons.injEq] at same
      obtain ⟨rfl, same⟩ := same
      rcases List.append_eq_append_iff.mp same with ⟨more, rfl, closes⟩ | ⟨more, rfl, closes⟩
      · -- The group ends in the plain text, or at the brace behind it.
        cases more with
        | nil => cases closes
        | cons d more =>
            obtain ⟨rfl, _⟩ := List.cons.inj closes
            refine absurd (isGroup_append free other more) ?_
            simpa [inBraces] using groupless group
      · -- The group goes on through the brace behind the plain text.
        cases more with
        | nil => cases closes
        | cons d more =>
            obtain ⟨rfl, _⟩ := List.cons.inj closes
            exact absurd rfl (free '\x7b' (by simp))

/-- The first group of a text, with what stands before and behind it. -/
theorem eq_of_append_inBraces {plain' group' rest' : List Char} (groupless : Groupless plain)
    (groupless' : Groupless plain') (free : BraceFree group) (free' : BraceFree group')
    (same : plain ++ (inBraces group ++ rest) = plain' ++ (inBraces group' ++ rest')) :
    plain = plain' ∧ group = group' ∧ rest = rest' := by
  have first : plain = plain' := by
    rcases List.append_eq_append_iff.mp same with ⟨more, rfl, later⟩ | ⟨more, rfl, later⟩
    · rw [eq_nil_of_inBraces_append groupless' free later, List.append_nil]
    · rw [eq_nil_of_inBraces_append groupless free' later, List.append_nil]
  subst first
  have ends {group : List Char} (free : BraceFree group) (rest : List Char) :
      (group ++ '\x7d' :: rest).takeWhile (!isBrace ·) = group ∧
        (group ++ '\x7d' :: rest).dropWhile (!isBrace ·) = '\x7d' :: rest := by
    have all : ∀ c ∈ group, (!isBrace c) = true := fun c member => by simpa using free c member
    constructor
    · rw [List.takeWhile_append_of_pos all]
      simp [isBrace]
    · rw [List.dropWhile_append_of_pos all]
      simp [isBrace]
  have inner : group ++ '\x7d' :: rest = group' ++ '\x7d' :: rest' := by
    simpa [inBraces] using List.append_cancel_left same
  obtain ⟨taken, dropped⟩ := ends free rest
  obtain ⟨taken', dropped'⟩ := ends free' rest'
  refine ⟨rfl, ?_, ?_⟩
  · rw [← taken, inner, taken']
  · rw [inner, dropped'] at dropped
    exact (List.cons.inj dropped).2.symm

end Groups

/-- A text cut at groups: plain texts, each with the group behind it, and a last plain text. -/
inductive Marked where
  | last (plain : List Char)
  | piece (plain group : List Char) (rest : Marked)

namespace Marked

/-- The groups in order. -/
def groups : Marked → List (List Char)
  | .last _ => []
  | .piece _ group rest => group :: rest.groups

/-- The plain texts as they are, with other texts in place of the groups and their braces. -/
def fill : Marked → List (List Char) → List Char
  | .last plain, _ => plain
  | .piece plain _ rest, texts => plain ++ (texts.headD [] ++ rest.fill texts.tail)

/-- The whole text. -/
def text (marked : Marked) : List Char := marked.fill (marked.groups.map inBraces)

/-- The cuts are at the groups of the text and nowhere else. -/
def Proper : Marked → Prop
  | .last plain => Groupless plain
  | .piece plain group rest => Groupless plain ∧ BraceFree group ∧ rest.Proper

/-- A text cut at its groups, up to a group and from there on. -/
def followedBy : Marked → List Char → Marked → Marked
  | .last plain, group, further => .piece plain group further
  | .piece plain first rest, group, further => .piece plain first (rest.followedBy group further)

variable {marked other : Marked} {group : List Char}

@[simp] theorem text_last (plain : List Char) : (last plain).text = plain := rfl

@[simp] theorem text_piece (plain group : List Char) (rest : Marked) :
    (piece plain group rest).text = plain ++ (inBraces group ++ rest.text) := rfl

/-- Text that goes on behind a marked text has one group more and the further text behind. -/
theorem text_followedBy (marked : Marked) (group : List Char) (further : Marked) :
    (marked.followedBy group further).text = marked.text ++ (inBraces group ++ further.text) := by
  induction marked with
  | last plain => rfl
  | piece plain first rest ih => simp [followedBy, ih]

/-- Its groups are those of both with the one between them. -/
theorem groups_followedBy (marked : Marked) (group : List Char) (further : Marked) :
    (marked.followedBy group further).groups = marked.groups ++ group :: further.groups := by
  induction marked with
  | last plain => rfl
  | piece plain first rest ih => simp [followedBy, groups, ih]

/-- It is properly marked where both parts are and the group is free of braces. -/
theorem Proper.followedBy (proper : marked.Proper) (free : BraceFree group)
    (further : other.Proper) : (marked.followedBy group other).Proper := by
  induction marked with
  | last plain => exact ⟨proper, free, further⟩
  | piece plain first rest ih => exact ⟨proper.1, proper.2.1, ih proper.2.2⟩

/-- Every text can be cut at its groups. -/
theorem exists_of_text (cs : List Char) : ∃ marked : Marked, marked.Proper ∧ marked.text = cs := by
  induction cs with
  | nil => exact ⟨.last [], groupless_nil, rfl⟩
  | cons c cs ih =>
      obtain ⟨marked, proper, rfl⟩ := ih
      -- The first plain text gets the new character, and may then start with a group.
      cases marked with
      | last plain =>
          rcases Groupless.cons proper c with still | ⟨group, behind, free, starts, later⟩
          · exact ⟨.last (c :: plain), still, rfl⟩
          · exact ⟨.piece [] group (.last behind), ⟨groupless_nil, free, later⟩, starts.symm⟩
      | piece plain first rest =>
          obtain ⟨groupless, alsoFree, others⟩ := proper
          rcases groupless.cons c with still | ⟨group, behind, free, starts, later⟩
          · exact ⟨.piece (c :: plain) first rest, ⟨still, alsoFree, others⟩, rfl⟩
          · refine ⟨.piece [] group (.piece behind first rest),
              ⟨groupless_nil, free, later, alsoFree, others⟩, ?_⟩
            rw [text_piece, text_piece, text_piece, List.nil_append, ← List.append_assoc, ← starts,
              List.cons_append]

/-- A text can be cut at its groups in one way only. -/
theorem Proper.eq_of_text (proper : marked.Proper) (also : other.Proper)
    (same : marked.text = other.text) : marked = other := by
  induction marked generalizing other with
  | last plain =>
      cases other with
      | last plain' => exact congrArg last same
      | piece plain' group' rest' =>
          have inside := isGroup_append also.2.1 plain' rest'.text
          rw [← text_piece, ← same] at inside
          exact absurd inside (proper group')
  | piece plain group rest ih =>
      obtain ⟨groupless, free, others⟩ := proper
      cases other with
      | last plain' =>
          have inside := isGroup_append free plain rest.text
          rw [← text_piece, same] at inside
          exact absurd inside (also group)
      | piece plain' group' rest' =>
          obtain ⟨rfl, rfl, later⟩ := eq_of_append_inBraces groupless also.1 free also.2.1 same
          rw [ih others also.2.2 later]

/-- The cuts find all groups of the text. -/
theorem Proper.mem_groups_iff (proper : marked.Proper) :
    group ∈ marked.groups ↔ IsGroup marked.text group := by
  constructor
  · intro member
    induction marked with
    | last plain => cases member
    | piece plain first rest ih =>
        rcases List.mem_cons.mp member with rfl | later
        · exact isGroup_append proper.2.1 plain rest.text
        · refine (ih proper.2.2 later).of_part ?_
          rw [text_piece, ← List.append_assoc]
          exact (List.suffix_append _ _).isInfix
  · rintro ⟨free, before, behind, split⟩
    obtain ⟨first, properFirst, rfl⟩ := exists_of_text before
    obtain ⟨further, properFurther, rfl⟩ := exists_of_text behind
    have same : marked = first.followedBy group further :=
      proper.eq_of_text (properFirst.followedBy free properFurther) (by
        rw [text_followedBy, ← List.append_assoc, split])
    rw [same, groups_followedBy]
    exact List.mem_append_right _ List.mem_cons_self

end Marked

end Transcode
