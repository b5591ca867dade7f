import Transcode.Proofs.FirstWays

/-!
# What a match takes

A way of an expression takes the characters between its ends, each by one of the expression's sets,
and its groups hold parts of them (`Regex.exists_reads`). How many characters it takes at least, and
what its last one is, can be read off the expression. Neither what stands far before a match nor
what stands behind its end matters to it (`Regex.forall₂_paths_behind`,
`Regex.filter_paths_extend`).
-/

namespace Transcode

namespace CharSet

/-- A set of one character has that character. -/
theorem mem_single {c d : Char} : (single c).mem d ↔ d = c := by
  rw [single, mem, Bool.and_eq_true, decide_eq_true_eq, decide_eq_true_eq]
  exact ⟨fun both => Char.le_antisymm both.2 both.1,
    fun same => same ▸ ⟨Char.le_refl _, Char.le_refl _⟩⟩

/-- The characters of a text are the members of its set. -/
theorem mem_ofText {text : String} {c : Char} : (ofText text).mem c ↔ c ∈ text.toList := by
  rw [ofText]
  induction text.toList with
  | nil => simp [mem]
  | cons d cs ih => rw [List.foldr_cons, mem, Bool.or_eq_true, ih, mem_single, List.mem_cons]

theorem mem_compl {set : CharSet} {c : Char} : (compl set).mem c ↔ ¬set.mem c := by
  rw [mem, Bool.not_eq_true', Bool.not_eq_true]

end CharSet

/-! ### From one spot to another -/

namespace Spot

/-- The spot behind characters that are taken. -/
def past (spot : Spot) (taken rest : List Char) : Spot :=
  { spot with
    before := taken.getLast?.or spot.before
    rest
    offset := spot.offset + taken.length }

theorem past_nil (spot : Spot) : spot.past [] spot.rest = spot := rfl

theorem past_past (spot : Spot) (taken others rest more : List Char) :
    (spot.past taken more).past others rest = spot.past (taken ++ others) rest := by
  simp [past, List.getLast?_append, Option.or_assoc, Nat.add_assoc]

/-- Groups of a way, each of which holds a part of what has been taken. -/
def Grouped (taken : List Char) (groups : List (Nat × Extent)) : Prop :=
  ∀ group ∈ groups, group.2.length ≤ group.2.rest.length ∧ group.2.text <:+: taken

/-- A spot that is reached from another by taking characters. -/
structure Reads (start stop : Spot) (taken : List Char) : Prop where
  rest_eq : start.rest = taken ++ stop.rest
  offset_eq : stop.offset = start.offset + taken.length
  before_eq : stop.before = taken.getLast?.or start.before
  groups_eq : ∃ groups, stop.groups = groups ++ start.groups ∧ Grouped taken groups

variable {start middle stop : Spot} {taken others : List Char}

theorem Grouped.mono {groups : List (Nat × Extent)} (grouped : Grouped taken groups)
    (part : taken <:+: others) : Grouped others groups := fun group member =>
  ⟨(grouped group member).1, (grouped group member).2.trans part⟩

namespace Reads

theorem refl (spot : Spot) : spot.Reads spot [] := ⟨rfl, rfl, rfl, [], rfl, List.forall_mem_nil _⟩

/-- What is read on two ways one after another is read on both. -/
theorem trans (early : start.Reads middle taken) (late : middle.Reads stop others) :
    start.Reads stop (taken ++ others) where
  rest_eq := by rw [early.rest_eq, late.rest_eq, List.append_assoc]
  offset_eq := by rw [late.offset_eq, early.offset_eq, List.length_append, Nat.add_assoc]
  before_eq := by rw [late.before_eq, early.before_eq, List.getLast?_append, Option.or_assoc]
  groups_eq := by
    obtain ⟨before, same, grouped⟩ := early.groups_eq
    obtain ⟨after, also, later⟩ := late.groups_eq
    refine ⟨after ++ before, by rw [also, same, List.append_assoc],
      List.forall_mem_append.mpr ⟨?_, ?_⟩⟩
    · exact later.mono (List.suffix_append taken others).isInfix
    · exact grouped.mono (List.prefix_append taken others).isInfix

/-- The text between two spots is what is read from the one to the other. -/
theorem textTo_eq (reads : start.Reads stop taken) : start.textTo stop = taken := by
  rw [textTo, Extent.text, extentTo, reads.offset_eq, Nat.add_sub_cancel_left, reads.rest_eq,
    List.take_left]

/-- Closing a group does not go on in the text. -/
theorem close (reads : start.Reads stop taken) (index : Option Nat) :
    start.Reads (stop.close index start) taken where
  rest_eq := by rw [rest_close, reads.rest_eq]
  offset_eq := by rw [offset_close, reads.offset_eq]
  before_eq := by rw [before_close, reads.before_eq]
  groups_eq := by
    obtain ⟨groups, same, grouped⟩ := reads.groups_eq
    cases index with
    | none => exact ⟨groups, same, grouped⟩
    | some index =>
        refine ⟨(index, start.extentTo stop) :: groups, congrArg _ same,
          List.forall_mem_cons.mpr ⟨⟨?_, ?_⟩, grouped⟩⟩
        · rw [extentTo, reads.offset_eq, Nat.add_sub_cancel_left, reads.rest_eq, List.length_append]
          exact Nat.le_add_right _ _
        · exact reads.textTo_eq ▸ List.infix_refl _

/-- What has been read and what is left make up the same text. -/
theorem total_eq (reads : start.Reads stop taken) :
    stop.offset + stop.rest.length = start.offset + start.rest.length := by
  rw [reads.offset_eq, reads.rest_eq, List.length_append, Nat.add_assoc]

end Reads

theorem reads_past {rest : List Char} (same : start.rest = taken ++ rest) :
    start.Reads (start.past taken rest) taken :=
  ⟨same, rfl, rfl, [], rfl, List.forall_mem_nil _⟩

/-- A spot past some characters is come to by reading them. -/
theorem reads_of_eq_past (same : start.rest = taken ++ stop.rest)
    (past : stop = start.past taken stop.rest) : start.Reads stop taken := by
  have reads := reads_past same
  rwa [← past] at reads

/-- A group that is closed has the text read since it was opened. -/
theorem group?_close (reads : start.Reads stop taken) (index : Nat) :
    (stop.close (some index) start).group? index = some taken := by
  rw [group?, close, List.lookup_cons_self]
  exact congrArg some reads.textTo_eq

/-- A character is taken if it is in the set. -/
theorem take?_eq_some_iff {chars : CharSet} : start.take? chars = some stop ↔
    ∃ c rest, start.rest = c :: rest ∧ chars.mem c ∧ stop = start.past [c] rest := by
  rw [take?]
  constructor
  · intro taken
    split at taken
    · cases taken
    · rename_i c rest same
      split at taken
      · rename_i isMember
        cases taken
        exact ⟨c, rest, same, isMember, rfl⟩
      · cases taken
  · rintro ⟨c, rest, same, isMember, rfl⟩
    rw [same]
    exact if_pos isMember

/-- Taking a character reads it. -/
theorem exists_of_take? {chars : CharSet} (taken : start.take? chars = some stop) :
    ∃ c, chars.mem c ∧ start.Reads stop [c] := by
  obtain ⟨c, rest, same, isMember, rfl⟩ := take?_eq_some_iff.mp taken
  exact ⟨c, isMember, reads_past same⟩

end Spot

namespace Regex

variable {start stop : Spot} {regex : Regex}

/-- **A way takes characters** by the sets of its expression. -/
theorem exists_reads {isRead : CharSet → Prop} (reads : regex.ReadsOnly isRead)
    (member : stop ∈ regex.paths start) :
    ∃ taken, start.Reads stop taken ∧ ∀ c ∈ taken, ∃ chars, isRead chars ∧ chars.mem c := by
  have journey : Journey isRead fun start stop => ∃ taken, start.Reads stop taken ∧
      ∀ c ∈ taken, ∃ chars, isRead chars ∧ chars.mem c :=
    { refl := fun spot => ⟨[], .refl spot, List.forall_mem_nil _⟩
      trans := fun ⟨taken, early, sets⟩ ⟨others, late, alsoSets⟩ =>
        ⟨taken ++ others, early.trans late, List.forall_mem_append.mpr ⟨sets, alsoSets⟩⟩
      take := fun isRead taken => by
        obtain ⟨c, isMember, reads⟩ := Spot.exists_of_take? taken
        exact ⟨[c], reads, List.forall_mem_singleton.mpr ⟨_, isRead, isMember⟩⟩
      close := fun index ⟨taken, reads, sets⟩ => ⟨taken, reads.close index, sets⟩ }
  exact journey.of_mem_paths reads member

theorem exists_reads_of_mem_paths (member : stop ∈ regex.paths start) :
    ∃ taken, start.Reads stop taken :=
  (exists_reads regex.readsOnly_any member).imp fun _ => And.left

/-! ### Ways of each kind of expression -/

section Kinds

/-- A set reads one of its characters. -/
theorem mem_paths_set {chars : CharSet} : stop ∈ paths (.set chars) start ↔
    ∃ c rest, start.rest = c :: rest ∧ chars.mem c ∧ stop = start.past [c] rest := by
  rw [paths, Option.mem_toList]
  exact Spot.take?_eq_some_iff

/-- An anchor reads nothing. -/
theorem mem_paths_anchor {place : Anchor} : stop ∈ paths (.anchor place) start ↔
    place.holds start.before start.rest.head? ∧ stop = start := by
  rw [paths]
  by_cases asked : place.holds start.before start.rest.head?
  · rw [if_pos asked, List.mem_singleton, and_iff_right asked]
  · rw [if_neg asked, iff_false_left (List.not_mem_nil)]
    exact fun holds => asked holds.1

theorem mem_paths_seq {first second : Regex} : stop ∈ paths (.seq first second) start ↔
    ∃ middle ∈ first.paths start, stop ∈ second.paths middle := List.mem_flatMap

theorem mem_paths_alt {first second : Regex} : stop ∈ paths (.alt first second) start ↔
    stop ∈ first.paths start ∨ stop ∈ second.paths start := List.mem_append

theorem mem_paths_group {index : Option Nat} {body : Regex} :
    stop ∈ paths (.group index body) start ↔
      ∃ inner ∈ body.paths start, inner.close index start = stop := List.mem_map

/-- A literal reads its own text. -/
theorem mem_paths_literal {text : String} : stop ∈ paths (literal text) start ↔
    ∃ rest, start.rest = text.toList ++ rest ∧ stop = start.past text.toList rest := by
  rw [literal]
  generalize text.toList = cs
  induction cs generalizing start with
  | nil =>
      change stop ∈ [start] ↔ _
      rw [List.mem_singleton]
      constructor
      · rintro rfl
        exact ⟨stop.rest, rfl, stop.past_nil.symm⟩
      · rintro ⟨rest, same, rfl⟩
        rw [← List.nil_append rest, ← same, start.past_nil]
  | cons c cs ih =>
      have unfolded : stop ∈ paths (sequence ((c :: cs).map char)) start ↔
          ∃ middle ∈ paths (char c) start, stop ∈ paths (sequence (cs.map char)) middle := by
        cases cs with
        | nil => simp [sequence, paths]
        | cons d cs => exact mem_paths_seq
      rw [unfolded]
      simp only [char, mem_paths_set, CharSet.mem_single, ih]
      constructor
      · rintro ⟨middle, ⟨d, others, same, rfl, rfl⟩, rest, also, rfl⟩
        refine ⟨rest, ?_, ?_⟩
        · rw [same, List.cons_append]
          exact congrArg _ also
        · rw [Spot.past_past, List.singleton_append]
      · rintro ⟨rest, same, rfl⟩
        refine ⟨start.past [c] (cs ++ rest), ⟨c, cs ++ rest, same, rfl, rfl⟩, rest, rfl, ?_⟩
        rw [Spot.past_past, List.singleton_append]

end Kinds

/-! ### How much is taken, and what comes last -/

/-- The number of characters that every match of an expression has at least. -/
def least : Regex → Nat
  | .empty | .anchor _ => 0
  | .set _ => 1
  | .seq first second => first.least + second.least
  | .alt first second => min first.least second.least
  | .many body times _ _ => times * body.least
  | .group _ body => body.least

/-- Every way takes at least so many characters. -/
theorem least_le (member : stop ∈ regex.paths start) :
    start.offset + regex.least ≤ stop.offset := by
  induction regex generalizing start stop with
  | empty => exact Nat.le_of_eq (congrArg Spot.offset (List.mem_singleton.mp member).symm)
  | set chars =>
      obtain ⟨c, _, reads⟩ := Spot.exists_of_take? (Option.mem_toList.mp member)
      exact Nat.le_of_eq reads.offset_eq.symm
  | anchor place =>
      obtain ⟨taken, reads⟩ := exists_reads_of_mem_paths member
      rw [reads.offset_eq]
      exact Nat.le_add_right _ _
  | seq first second ihFirst ihSecond =>
      obtain ⟨middle, early, late⟩ := List.mem_flatMap.mp member
      have before := ihFirst early
      have after := ihSecond late
      rw [least]
      omega
  | alt first second ihFirst ihSecond =>
      rw [least]
      rcases List.mem_append.mp member with early | late
      · have := ihFirst early
        omega
      · have := ihSecond late
        omega
  | many body count extra greedy ih =>
      obtain ⟨middle, early, late⟩ := List.mem_flatMap.mp member
      have needed : start.offset + count * body.least ≤ middle.offset := by
        clear member late
        induction count generalizing start with
        | zero =>
            obtain rfl := List.mem_singleton.mp early
            omega
        | succ count ihCount =>
            obtain ⟨next, first, later⟩ := List.mem_flatMap.mp early
            have once := ih first
            have others := ihCount later
            rw [Nat.succ_mul]
            omega
      have onward : middle.offset ≤ stop.offset :=
        of_mem_repeats (fun spot holds next member =>
          Nat.le_trans holds (Nat.le_of_add_right_le (ih member)))
          (Nat.le_refl _) late
      exact Nat.le_trans needed onward
  | group index body ih =>
      obtain ⟨inner, there, rfl⟩ := List.mem_map.mp member
      rw [Spot.offset_close]
      exact ih there

/-- Whether an expression only asks for a place. -/
def isAnchor : Regex → Bool
  | .anchor _ => true
  | _ => false

/-- The set that the last character of every match of an expression is read by, if that is the same
set for all. -/
def closing? : Regex → Option CharSet
  | .set chars => some chars
  | .seq first second => if second.isAnchor then first.closing? else second.closing?
  | .group _ body => body.closing?
  | _ => none

/-- What an expression must end with stands before the spot that it comes to. -/
theorem exists_before_of_closing? {chars : CharSet} (closes : regex.closing? = some chars)
    (member : stop ∈ regex.paths start) : ∃ c ∈ stop.before, chars.mem c := by
  induction regex generalizing start stop with
  | set read =>
      obtain ⟨c, isMember, reads⟩ := Spot.exists_of_take? (Option.mem_toList.mp member)
      obtain rfl := Option.some.inj closes
      exact ⟨c, by rw [reads.before_eq]; rfl, isMember⟩
  | seq first second ihFirst ihSecond =>
      obtain ⟨middle, early, late⟩ := List.mem_flatMap.mp member
      rw [closing?] at closes
      split at closes
      · rename_i isAnchor
        cases second with
        | anchor place =>
            rw [paths] at late
            split at late
            · obtain rfl := List.mem_singleton.mp late
              exact ihFirst closes early
            · cases late
        | empty | set | seq | alt | many | group => cases isAnchor
      · exact ihSecond closes late
  | group index body ih =>
      obtain ⟨inner, there, rfl⟩ := List.mem_map.mp member
      rw [Spot.before_close]
      exact ih closes there
  | empty | anchor | alt | many => cases closes

/-- The characters that every match of an expression begins with, as far as its form tells, and
whether these are all that it takes. -/
def opening : Regex → List Char × Bool
  | .empty | .anchor _ => ([], true)
  | .set (.range first last) => if first = last then ([first], true) else ([], false)
  | .set _ | .alt _ _ | .many _ _ _ _ => ([], false)
  | .seq first second =>
    if first.opening.2 then (first.opening.1 ++ second.opening.1, second.opening.2)
    else first.opening
  | .group _ body => body.opening

/-- Every way begins with the fixed text of its expression. -/
theorem exists_of_opening (member : stop ∈ regex.paths start) :
    ∃ rest, start.rest = regex.opening.1 ++ rest ∧ (regex.opening.2 → stop.rest = rest) := by
  induction regex generalizing start stop with
  | empty => exact ⟨start.rest, rfl, fun _ => by rw [List.mem_singleton.mp member]⟩
  | anchor place =>
      exact ⟨start.rest, rfl, fun _ => by rw [(mem_paths_anchor.mp member).2]⟩
  | set chars =>
      obtain ⟨c, rest, same, isMember, rfl⟩ := mem_paths_set.mp member
      cases chars with
      | range first last =>
          rw [opening]
          split
          · rename_i single
            subst single
            exact ⟨rest, by rw [same, CharSet.mem_single.mp isMember]; rfl, fun _ => rfl⟩
          · exact ⟨start.rest, rfl, nofun⟩
      | _ => exact ⟨start.rest, rfl, nofun⟩
  | alt | many => exact ⟨start.rest, rfl, nofun⟩
  | seq first second ihFirst ihSecond =>
      obtain ⟨middle, early, late⟩ := mem_paths_seq.mp member
      obtain ⟨rest, same, all⟩ := ihFirst early
      rw [opening]
      split
      · rename_i isAll
        obtain ⟨others, also, alsoAll⟩ := ihSecond late
        exact ⟨others, by rw [same, ← all isAll, also, List.append_assoc], alsoAll⟩
      · rename_i isMore
        exact ⟨rest, same, fun isAll => absurd isAll isMore⟩
  | group index body ih =>
      obtain ⟨inner, there, rfl⟩ := mem_paths_group.mp member
      rw [Spot.rest_close]
      exact ih there

/-! ### Repetitions without a bound -/

section Unbounded

variable {step : Spot → List Spot} {greedy : Bool} {spot : Spot}

/-- Steps that lose no character. -/
def KeepsTotal (step : Spot → List Spot) : Prop := ∀ spot, ∀ next ∈ step spot,
  next.offset + next.rest.length = spot.offset + spot.rest.length

theorem keepsTotal_paths (regex : Regex) : KeepsTotal regex.paths := fun _ _ member =>
  (exists_reads_of_mem_paths member).elim fun _ => Spot.Reads.total_eq

/-- A step that goes on leaves less. -/
theorem length_lt_of_mem_advances (keeps : KeepsTotal step) {next : Spot}
    (member : next ∈ advances step spot) : next.rest.length < spot.rest.length := by
  obtain ⟨step, further⟩ := mem_advances.mp member
  have total := keeps spot next step
  omega

/-- At the end of a text no step goes on. -/
theorem repeats_at_end (keeps : KeepsTotal step) (none : spot.rest.length = 0) (count : Nat) :
    repeats step greedy count spot = [spot] := by
  have noFurther : advances step spot = [] := by
    refine List.eq_nil_iff_forall_not_mem.mpr fun next member => ?_
    have := length_lt_of_mem_advances keeps member
    omega
  cases count with
  | zero => rfl
  | succ count =>
      rw [repeats, noFurther]
      cases greedy <;> rfl

/-- More repetitions than there are characters change nothing. -/
theorem repeats_eq_of_le (keeps : KeepsTotal step) {count other : Nat}
    (enough : spot.rest.length ≤ count) (also : spot.rest.length ≤ other) :
    repeats step greedy count spot = repeats step greedy other spot := by
  induction count generalizing spot other with
  | zero =>
      have none := Nat.le_zero.mp enough
      rw [repeats_at_end keeps none, repeats_at_end keeps none]
  | succ count ih =>
      cases other with
      | zero =>
          have none := Nat.le_zero.mp also
          rw [repeats_at_end keeps none, repeats_at_end keeps none]
      | succ other =>
          have further : (advances step spot).flatMap (repeats step greedy count) =
              (advances step spot).flatMap (repeats step greedy other) := by
            refine List.flatMap_congr fun next member => ?_
            have := length_lt_of_mem_advances keeps member
            exact ih (by omega) (by omega)
          rw [repeats, repeats, further]

/-- A star takes its body once more, wherever that gets on, or ends. -/
theorem paths_many_zero (body : Regex) (greedy : Bool) (spot : Spot) :
    paths (.many body 0 none greedy) spot =
      if greedy then
        (advances body.paths spot).flatMap (paths (.many body 0 none greedy)) ++ [spot]
      else spot :: (advances body.paths spot).flatMap (paths (.many body 0 none greedy)) := by
  have unfolded (spot : Spot) : paths (.many body 0 none greedy) spot =
      repeats body.paths greedy (spot.rest.length + 1) spot := List.flatMap_singleton _ _
  have further : (advances body.paths spot).flatMap (repeats body.paths greedy spot.rest.length) =
      (advances body.paths spot).flatMap (paths (.many body 0 none greedy)) := by
    refine List.flatMap_congr fun next member => ?_
    have keeps := keepsTotal_paths body
    have := length_lt_of_mem_advances keeps member
    rw [unfolded]
    exact repeats_eq_of_le keeps (by omega) (Nat.le_succ _)
  rw [unfolded, repeats, further]

/-- One or more is one, and then none or more. -/
theorem paths_many_one (body : Regex) (greedy : Bool) (spot : Spot) :
    paths (.many body 1 none greedy) spot =
      (body.paths spot).flatMap (paths (.many body 0 none greedy)) := by
  have once : times body.paths 1 spot = body.paths spot := List.flatMap_singleton' _
  have unfolded (spot : Spot) : paths (.many body 0 none greedy) spot =
      repeats body.paths greedy (spot.rest.length + 1) spot := List.flatMap_singleton _ _
  rw [paths, once]
  exact List.flatMap_congr fun next _ => (unfolded next).symm

/-- The ways of a star of characters, greedy or not. -/
theorem mem_paths_star {chars : CharSet} {start stop : Spot} :
    stop ∈ paths (.many (.set chars) 0 none greedy) start ↔
      ∃ taken, start.rest = taken ++ stop.rest ∧ (∀ c ∈ taken, chars.mem c) ∧
        stop = start.past taken stop.rest := by
  have mem_iff (start : Spot) : stop ∈ paths (.many (.set chars) 0 none greedy) start ↔
      stop = start ∨ ∃ next ∈ advances (paths (.set chars)) start,
        stop ∈ paths (.many (.set chars) 0 none greedy) next := by
    rw [paths_many_zero]
    split <;> simp [or_comm]
  constructor
  · intro member
    generalize left : start.rest = rest
    induction rest generalizing start with
    | nil =>
        rcases (mem_iff start).mp member with rfl | ⟨next, advance, _⟩
        · exact ⟨[], left.symm, List.forall_mem_nil _, stop.past_nil.symm⟩
        · obtain ⟨c, rest, same, _⟩ := mem_paths_set.mp (mem_advances.mp advance).1
          rw [left] at same
          cases same
    | cons d rest ih =>
        rcases (mem_iff start).mp member with rfl | ⟨next, advance, later⟩
        · exact ⟨[], left.symm, List.forall_mem_nil _, stop.past_nil.symm⟩
        · obtain ⟨c, others, same, isMember, rfl⟩ := mem_paths_set.mp (mem_advances.mp advance).1
          obtain ⟨rfl, rfl⟩ := List.cons.inj (left.symm.trans same)
          obtain ⟨taken, also, sets, past⟩ := ih later rfl
          refine ⟨d :: taken, congrArg _ also, List.forall_mem_cons.mpr ⟨isMember, sets⟩, ?_⟩
          rw [Spot.past_past] at past
          exact past
  · rintro ⟨taken, same, sets, past⟩
    induction taken generalizing start with
    | nil =>
        rw [mem_iff, past, ← List.nil_append stop.rest, ← same]
        exact .inl start.past_nil
    | cons c taken ih =>
        obtain ⟨here, later⟩ := List.forall_mem_cons.mp sets
        rw [mem_iff]
        refine .inr ⟨start.past [c] (taken ++ stop.rest), mem_advances.mpr ⟨?_, ?_⟩,
          ih rfl later ?_⟩
        · exact mem_paths_set.mpr ⟨c, _, same, here, rfl⟩
        · exact Nat.lt_succ_self _
        · rw [Spot.past_past]
          exact past

/-- One or more of a set reads a stretch of its characters that is not empty. -/
theorem mem_paths_plus {chars : CharSet} {start stop : Spot} :
    stop ∈ paths (.many (.set chars) 1 none greedy) start ↔
      ∃ taken, taken ≠ [] ∧ start.rest = taken ++ stop.rest ∧ (∀ c ∈ taken, chars.mem c) ∧
        stop = start.past taken stop.rest := by
  rw [paths_many_one, List.mem_flatMap]
  simp only [mem_paths_set, mem_paths_star]
  constructor
  · rintro ⟨middle, ⟨c, rest, same, isMember, rfl⟩, taken, also, sets, past⟩
    refine ⟨c :: taken, List.cons_ne_nil c taken, ?_, List.forall_mem_cons.mpr ⟨isMember, sets⟩, ?_⟩
    · exact same.trans (congrArg _ also)
    · rw [Spot.past_past] at past
      exact past
  · rintro ⟨taken, filled, same, sets, past⟩
    obtain ⟨c, others, rfl⟩ := List.exists_cons_of_ne_nil filled
    obtain ⟨here, later⟩ := List.forall_mem_cons.mp sets
    refine ⟨start.past [c] (others ++ stop.rest), ⟨c, _, same, here, rfl⟩, others, rfl, later, ?_⟩
    rw [Spot.past_past]
    exact past

end Unbounded

/-! ### What stands before and behind a match -/

/-- A spot and the same spot of a text with more before it. What stands right before both belongs to
no word, or is the same. -/
structure Behind (more : List Char) (spot other : Spot) : Prop where
  rest_eq : other.rest = spot.rest
  offset_eq : other.offset = more.length + spot.offset
  groups_eq : other.groups = spot.groups
  before_eq : other.before = spot.before ∨
    ¬other.before.any isWordChar ∧ ¬spot.before.any isWordChar

/-- More text at the end changes no step but that past the last character. -/
theorem simulation_behind (more : List Char) : Simulation (· = .wordEdge) (Behind more) where
  take {spot other} chars behind := by
    rw [Spot.take?, Spot.take?, behind.rest_eq]
    split
    · exact .none
    · split
      · refine .some ⟨rfl, ?_, behind.groups_eq, .inl rfl⟩
        exact congrArg (· + 1) behind.offset_eq
      · exact .none
  place {spot other anchor} behind isEdge := by
    subst isEdge
    rw [behind.rest_eq]
    rcases behind.before_eq with same | ⟨none, noneEither⟩
    · rw [same]
    · simp only [Bool.not_eq_true] at none noneEither
      simp only [Anchor.holds, Anchor.wordEdge, none, noneEither]
  length behind := by rw [behind.rest_eq]
  lt behind also := by rw [behind.offset_eq, also.offset_eq, Nat.add_lt_add_iff_left]
  close {spot other next following} index behind also := by
    refine ⟨by simp [also.rest_eq], by simp [also.offset_eq], ?_, by simpa using also.before_eq⟩
    cases index with
    | none => exact also.groups_eq
    | some index =>
        simp only [Spot.close, Spot.extentTo, behind.rest_eq, behind.offset_eq, also.offset_eq,
          also.groups_eq, Nat.add_sub_add_left]

/-- An expression that only asks for word edges has the same ways with more text behind. -/
theorem forall₂_paths_behind {more : List Char} {spot other : Spot}
    (asks : regex.AsksOnly (· = .wordEdge)) (behind : Behind more spot other) :
    List.Forall₂ (Behind more) (regex.paths spot) (regex.paths other) :=
  forall₂_paths (simulation_behind more) asks behind

end Regex

namespace Spot

/-- The spot in the text with one more character at its end. -/
def extend (spot : Spot) (d : Char) : Spot :=
  { spot with
    rest := spot.rest ++ [d]
    groups := spot.groups.map fun group => (group.1, ⟨group.2.rest ++ [d], group.2.length⟩) }

/-- Whether characters are left behind a spot. -/
def isInside (spot : Spot) : Bool := !spot.rest.isEmpty

variable {spot start : Spot} {d : Char}

theorem isInside_extend : (spot.extend d).isInside := by simp [isInside, extend]

/-- The same character is taken of a longer text. -/
theorem take?_extend {c : Char} {rest : List Char} (same : spot.rest = c :: rest)
    (chars : CharSet) :
    (spot.extend d).take? chars = (spot.take? chars).map (·.extend d) := by
  simp only [take?, extend, same, List.cons_append]
  split <;> rfl

theorem close_extend (index : Option Nat) :
    (spot.extend d).close index (start.extend d) = (spot.close index start).extend d := by
  cases index <;> rfl

end Spot

namespace Regex

section Extend

variable {d : Char} {step : Spot → List Spot}

/-- Steps that are the same with one more character at the end of the text, but for those that take
it. -/
def Extends (d : Char) (step : Spot → List Spot) : Prop := ∀ spot,
  (step (spot.extend d)).filter (·.isInside) = (step spot).map (·.extend d)

/-- Steps that do not lead from the end of a text back into it. -/
def StaysAtEnd (step : Spot → List Spot) : Prop := ∀ spot, ¬spot.isInside →
  ∀ next ∈ step spot, ¬next.isInside

/-- Ways that end inside come from ways that end inside. -/
theorem filter_flatMap_isInside {next : Spot → List Spot} (stays : StaysAtEnd next)
    (spots : List Spot) : (spots.flatMap next).filter (·.isInside) =
      (spots.filter (·.isInside)).flatMap fun spot => (next spot).filter (·.isInside) := by
  induction spots with
  | nil => rfl
  | cons spot rest ih =>
      rw [List.flatMap_cons, List.filter_append, ih, List.filter_cons]
      split
      · rw [List.flatMap_cons]
      · rename_i atEnd
        rw [List.filter_eq_nil_iff.mpr (stays spot atEnd), List.nil_append]

/-- Two steps that are extended are extended one after another. -/
theorem Extends.flatMap {next : Spot → List Spot} (extended : Extends d step)
    (also : Extends d next)
    (stays : StaysAtEnd next) : Extends d fun spot => (step spot).flatMap next := by
  intro spot
  rw [filter_flatMap_isInside stays, extended, List.flatMap_map, List.map_flatMap]
  exact List.flatMap_congr fun other _ => also other

theorem Extends.pure : Extends d fun spot => [spot] := fun spot => by
  rw [List.filter_singleton, Spot.isInside_extend]
  rfl

/-- Steps that go on are extended. -/
theorem Extends.advances (extended : Extends d step) : Extends d (advances step) := by
  intro spot
  have swapped : (Regex.advances step (spot.extend d)).filter (·.isInside) =
      ((step (spot.extend d)).filter (·.isInside)).filter (spot.offset < ·.offset) := by
    rw [Regex.advances, List.filter_comm]
    rfl
  rw [swapped, extended, List.filter_map]
  rfl

/-- Repeating a step does not come back from the end. -/
theorem staysAtEnd_repeats (stays : StaysAtEnd step) (greedy : Bool) (count : Nat) :
    StaysAtEnd (repeats step greedy count) := fun _ atEnd _ member =>
  of_mem_repeats stays atEnd member

/-- No expression comes back from the end. -/
theorem staysAtEnd_paths (regex : Regex) : StaysAtEnd regex.paths := by
  intro spot atEnd next member inside
  obtain ⟨taken, reads⟩ := exists_reads_of_mem_paths member
  refine atEnd ?_
  simp only [Spot.isInside, reads.rest_eq, Bool.not_eq_true', List.isEmpty_eq_false_iff] at inside ⊢
  exact List.append_ne_nil_of_right_ne_nil taken inside

/-- A repeated step is extended, up to any number of times. -/
theorem Extends.repeats (extended : Extends d step) (stays : StaysAtEnd step) (greedy : Bool)
    (count : Nat) : Extends d (repeats step greedy count) := by
  induction count with
  | zero => exact .pure
  | succ count ih =>
      intro spot
      have further := extended.advances.flatMap ih (staysAtEnd_repeats stays greedy count) spot
      rw [Regex.repeats, Regex.repeats]
      split
      · rw [List.filter_append, further, Extends.pure spot, List.map_append]
      · rw [← List.singleton_append, List.filter_append, further, Extends.pure spot,
          ← List.map_append, List.singleton_append]

/-- A step that is made so many times is extended. -/
theorem Extends.times (extended : Extends d step) (stays : StaysAtEnd step) (count : Nat) :
    Extends d (times step count) := by
  induction count with
  | zero => exact .pure
  | succ count ih =>
      exact extended.flatMap ih fun _ atEnd _ member => of_mem_times stays atEnd member

/-- A step that is made any number of times is extended. -/
theorem Extends.many (extended : Extends d step) (stays : StaysAtEnd step) (keeps : KeepsTotal step)
    (greedy : Bool) (extra : Option Nat) :
    Extends d fun spot => Regex.repeats step greedy (extra.getD (spot.rest.length + 1)) spot := by
  intro spot
  cases extra with
  | none =>
      have longer : (spot.extend d).rest.length = spot.rest.length + 1 := List.length_append
      have same : Regex.repeats step greedy (spot.rest.length + 1) spot =
          Regex.repeats step greedy (spot.rest.length + 1 + 1) spot :=
        repeats_eq_of_le keeps (by omega) (by omega)
      dsimp only [Option.getD_none]
      rw [longer, same]
      exact extended.repeats stays greedy _ spot
  | some count => exact extended.repeats stays greedy count spot

end Extend

/-- **What stands behind a text** matters to those matches only that take it. -/
theorem extends_paths {d : Char} (noWord : ¬isWordChar d) (regex : Regex)
    (asks : regex.AsksOnly (· = .wordEdge)) : Extends d regex.paths := by
  induction regex with
  | empty => exact .pure
  | set chars =>
      intro spot
      rw [paths, paths]
      cases same : spot.rest with
      | nil =>
          have none : spot.take? chars = none := by rw [Spot.take?, same]
          have last : (spot.extend d).rest = [d] := by rw [Spot.extend, same, List.nil_append]
          rw [none, Spot.take?, last]
          dsimp only
          split <;> rfl
      | cons c rest =>
          rw [Spot.take?_extend same]
          cases spot.take? chars with
          | none => rfl
          | some next => exact Extends.pure next
  | anchor place =>
      intro spot
      have isEdge : place = .wordEdge := asks
      have same : place.holds (spot.extend d).before (spot.extend d).rest.head? =
          place.holds spot.before spot.rest.head? := by
        rw [isEdge]
        cases rest : spot.rest with
        | nil => simp [Anchor.holds, Anchor.wordEdge, Spot.extend, rest, noWord]
        | cons c others => simp [Anchor.holds, Anchor.wordEdge, Spot.extend, rest]
      rw [paths, paths, same]
      split
      · exact Extends.pure spot
      · rfl
  | seq first second ihFirst ihSecond =>
      exact (ihFirst asks.1).flatMap (ihSecond asks.2) (staysAtEnd_paths second)
  | alt first second ihFirst ihSecond =>
      intro spot
      rw [paths, paths, List.filter_append, List.map_append, ihFirst asks.1, ihSecond asks.2]
  | many body least extra greedy ih =>
      have stays := staysAtEnd_paths body
      exact ((ih asks).times stays least).flatMap
        ((ih asks).many stays (keepsTotal_paths body) greedy extra)
        fun _ atEnd _ member => of_mem_repeats stays atEnd member
  | group index body ih =>
      intro spot
      have same : (·.isInside) ∘ (·.close index (spot.extend d)) = Spot.isInside := by
        funext other
        simp [Spot.isInside]
      rw [paths, paths, List.filter_map, same, ih asks, List.map_map, List.map_map]
      exact List.map_congr_left fun other _ => Spot.close_extend index

end Regex

end Transcode
