import Mathlib.Data.List.Nodup
import Mathlib.Data.List.Pairwise
import Mathlib.Data.List.Perm.Subperm
import Mathlib.Data.List.Sort

/-!
# Lists of things with keys

Lists in which keys are used once, lists in the order of numbers, and lists whose things correspond.
-/

namespace Transcode

/-- Looking up by a key that is used once finds what has the key. -/
theorem find?_key_eq_some_iff {α : Type} (key : α → String) {items : List α}
    (distinct : (items.map key).Nodup) {id : String} {item : α} :
    items.find? (key · = id) = some item ↔ item ∈ items ∧ key item = id := by
  constructor
  · intro found
    exact ⟨List.mem_of_find?_eq_some found, by simpa using List.find?_some found⟩
  · rintro ⟨member, rfl⟩
    obtain ⟨other, found⟩ : ∃ other, items.find? (key · = key item) = some other := by
      rw [← Option.isSome_iff_exists, List.find?_isSome]
      exact ⟨item, member, by simp⟩
    have same : key other = key item := by simpa using List.find?_some found
    rw [found, List.inj_on_of_nodup_map distinct (List.mem_of_find?_eq_some found) member same]

/-- With repetitions left out, everything is listed once. -/
theorem nodup_eraseDups {α : Type} [BEq α] [LawfulBEq α] (items : List α) :
    items.eraseDups.Nodup := by
  induction size : items.length using Nat.strong_induction_on generalizing items with
  | _ size ih =>
      cases items with
      | nil => exact List.nodup_nil
      | cons item rest =>
          rw [List.eraseDups_cons, List.nodup_cons, List.mem_eraseDups]
          refine ⟨by simp, ih _ ?_ _ rfl⟩
          rw [← size, List.length_cons]
          exact Nat.lt_succ_of_le (List.length_filter_le ..)

/-- Where everything is listed once, one item that counts makes a difference of one, if it is
listed. -/
theorem countP_eq_add_of_nodup {α : Type} [DecidableEq α] {items : List α} (distinct : items.Nodup)
    (counts : α → Bool) {item : α} (counted : counts item) :
    items.countP counts =
      items.countP (fun other => counts other && other ≠ item) + if item ∈ items then 1 else 0 := by
  induction items with
  | nil => rfl
  | cons head rest ih =>
      obtain ⟨new, distinct⟩ := List.nodup_cons.mp distinct
      by_cases same : head = item
      · subst same
        have others := ih distinct
        rw [if_neg new, Nat.add_zero] at others
        simp [counted, others]
      · have apart : item ≠ head := fun equal => same equal.symm
        simp only [List.countP_cons, ih distinct, List.mem_cons, apart, false_or, same, ne_eq,
          not_false_eq_true, decide_true, Bool.and_true]
        omega

/-- Lists in increasing order of numbers are equal if they have the same elements. -/
theorem eq_of_pairwise_lt {α : Type} (number : α → Nat) {first second : List α}
    (firstOrder : first.Pairwise (number · < number ·))
    (secondOrder : second.Pairwise (number · < number ·))
    (same : ∀ item, item ∈ first ↔ item ∈ second) : first = second := by
  have : Std.Irrefl fun left right : α => number left < number right :=
    ⟨fun item => Nat.lt_irrefl (number item)⟩
  have : Std.Antisymm fun left right : α => number left < number right :=
    ⟨fun left right before after => absurd after (Nat.lt_asymm before)⟩
  exact firstOrder.eq_of_mem_iff secondOrder same

/-- Things in increasing order of numbers have different numbers. -/
theorem nodup_map_of_pairwise {α : Type} {number : α → Nat} {items : List α}
    (order : items.Pairwise (number · < number ·)) : (items.map number).Nodup :=
  (List.pairwise_map.mpr order).imp Nat.ne_of_lt

/-- Two numberings in which the same list increases put its elements in the same order. -/
theorem le_iff_of_pairwise {α : Type} {number other : α → Nat} {items : List α}
    (order : items.Pairwise (number · < number ·))
    (otherOrder : items.Pairwise (other · < other ·)) {first second : α}
    (firstMember : first ∈ items) (secondMember : second ∈ items) :
    other first ≤ other second ↔ number first ≤ number second := by
  let Agree (one another : α) : Prop :=
    (other one ≤ other another ↔ number one ≤ number another) ∧
      (other another ≤ other one ↔ number another ≤ number one)
  have : Std.Symm Agree := ⟨fun _ _ agree => agree.symm⟩
  have agree : items.Pairwise Agree := by
    refine (order.and otherOrder).imp fun ⟨before, otherBefore⟩ => ⟨?_, ?_⟩
    · exact iff_of_true (Nat.le_of_lt otherBefore) (Nat.le_of_lt before)
    · exact iff_of_false (Nat.not_le.mpr otherBefore) (Nat.not_le.mpr before)
  have reflexive : ∀ one ∈ items, Agree one one := fun one _ => by simp [Agree]
  exact (agree.forall_of_forall reflexive firstMember secondMember).1

/-- What a list gives for its keys is given once if its keys are. -/
theorem nodup_filterMap_of_key {α β : Type} (key : α → β) {give : α → Option β} {items : List α}
    (distinct : (items.map key).Nodup) (same : ∀ item value, give item = some value →
      value = key item) : (items.filterMap give).Nodup := by
  refine List.pairwise_filterMap.mpr ((List.pairwise_map.mp distinct).imp ?_)
  intro first second other left given right givenRight equal
  rw [same first left given, same second right givenRight] at equal
  exact other equal

/-- A map that tells the elements of a list apart tells lists of them apart. -/
theorem eq_of_map_eq {α β : Type} {f : α → β} {first second : List α}
    (apart : ∀ left ∈ first, ∀ right ∈ second, f left = f right → left = right)
    (same : first.map f = second.map f) : first = second := by
  induction first generalizing second with
  | nil => exact (List.map_eq_nil_iff.mp same.symm).symm
  | cons head rest ih =>
      cases second with
      | nil => cases same
      | cons head' rest' =>
          rw [List.map_cons, List.map_cons, List.cons.injEq] at same
          rw [apart head List.mem_cons_self head' List.mem_cons_self same.1,
            ih (fun left leftMember right rightMember =>
              apart left (List.mem_cons_of_mem _ leftMember) right
                (List.mem_cons_of_mem _ rightMember)) same.2]

/-- A map can be changed to give chosen values at different arguments. -/
theorem exists_extension {α β : Type} [DecidableEq α] (f : α → β) {items : List α}
    {values : List β} (distinct : items.Nodup) (size : items.length = values.length) :
    ∃ extended : α → β, items.map extended = values ∧ ∀ item ∉ items, extended item = f item := by
  induction items generalizing values with
  | nil => exact ⟨f, (List.eq_nil_of_length_eq_zero size.symm).symm, fun _ _ => rfl⟩
  | cons item rest ih =>
      cases values with
      | nil => cases size
      | cons value others =>
          obtain ⟨own, distinct⟩ := List.nodup_cons.mp distinct
          obtain ⟨extended, mapped, kept⟩ := ih distinct (Nat.succ.inj size)
          refine ⟨Function.update extended item value, ?_, fun other absent => ?_⟩
          · rw [List.map_cons, Function.update_self, ← mapped]
            refine congrArg (value :: ·) (List.map_congr_left fun other member => ?_)
            have different : other ≠ item := fun same => own (same ▸ member)
            exact Function.update_of_ne different ..
          · rw [List.mem_cons, not_or] at absent
            rw [Function.update_of_ne absent.1, kept other absent.2]

/-- Sorting by numbers puts them in order. -/
theorem pairwise_mergeSort_number {α : Type} (number : α → Nat) (items : List α) :
    (items.mergeSort fun first second => number first ≤ number second).Pairwise
      (number · ≤ number ·) := by
  have transitive (first second third : α) : decide (number first ≤ number second) →
      decide (number second ≤ number third) → decide (number first ≤ number third) := by
    simpa using Nat.le_trans
  have total (first second : α) :
      decide (number first ≤ number second) || decide (number second ≤ number first) := by
    simpa using Nat.le_total (number first) (number second)
  simpa using List.pairwise_mergeSort transitive total items

/-- What is in the order of its numbers is in the place of what has the same elements with
increasing numbers. -/
theorem eq_of_perm_of_sorted {α : Type} (number : α → Nat) {first second : List α}
    (perm : first.Perm second) (sorted : first.Pairwise (number · ≤ number ·))
    (order : second.Pairwise (number · < number ·)) : first = second := by
  refine List.Perm.eq_of_pairwise ?_ sorted (order.imp Nat.le_of_lt) perm
  intro one other oneMember otherMember less more
  exact List.inj_on_of_nodup_map (nodup_map_of_pairwise order) (perm.mem_iff.mp oneMember)
    otherMember (Nat.le_antisymm less more)

/-- Only the elements of a list matter for what is found in it. -/
theorem find?_congr_of_mem {α : Type} {first second : α → Bool} {items : List α}
    (same : ∀ item ∈ items, first item = second item) : items.find? first = items.find? second := by
  induction items with
  | nil => rfl
  | cons item rest ih =>
      obtain ⟨here, later⟩ := List.forall_mem_cons.mp same
      rw [List.find?_cons, List.find?_cons, here, ih later]

/-- Looking up by key in a part that shows what a whole has under known keys. -/
theorem map_find?_key_of_mirror {α δ : Type} {key : α → String} {data named : α → δ}
    (dataKey : δ → String) {nameOf : String → String} {known : List String} {part whole : List α}
    (mirror : (whole.filter (key · ∈ known.map nameOf)).map data = part.map named)
    (keyOfData : ∀ item, dataKey (data item) = key item)
    (keyOfNamed : ∀ item, dataKey (named item) = nameOf (key item))
    (there : ∀ item ∈ part, key item ∈ known)
    (apart : ∀ first ∈ known, ∀ second ∈ known, nameOf first = nameOf second → first = second)
    {id : String} (isKnown : id ∈ known) :
    (whole.find? (key · = nameOf id)).map data = (part.find? (key · = id)).map named := by
  have inside : whole.find? (key · = nameOf id) =
      (whole.filter (key · ∈ known.map nameOf)).find? (key · = nameOf id) := by
    have listed : nameOf id ∈ known.map nameOf := List.mem_map_of_mem isKnown
    rw [List.find?_filter]
    refine find?_congr_of_mem fun item _ => ?_
    by_cases same : key item = nameOf id
    · rw [same]
      simp [listed]
    · simp [same]
  have onData : (part.map named).find? (dataKey · = nameOf id) =
      ((whole.filter (key · ∈ known.map nameOf)).find? (key · = nameOf id)).map data := by
    rw [← mirror, List.find?_map]
    simp only [Function.comp_def, keyOfData]
  rw [inside, ← onData, List.find?_map]
  refine congrArg (Option.map named) (find?_congr_of_mem fun item member => ?_)
  simp only [Function.comp_apply, keyOfNamed, decide_eq_decide]
  exact ⟨apart _ (there item member) _ isKnown, congrArg nameOf⟩

/-- Of what is taken from a list, no more counts than of the list, apart from what is not taken. -/
theorem countP_filterMap_add_le {α β : Type} {take : α → Option β} {counts : β → Bool}
    {may : α → Bool} {items : List α}
    (each : ∀ item ∈ items, ∀ value, take item = some value → counts value → may item) :
    (items.filterMap take).countP counts +
        items.countP (fun item => may item && (take item).isNone) ≤
      items.countP may := by
  induction items with
  | nil => exact Nat.le_refl _
  | cons item rest ih =>
      obtain ⟨here, later⟩ := List.forall_mem_cons.mp each
      have step := ih later
      rw [List.countP_cons, List.countP_cons]
      cases taken : take item with
      | none =>
          rw [List.filterMap_cons_none taken, Option.isNone_none, Bool.and_true]
          omega
      | some value =>
          rw [List.filterMap_cons_some taken, List.countP_cons, Option.isNone_some, Bool.and_false]
          by_cases counted : counts value = true
          · rw [if_pos counted, if_pos (here value taken counted)]
            simp only [Bool.false_eq_true, if_false]
            omega
          · rw [if_neg counted]
            simp only [Bool.false_eq_true, if_false]
            omega

/-- A list of values that a map takes on a list is the map of a list. -/
theorem exists_map_eq {α β : Type} {f : α → β} {items : List α} {values : List β}
    (each : ∀ value ∈ values, ∃ item ∈ items, f item = value) :
    ∃ chosen : List α, (∀ item ∈ chosen, item ∈ items) ∧ chosen.map f = values := by
  induction values with
  | nil => exact ⟨[], by simp, rfl⟩
  | cons value rest ih =>
      obtain ⟨⟨item, member, rfl⟩, later⟩ := List.forall_mem_cons.mp each
      obtain ⟨others, members, rfl⟩ := ih later
      exact ⟨item :: others, List.forall_mem_cons.mpr ⟨member, members⟩, rfl⟩

/-- Looking up a thing beside the first of other things that passes a test. -/
theorem map_find?_zip {α β : Type} (test : α → Bool) {first : List α} {second : List β}
    (size : first.length = second.length) :
    ((first.zip second).find? fun pair => test pair.1).map (·.2) =
      (first.findIdx? test).bind fun place => second[place]? := by
  induction first generalizing second with
  | nil => rfl
  | cons head rest ih =>
      cases second with
      | nil => cases size
      | cons item others =>
          rw [List.zip_cons_cons, List.find?_cons, List.findIdx?_cons]
          cases test head
          · simpa [Option.bind_map, Function.comp_def] using ih (Nat.succ.inj size)
          · rfl

/-- What takes less gives a part. -/
theorem sublist_filterMap {α β : Type} {less more : α → Option β} {items : List α}
    (each : ∀ item ∈ items, ∀ value, less item = some value → more item = some value) :
    (items.filterMap less).Sublist (items.filterMap more) := by
  induction items with
  | nil => exact .slnil
  | cons item rest ih =>
      obtain ⟨here, later⟩ := List.forall_mem_cons.mp each
      cases taken : less item with
      | some value =>
          rw [List.filterMap_cons_some taken, List.filterMap_cons_some (here value taken)]
          exact (ih later).cons_cons value
      | none =>
          rw [List.filterMap_cons_none taken, List.filterMap_cons]
          cases more item with
          | none => exact ih later
          | some value => exact (ih later).cons value

/-- What is taken from fewer items is fewer. -/
theorem subperm_filterMap {α β : Type} (take : α → Option β) {first second : List α}
    (fewer : first.Subperm second) : (first.filterMap take).Subperm (second.filterMap take) := by
  obtain ⟨part, same, sublist⟩ := fewer
  exact ⟨part.filterMap take, same.filterMap take, sublist.filterMap take⟩

/-- The values of fewer items are fewer. -/
theorem subperm_map {α β : Type} (f : α → β) {first second : List α}
    (fewer : first.Subperm second) : (first.map f).Subperm (second.map f) := by
  rw [← List.filterMap_eq_map]
  exact subperm_filterMap _ fewer

/-- Of different items fewer are different. -/
theorem nodup_of_subperm {α : Type} {first second : List α} (fewer : first.Subperm second)
    (distinct : second.Nodup) : first.Nodup := by
  obtain ⟨part, same, sublist⟩ := fewer
  exact same.nodup_iff.mp (distinct.sublist sublist)

section Corresponding

variable {α β : Type} {relation : α → β → Prop} {left : List α} {right : List β}

/-- Every item on the right is aligned with one on the left. -/
theorem exists_left_of_forall₂ (aligned : List.Forall₂ relation left right) :
    ∀ second ∈ right, ∃ first ∈ left, relation first second := by
  induction aligned with
  | nil => simp
  | cons same _ ih =>
      refine List.forall_mem_cons.mpr ⟨⟨_, List.mem_cons_self, same⟩, fun second member => ?_⟩
      obtain ⟨first, there, related⟩ := ih second member
      exact ⟨first, List.mem_cons_of_mem _ there, related⟩

/-- Items that are each related to something are aligned with a list. -/
theorem exists_forall₂ (each : ∀ first ∈ left, ∃ second, relation first second) :
    ∃ right, List.Forall₂ relation left right := by
  induction left with
  | nil => exact ⟨[], .nil⟩
  | cons first rest ih =>
      obtain ⟨second, related⟩ := each first List.mem_cons_self
      obtain ⟨others, aligned⟩ := ih fun other member => each other (List.mem_cons_of_mem _ member)
      exact ⟨second :: others, .cons related aligned⟩

/-- Only the elements of lists matter for whether they correspond. -/
theorem forall₂_congr_of_mem {other : α → β → Prop}
    (same : ∀ first ∈ left, ∀ second ∈ right, relation first second ↔ other first second) :
    List.Forall₂ relation left right ↔ List.Forall₂ other left right := by
  induction left generalizing right with
  | nil => rw [List.forall₂_nil_left_iff, List.forall₂_nil_left_iff]
  | cons first rest ih =>
      cases right with
      | nil => simp
      | cons second others =>
          rw [List.forall₂_cons, List.forall₂_cons]
          refine and_congr (same first List.mem_cons_self second List.mem_cons_self) ?_
          exact ih fun one oneMember another anotherMember => same one
            (List.mem_cons_of_mem _ oneMember) another (List.mem_cons_of_mem _ anotherMember)

/-- Lists show the same if things that correspond do. -/
theorem forall₂_iff_map_eq {γ : Type} {shown : α → γ} {other : β → γ} :
    List.Forall₂ (fun first second => shown first = other second) left right ↔
      left.map shown = right.map other := by
  rw [← List.forall₂_eq_eq_eq, List.forall₂_map_left_iff, List.forall₂_map_right_iff]

/-- What is taken from a list corresponds if each is taken and corresponds. -/
theorem forall₂_filterMap {γ : Type} {other : α → γ → Prop} {take : β → Option γ}
    (aligned : List.Forall₂ relation left right)
    (each : ∀ second ∈ right, ∀ first, relation first second →
      ∃ third, take second = some third ∧ other first third) :
    List.Forall₂ other left (right.filterMap take) := by
  induction aligned with
  | nil => exact .nil
  | @cons first second _ _ here _ ih =>
      obtain ⟨own, later⟩ := List.forall_mem_cons.mp each
      obtain ⟨third, taken, related⟩ := own first here
      rw [List.filterMap_cons_some taken]
      exact .cons related (ih later)

/-- Lists made piece by piece correspond if the pieces do. -/
theorem forall₂_flatMap {γ : Type} {items : List γ} {first : γ → List α} {second : γ → List β}
    (each : ∀ item ∈ items, List.Forall₂ relation (first item) (second item)) :
    List.Forall₂ relation (items.flatMap first) (items.flatMap second) := by
  induction items with
  | nil => exact .nil
  | cons item rest ih =>
      obtain ⟨here, later⟩ := List.forall_mem_cons.mp each
      rw [List.flatMap_cons, List.flatMap_cons]
      exact List.rel_append here (ih later)

/-- What is made of corresponding things is the same if it is so for each. -/
theorem flatMap_eq_of_forall₂ {γ : Type} {shown : α → List γ} {other : β → List γ}
    (aligned : List.Forall₂ relation left right)
    (each : ∀ first second, relation first second → other second = shown first) :
    right.flatMap other = left.flatMap shown := by
  induction aligned with
  | nil => rfl
  | cons here _ ih => rw [List.flatMap_cons, List.flatMap_cons, each _ _ here, ih]

/-- What is taken from corresponding things shows the same if it does so for each. -/
theorem map_filterMap_eq {α' β' γ : Type} {take : α → Option α'} {other : β → Option β'}
    {shown : α' → γ} {otherShown : β' → γ}
    (same : List.Forall₂ (fun first second => (take first).map shown =
      (other second).map otherShown) left right) :
    (left.filterMap take).map shown = (right.filterMap other).map otherShown := by
  induction same with
  | nil => rfl
  | @cons first second _ _ here _ ih =>
      rw [List.filterMap_cons, List.filterMap_cons]
      cases taken : take first <;> cases otherTaken : other second <;>
        rw [taken, otherTaken] at here
      · exact ih
      · cases here
      · cases here
      · exact congrArg₂ List.cons (Option.some.inj here) ih

/-- Corresponding things that are kept together show the same. -/
theorem map_filter_eq {γ : Type} {keep : α → Bool} {other : β → Bool} {shown : α → γ}
    {otherShown : β → γ}
    (same : List.Forall₂ (fun first second => keep first = other second ∧
      shown first = otherShown second) left right) :
    (left.filter keep).map shown = (right.filter other).map otherShown := by
  rw [← List.filterMap_eq_filter, ← List.filterMap_eq_filter]
  refine map_filterMap_eq (same.imp fun first second ⟨kept, equal⟩ => ?_)
  cases keeps : keep first <;> rw [keeps] at kept <;> simp [Option.guard, keeps, ← kept, equal]

/-- Lists that correspond in two ways correspond in both. -/
theorem forall₂_and {other : α → β → Prop} (aligned : List.Forall₂ relation left right)
    (others : List.Forall₂ other left right) :
    List.Forall₂ (fun first second => relation first second ∧ other first second) left right := by
  induction aligned with
  | nil => exact .nil
  | cons first _ ih =>
      cases others with
      | cons here later => exact .cons ⟨first, here⟩ (ih later)

/-- Of corresponding things, no more count on one side than may on the other. -/
theorem countP_le_of_forall₂ {counts : β → Bool} {may : α → Bool}
    (aligned : List.Forall₂ relation left right)
    (each : ∀ first second, relation first second → counts second → may first) :
    right.countP counts ≤ left.countP may := by
  induction aligned with
  | nil => exact Nat.le_refl _
  | @cons first second _ _ here _ ih =>
      rw [List.countP_cons, List.countP_cons]
      refine Nat.add_le_add ih ?_
      split
      · rename_i counted
        rw [if_pos (each first second here counted)]
      · exact Nat.zero_le _

/-- What corresponds to different things has different keys if the keys tell the things. -/
theorem nodup_map_of_forall₂ {γ δ : Type} {mark : α → γ} {key : β → δ}
    (aligned : List.Forall₂ relation left right) (distinct : (left.map mark).Nodup)
    (tells : ∀ first ∈ left, ∀ another ∈ left, ∀ second other, relation first second →
      relation another other → key second = key other → mark first = mark another) :
    (right.map key).Nodup := by
  induction aligned with
  | nil => exact List.nodup_nil
  | @cons first second rest others here later ih =>
      obtain ⟨own, distinct⟩ := List.nodup_cons.mp distinct
      refine List.nodup_cons.mpr ⟨fun repeated => own ?_, ih distinct
        fun one oneMember another anotherMember => tells one (List.mem_cons_of_mem _ oneMember)
          another (List.mem_cons_of_mem _ anotherMember)⟩
      obtain ⟨other, member, same⟩ := List.mem_map.mp repeated
      obtain ⟨another, there, related⟩ := exists_left_of_forall₂ later other member
      rw [tells first List.mem_cons_self another (List.mem_cons_of_mem _ there) second other here
        related same.symm]
      exact List.mem_map_of_mem there

end Corresponding

end Transcode
