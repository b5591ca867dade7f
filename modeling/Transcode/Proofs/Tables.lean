import Transcode.Graph.Indexed
import Transcode.Proofs.Dictionaries

/-!
# Tables and their indexes

The index of a table is exact if it tells for each id the place of the one thing that has it, and
nothing for an id that nothing has (`Table.Exact`). Putting something under a new id, taking
something away, taking away whatever passes a test and changing something in place keep the index
exact (`Table.Exact.insert`, `Table.Exact.erase`, `Table.Exact.eraseAll`, `Table.Exact.update`), and
each changes what the table holds as it says, and nothing else.
-/

namespace Transcode

namespace Table

variable {α : Type} {table : Table α} {key : α → String} {item other : α} {id : String}
  {place : Nat}

/-! ### Places -/

/-- The place that is filled was vacant. -/
theorem getElem?_fill_fst (item : α) (slots : List (Option α)) :
    slots[(fill item slots).1]?.join = none := by
  induction slots with
  | nil => rfl
  | cons slot rest ih =>
      cases slot with
      | none => rfl
      | some other => exact ih

/-- Filling a place leaves the others as they are. -/
theorem getElem?_fill (item : α) (slots : List (Option α)) (place : Nat) :
    (fill item slots).2[place]?.join =
      if place = (fill item slots).1 then some item else slots[place]?.join := by
  induction slots generalizing place with
  | nil => cases place <;> rfl
  | cons slot rest ih =>
      cases slot with
      | none => cases place <;> rfl
      | some other =>
          cases place with
          | zero => rfl
          | succ place => simpa [fill] using ih place

/-- What stands at places after something has been put into a table. -/
theorem at?_insert (table : Table α) (id : String) (item : α) (place : Nat) :
    (table.insert id item).at? place =
      if place = (fill item table.slots).1 then some item else table.at? place :=
  getElem?_fill item table.slots place

/-- What stands at a place stays there when something is put into the table. -/
theorem at?_insert_of_some (filled : table.at? place = some other) (id : String) (item : α) :
    (table.insert id item).at? place = some other := by
  rw [at?_insert, if_neg, filled]
  rintro rfl
  cases filled.symm.trans (getElem?_fill_fst item table.slots)

/-- Taking something away vacates its place and no other. -/
theorem at?_erase (listed : table.index.get? id = some place) (another : Nat) :
    (table.erase id).at? another = if another = place then none else table.at? another := by
  unfold erase
  rw [listed]
  unfold at?
  rw [List.getElem?_set]
  by_cases same : place = another
  · subst same
    rw [if_pos rfl, if_pos rfl]
    split <;> rfl
  · rw [if_neg same, if_neg (Ne.symm same)]

/-- Taking away what passes a test leaves the rest in its places. -/
theorem at?_eraseAll (goes : α → Bool) (table : Table α) (place : Nat) :
    (table.eraseAll key goes).at? place = (table.at? place).filter (!goes ·) := by
  unfold eraseAll at?
  rw [List.getElem?_map]
  cases table.slots[place]? <;> rfl

/-- A change is made at the place of an id and at no other. -/
theorem at?_update (listed : table.index.get? id = some place) (change : α → α) (another : Nat) :
    (table.update id change).at? another =
      if another = place then (table.at? another).map change else table.at? another := by
  unfold update
  rw [listed]
  unfold at?
  dsimp only
  rw [List.getElem?_modify]
  by_cases same : place = another
  · subst same
    rw [if_pos rfl]
    cases table.slots[place]? <;> simp
  · rw [if_neg (Ne.symm same)]
    simp [same]

/-! ### What a table holds -/

/-- Something stands somewhere in a table. -/
def Stores (table : Table α) (item : α) : Prop := ∃ place, table.at? place = some item

/-- What is listed stands somewhere. -/
theorem mem_items_iff : item ∈ table.items ↔ table.Stores item := by
  rw [items, List.mem_filterMap]
  constructor
  · rintro ⟨slot, listed, rfl⟩
    obtain ⟨place, here⟩ := List.mem_iff_getElem?.mp listed
    exact ⟨place, Option.join_eq_some_iff.mpr here⟩
  · rintro ⟨place, filled⟩
    exact ⟨some item, List.mem_iff_getElem?.mpr ⟨place, Option.join_eq_some_iff.mp filled⟩, rfl⟩

/-- A table holds what is put into it, and what it held before. -/
theorem stores_insert_iff :
    (table.insert id item).Stores other ↔ other = item ∨ table.Stores other := by
  constructor
  · rintro ⟨place, filled⟩
    rw [at?_insert] at filled
    split at filled
    · exact .inl (Option.some.inj filled).symm
    · exact .inr ⟨place, filled⟩
  · rintro (rfl | ⟨place, filled⟩)
    · exact ⟨(fill other table.slots).1, by rw [at?_insert, if_pos rfl]⟩
    · exact ⟨place, at?_insert_of_some filled id item⟩

/-- What does not pass the test is held on to, and nothing else. -/
theorem stores_eraseAll_iff {goes : α → Bool} :
    (table.eraseAll key goes).Stores item ↔ table.Stores item ∧ ¬goes item := by
  unfold Stores
  simp only [at?_eraseAll, Option.filter_eq_some_iff, Bool.not_eq_true', Bool.not_eq_true]
  exact exists_and_right

/-- Names that are taken from a dictionary one by one are all gone, and no others. -/
theorem get?_foldl_erase (names : List String) (dict : Dict Nat) (id : String) :
    (names.foldl Dict.erase dict).get? id = if id ∈ names then none else dict.get? id := by
  induction names generalizing dict with
  | nil => rfl
  | cons name rest ih =>
      rw [List.foldl_cons, ih, Dict.get?_erase]
      by_cases later : id ∈ rest
      · simp [later]
      · by_cases here : name = id
        · simp [here]
        · simp [later, here, Ne.symm here]

/-! ### Exact indexes -/

/-- The index of a table tells the place of what has an id, and nothing for other ids. -/
def Exact (key : α → String) (table : Table α) : Prop :=
  ∀ id place, table.index.get? id = some place ↔
    ∃ item, table.at? place = some item ∧ key item = id

/-- An empty table has an exact index. -/
theorem Exact.empty : ({} : Table α).Exact key := by
  intro id place
  constructor
  · intro listed
    cases listed
  · rintro ⟨item, filled, _⟩
    cases filled

namespace Exact

variable (exact : table.Exact key)

include exact

/-- What has an id is found by it. -/
theorem find?_eq_some_iff : table.find? id = some item ↔ table.Stores item ∧ key item = id := by
  constructor
  · intro found
    obtain ⟨place, listed, filled⟩ := Option.bind_eq_some_iff.mp found
    obtain ⟨other, otherFilled, named⟩ := (exact id place).mp listed
    obtain rfl := Option.some.inj (filled.symm.trans otherFilled)
    exact ⟨⟨place, filled⟩, named⟩
  · rintro ⟨⟨place, filled⟩, named⟩
    exact Option.bind_eq_some_iff.mpr ⟨place, (exact id place).mpr ⟨item, filled, named⟩, filled⟩

/-- The index has the ids of what stands in the table, and no others. -/
theorem mem_keys_iff : id ∈ table.index.keys ↔ ∃ item, table.Stores item ∧ key item = id := by
  rw [Dict.mem_keys_iff, Option.ne_none_iff_exists']
  constructor
  · rintro ⟨place, listed⟩
    obtain ⟨item, filled, named⟩ := (exact id place).mp listed
    exact ⟨item, ⟨place, filled⟩, named⟩
  · rintro ⟨item, ⟨place, filled⟩, named⟩
    exact ⟨place, (exact id place).mpr ⟨item, filled, named⟩⟩

/-- No two things in a table have one id. -/
theorem eq_of_key (stored : table.Stores item) (otherStored : table.Stores other)
    (same : key item = key other) : item = other := by
  have found := exact.find?_eq_some_iff.mpr ⟨stored, rfl⟩
  have otherFound := exact.find?_eq_some_iff.mpr ⟨otherStored, rfl⟩
  rw [same] at found
  exact Option.some.inj (found.symm.trans otherFound)

/-- An id is not in the index if nothing has it. -/
theorem get?_eq_none_iff :
    table.index.get? id = none ↔ ∀ item, table.Stores item → key item ≠ id := by
  have listed : id ∈ table.index.keys ↔ _ := exact.mem_keys_iff
  rw [Dict.mem_keys_iff] at listed
  rw [← not_iff_not]
  refine listed.trans ?_
  push Not
  rfl

/-! ### Putting in -/

/-- A new id is put into the index. -/
theorem insert (item : α) (new : table.index.get? (key item) = none) :
    (table.insert (key item) item).Exact key := by
  intro id place
  have indexed : (table.insert (key item) item).index.get? id =
      if key item = id then some (fill item table.slots).1 else table.index.get? id :=
    Dict.get?_insert ..
  rw [indexed, at?_insert]
  by_cases here : place = (fill item table.slots).1
  · subst here
    rw [if_pos rfl]
    constructor
    · intro listed
      refine ⟨item, rfl, ?_⟩
      by_contra other
      rw [if_neg other] at listed
      obtain ⟨_, filled, _⟩ := (exact id _).mp listed
      cases filled.symm.trans (getElem?_fill_fst item table.slots)
    · rintro ⟨_, filled, named⟩
      obtain rfl := Option.some.inj filled
      rw [if_pos named]
  · rw [if_neg here, ← exact id place]
    by_cases same : key item = id
    · subst same
      rw [if_pos rfl, new]
      constructor
      · intro listed
        exact absurd (Option.some.inj listed).symm here
      · intro listed
        cases listed
    · rw [if_neg same]

/-! ### Taking away -/

/-- An id is taken from the index with what has it. -/
theorem erase (id : String) : (table.erase id).Exact key := by
  cases listed : table.index.get? id with
  | none =>
      unfold Table.erase
      rw [listed]
      exact exact
  | some place =>
      intro another elsewhere
      have indexed : (table.erase id).index.get? another =
          if id = another then none else table.index.get? another := by
        unfold Table.erase
        rw [listed]
        exact Dict.get?_erase ..
      rw [indexed, at?_erase listed]
      by_cases same : id = another
      · subst same
        rw [if_pos rfl]
        refine iff_of_false nofun ?_
        rintro ⟨item, filled, named⟩
        split at filled
        · cases filled
        · rename_i apart
          have found := (exact id elsewhere).mpr ⟨item, filled, named⟩
          exact apart (Option.some.inj (found.symm.trans listed))
      · rw [if_neg same, exact another elsewhere]
        by_cases here : elsewhere = place
        · subst here
          rw [if_pos rfl]
          refine iff_of_false ?_ nofun
          rintro ⟨item, filled, named⟩
          obtain ⟨own, ownFilled, ownNamed⟩ := (exact id elsewhere).mp listed
          obtain rfl := Option.some.inj (filled.symm.trans ownFilled)
          exact same (ownNamed.symm.trans named)
        · rw [if_neg here]

/-- All is held on to but what has the id. -/
theorem stores_erase_iff :
    (table.erase id).Stores item ↔ table.Stores item ∧ key item ≠ id := by
  cases listed : table.index.get? id with
  | none =>
      have absent := exact.get?_eq_none_iff.mp listed
      unfold Table.erase
      rw [listed]
      exact ⟨fun stored => ⟨stored, absent item stored⟩, And.left⟩
  | some place =>
      obtain ⟨own, ownFilled, ownNamed⟩ := (exact id place).mp listed
      constructor
      · rintro ⟨elsewhere, filled⟩
        rw [at?_erase listed] at filled
        split at filled
        · cases filled
        · rename_i apart
          refine ⟨⟨elsewhere, filled⟩, fun named => apart ?_⟩
          have found := (exact id elsewhere).mpr ⟨item, filled, named⟩
          exact Option.some.inj (found.symm.trans listed)
      · rintro ⟨⟨elsewhere, filled⟩, apart⟩
        refine ⟨elsewhere, ?_⟩
        rw [at?_erase listed, if_neg, filled]
        rintro rfl
        obtain rfl := Option.some.inj (filled.symm.trans ownFilled)
        exact apart ownNamed

/-- The ids of what passes a test are taken from the index with it. -/
theorem eraseAll (goes : α → Bool) : (table.eraseAll key goes).Exact key := by
  intro id place
  have indexed : (table.eraseAll key goes).index.get? id =
      if id ∈ (table.items.filter goes).map key then none
      else table.index.get? id := get?_foldl_erase ..
  have gone : id ∈ (table.items.filter goes).map key ↔
      ∃ item, (table.Stores item ∧ goes item) ∧ key item = id := by
    simp only [List.mem_map, List.mem_filter, mem_items_iff]
  rw [indexed, at?_eraseAll]
  simp only [Option.filter_eq_some_iff]
  split
  · rename_i taken
    obtain ⟨item, ⟨stored, goesItem⟩, named⟩ := gone.mp taken
    refine iff_of_false nofun ?_
    rintro ⟨other, ⟨filled, stays⟩, otherNamed⟩
    obtain rfl := exact.eq_of_key stored ⟨place, filled⟩ (named.trans otherNamed.symm)
    simp [goesItem] at stays
  · rename_i kept
    rw [exact id place]
    constructor
    · rintro ⟨item, filled, named⟩
      refine ⟨item, ⟨filled, ?_⟩, named⟩
      by_contra goesItem
      exact kept (gone.mpr ⟨item, ⟨⟨place, filled⟩, by simpa using goesItem⟩, named⟩)
    · rintro ⟨item, ⟨filled, _⟩, named⟩
      exact ⟨item, filled, named⟩

/-! ### Changing in place -/

/-- The index stays as it is when a change keeps ids. -/
theorem update (change : α → α) (keeps : ∀ item, key (change item) = key item) (id : String) :
    (table.update id change).Exact key := by
  cases listed : table.index.get? id with
  | none =>
      unfold Table.update
      rw [listed]
      exact exact
  | some place =>
      intro another elsewhere
      have indexed : (table.update id change).index = table.index := by
        unfold Table.update
        rw [listed]
      rw [indexed, exact another elsewhere, at?_update listed]
      split
      · simp [keeps]
      · rfl

/-- A table holds what it held before, and in place of what has the id what that is changed to. -/
theorem stores_update_iff {change : α → α} :
    (table.update id change).Stores item ↔
      ∃ old, table.Stores old ∧ item = if key old = id then change old else old := by
  cases listed : table.index.get? id with
  | none =>
      have absent := exact.get?_eq_none_iff.mp listed
      unfold Table.update
      rw [listed]
      constructor
      · intro stored
        exact ⟨item, stored, (if_neg (absent item stored)).symm⟩
      · rintro ⟨old, stored, rfl⟩
        rwa [if_neg (absent old stored)]
  | some place =>
      obtain ⟨own, ownFilled, ownNamed⟩ := (exact id place).mp listed
      have isPlace {old : α} {elsewhere : Nat} (filled : table.at? elsewhere = some old) :
          key old = id ↔ elsewhere = place := by
        constructor
        · intro named
          have found := (exact id elsewhere).mpr ⟨old, filled, named⟩
          exact Option.some.inj (found.symm.trans listed)
        · rintro rfl
          obtain rfl := Option.some.inj (filled.symm.trans ownFilled)
          exact ownNamed
      constructor
      · rintro ⟨elsewhere, filled⟩
        rw [at?_update listed] at filled
        split at filled
        · rename_i here
          obtain ⟨old, oldFilled, rfl⟩ := Option.map_eq_some_iff.mp filled
          exact ⟨old, ⟨elsewhere, oldFilled⟩, by rw [if_pos ((isPlace oldFilled).mpr here)]⟩
        · rename_i apart
          exact ⟨item, ⟨elsewhere, filled⟩, by rw [if_neg (mt (isPlace filled).mp apart)]⟩
      · rintro ⟨old, ⟨elsewhere, filled⟩, rfl⟩
        refine ⟨elsewhere, ?_⟩
        rw [at?_update listed]
        by_cases here : elsewhere = place
        · rw [if_pos here, if_pos ((isPlace filled).mpr here), filled]
          rfl
        · rw [if_neg here, if_neg (mt (isPlace filled).mp here), filled]

end Exact

end Table

end Transcode
