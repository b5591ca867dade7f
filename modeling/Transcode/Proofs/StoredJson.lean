import Transcode.Proofs.Reload

/-!
# How deep values nest, and how they are stored

A value that can be written and nests no deeper than a bound (`Json.IsWithin`) is stored as itself
with the entries of all its objects in order of their names (`Json.storedWithin?_eq`).
-/

namespace Transcode

namespace Json

/-! ### Depth -/

mutual

/-- How deep arrays and objects nest in a value. -/
def depth : Json → Nat
  | .array items => itemsDepth items + 1
  | .object entries => entriesDepth entries + 1
  | _ => 0

/-- How deep the deepest item nests. -/
def itemsDepth : List Json → Nat
  | [] => 0
  | item :: rest => max (depth item) (itemsDepth rest)

/-- How deep the deepest value of an entry nests. -/
def entriesDepth : List (String × Json) → Nat
  | [] => 0
  | (_, value) :: rest => max (depth value) (entriesDepth rest)

end

/-- Items are at most so deep if each is. -/
theorem itemsDepth_le_iff {items : List Json} {bound : Nat} :
    itemsDepth items ≤ bound ↔ ∀ item ∈ items, item.depth ≤ bound := by
  induction items with
  | nil => exact iff_of_true (Nat.zero_le bound) (List.forall_mem_nil _)
  | cons item rest ih =>
      change max item.depth (itemsDepth rest) ≤ bound ↔ _
      rw [Nat.max_le, ih, List.forall_mem_cons]

/-- Entries are at most so deep if each is. -/
theorem entriesDepth_le_iff {entries : List (String × Json)} {bound : Nat} :
    entriesDepth entries ≤ bound ↔ ∀ entry ∈ entries, entry.2.depth ≤ bound := by
  induction entries with
  | nil => exact iff_of_true (Nat.zero_le bound) (List.forall_mem_nil _)
  | cons entry rest ih =>
      change max entry.2.depth (entriesDepth rest) ≤ bound ↔ _
      rw [Nat.max_le, ih, List.forall_mem_cons]

/-! ### Order of names -/

mutual

/-- The value with the entries of all objects in order of their names. -/
def sorted : Json → Json
  | .array items => .array (sortedItems items)
  | .object entries => .object (Dict.ofList (sortedEntries entries)).entries
  | value => value

/-- Each item sorted. -/
def sortedItems : List Json → List Json
  | [] => []
  | item :: rest => sorted item :: sortedItems rest

/-- Each value sorted, the entries as they stand. -/
def sortedEntries : List (String × Json) → List (String × Json)
  | [] => []
  | (name, value) :: rest => (name, sorted value) :: sortedEntries rest

end

@[simp] theorem sorted_null : sorted .null = .null := rfl

@[simp] theorem sorted_bool (value : Bool) : sorted (.bool value) = .bool value := rfl

@[simp] theorem sorted_natural (value : Nat) : sorted (.natural value) = .natural value := rfl

@[simp] theorem sorted_text (value : String) : sorted (.text value) = .text value := rfl

/-- Items are sorted one by one. -/
theorem sortedItems_eq_map (items : List Json) : sortedItems items = items.map sorted := by
  induction items with
  | nil => rfl
  | cons item rest ih => exact congrArg (item.sorted :: ·) ih

/-- Entries are sorted one by one. -/
theorem sortedEntries_eq_map (entries : List (String × Json)) :
    sortedEntries entries = entries.map fun entry => (entry.1, entry.2.sorted) := by
  induction entries with
  | nil => rfl
  | cons entry rest ih => exact congrArg ((entry.1, entry.2.sorted) :: ·) ih

/-- An array is sorted item by item. -/
theorem sorted_array_map {α : Type} (encode : α → Json) (values : List α) :
    sorted (.array (values.map encode)) =
      .array (values.map fun value => (encode value).sorted) := by
  change array (sortedItems (values.map encode)) = _
  rw [sortedItems_eq_map, List.map_map]
  rfl

/-- A dictionary is written in order. -/
theorem sorted_ofDict {α : Type} (encode : α → Json) (dict : Dict α) :
    sorted (ofDict encode dict) = ofDict (fun value => (encode value).sorted) dict := by
  let entries := dict.entries.map fun entry => (entry.1, (encode entry.2).sorted)
  have increasing : entries.Pairwise (·.1 < ·.1) := by
    rw [List.pairwise_map]
    exact dict.increasing
  have same : Dict.ofList entries = ⟨entries, increasing⟩ :=
    Dict.ofList_entries ⟨entries, increasing⟩
  rw [ofDict, sorted, sortedEntries_eq_map, List.map_map]
  exact congrArg (fun dict : Dict Json => Json.object dict.entries) same

/-! ### Storing -/

/-- Items are stored one by one. -/
theorem storedItems?_eq {depth : Nat} {items : List Json}
    (each : ∀ item ∈ items, storedWithin? depth item = some item.sorted) :
    storedItems? depth items = some (sortedItems items) := by
  induction items with
  | nil => rw [storedItems?, sortedItems]
  | cons item rest ih =>
      obtain ⟨here, later⟩ := List.forall_mem_cons.mp each
      rw [storedItems?, here, ih later, sortedItems]

/-- Entries are stored one by one. -/
theorem storedEntries?_eq {depth : Nat} {entries : List (String × Json)}
    (each : ∀ entry ∈ entries, storedWithin? depth entry.2 = some entry.2.sorted) :
    storedEntries? depth entries = some (sortedEntries entries) := by
  induction entries with
  | nil => rw [storedEntries?, sortedEntries]
  | cons entry rest ih =>
      obtain ⟨here, later⟩ := List.forall_mem_cons.mp each
      rw [storedEntries?, here, ih later, sortedEntries]

/-- A value that can be written and nests at most so deep. -/
structure IsWithin (bound : Nat) (json : Json) : Prop where
  plain : json.Plain
  depth_le : json.depth ≤ bound

section Bounds

variable {α : Type} {bound : Nat} {encode : α → Json}

theorem isWithin_text (value : String) : (text value).IsWithin bound :=
  ⟨.text value, Nat.zero_le _⟩

theorem isWithin_bool (value : Bool) : (bool value).IsWithin bound := ⟨.bool value, Nat.zero_le _⟩

theorem isWithin_natural {value : Nat} (small : value < Nat.pow 2 64) :
    (natural value).IsWithin bound := ⟨.natural small, Nat.zero_le _⟩

/-- An array nests one deeper than its items. -/
theorem isWithin_array {items : List Json} (each : ∀ item ∈ items, item.IsWithin bound) :
    (array items).IsWithin (bound + 1) where
  plain := .array fun item member => (each item member).plain
  depth_le :=
    Nat.succ_le_succ (itemsDepth_le_iff.mpr fun item member => (each item member).depth_le)

/-- An object nests one deeper than its entries. -/
theorem isWithin_object {entries : List (String × Json)}
    (each : ∀ entry ∈ entries, entry.2.IsWithin bound) : (object entries).IsWithin (bound + 1) where
  plain := .object fun entry member => (each entry member).plain
  depth_le :=
    Nat.succ_le_succ (entriesDepth_le_iff.mpr fun entry member => (each entry member).depth_le)

/-- An array of values nests one deeper than each. -/
theorem isWithin_array_map {values : List α}
    (each : ∀ value ∈ values, (encode value).IsWithin bound) :
    (array (values.map encode)).IsWithin (bound + 1) :=
  isWithin_array (List.forall_mem_map.mpr each)

/-- A dictionary nests one deeper than its values. -/
theorem isWithin_ofDict {dict : Dict α}
    (each : ∀ entry ∈ dict.entries, (encode entry.2).IsWithin bound) :
    (ofDict encode dict).IsWithin (bound + 1) :=
  isWithin_object (List.forall_mem_map.mpr each)

theorem IsWithin.mono {json : Json} {more : Nat} (within : json.IsWithin bound)
    (le : bound ≤ more) : json.IsWithin more := ⟨within.plain, Nat.le_trans within.depth_le le⟩

end Bounds

/-- **A value that nests no deeper than allowed** is stored with its names in order. -/
theorem storedWithin?_eq {value : Json} {bound : Nat} (within : value.IsWithin bound) :
    value.storedWithin? bound = some value.sorted := by
  obtain ⟨plain, within⟩ := within
  induction plain generalizing bound with
  | null => simp only [storedWithin?, sorted_null]
  | bool value => simp only [storedWithin?, sorted_bool]
  | natural _ => simp only [storedWithin?, sorted_natural]
  | text value => simp only [storedWithin?, sorted_text]
  | @array items _ ih =>
      rw [depth] at within
      obtain ⟨bound, rfl⟩ : ∃ less, bound = less + 1 := ⟨bound - 1, by omega⟩
      have each := itemsDepth_le_iff.mp (Nat.le_of_succ_le_succ within)
      rw [storedWithin?, storedItems?_eq fun item member =>
        ih item member (each item member), sorted]
      rfl
  | @object entries _ ih =>
      rw [depth] at within
      obtain ⟨bound, rfl⟩ : ∃ less, bound = less + 1 := ⟨bound - 1, by omega⟩
      have each := entriesDepth_le_iff.mp (Nat.le_of_succ_le_succ within)
      rw [storedWithin?, storedEntries?_eq fun entry member => ih entry member (each entry member),
        sorted]
      rfl

end Json

end Transcode
