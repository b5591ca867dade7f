import Transcode.Proofs.StoredJson

/-!
# Records by name

A record is read by the names of its fields, in whatever order its entries stand
(`Record.Holds`), and so also after it was stored (`Record.holds_sorted`). For each way to leave an
entry out of an object there is the field that takes its place: a missing value for
`Json.entryIfSome`, no elements for `Json.entryIfAny` and no entries for `Json.entryIfNonempty`.
-/

namespace Transcode

/-! ### Entries by name -/

namespace Dict

variable {α : Type} {name other : String}

@[simp] theorem lookup_nil : lookup name ([] : List (String × α)) = none := rfl

@[simp] theorem lookup_cons_self (value : α) (rest : List (String × α)) :
    lookup name ((name, value) :: rest) = some value := if_pos rfl

@[simp] theorem lookup_cons_of_ne (apart : other ≠ name) (value : α) (rest : List (String × α)) :
    lookup name ((other, value) :: rest) = lookup name rest := if_neg apart

@[simp] theorem lookup_append (first second : List (String × α)) :
    lookup name (first ++ second) = (lookup name first).or (lookup name second) := by
  induction first with
  | nil => rfl
  | cons entry rest ih =>
      rw [List.cons_append, lookup, lookup, ih]
      split <;> rfl

/-- A name is found unless no entry has it. -/
theorem lookup_eq_none_iff {entries : List (String × α)} :
    lookup name entries = none ↔ name ∉ entries.map (·.1) := by
  induction entries with
  | nil => simp [lookup]
  | cons entry rest ih =>
      rw [lookup]
      by_cases same : entry.1 = name
      · simp [same]
      · simp [same, ih, Ne.symm same]

/-- A dictionary has what is listed, if every name is listed once. -/
theorem lookup_ofList {entries : List (String × α)} (distinct : (entries.map (·.1)).Nodup) :
    lookup name (ofList entries).entries = lookup name entries := by
  have put (dict : Dict α) :
      (entries.foldl (fun dict entry => dict.insert entry.1 entry.2) dict).get? name =
        (lookup name entries).or (dict.get? name) := by
    induction entries generalizing dict with
    | nil => rfl
    | cons entry rest ih =>
        obtain ⟨fresh, later⟩ := List.nodup_cons.mp distinct
        rw [List.foldl_cons, ih later, get?_insert, lookup]
        by_cases same : entry.1 = name
        · rw [if_pos same, if_pos same, lookup_eq_none_iff.mpr (same ▸ fresh)]
          rfl
        · rw [if_neg same, if_neg same]
  have all := put empty
  rwa [get?_empty, Option.or_none] at all

end Dict

namespace Json

variable {α : Type} {name other : String} {encode : α → Json}

@[simp] theorem sortedEntries_nil : sortedEntries [] = [] := by rw [sortedEntries]

@[simp] theorem sortedEntries_cons (name : String) (value : Json) (rest : List (String × Json)) :
    sortedEntries ((name, value) :: rest) = (name, value.sorted) :: sortedEntries rest := by
  rw [sortedEntries]

@[simp] theorem sortedEntries_append (first second : List (String × Json)) :
    sortedEntries (first ++ second) = sortedEntries first ++ sortedEntries second := by
  simp only [sortedEntries_eq_map, List.map_append]

@[simp] theorem sortedEntries_entryIfSome (value : Option α) :
    sortedEntries (entryIfSome name encode value) =
      entryIfSome name (fun value => (encode value).sorted) value := by
  cases value <;> simp [entryIfSome]

@[simp] theorem sortedEntries_entryIfAny (values : List α) :
    sortedEntries (entryIfAny name encode values) =
      entryIfAny name (fun value => (encode value).sorted) values := by
  cases values with
  | nil => simp [entryIfAny]
  | cons value rest =>
      unfold entryIfAny
      rw [sortedEntries_cons, sortedEntries_nil, sorted_array_map]

@[simp] theorem sortedEntries_entryIfNonempty (dict : Dict α) :
    sortedEntries (entryIfNonempty name encode dict) =
      entryIfNonempty name (fun value => (encode value).sorted) dict := by
  unfold entryIfNonempty
  split <;> simp [sorted_ofDict]

/-- Sorting the values changes no name. -/
theorem map_fst_sortedEntries (entries : List (String × Json)) :
    (sortedEntries entries).map (·.1) = entries.map (·.1) := by
  rw [sortedEntries_eq_map, List.map_map]
  rfl

/-- Entries with some of the given names, in their order, and values that nest at most so deep. -/
structure LaidOut (names : List String) (bound : Nat) (entries : List (String × Json)) : Prop where
  names : (entries.map (·.1)).Sublist names
  within : ∀ entry ∈ entries, entry.2.IsWithin bound

namespace LaidOut

variable {names others : List String} {bound : Nat} {entries rest : List (String × Json)}

theorem distinct (laidOut : LaidOut names bound entries) (distinct : names.Nodup) :
    (entries.map (·.1)).Nodup := laidOut.names.nodup distinct

theorem isWithin (laidOut : LaidOut names bound entries) :
    (Json.object entries).IsWithin (bound + 1) := isWithin_object laidOut.within

/-- Entries that are laid out are so one after another. -/
theorem append (first : LaidOut names bound entries) (second : LaidOut others bound rest) :
    LaidOut (names ++ others) bound (entries ++ rest) where
  names := by
    rw [List.map_append]
    exact first.names.append second.names
  within := List.forall_mem_append.mpr ⟨first.within, second.within⟩

theorem nil : LaidOut [name] bound [] := ⟨List.nil_sublist _, List.forall_mem_nil _⟩

theorem single {json : Json} (within : json.IsWithin bound) :
    LaidOut [name] bound [(name, json)] :=
  ⟨List.Sublist.refl _, List.forall_mem_singleton.mpr within⟩

/-- An entry for an optional value is laid out. -/
theorem entryIfSome {value : Option α} (each : ∀ x ∈ value, (encode x).IsWithin bound) :
    LaidOut [name] bound (Json.entryIfSome name encode value) := by
  cases value with
  | none => exact nil
  | some value => exact single (each value rfl)

/-- An entry for items is laid out. -/
theorem entryIfAny {values : List α} (each : ∀ x ∈ values, (encode x).IsWithin bound) :
    LaidOut [name] (bound + 1) (Json.entryIfAny name encode values) := by
  cases values with
  | nil => exact nil
  | cons value rest => exact single (isWithin_array_map each)

/-- An entry for a dictionary is laid out. -/
theorem entryIfNonempty {dict : Dict α}
    (each : ∀ entry ∈ dict.entries, (encode entry.2).IsWithin bound) :
    LaidOut [name] (bound + 1) (Json.entryIfNonempty name encode dict) := by
  unfold Json.entryIfNonempty
  split
  · exact nil
  · exact single (isWithin_ofDict each)

end LaidOut

/-! Only the entry itself stands under its name. -/

@[simp] theorem lookup_entryIfSome_of_ne (apart : other ≠ name) (value : Option α) :
    Dict.lookup name (entryIfSome other encode value) = none := by
  cases value <;> simp [entryIfSome, apart]

@[simp] theorem lookup_entryIfAny_of_ne (apart : other ≠ name) (values : List α) :
    Dict.lookup name (entryIfAny other encode values) = none := by
  cases values <;> simp [entryIfAny, apart]

@[simp] theorem lookup_entryIfNonempty_of_ne (apart : other ≠ name) (dict : Dict α) :
    Dict.lookup name (entryIfNonempty other encode dict) = none := by
  unfold entryIfNonempty
  split <;> simp [apart]

end Json

/-! ### Records -/

namespace Record

/-- A record has the given entries, each name once and in any order. -/
structure Holds (record : Record) (entries : List (String × Json)) : Prop where
  distinct : (record.entries.map (·.1)).Nodup
  lookup (name : String) : Dict.lookup name record.entries = Dict.lookup name entries

variable {record : Record} {entries : List (String × Json)} {name : String}

theorem holds_self (distinct : (entries.map (·.1)).Nodup) : Holds { entries } entries :=
  ⟨distinct, fun _ => rfl⟩

/-- An object that was stored holds what it was written with. -/
theorem holds_sorted (distinct : (entries.map (·.1)).Nodup) :
    Holds { entries := (Dict.ofList (Json.sortedEntries entries)).entries }
      (Json.sortedEntries entries) := by
  rw [← Json.map_fst_sortedEntries] at distinct
  refine ⟨?_, fun name => Dict.lookup_ofList distinct⟩
  rw [List.Nodup, List.pairwise_map]
  refine (Dict.ofList (Json.sortedEntries entries)).increasing.imp fun before same => ?_
  rw [same] at before
  exact String.lt_irrefl _ before

/-- A name occurs in a record once if it is among the entries. -/
theorem Holds.occurrences (holds : record.Holds entries) (name : String) :
    (record.occurrences [name]).map (·.2) = (Dict.lookup name entries).toList := by
  have unplaced : (record.occurrences [name]).map (·.2) =
      record.entries.filterMap fun entry => if entry.1 = name then some entry.2 else none := by
    unfold Record.occurrences
    rw [List.map_filterMap, ← List.zipIdx_map_fst 0 record.entries, List.filterMap_map,
      List.zipIdx_map_fst]
    refine List.filterMap_congr fun entry _ => ?_
    by_cases same : entry.1.1 = name <;> simp [same]
  have distinct := holds.distinct
  rw [unplaced, ← holds.lookup name]
  generalize record.entries = listed at distinct
  induction listed with
  | nil => rfl
  | cons entry rest ih =>
      obtain ⟨fresh, later⟩ := List.nodup_cons.mp distinct
      rw [Dict.lookup, List.filterMap_cons, ih later]
      by_cases same : entry.1 = name
      · rw [if_pos same, if_pos same, Dict.lookup_eq_none_iff.mpr (same ▸ fresh)]
        rfl
      · rw [if_neg same, if_neg same]

end Record

namespace Field

variable {α : Type} {record : Record} {entries : List (String × Json)} {name : String}
  {decode : Decoder α} {json : Json} (holds : record.Holds entries)

include holds

theorem run_required {value : α} (found : Dict.lookup name entries = some json)
    (read : decode json = .ok value) : (required name decode).run record = .ok value :=
  run_named (by rw [holds.occurrences, found]; rfl) read

/-- A field with a default is read where it is there. -/
theorem run_defaulted {value : α} (found : Dict.lookup name entries = some json) (absent : α)
    (read : decode json = .ok value) : (defaulted name decode absent).run record = .ok value :=
  run_named (by rw [holds.occurrences, found]; rfl) read

/-- A name that is missing does not occur. -/
theorem occurrences_eq_nil (missing : Dict.lookup name entries = none) :
    record.occurrences [name] = [] := by
  rw [← List.map_eq_nil_iff, holds.occurrences, missing]
  rfl

/-- A value that is written only if there is one is read as a value that may be missing. -/
theorem run_entryIfSome (encode : α → Json) {value : Option α}
    (found : Dict.lookup name entries = Dict.lookup name (Json.entryIfSome name encode value))
    (read : ∀ x ∈ value, encode x ≠ .null ∧ decode (encode x) = .ok x) :
    (optional name decode).run record = .ok value := by
  cases value with
  | none => exact run_named_missing (occurrences_eq_nil holds (found.trans rfl))
  | some value =>
      obtain ⟨notNull, isRead⟩ := read value rfl
      have there : Dict.lookup name entries = some (encode value) := found.trans (if_pos rfl)
      refine run_named (by rw [holds.occurrences, there]; rfl) ?_
      unfold Decoder.optional
      split
      · exact absurd ‹_› notNull
      · rw [isRead]
        rfl

/-- A list that is written only if it has elements is read as one that is empty by default. -/
theorem run_entryIfAny (encode : α → Json) {values : List α}
    (found : Dict.lookup name entries = Dict.lookup name (Json.entryIfAny name encode values))
    (read : ∀ x ∈ values, decode (encode x) = .ok x) :
    (defaulted name decode.list []).run record = .ok values := by
  cases values with
  | nil => exact run_named_missing (occurrences_eq_nil holds (found.trans rfl))
  | cons value rest =>
      exact run_defaulted holds (found.trans (if_pos rfl)) [] (Decoder.list_map read)

/-- A dictionary that is written only if it has entries is read as one that is empty by default. -/
theorem run_entryIfNonempty (encode : α → Json) {dict : Dict α}
    (found : Dict.lookup name entries = Dict.lookup name (Json.entryIfNonempty name encode dict))
    (read : ∀ entry ∈ dict.entries, decode (encode entry.2) = .ok entry.2) :
    (defaulted name decode.dict ∅).run record = .ok dict := by
  unfold Json.entryIfNonempty at found
  split at found
  · rename_i isEmpty
    have none : dict = ∅ := by
      obtain ⟨listed, _⟩ := dict
      obtain rfl : listed = [] := List.isEmpty_iff.mp isEmpty
      rfl
    rw [none]
    exact run_named_missing (occurrences_eq_nil holds (found.trans rfl))
  · exact run_defaulted holds (found.trans (if_pos rfl)) ∅ (Decoder.dict_ofDict_of_forall read)

end Field

end Transcode
