import Mathlib.Data.List.Nodup
import Transcode.Dict

/-!
# Entries of dictionaries

What a dictionary holds after entries are put into it one by one (`Dict.get?_ofList`,
`Dict.get?_foldl_insert`), how many there are, and that a dictionary is made of its own entries
(`Dict.ofList_entries`).
-/

namespace Transcode

namespace Dict

variable {α : Type} {dict : Dict α} {name : String} {value : α}

/-! ### Names -/

/-- The names are those at which something is found. -/
theorem mem_keys_iff : name ∈ dict.keys ↔ dict.get? name ≠ none := by
  unfold keys get?
  induction dict.entries with
  | nil => simp [lookup]
  | cons entry rest ih =>
      rw [List.map_cons, List.mem_cons, lookup]
      by_cases same : entry.1 = name
      · simp [same]
      · rw [if_neg same, ← ih, or_iff_right (Ne.symm same)]

/-- What is found at a name is an entry. -/
theorem mem_entries_of_get? (listed : dict.get? name = some value) :
    (name, value) ∈ dict.entries := by
  unfold get? at listed
  generalize dict.entries = entries at listed ⊢
  induction entries with
  | nil => cases listed
  | cons entry rest ih =>
      rw [lookup] at listed
      split at listed
      · rename_i same
        cases listed
        exact same ▸ List.mem_cons_self
      · exact List.mem_cons_of_mem entry (ih listed)

theorem nodup_keys (dict : Dict α) : dict.keys.Nodup := by
  refine (List.pairwise_map.mpr dict.increasing).imp fun before same => ?_
  exact String.lt_irrefl _ (same ▸ before)

/-! ### Sizes -/

/-- Putting an entry among others loses none of them. -/
theorem length_le_length_insertEntry (name : String) (value : α) (entries : List (String × α)) :
    entries.length ≤ (insertEntry name value entries).length := by
  induction entries with
  | nil => exact Nat.zero_le _
  | cons head rest ih =>
      unfold insertEntry
      split
      · exact Nat.le_succ _
      · split
        · exact Nat.le_refl _
        · exact Nat.succ_le_succ ih

/-- An entry with a new name is one more. -/
theorem length_insertEntry_of_missing {entries : List (String × α)}
    (missing : lookup name entries = none) :
    (insertEntry name value entries).length = entries.length + 1 := by
  induction entries with
  | nil => rfl
  | cons head rest ih =>
      unfold lookup at missing
      split at missing
      · cases missing
      · rename_i other
        unfold insertEntry
        rw [if_neg (Ne.symm other)]
        split
        · rfl
        · exact congrArg (· + 1) (ih missing)

theorem size_le_size_insert (dict : Dict α) (name : String) (value : α) :
    dict.size ≤ (dict.insert name value).size :=
  length_le_length_insertEntry ..

/-- A dictionary gets larger by an entry with a new name. -/
theorem size_insert_of_missing (missing : dict.get? name = none) :
    (dict.insert name value).size = dict.size + 1 :=
  length_insertEntry_of_missing missing

/-- A dictionary does not get smaller by any number of entries. -/
theorem size_le_size_foldl_insert (entries : List (String × α)) (dict : Dict α) :
    dict.size ≤ (entries.foldl (fun dict entry => dict.insert entry.1 entry.2) dict).size := by
  induction entries generalizing dict with
  | nil => exact Nat.le_refl _
  | cons entry rest ih => exact Nat.le_trans (dict.size_le_size_insert ..) (ih _)

/-! ### Entries put in one by one -/

/-- Putting entries with different names into a dictionary. -/
theorem get?_foldl_insert {entries : List (String × α)} (distinct : (entries.map (·.1)).Nodup)
    (dict : Dict α) (name : String) :
    (entries.foldl (fun dict entry => dict.insert entry.1 entry.2) dict).get? name =
      (entries.lookup name).or (dict.get? name) := by
  induction entries generalizing dict with
  | nil => rfl
  | cons entry rest ih =>
      obtain ⟨own, distinct⟩ := List.nodup_cons.mp distinct
      rw [List.foldl_cons, ih distinct, get?_insert, List.lookup_cons]
      by_cases same : name = entry.1
      · have absent : rest.lookup entry.1 = none := by
          rw [List.lookup_eq_none_iff]
          intro other member
          rw [bne_iff_ne]
          intro equal
          refine own ?_
          change entry.1 ∈ _
          rw [equal]
          exact List.mem_map_of_mem member
        simp [absent, same]
      · simp [beq_eq_false_iff_ne.mpr same, Ne.symm same]

/-- What is listed under a name, if all entries with the name say the same. -/
theorem get?_ofList {entries : List (String × α)} (listed : ∃ entry ∈ entries, entry.1 = name)
    (same : ∀ entry ∈ entries, entry.1 = name → entry.2 = value) :
    (ofList entries).get? name = some value := by
  have put (dict : Dict α)
      (known : (∃ entry ∈ entries, entry.1 = name) ∨ dict.get? name = some value) :
      (entries.foldl (fun dict entry => dict.insert entry.1 entry.2) dict).get? name =
        some value := by
    clear listed
    induction entries generalizing dict with
    | nil => simpa using known
    | cons entry rest ih =>
        obtain ⟨here, later⟩ := List.forall_mem_cons.mp same
        refine ih later _ ?_
        rw [get?_insert]
        by_cases isName : entry.1 = name
        · exact .inr (by rw [if_pos isName, here isName])
        · rw [if_neg isName]
          refine known.imp_left fun ⟨other, member, otherName⟩ => ?_
          rcases List.mem_cons.mp member with rfl | member
          · exact absurd otherName isName
          · exact ⟨other, member, otherName⟩
  exact put empty (.inl listed)

/-- An entry with a later name than all others goes to the end. -/
theorem insertEntry_eq_append {name : String} {value : α} {entries : List (String × α)}
    (later : ∀ entry ∈ entries, entry.1 < name) :
    insertEntry name value entries = entries ++ [(name, value)] := by
  induction entries with
  | nil => rfl
  | cons entry rest ih =>
      obtain ⟨here, others⟩ := List.forall_mem_cons.mp later
      unfold insertEntry
      have other : name ≠ entry.1 := fun same => String.lt_irrefl name (same ▸ here)
      rw [if_neg (String.lt_asymm here), if_neg other, ih others]
      rfl

/-- A dictionary is read from its own entries. -/
theorem ofList_entries (dict : Dict α) : ofList dict.entries = dict := by
  have added (rest : List (String × α)) (start : Dict α)
      (order : (start.entries ++ rest).Pairwise (·.1 < ·.1)) :
      (rest.foldl (fun dict entry => dict.insert entry.1 entry.2) start).entries =
        start.entries ++ rest := by
    induction rest generalizing start with
    | nil => rw [List.append_nil, List.foldl_nil]
    | cons entry rest ih =>
        have last : (start.insert entry.1 entry.2).entries = start.entries ++ [entry] :=
          insertEntry_eq_append fun other member =>
            (List.pairwise_append.mp order).2.2 other member entry List.mem_cons_self
        have split : start.entries ++ entry :: rest = start.entries ++ [entry] ++ rest := by simp
        rw [List.foldl_cons, ih, last, split]
        rwa [last, ← split]
  have same := added dict.entries empty dict.increasing
  cases dict
  unfold ofList
  generalize List.foldl _ _ _ = made at same ⊢
  cases made
  cases same
  rfl

end Dict

end Transcode
