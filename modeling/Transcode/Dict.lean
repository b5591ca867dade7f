/-!
# Dictionaries

A finite map from names to values, kept as its entries in increasing order of names, so that two
dictionaries with the same values at every name are the same dictionary.
-/

namespace Transcode

/-- Entries with strictly increasing names. -/
structure Dict (α : Type) where
  entries : List (String × α)
  increasing : entries.Pairwise (·.1 < ·.1)
  deriving DecidableEq

namespace Dict

variable {α β : Type}

instance [Repr α] : Repr (Dict α) := ⟨fun dict n => reprPrec dict.entries n⟩

/-- The dictionary without entries. -/
def empty : Dict α := ⟨[], .nil⟩

instance : EmptyCollection (Dict α) := ⟨empty⟩

instance : Inhabited (Dict α) := ⟨empty⟩

/-- The value of the first entry with a name. -/
def lookup (name : String) : List (String × α) → Option α
  | [] => none
  | entry :: rest => if entry.1 = name then some entry.2 else lookup name rest

/-- The value at a name. -/
def get? (dict : Dict α) (name : String) : Option α := lookup name dict.entries

/-- Whether a name has a value. -/
def contains (dict : Dict α) (name : String) : Bool := (dict.get? name).isSome

/-- Whether there are no entries. -/
def isEmpty (dict : Dict α) : Bool := dict.entries.isEmpty

/-- The number of entries. -/
def size (dict : Dict α) : Nat := dict.entries.length

/-- Puts an entry at its place, over an entry of the same name. -/
def insertEntry (name : String) (value : α) : List (String × α) → List (String × α)
  | [] => [(name, value)]
  | entry :: rest =>
    if name < entry.1 then (name, value) :: entry :: rest
    else if name = entry.1 then (name, value) :: rest
    else entry :: insertEntry name value rest

/-- An entry behind an insertion is the one put in or one there before. -/
theorem mem_insertEntry {name : String} {value : α} {entries : List (String × α)}
    {entry : String × α} (h : entry ∈ insertEntry name value entries) :
    entry = (name, value) ∨ entry ∈ entries := by
  induction entries with
  | nil => simpa [insertEntry] using h
  | cons head rest ih =>
      simp only [insertEntry] at h
      split at h
      · simpa using h
      · split at h
        · rcases List.mem_cons.mp h with h | h
          · exact .inl h
          · exact .inr (List.mem_cons_of_mem _ h)
        · rcases List.mem_cons.mp h with h | h
          · exact .inr (h ▸ List.mem_cons_self)
          · exact (ih h).imp id (List.mem_cons_of_mem _)

/-- An insertion keeps the entries in the order of their names. -/
theorem pairwise_insertEntry {name : String} {value : α} {entries : List (String × α)}
    (h : entries.Pairwise (·.1 < ·.1)) :
    (insertEntry name value entries).Pairwise (·.1 < ·.1) := by
  induction entries with
  | nil => simp [insertEntry]
  | cons head rest ih =>
      have hrest := (List.pairwise_cons.mp h).2
      have hhead := (List.pairwise_cons.mp h).1
      simp only [insertEntry]
      split
      · rename_i hlt
        refine List.pairwise_cons.mpr ⟨fun entry member => ?_, h⟩
        rcases List.mem_cons.mp member with rfl | member
        · exact hlt
        · exact String.lt_trans hlt (hhead entry member)
      · split
        · rename_i heq
          exact List.pairwise_cons.mpr ⟨fun entry member => heq ▸ hhead entry member, hrest⟩
        · rename_i hnlt hne
          refine List.pairwise_cons.mpr ⟨fun entry member => ?_, ih hrest⟩
          rcases mem_insertEntry member with rfl | member
          · refine Decidable.byContradiction fun hge => hne ?_
            exact String.le_antisymm (String.not_lt.mp hge) (String.not_lt.mp hnlt)
          · exact hhead entry member

/-- The dictionary with a value put at a name. -/
def insert (dict : Dict α) (name : String) (value : α) : Dict α :=
  ⟨insertEntry name value dict.entries, pairwise_insertEntry dict.increasing⟩

/-- The dictionary without a name. -/
def erase (dict : Dict α) (name : String) : Dict α :=
  ⟨dict.entries.filter fun entry => !decide (entry.1 = name), dict.increasing.filter _⟩

/-- The dictionary of a list of entries; of two with one name the later counts. -/
def ofList (entries : List (String × α)) : Dict α :=
  entries.foldl (fun dict entry => dict.insert entry.1 entry.2) empty

/-- The names with values, in increasing order. -/
def keys (dict : Dict α) : List String := dict.entries.map (·.1)

/-- The values, in the order of their names. -/
def values (dict : Dict α) : List α := dict.entries.map (·.2)

/-- An insertion answers for its own name and changes no other answer. -/
theorem lookup_insertEntry (name other : String) (value : α) (entries : List (String × α)) :
    lookup other (insertEntry name value entries) =
      if name = other then some value else lookup other entries := by
  induction entries with
  | nil => simp [insertEntry, lookup]
  | cons head rest ih =>
      simp only [insertEntry]
      split
      · simp [lookup]
      · split
        · rename_i heq
          by_cases h : name = other <;> simp [lookup, ← heq, h]
        · rename_i hne
          by_cases h : name = other
          · subst h
            simp [lookup, Ne.symm hne, ih]
          · simp [lookup, ih, h]

@[simp] theorem get?_empty (name : String) : (empty : Dict α).get? name = none := rfl

@[simp] theorem get?_insert (dict : Dict α) (name other : String) (value : α) :
    (dict.insert name value).get? other = if name = other then some value else dict.get? other :=
  lookup_insertEntry name other value dict.entries

/-- Without its entry a name finds nothing, and every other finds what it did. -/
theorem lookup_filter_ne (name other : String) (entries : List (String × α)) :
    lookup other (entries.filter fun entry => !decide (entry.1 = name)) =
      if name = other then none else lookup other entries := by
  induction entries with
  | nil => simp [lookup]
  | cons head rest ih =>
      by_cases hname : head.1 = name
      · by_cases h : name = other
        · subst h
          simp [hname, ih]
        · simp [lookup, hname, ih, h]
      · by_cases h : name = other
        · subst h
          simp [lookup, hname, ih]
        · simp [lookup, hname, ih, h]

@[simp] theorem get?_erase (dict : Dict α) (name other : String) :
    (dict.erase name).get? other = if name = other then none else dict.get? other :=
  lookup_filter_ne name other dict.entries

end Dict

/-- Names with texts. -/
abbrev Attributes := Dict String

namespace Dict

/-- The text at a name, empty if there is none. -/
def textAt (attributes : Attributes) (name : String) : String := (attributes.get? name).getD ""

/-- Puts a text at a name unless it is empty. -/
def insertNonempty (attributes : Attributes) (name value : String) : Attributes :=
  if value.isEmpty then attributes else attributes.insert name value

end Dict

end Transcode
