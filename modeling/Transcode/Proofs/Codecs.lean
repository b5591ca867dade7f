import Transcode.Proofs.Outcome
import Transcode.Proofs.Records

/-!
# Writers and readers side by side

A decoder reads what was written of a value also after it was stored (`Decoder.Reads`), and so does
a field with the entries that were written for it (`Field.Reads`). Both are put together in the way
that decoders and objects are, entry by entry. In the other direction, what is known of all values
that a decoder makes is put together in the same way (`Decoder.Yields`, `Field.Yields`).
-/

namespace Transcode

/-! ### What was written is read -/

/-- A value as data, which nests at most so deep, and which is read back when it was stored. -/
structure Decoder.Reads {α : Type} (bound : Nat) (decode : Decoder α) (json : Json) (value : α) :
    Prop where
  within : json.IsWithin bound
  read : decode json.sorted = .ok value

/-- Part of a record as entries with some of the given names, which is read back from every record
that has these entries, and no others with these names, when they were stored. No name may be given
twice. -/
structure Field.Reads {α : Type} (names : List String) (bound : Nat) (field : Field α)
    (entries : List (String × Json)) (value : α) : Prop where
  laidOut : Json.LaidOut names bound entries
  read {record : Record} {all : List (String × Json)} (distinct : names.Nodup)
    (holds : record.Holds all) (own : ∀ name ∈ names,
      Dict.lookup name all = Dict.lookup name (Json.sortedEntries entries)) :
    field.run record = .ok value

namespace Decoder.Reads

variable {α : Type} {bound : Nat} {decode : Decoder α} {encode : α → Json}

theorem text (value : String) : Reads bound Decoder.text (.text value) value :=
  ⟨Json.isWithin_text value, by rw [Json.sorted_text]; rfl⟩

theorem bool (value : Bool) : Reads bound Decoder.bool (.bool value) value :=
  ⟨Json.isWithin_bool value, by rw [Json.sorted_bool]; rfl⟩

/-- A number below a limit is read back. -/
theorem naturalBelow {limit value : Nat} (below : value < limit) (small : limit ≤ Nat.pow 2 64) :
    Reads bound (Decoder.naturalBelow limit) (.natural value) value :=
  ⟨Json.isWithin_natural (Nat.lt_of_lt_of_le below small),
    by rw [Json.sorted_natural]; exact if_pos below⟩

theorem natural {value : Nat} (small : value < Nat.pow 2 64) :
    Reads bound Decoder.natural (.natural value) value := naturalBelow small (Nat.le_refl _)

/-- Items that are read back one by one are so as a list. -/
theorem list {values : List α} (each : ∀ value ∈ values, Reads bound decode (encode value) value) :
    Reads (bound + 1) decode.list (.array (values.map encode)) values where
  within := Json.isWithin_array_map fun value member => (each value member).within
  read := by
    rw [Json.sorted_array_map]
    exact list_map fun value member => (each value member).read

/-- Two values that are read back are so as a pair. -/
theorem pair {β : Type} {other : Decoder β} {first second : Json} {left : α} {right : β}
    (readsFirst : Reads bound decode first left) (readsSecond : Reads bound other second right) :
    Reads (bound + 1) (decode.pair other) (.array [first, second]) (left, right) where
  within := Json.isWithin_array (List.forall_mem_cons.mpr
    ⟨readsFirst.within, List.forall_mem_singleton.mpr readsSecond.within⟩)
  read := by
    rw [Json.sorted, Json.sortedItems_eq_map]
    change (do
      let left ← decode first.sorted
      let right ← other second.sorted
      return (left, right)) = _
    rw [readsFirst.read, readsSecond.read]
    rfl

/-- A record is read back with its fields. -/
theorem record {names fields : List String} {field : Field α} {entries : List (String × Json)}
    {value : α} (reads : Field.Reads names bound field entries value) (distinct : names.Nodup) :
    Reads (bound + 1) (Field.decoder fields field) (.object entries) value where
  within := reads.laidOut.isWithin
  read := by
    rw [Json.sorted]
    exact Field.decoder_object
      (reads.read distinct (Record.holds_sorted (reads.laidOut.distinct distinct)) fun _ _ => rfl)

/-- A record that has to be an object is read back with its fields. -/
theorem objectRecord {names : List String} {field : Field α} {entries : List (String × Json)}
    {value : α} (reads : Field.Reads names bound field entries value) (distinct : names.Nodup) :
    Reads (bound + 1) (Field.objectDecoder field) (.object entries) value where
  within := reads.laidOut.isWithin
  read := by
    have read := reads.read distinct (Record.holds_sorted (reads.laidOut.distinct distinct))
      fun _ _ => rfl
    rw [Json.sorted]
    unfold Field.objectDecoder
    dsimp only
    rw [read]

/-- A case of several, as the only entry of an object. -/
theorem tagged {table : List (String × Decoder α)} {name : String} {json : Json} {value : α}
    (listed : Dict.lookup name table = some decode) (reads : Reads bound decode json value) :
    Reads (bound + 1) (Decoder.tagged table) (.object [(name, json)]) value where
  within := Json.isWithin_object (List.forall_mem_singleton.mpr reads.within)
  read := by
    rw [Json.sorted, Json.sortedEntries_cons, Json.sortedEntries_nil]
    change Decoder.tagged table (.object [(name, json.sorted)]) = _
    unfold Decoder.tagged
    dsimp only
    rw [listed]
    exact reads.read

/-- What is made of a value that is read back is made again. -/
theorem map {β : Type} {json : Json} {value : α} (reads : Reads bound decode json value)
    (f : α → β) : Reads bound (fun json => (decode json).map f) json (f value) :=
  ⟨reads.within, by rw [reads.read]; rfl⟩

end Decoder.Reads

namespace Field.Reads

variable {α β : Type} {names others : List String} {bound : Nat} {decode : Decoder α}
  {encode : α → Json} {entries rest : List (String × Json)} {json : Json} {value : α}

/-- A required field is read back. -/
theorem required (name : String) (reads : decode.Reads bound json value) :
    Reads [name] bound (Field.required name decode) [(name, json)] value where
  laidOut := .single reads.within
  read _ holds own :=
    run_required holds ((own name List.mem_cons_self).trans (by simp)) reads.read

/-- A field with a default is read back. -/
theorem defaulted (name : String) (absent : α) (reads : decode.Reads bound json value) :
    Reads [name] bound (Field.defaulted name decode absent) [(name, json)] value where
  laidOut := .single reads.within
  read _ holds own :=
    run_defaulted holds ((own name List.mem_cons_self).trans (by simp)) absent reads.read

/-- A field that may be left out is read back. -/
theorem optional (name : String) {value : Option α} (notNull : ∀ x, (encode x).sorted ≠ .null)
    (each : ∀ x ∈ value, decode.Reads bound (encode x) x) :
    Reads [name] bound (Field.optional name decode) (Json.entryIfSome name encode value) value where
  laidOut := .entryIfSome fun x there => (each x there).within
  read _ holds own :=
    run_entryIfSome holds (fun x => (encode x).sorted)
      ((own name List.mem_cons_self).trans (by simp)) fun x there =>
        ⟨notNull x, (each x there).read⟩

/-- A field of items that is left out if there are none is read back. -/
theorem list (name : String) {values : List α}
    (each : ∀ x ∈ values, decode.Reads bound (encode x) x) :
    Reads [name] (bound + 1) (Field.defaulted name decode.list [])
      (Json.entryIfAny name encode values) values where
  laidOut := .entryIfAny fun x member => (each x member).within
  read _ holds own :=
    run_entryIfAny holds (fun x => (encode x).sorted)
      ((own name List.mem_cons_self).trans (by simp)) fun x member => (each x member).read

/-- A field of entries that is left out if there are none is read back. -/
theorem dict (name : String) {values : Dict α}
    (each : ∀ entry ∈ values.entries, decode.Reads bound (encode entry.2) entry.2) :
    Reads [name] (bound + 1) (Field.defaulted name decode.dict ∅)
      (Json.entryIfNonempty name encode values) values where
  laidOut := .entryIfNonempty fun entry member => (each entry member).within
  read _ holds own :=
    run_entryIfNonempty holds (fun x => (encode x).sorted)
      ((own name List.mem_cons_self).trans (by simp)) fun entry member => (each entry member).read

/-- What is made of a field that is read back is made again. -/
theorem map {field : Field α} (reads : Reads names bound field entries value) (f : α → β) :
    Reads names bound (f <$> field) entries (f value) where
  laidOut := reads.laidOut
  read distinct holds own := run_map f (reads.read distinct holds own)

/-- One part after another. -/
theorem seq {function : Field (α → β)} {argument : Field α} {f : α → β}
    (first : Reads names bound function entries f)
    (second : Reads others bound argument rest value) :
    Reads (names ++ others) bound (function <*> argument) (entries ++ rest) (f value) where
  laidOut := first.laidOut.append second.laidOut
  read {record all} distinct holds own := by
    obtain ⟨firstDistinct, secondDistinct, apart⟩ := List.nodup_append'.mp distinct
    -- A name of one part has no entry of the other.
    have missing {names : List String} {entries : List (String × Json)} {name : String}
        (laidOut : Json.LaidOut names bound entries) (foreign : name ∉ names) :
        Dict.lookup name (Json.sortedEntries entries) = none := by
      rw [Dict.lookup_eq_none_iff, Json.map_fst_sortedEntries]
      exact fun listed => foreign (laidOut.names.subset listed)
    refine run_seq (first.read firstDistinct holds fun name member => ?_)
      (second.read secondDistinct holds fun name member => ?_)
    · rw [own name (List.mem_append_left _ member), Json.sortedEntries_append, Dict.lookup_append,
        missing second.laidOut (apart member), Option.or_none]
    · rw [own name (List.mem_append_right _ member), Json.sortedEntries_append, Dict.lookup_append,
        missing first.laidOut fun early => apart early member, Option.none_or]

/-- A field whose entries stand among the others is read back. -/
theorem flattened {field : Field α} (reads : Reads names bound field entries value) :
    Reads names bound field.flattened entries value where
  laidOut := reads.laidOut
  read distinct holds own := by
    unfold Field.flattened
    dsimp only
    rw [reads.read distinct holds own]

end Field.Reads

/-! ### What is read -/

/-- All that a decoder makes is of a kind. -/
def Decoder.Yields {α : Type} (decode : Decoder α) (kind : α → Prop) : Prop :=
  ∀ json value, decode json = .ok value → kind value

/-- All that is read of a record is of a kind. -/
def Field.Yields {α : Type} (field : Field α) (kind : α → Prop) : Prop :=
  ∀ record value, field.run record = .ok value → kind value

namespace Decoder.Yields

variable {α : Type} {decode : Decoder α} {kind : α → Prop}

/-- What is read is below the limit. -/
theorem naturalBelow (limit : Nat) : Yields (Decoder.naturalBelow limit) (· < limit) := by
  intro json value read
  unfold Decoder.naturalBelow at read
  split at read
  · split at read
    · cases read
      assumption
    · cases read
  · cases read

/-- A value that is there is of the kind. -/
theorem optional (yields : decode.Yields kind) : decode.optional.Yields (∀ x ∈ ·, kind x) := by
  intro json value read
  unfold Decoder.optional at read
  split at read
  · cases read
    nofun
  · obtain ⟨value, isRead, rfl⟩ := map_eq_ok_iff.mp read
    rintro x ⟨⟩
    exact yields _ _ isRead

/-- All items are of the kind. -/
theorem list (yields : decode.Yields kind) : decode.list.Yields (∀ x ∈ ·, kind x) := by
  intro json values read
  unfold Decoder.list at read
  split at read
  · rename_i items
    induction items generalizing values with
    | nil =>
        cases read
        exact List.forall_mem_nil _
    | cons item rest ih =>
        obtain ⟨first, isFirst, more⟩ := bind_eq_ok_iff.mp read
        obtain ⟨others, areOthers, made⟩ := bind_eq_ok_iff.mp more
        cases made
        exact List.forall_mem_cons.mpr ⟨yields _ _ isFirst, ih _ areOthers⟩
  · cases read

/-- What a record makes is of the kind that its fields make. -/
theorem record {fields : List String} {field : Field α} (yields : field.Yields kind) :
    Yields (Field.decoder fields field) kind := by
  intro json value read
  unfold Field.decoder at read
  split at read
  · cases read
  · split at read
    · cases read
      exact yields _ _ ‹_›
    · cases read
    · cases read

/-- What a record makes that has to be an object is of the kind that its fields make. -/
theorem objectRecord {field : Field α} (yields : field.Yields kind) :
    Yields (Field.objectDecoder field) kind := by
  intro json value read
  unfold Field.objectDecoder at read
  split at read
  · split at read
    · cases read
      exact yields _ _ ‹_›
    · cases read
  · cases read

end Decoder.Yields

namespace Field.Yields

variable {α β : Type} {decode : Decoder α} {kind : α → Prop} {goal : β → Prop}

/-- A field is of the kind of its values, also where it has its default. -/
theorem named {names : List String} {absent : Option α} (yields : decode.Yields kind)
    (ofAbsent : ∀ value ∈ absent, kind value) :
    Yields (Field.named names decode absent) kind := by
  intro record value read
  unfold Field.named at read
  dsimp only at read
  split at read
  · split at read
    · cases read
      exact ofAbsent value rfl
    · cases read
  · split at read
    · cases read
      exact yields _ _ ‹_›
    · cases read
    · cases read

theorem any {field : Field α} : Yields field fun _ => True := fun _ _ _ => trivial

/-- What is made of a kind is of another. -/
theorem map {field : Field α} {f : α → β} (yields : field.Yields kind)
    (made : ∀ x, kind x → goal (f x)) : Yields (f <$> field) goal := by
  intro record value read
  obtain ⟨x, isRead, rfl⟩ := map_eq_ok_iff.mp (show (field.run record).map f = .ok value from read)
  exact made x (yields _ _ isRead)

theorem seq {function : Field (α → β)} {argument : Field α}
    (first : function.Yields fun f => ∀ x, kind x → goal (f x)) (second : argument.Yields kind) :
    Yields (function <*> argument) goal := by
  intro record value read
  change (Field.apply function argument).run record = .ok value at read
  unfold Field.apply at read
  dsimp only at read
  split at read
  · cases read
    exact first _ _ ‹_› _ (second _ _ ‹_›)
  all_goals cases read

theorem pass {function : Field (α → β)} {argument : Field α}
    (first : function.Yields fun f => ∀ x, goal (f x)) : Yields (function <*> argument) goal :=
  seq (fun record f read x _ => first record f read x) any

end Field.Yields

end Transcode
