import Transcode.Proofs.RuleData
import Transcode.Proofs.Validity
import Transcode.Rule.Builtin

/-!
# Catalogs written as data and loaded again

A list of rules is a catalog exactly if each rule is valid and has an id of its own
(`validateRules_eq_ok_iff`). So a catalog that was loaded is loaded again from what is written of
its rules, and its rules can be put after those of another catalog unless the two share an id
(`Catalog.ruleData_roundTrip`).
-/

namespace Transcode

variable {text : String} {rules : List Rule}

/-! ### Lists of rules as text -/

namespace Rule

/-- A rule that is read at a place is decoded. -/
theorem decoder_of_ofEntry {index : Nat} {entry : Json} {rule : Rule}
    (read : ofEntry index entry = .ok rule) : decoder entry = .ok rule := by
  unfold ofEntry at read
  split at read
  · cases read
    assumption
  · cases read
  · cases read

/-- Rules that are read have 64-bit numbers. -/
theorem fits_of_ofEntries {index : Nat} {entries : List Json}
    (read : ofEntries index entries = .ok rules) : ∀ rule ∈ rules, rule.Fits := by
  induction entries generalizing index rules with
  | nil =>
      cases read
      exact List.forall_mem_nil _
  | cons entry rest ih =>
      obtain ⟨rule, first, more⟩ := bind_eq_ok_iff.mp read
      obtain ⟨others, later, made⟩ := bind_eq_ok_iff.mp more
      cases made
      exact List.forall_mem_cons.mpr ⟨yields_fits _ _ (decoder_of_ofEntry first), ih later⟩

/-- Rules that are read from a text have 64-bit numbers. -/
theorem fits_of_listOfText (read : listOfText text = .ok rules) : ∀ rule ∈ rules, rule.Fits := by
  unfold listOfText at read
  split at read
  · cases read
  · exact fits_of_ofEntries read
  · split at read
    · exact fits_of_ofEntries read
    · cases read
  · cases read

/-- Rules that are decoded one by one are read at their places. -/
theorem ofEntries_map {encode : Rule → Json}
    (each : ∀ rule ∈ rules, decoder (encode rule) = .ok rule) (index : Nat) :
    ofEntries index (rules.map encode) = .ok rules := by
  induction rules generalizing index with
  | nil => rfl
  | cons rule rest ih =>
      obtain ⟨here, later⟩ := List.forall_mem_cons.mp each
      have first : ofEntry index (encode rule) = .ok rule := by
        unfold ofEntry
        rw [here]
      rw [List.map_cons, ofEntries, first, ih later]
      rfl

/-- Rules as data. -/
def listToJson (rules : List Rule) : Json := .array (rules.map toJson)

section Read

variable (fits : ∀ rule ∈ rules, rule.Fits)

include fits

theorem isWithin_listToJson {bound : Nat} : (listToJson rules).IsWithin (bound + 9) :=
  Json.isWithin_array_map fun rule member => (reads_toJson (fits rule member)).within

/-- Rules are read back also after they were stored. -/
theorem ofEntries_sorted : ofEntries 0 (rules.map fun rule => rule.toJson.sorted) = .ok rules := by
  refine ofEntries_map (fun rule member => ?_) 0
  have reads : Decoder.Reads 8 decoder rule.toJson rule := reads_toJson (fits rule member)
  exact reads.read

/-- A text that denotes a list of rules is read as the rules. -/
theorem listOfText_of_array (denotes : Json.read? text = some (listToJson rules)) :
    listOfText text = .ok rules := by
  have stored : (listToJson rules).stored? = some (listToJson rules).sorted :=
    Json.storedWithin?_eq (isWithin_listToJson fits)
  unfold listOfText
  rw [denotes, Option.bind_some, stored, listToJson, Json.sorted_array_map]
  exact ofEntries_sorted fits

/-- Of several entries at `rules` the last counts. -/
theorem listOfText_of_object {entries : List (String × Json)}
    (within : (Json.object entries).IsWithin Json.maxDepth)
    (found : (Dict.ofList (Json.sortedEntries entries)).get? "rules" = (listToJson rules).sorted)
    (denotes : Json.read? text = some (.object entries)) : listOfText text = .ok rules := by
  rw [listToJson, Json.sorted_array_map] at found
  have listed : Dict.lookup "rules" (Dict.ofList (Json.sortedEntries entries)).entries = _ := found
  unfold listOfText
  rw [denotes, Option.bind_some, Json.stored?, Json.storedWithin?_eq within, Json.sorted]
  dsimp only
  rw [listed]
  exact ofEntries_sorted fits

end Read

end Rule

/-! ### Catalogs -/

/-- **What makes a catalog**: valid rules, each with an id of its own. -/
theorem validateRules_eq_ok_iff {before : List String} :
    validateRules before rules = .ok () ↔ (∀ rule ∈ rules, rule.validate = .ok ()) ∧
      (rules.map (·.id)).Nodup ∧ ∀ rule ∈ rules, rule.id ∉ before := by
  refine ⟨fun valid => ⟨validate_of_validateRules valid, nodup_of_validateRules valid⟩, ?_⟩
  rintro ⟨each, distinct, apart⟩
  induction rules generalizing before with
  | nil => rfl
  | cons rule rest ih =>
      obtain ⟨valid, others⟩ := List.forall_mem_cons.mp each
      obtain ⟨unused, unusedLater⟩ := List.forall_mem_cons.mp apart
      obtain ⟨fresh, distinct⟩ := List.nodup_cons.mp distinct
      have later : ∀ other ∈ rest, other.id ∉ rule.id :: before := fun other member known =>
        (List.mem_cons.mp known).elim
          (fun same => fresh (List.mem_map.mpr ⟨other, member, same⟩)) (unusedLater other member)
      unfold validateRules
      refine check_eq_ok_iff.mpr ⟨valid, ?_⟩
      rw [if_neg (by simpa using unused)]
      exact ih others distinct later

namespace Catalog

/-- The rules of a catalog as data. -/
def toJson (catalog : Catalog) : Json := Rule.listToJson catalog.rules

variable {catalog loaded extended : Catalog}

/-- A catalog is made of its rules. -/
theorem ofRules_eq_ok_iff : ofRules rules = .ok catalog ↔ catalog.rules = rules := by
  constructor
  · intro made
    unfold ofRules at made
    split at made
    · cases made
      rfl
    · cases made
  · rintro rfl
    unfold ofRules
    split
    · rfl
    · rename_i failure invalid
      exact absurd (catalog.valid.symm.trans invalid) nofun

/-- A catalog is read if its rules are read. -/
theorem ofJsonText_eq_ok_iff :
    ofJsonText text = .ok catalog ↔ Rule.listOfText text = .ok catalog.rules := by
  unfold ofJsonText
  rw [bind_eq_ok_iff]
  constructor
  · rintro ⟨rules, read, made⟩
    rwa [ofRules_eq_ok_iff.mp made]
  · exact fun read => ⟨catalog.rules, read, ofRules_eq_ok_iff.mpr rfl⟩

/-- A catalog is extended by the rules that are read, behind its own. -/
theorem appendJsonText_eq_ok_iff (read : Rule.listOfText text = .ok rules) :
    catalog.appendJsonText text = .ok extended ↔ extended.rules = catalog.rules ++ rules := by
  unfold appendJsonText
  rw [read]
  exact ofRules_eq_ok_iff

/-- The rules of two catalogs make one unless these share an id. -/
theorem exists_append_iff :
    (∃ extended : Catalog, extended.rules = catalog.rules ++ loaded.rules) ↔
      ∀ rule ∈ loaded.rules, rule.id ∉ catalog.rules.map (·.id) := by
  constructor
  · rintro ⟨extended, both⟩ rule member listed
    have distinct := (validateRules_eq_ok_iff.mp extended.valid).2.1
    rw [both, List.map_append] at distinct
    exact (List.nodup_append.mp distinct).2.2 _ listed _ (List.mem_map_of_mem member) rfl
  · intro apart
    obtain ⟨early, earlyIds, -⟩ := validateRules_eq_ok_iff.mp catalog.valid
    obtain ⟨late, lateIds, -⟩ := validateRules_eq_ok_iff.mp loaded.valid
    have ids : ((catalog.rules ++ loaded.rules).map (·.id)).Nodup := by
      rw [List.map_append]
      refine List.nodup_append.mpr ⟨earlyIds, lateIds, fun id listed other isLate same => ?_⟩
      obtain ⟨rule, member, rfl⟩ := List.mem_map.mp isLate
      exact apart rule member (same ▸ listed)
    exact ⟨⟨_, validateRules_eq_ok_iff.mpr
      ⟨List.forall_mem_append.mpr ⟨early, late⟩, ids, fun _ _ => List.not_mem_nil⟩⟩, rfl⟩

/-- **Catalogs survive JSON.** Whatever text a catalog was loaded from, it is loaded again from
every text that denotes its rules as data, as an array or under `rules`, such as the written one.
And the text can be appended to a catalog exactly if no rule in it has the id of one there, which
leaves the rules there in front. -/
theorem ruleData_roundTrip (accepted : ofJsonText text = .ok loaded) :
    Json.read? loaded.toJson.pretty = some loaded.toJson ∧
    (∀ written, Json.read? written = some loaded.toJson ∨
        Json.read? written = some (.object [("rules", loaded.toJson)]) →
      ofJsonText written = .ok loaded) ∧
    ∀ catalog : Catalog,
      ((∃ extended, catalog.appendJsonText text = .ok extended) ↔
        ∀ rule ∈ loaded.rules, rule.id ∉ catalog.rules.map (·.id)) ∧
      ∀ extended, catalog.appendJsonText text = .ok extended →
        extended.rules = catalog.rules ++ loaded.rules := by
  have read := ofJsonText_eq_ok_iff.mp accepted
  have fits := Rule.fits_of_listOfText read
  have within : loaded.toJson.IsWithin Json.maxDepth := Rule.isWithin_listToJson fits
  refine ⟨Json.read?_pretty within.plain, ?_, fun catalog => ?_⟩
  · rintro written (denotes | denotes)
    · exact ofJsonText_eq_ok_iff.mpr (Rule.listOfText_of_array fits denotes)
    · refine ofJsonText_eq_ok_iff.mpr (Rule.listOfText_of_object fits ?_ ?_ denotes)
      · exact Json.isWithin_object (List.forall_mem_singleton.mpr (Rule.isWithin_listToJson fits))
      · simp [Dict.ofList, toJson]
  · simp only [appendJsonText_eq_ok_iff read]
    exact ⟨exists_append_iff, fun _ both => both⟩

/-- Of entries with one name the last counts, others are passed over, and defaults are left out. -/
theorem ruleData_roundTrip_repeated :
    let rule : Rule := { Builtin.staticToFunction with id := "moved", description := "" }
    let text := (Json.object [("rules", .null), ("about", .natural 1),
      ("rules", Rule.listToJson [rule])]).pretty
    ∃ loaded, ofJsonText text = .ok loaded ∧ loaded.rules = [rule] ∧
      ofJsonText loaded.toJson.pretty = .ok loaded ∧
        ∃ extended, Builtin.catalog.appendJsonText text = .ok extended ∧
          extended.rules = Builtin.rules ++ [rule] := by
  intro rule text
  have fits : ∀ other ∈ [rule], other.Fits := List.forall_mem_singleton.mpr
    ⟨by decide, by simp [SourcePattern.Fits, rule, Builtin.staticToFunction]⟩
  let loaded : Catalog := ⟨[rule], by decide +kernel⟩
  have accepted : ofJsonText text = .ok loaded := by
    have within : (Json.object [("rules", .null), ("about", .natural 1),
        ("rules", Rule.listToJson [rule])]).IsWithin Json.maxDepth :=
      Json.isWithin_object (List.forall_mem_cons.mpr ⟨⟨.null, Nat.zero_le _⟩,
        List.forall_mem_cons.mpr ⟨Json.isWithin_natural (by decide),
          List.forall_mem_singleton.mpr (Rule.isWithin_listToJson fits)⟩⟩)
    refine ofJsonText_eq_ok_iff.mpr (Rule.listOfText_of_object fits within ?_ ?_)
    · simp [Dict.ofList, loaded]
    · exact Json.read?_pretty within.plain
  obtain ⟨denoted, again, appends⟩ := ruleData_roundTrip accepted
  obtain ⟨exactly, behind⟩ := appends Builtin.catalog
  obtain ⟨extended, appended⟩ := exactly.mpr (by decide +kernel)
  exact ⟨loaded, accepted, rfl, again _ (.inl denoted), extended, appended,
    behind extended appended⟩

end Catalog

end Transcode
