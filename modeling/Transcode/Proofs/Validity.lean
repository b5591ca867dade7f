import Transcode.Proofs.Lists
import Transcode.Proofs.Outcome
import Transcode.Rule.Basic

/-!
# Valid rules

What the validation of a rule says about its patterns, condition by condition
(`Rule.Valid`, `Rule.valid_of_validate`). Every rule of a catalog is valid
(`Catalog.valid_of_mem`).
-/

namespace Transcode

/-! ### Checks -/

@[simp] theorem demand_eq_ok_iff {condition : Bool} {fault : PatternFault} :
    demand condition fault = .ok () ↔ condition = true := by
  unfold demand
  split <;> simp [*]

theorem demandEnds_eq_ok_iff {test : String → Bool} {fault : String → PatternFault}
    {edge : PatternEdge} :
    demandEnds test fault edge = .ok () ↔ test edge.source = true ∧ test edge.target = true := by
  rw [demandEnds, check_eq_ok_iff, demand_eq_ok_iff, demand_eq_ok_iff]

/-! ### Source patterns -/

/-- The nodes of a valid pattern have different names. -/
theorem SourcePattern.nodup_of_validateNodes {before : List String} {nodes : List PatternNode}
    (valid : validateNodes before nodes = .ok ()) :
    (nodes.map (·.name)).Nodup ∧ ∀ node ∈ nodes, node.name ∉ before := by
  induction nodes generalizing before with
  | nil => exact ⟨List.nodup_nil, by simp⟩
  | cons node rest ih =>
      unfold validateNodes at valid
      simp only [check_eq_ok_iff, demand_eq_ok_iff] at valid
      obtain ⟨_, unused, _, later⟩ := valid
      obtain ⟨distinct, apart⟩ := ih later
      refine ⟨List.nodup_cons.mpr ⟨fun repeated => ?_, distinct⟩, ?_⟩
      · obtain ⟨other, member, same⟩ := List.mem_map.mp repeated
        exact apart other member (same ▸ List.mem_cons_self)
      · intro other member
        rcases List.mem_cons.mp member with rfl | member
        · simpa using unused
        · exact fun known => apart other member (List.mem_cons_of_mem _ known)

/-! ### Target patterns -/

/-- A template has a node to copy, or says itself what its node is. -/
def TemplateNode.Complete (bound : List String) (node : TemplateNode) : Prop :=
  match node.copyFrom with
  | some origin => origin ∈ bound
  | none => node.kind.isSome ∧ node.label.isSome

/-- The nodes of a valid target have different names, none of the source, and all that they need. -/
theorem TargetPattern.of_validateNodes {bound before : List String} {nodes : List TemplateNode}
    (valid : validateNodes bound before nodes = .ok ()) :
    (nodes.map (·.name)).Nodup ∧ ∀ node ∈ nodes,
      node.name ∉ before ∧ node.name ∉ bound ∧ node.Complete bound := by
  induction nodes generalizing before with
  | nil => exact ⟨List.nodup_nil, by simp⟩
  | cons node rest ih =>
      unfold validateNodes at valid
      simp only [check_eq_ok_iff, demand_eq_ok_iff] at valid
      obtain ⟨_, unbound, unused, origin, _, later⟩ := valid
      obtain ⟨distinct, apart⟩ := ih later
      refine ⟨List.nodup_cons.mpr ⟨fun repeated => ?_, distinct⟩, ?_⟩
      · obtain ⟨other, member, same⟩ := List.mem_map.mp repeated
        exact (apart other member).1 (same ▸ List.mem_cons_self)
      · intro other member
        rcases List.mem_cons.mp member with rfl | member
        · refine ⟨by simpa using unused, by simpa using unbound, ?_⟩
          unfold validateOrigin at origin
          unfold TemplateNode.Complete
          split at origin <;> simp_all
        · obtain ⟨notBefore, notBound, complete⟩ := apart other member
          exact ⟨fun known => notBefore (List.mem_cons_of_mem _ known), notBound, complete⟩

/-- The conditions that the validation of a rule checks, as far as they matter for finding and
applying its matches. -/
structure Rule.Valid (rule : Rule) : Prop where
  names : rule.sourcePattern.names.Nodup
  hasReplaced : ∃ node ∈ rule.sourcePattern.nodes, node.role = .replaced
  edgeEnds : ∀ edge ∈ rule.sourcePattern.edges,
    edge.source ∈ rule.sourcePattern.names ∧ edge.target ∈ rule.sourcePattern.names
  hasTemplate : rule.targetPattern.nodes ≠ []
  fragmentNames : rule.targetPattern.names.Nodup
  templates : ∀ template ∈ rule.targetPattern.nodes,
    template.name ∉ rule.sourcePattern.names ∧ template.Complete rule.sourcePattern.names
  fragmentEnds : ∀ edge ∈ rule.targetPattern.edges,
    rule.targetPattern.canEnd rule.sourcePattern edge.source ∧
      rule.targetPattern.canEnd rule.sourcePattern edge.target
  root : ∀ name, rule.targetPattern.root = some name → name ∈ rule.targetPattern.names
  boundary : ∀ entry ∈ rule.targetPattern.boundary.entries,
    rule.sourcePattern.isReplaced entry.1 ∧ entry.2 ∈ rule.targetPattern.names

namespace Rule

variable {rule : Rule}

/-- A valid rule has a percentage and valid patterns. -/
theorem of_validate (valid : rule.validate = .ok ()) :
    rule.confidence ≤ 100 ∧ rule.sourcePattern.validate = .ok () ∧
      rule.targetPattern.validate rule.sourcePattern = .ok () := by
  unfold validate at valid
  by_cases blank : Text.isBlankText rule.id = true
  · simp [blank, throw, throwThe, MonadExceptOf.throw, bind, Except.bind] at valid
  · by_cases high : 100 < rule.confidence
    · simp [blank, high, throw, throwThe, MonadExceptOf.throw, bind, Except.bind] at valid
    · simp only [blank, high, ↓reduceIte, Bool.false_eq_true] at valid
      split at valid
      · rename_i checked
        exact ⟨Nat.not_lt.mp high, check_eq_ok_iff.mp checked⟩
      · cases valid

/-- A rule that passes validation is valid. -/
theorem valid_of_validate (valid : rule.validate = .ok ()) : rule.Valid := by
  obtain ⟨_, source, target⟩ := of_validate valid
  simp only [SourcePattern.validate, check_eq_ok_iff, demand_eq_ok_iff, forM_eq_ok_iff,
    demandEnds_eq_ok_iff, List.contains_iff_mem] at source
  simp only [TargetPattern.validate, check_eq_ok_iff, demand_eq_ok_iff, forM_eq_ok_iff,
    demandEnds_eq_ok_iff, List.contains_iff_mem] at target
  obtain ⟨_, replaced, nodes, edges, _⟩ := source
  obtain ⟨nonempty, templates, links, root, boundary⟩ := target
  obtain ⟨distinct, complete⟩ := TargetPattern.of_validateNodes templates
  refine ⟨(SourcePattern.nodup_of_validateNodes nodes).1, by simpa using replaced, edges,
    by simpa using nonempty, distinct, fun template member => (complete template member).2,
    links, fun name named => root name (by simp [named]), boundary⟩

end Rule

/-- Valid lists have valid rules. -/
theorem validate_of_validateRules {before : List String} {rules : List Rule}
    (valid : validateRules before rules = .ok ()) : ∀ rule ∈ rules, rule.validate = .ok () := by
  induction rules generalizing before with
  | nil => simp
  | cons rule rest ih =>
      unfold validateRules at valid
      obtain ⟨first, later⟩ := check_eq_ok_iff.mp valid
      split at later
      · cases later
      · intro other member
        rcases List.mem_cons.mp member with rfl | member
        · exact first
        · exact ih later other member

/-- Valid lists have rules with different ids. -/
theorem nodup_of_validateRules {before : List String} {rules : List Rule}
    (valid : validateRules before rules = .ok ()) :
    (rules.map (·.id)).Nodup ∧ ∀ rule ∈ rules, rule.id ∉ before := by
  induction rules generalizing before with
  | nil => exact ⟨List.nodup_nil, by simp⟩
  | cons rule rest ih =>
      unfold validateRules at valid
      obtain ⟨_, later⟩ := check_eq_ok_iff.mp valid
      split at later
      · cases later
      · rename_i unused
        obtain ⟨distinct, apart⟩ := ih later
        refine ⟨List.nodup_cons.mpr ⟨fun repeated => ?_, distinct⟩, ?_⟩
        · obtain ⟨other, member, same⟩ := List.mem_map.mp repeated
          exact apart other member (same ▸ List.mem_cons_self)
        · refine List.forall_mem_cons.mpr ⟨by simpa using unused, fun other member known => ?_⟩
          exact apart other member (List.mem_cons_of_mem _ known)

namespace Catalog

variable (catalog : Catalog) {rule : Rule} (member : rule ∈ catalog.rules)

include member

theorem valid_of_mem : rule.Valid :=
  Rule.valid_of_validate (validate_of_validateRules catalog.valid rule member)

theorem confidence_le_of_mem : rule.confidence ≤ 100 :=
  (Rule.of_validate (validate_of_validateRules catalog.valid rule member)).1

theorem rule?_of_mem : catalog.rule? rule.id = some rule :=
  (find?_key_eq_some_iff Rule.id (nodup_of_validateRules catalog.valid).1).mpr ⟨member, rfl⟩

omit member in
theorem mem_of_mem_automated (member : rule ∈ catalog.automated) : rule ∈ catalog.rules :=
  (List.mem_filter.mp member).1

omit member in
theorem valid_of_mem_automated (member : rule ∈ catalog.automated) : rule.Valid :=
  catalog.valid_of_mem (catalog.mem_of_mem_automated member)

end Catalog

end Transcode
