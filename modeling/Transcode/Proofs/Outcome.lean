import Transcode.Proofs.Lists

/-!
# Steps that can fail

When a sequence of steps that can fail comes to its end, so does each step.
-/

namespace Transcode

variable {ε α β : Type}

/-- A sequence of two steps succeeds if the first one does, and the second from there. -/
theorem bind_eq_ok_iff {first : Except ε α} {next : α → Except ε β} {last : β} :
    (first >>= next) = .ok last ↔ ∃ value, first = .ok value ∧ next value = .ok last := by
  cases first <;> simp [bind, Except.bind]

/-- What is made of a first outcome without failing is made exactly if that is a success. -/
theorem exists_bind_eq_ok_iff {first : Except ε α} {next : α → Except ε β}
    (always : ∀ value, ∃ last, next value = .ok last) :
    (∃ last, (first >>= next) = .ok last) ↔ ∃ value, first = .ok value := by
  constructor
  · rintro ⟨last, made⟩
    obtain ⟨value, isFirst, _⟩ := bind_eq_ok_iff.mp made
    exact ⟨value, isFirst⟩
  · rintro ⟨value, isFirst⟩
    obtain ⟨last, made⟩ := always value
    exact ⟨last, bind_eq_ok_iff.mpr ⟨value, isFirst, made⟩⟩

/-- What passes a test is a success. -/
theorem exists_tested {outcome : Except ε α} {test : α → Bool}
    (tested : outcome.toOption.any test) : ∃ value, outcome = .ok value ∧ test value := by
  cases outcome with
  | error failure => cases tested
  | ok value => exact ⟨value, rfl, tested⟩

theorem check_eq_ok_iff {first : Except ε Unit} {second : Unit → Except ε Unit} :
    (first >>= second) = .ok () ↔ first = .ok () ∧ second () = .ok () := by
  cases first <;> simp [bind, Except.bind]

/-- What is made of a success is a success, and of nothing else. -/
theorem map_eq_ok_iff {outcome : Except ε α} {f : α → β} {value : β} :
    outcome.map f = .ok value ↔ ∃ x, outcome = .ok x ∧ f x = value := by
  cases outcome <;> simp [Except.map]

/-- Putting a failure in other words changes no success. -/
theorem mapError_eq_ok_iff {φ : Type} {outcome : Except ε α} {change : ε → φ} {value : α} :
    outcome.mapError change = .ok value ↔ outcome = .ok value := by
  cases outcome <;> simp [Except.mapError]

/-- A check of all items passes if it passes for each. -/
theorem forM_eq_ok_iff {check : α → Except ε Unit} {items : List α} :
    items.forM check = .ok () ↔ ∀ item ∈ items, check item = .ok () := by
  induction items with
  | nil => simp [pure, Except.pure]
  | cons item rest ih =>
      change (check item >>= fun _ => rest.forM check) = .ok () ↔ _
      rw [check_eq_ok_iff, ih, List.forall_mem_cons]

/-- A step that is made for all items gives the results of each. -/
theorem mapM_eq_ok_iff {step : α → Except ε β} {items : List α} {results : List β} :
    items.mapM step = .ok results ↔
      List.Forall₂ (fun item result => step item = .ok result) items results := by
  induction items generalizing results with
  | nil => simp [pure, Except.pure, eq_comm]
  | cons item rest ih =>
      rw [List.mapM_cons, bind_eq_ok_iff, List.forall₂_cons_left_iff]
      refine exists_congr fun result => ?_
      rw [bind_eq_ok_iff, exists_and_left]
      simp only [ih, pure, Except.pure, Except.ok.injEq, @eq_comm _ results]

/-- What every step keeps holds at the end. -/
theorem foldlM_induction {motive : β → Prop} {step : β → α → Except ε β} {items : List α}
    {start last : β}
    (keep : ∀ before, ∀ item ∈ items, ∀ after, motive before → step before item = .ok after →
      motive after)
    (initial : motive start) (done : items.foldlM step start = .ok last) : motive last := by
  induction items generalizing start with
  | nil =>
      cases done
      exact initial
  | cons item rest ih =>
      rw [List.foldlM_cons, bind_eq_ok_iff] at done
      obtain ⟨next, first, later⟩ := done
      exact ih (fun before other member => keep before other (List.mem_cons_of_mem item member))
        (keep start item List.mem_cons_self next initial first) later

/-- A sequence of steps comes to its end if every step succeeds after those before it. -/
theorem exists_foldlM_eq_ok {motive : β → Prop} {step : β → α → Except ε β} {items : List α}
    {start : β}
    (each : ∀ before, ∀ item ∈ items, motive before →
      ∃ after, step before item = .ok after ∧ motive after)
    (initial : motive start) : ∃ last, items.foldlM step start = .ok last ∧ motive last := by
  induction items generalizing start with
  | nil => exact ⟨start, rfl, initial⟩
  | cons item rest ih =>
      obtain ⟨next, stepped, kept⟩ := each start item List.mem_cons_self initial
      obtain ⟨last, done, final⟩ :=
        ih (fun before other member => each before other (List.mem_cons_of_mem item member)) kept
      exact ⟨last, by rw [List.foldlM_cons, bind_eq_ok_iff]; exact ⟨next, stepped, done⟩, final⟩

/-- An outcome under other names, whether it is a result or a failure. -/
def translate {ε φ α β : Type} (onError : ε → φ) (onOk : α → β) : Except ε α → Except φ β
  | .ok value => .ok (onOk value)
  | .error error => .error (onError error)

/-- Steps that do the same under other names come to the same under other names. -/
theorem foldlM_translate {φ γ δ : Type} {onError : ε → φ} {onState : β → δ} {onItem : α → γ}
    {step : β → α → Except ε β} {other : δ → γ → Except φ δ}
    (same : ∀ state item, other (onState state) (onItem item) =
      translate onError onState (step state item)) (items : List α) (start : β) :
    (items.map onItem).foldlM other (onState start) =
      translate onError onState (items.foldlM step start) := by
  induction items generalizing start with
  | nil => rfl
  | cons item rest ih =>
      rw [List.map_cons, List.foldlM_cons, List.foldlM_cons, same]
      cases step start item with
      | error error => rfl
      | ok next => exact ih next

/-- Steps that may give nothing all give something. -/
theorem mapM_eq_some_iff {step : α → Option β} {items : List α} {results : List β} :
    items.mapM step = some results ↔
      List.Forall₂ (fun item result => step item = some result) items results := by
  induction items generalizing results with
  | nil => simp [eq_comm]
  | cons item rest ih =>
      rw [List.mapM_cons, List.forall₂_cons_left_iff]
      simp only [Option.bind_eq_bind, Option.bind_eq_some_iff, Option.pure_def, Option.some.injEq,
        ih, exists_and_left, @eq_comm _ results]

/-- Steps that do the same to the items do the same to the list. -/
theorem mapM_congr_of_mem {step other : α → Option β} {items : List α}
    (same : ∀ item ∈ items, step item = other item) : items.mapM step = items.mapM other := by
  induction items with
  | nil => rfl
  | cons item rest ih =>
      obtain ⟨here, later⟩ := List.forall_mem_cons.mp same
      rw [List.mapM_cons, List.mapM_cons, here, ih later]

/-- Steps that show the same on corresponding things show the same on lists of them. -/
theorem map_mapM_eq {α' β' γ : Type} {step : α → Option β} {other : α' → Option β'} {shown : β → γ}
    {otherShown : β' → γ} {items : List α} {others : List α'}
    (same : List.Forall₂ (fun item another => (step item).map shown =
      (other another).map otherShown) items others) :
    (items.mapM step).map (List.map shown) = (others.mapM other).map (List.map otherShown) := by
  induction same with
  | nil => rfl
  | @cons item another rest later first _ ih =>
      rw [List.mapM_cons, List.mapM_cons]
      cases left : step item <;> cases right : other another <;> rw [left, right] at first
      · rfl
      · cases first
      · cases first
      · cases left : rest.mapM step <;> cases right : later.mapM other <;> rw [left, right] at ih
        · rfl
        · cases ih
        · cases ih
        · exact congrArg some (congrArg₂ List.cons (Option.some.inj first) (Option.some.inj ih))

end Transcode
