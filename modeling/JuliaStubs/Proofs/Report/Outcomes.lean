import JuliaStubs.Report.Logged
import Mathlib.Data.List.Forall2

/-!
# Outcomes of steps

Steps that give a result or fail: a step after another one, and steps over a list, give results exactly when each of them does
(`bind_ok_iff`, `mapM_ok_iff`), and otherwise fail for the reason of one of them.
-/

namespace JuliaStubs.Report

/-! ## Results -/

/-- A step after another one gives a result when both do. -/
theorem bind_ok_iff {ε α β : Type} {first : Except ε α} {next : α → Except ε β} {result : β} :
    first >>= next = .ok result ↔ ∃ value, first = .ok value ∧ next value = .ok result := by
  cases first with
  | error fault => exact ⟨fun h => (nomatch h), fun ⟨_, h, _⟩ => (nomatch h)⟩
  | ok value =>
    refine ⟨fun h => ⟨value, rfl, h⟩, ?_⟩
    rintro ⟨_, ⟨⟩, h⟩
    exact h

/-- Steps over a list give results when each of them gives one. -/
theorem mapM_ok_iff {ε α β : Type} {step : α → Except ε β} {items : List α} {results : List β} :
    items.mapM step = .ok results ↔ List.Forall₂ (fun item result => step item = .ok result) items results := by
  induction items generalizing results with
  | nil =>
    rw [List.mapM_nil, List.forall₂_nil_left_iff]
    exact ⟨fun h => (Except.ok.inj h).symm, fun h => h ▸ rfl⟩
  | cons item rest ih =>
    rw [List.mapM_cons, bind_ok_iff, List.forall₂_cons_left_iff]
    refine exists_congr fun result => ?_
    simp only [bind_ok_iff, ih]
    constructor
    · rintro ⟨hr, others, ho, heq⟩
      exact ⟨others, hr, ho, (Except.ok.inj heq).symm⟩
    · rintro ⟨others, hr, ho, rfl⟩
      exact ⟨hr, others, ho, rfl⟩

theorem exists_mapM_iff {ε α β : Type} {step : α → Except ε β} {items : List α} :
    (∃ results, items.mapM step = .ok results) ↔ ∀ item ∈ items, ∃ result, step item = .ok result := by
  simp only [mapM_ok_iff]
  induction items with
  | nil => exact ⟨fun _ _ hi => (nomatch hi), fun _ => ⟨[], .nil⟩⟩
  | cons item rest ih =>
    rw [List.forall_mem_cons, ← ih]
    constructor
    · intro ⟨_, h⟩
      cases h with
      | cons hr hrest => exact ⟨⟨_, hr⟩, _, hrest⟩
    · rintro ⟨⟨result, hr⟩, others, hrest⟩
      exact ⟨result :: others, .cons hr hrest⟩

/-- Steps of which each does the same with its result. -/
theorem mapM_map {ε α β γ : Type} {step : α → Except ε β} {change : β → γ} {items : List α} :
    (items.mapM fun item => (step item).map change) = (items.mapM step).map (List.map change) := by
  induction items with
  | nil => rfl
  | cons item rest ih =>
    rw [List.mapM_cons, List.mapM_cons, ih]
    cases step item with
    | error why => rfl
    | ok result => cases rest.mapM step <;> rfl

theorem exists_of_forall₂ {α β : Type} {R : α → β → Prop} {items : List α} {results : List β}
    (h : List.Forall₂ R items results) {result : β} (hr : result ∈ results) : ∃ item ∈ items, R item result := by
  induction h with
  | nil => cases hr
  | cons hstep _ ih =>
    rcases List.mem_cons.mp hr with rfl | hr
    · exact ⟨_, List.mem_cons_self, hstep⟩
    · obtain ⟨item, hi, hR⟩ := ih hr
      exact ⟨item, List.mem_cons_of_mem _ hi, hR⟩

/-- What is said of each result is what is said of its item. -/
theorem forall_mem_iff_of_forall₂ {α β : Type} {R : α → β → Prop} {items : List α} {results : List β}
    (h : List.Forall₂ R items results) {P : α → Prop} {Q : β → Prop}
    (hiff : ∀ item ∈ items, ∀ result, R item result → (Q result ↔ P item)) :
    (∀ result ∈ results, Q result) ↔ ∀ item ∈ items, P item := by
  induction h with
  | nil => exact ⟨fun _ _ hm => (nomatch hm), fun _ _ hm => (nomatch hm)⟩
  | cons hstep _ ih =>
    rw [List.forall_mem_cons, List.forall_mem_cons, hiff _ List.mem_cons_self _ hstep]
    exact and_congr_right fun _ => ih fun item hi => hiff item (List.mem_cons_of_mem _ hi)

/-- Lists that tell the same have items that tell the same. -/
theorem forall₂_of_map_eq {α β : Type} {told : α → β} {items others : List α} (h : items.map told = others.map told) :
    List.Forall₂ (fun item other => told item = told other) items others := by
  rw [← List.forall₂_eq_eq_eq, List.forall₂_map_left_iff, List.forall₂_map_right_iff] at h
  exact h

/-- What the results tell is what the items tell, where each result tells the same as its item. -/
theorem map_eq_of_forall₂ {α β γ : Type} {R : α → β → Prop} {items : List α} {results : List β} (h : List.Forall₂ R items results)
    {told : α → γ} {tells : β → γ} (heq : ∀ item result, R item result → told item = tells result) :
    items.map told = results.map tells := by
  induction h with
  | nil => rfl
  | cons hstep _ ih => rw [List.map_cons, List.map_cons, heq _ _ hstep, ih]

theorem toOption_eq_some_iff {ε α : Type} {outcome : Except ε α} {result : α} :
    outcome.toOption = some result ↔ outcome = .ok result := by
  cases outcome with
  | error why => exact ⟨fun h => (nomatch h), fun h => (nomatch h)⟩
  | ok found => exact ⟨fun h => congrArg _ (Option.some.inj h), fun h => congrArg _ (Except.ok.inj h)⟩

/-- The result of a step does not depend on the words for its failure. -/
theorem toOption_mapError {ε ε' α : Type} (reword : ε → ε') (outcome : Except ε α) :
    (outcome.mapError reword).toOption = outcome.toOption := by
  cases outcome <;> rfl

/-! ## Reasons -/

theorem bind_error_iff {α β ε : Type} {first : Except ε α} {next : α → Except ε β} {why : ε} :
    first >>= next = .error why ↔ first = .error why ∨ ∃ value, first = .ok value ∧ next value = .error why := by
  cases first with
  | error reason =>
    constructor
    · exact fun h => Or.inl (congrArg _ (Except.error.inj h))
    · rintro (h | ⟨_, ⟨⟩, _⟩)
      exact congrArg _ (Except.error.inj h)
  | ok value =>
    constructor
    · exact fun h => Or.inr ⟨value, rfl, h⟩
    · rintro (⟨⟨⟩⟩ | ⟨_, ⟨⟩, h⟩)
      exact h

/-- Steps over a list fail with the reason of one of them. -/
theorem exists_of_mapM_error {α β ε : Type} {step : α → Except ε β} {items : List α} {why : ε}
    (h : items.mapM step = .error why) : ∃ item ∈ items, step item = .error why := by
  induction items with
  | nil =>
    rw [List.mapM_nil] at h
    cases h
  | cons item rest ih =>
    rw [List.mapM_cons] at h
    rcases bind_error_iff.mp h with hfail | ⟨first, _, h⟩
    · exact ⟨item, List.mem_cons_self, hfail⟩
    · rcases bind_error_iff.mp h with hfail | ⟨others, _, hdone⟩
      · obtain ⟨other, ho, hother⟩ := ih hfail
        exact ⟨other, List.mem_cons_of_mem _ ho, hother⟩
      · cases hdone

/-! ## Outcomes of a list -/

section Outcomes

variable {α β : Type} {change : α → β}

theorem kept_append (left right : List (Except Drop α)) : kept (left ++ right) = kept left ++ kept right := List.filterMap_append

theorem drops_append (left right : List (Except Drop α)) : drops (left ++ right) = drops left ++ drops right := List.filterMap_append

/-- Changing the results changes what is kept. -/
theorem kept_map (outcomes : List (Except Drop α)) : kept (outcomes.map (Except.map change)) = (kept outcomes).map change := by
  rw [kept, List.filterMap_map, kept, List.map_filterMap]
  congr 1
  funext outcome
  cases outcome <;> rfl

/-- Changing the results changes nothing about what is dropped. -/
theorem drops_map (outcomes : List (Except Drop α)) : drops (outcomes.map (Except.map change)) = drops outcomes := by
  rw [drops, List.filterMap_map, drops]
  congr 1
  funext outcome
  cases outcome <;> rfl

end Outcomes

end JuliaStubs.Report
