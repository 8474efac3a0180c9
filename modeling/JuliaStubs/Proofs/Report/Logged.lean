import JuliaStubs.Report.Logged

/-!
# Logged steps over a list

What the steps of `foldSteps` come to when the events on the way are left out: a fold of their results (`result_foldSteps`), which
keeps whatever each step keeps (`foldSteps_induction`). The events are those of the single steps (`mem_log_foldSteps`). Steps that
commute with a change of their results do so over a list (`foldSteps_map`).
-/

namespace JuliaStubs.Report.Logged

/-- A logged result, changed. -/
def map {α β : Type} (change : α → β) (logged : Logged α) : Logged β := ⟨change logged.result, logged.log⟩

variable {α β γ : Type} {step : β → α → Logged β}

theorem map_eq_map_iff {change : α → β} {logged other : Logged α} :
    logged.map change = other.map change ↔ change logged.result = change other.result ∧ logged.log = other.log := by
  rw [map, map, Logged.mk.injEq]

theorem result_foldSteps (step : β → α → Logged β) (state : β) (items : List α) :
    (foldSteps step state items).result = items.foldl (fun state item => (step state item).result) state := by
  induction items generalizing state with
  | nil => rfl
  | cons item rest ih =>
    rw [foldSteps, andThen, List.foldl_cons]
    exact ih _

/-- Steps that commute with a change of their states commute with it over a list. -/
theorem foldSteps_map (change : β → γ) {step' : γ → α → Logged γ}
    (h : ∀ state item, step' (change state) item = (step state item).map change) (state : β) (items : List α) :
    foldSteps step' (change state) items = (foldSteps step state items).map change := by
  induction items generalizing state with
  | nil => rfl
  | cons item rest ih =>
    rw [foldSteps, h, foldSteps, andThen, andThen, map, ih]
    rfl

/-- Steps over a list of changed items are changed steps. -/
theorem foldSteps_map_items (step : β → α → Logged β) (change : γ → α) (state : β) (items : List γ) :
    foldSteps step state (items.map change) = foldSteps (fun state item => step state (change item)) state items := by
  induction items generalizing state with
  | nil => rfl
  | cons item rest ih => rw [List.map_cons, foldSteps, foldSteps, funext ih]

/-- Steps that do the same with every item of a list do the same with the list. -/
theorem foldSteps_congr {step' : β → α → Logged β} {items : List α}
    (h : ∀ state, ∀ item ∈ items, step state item = step' state item) (state : β) :
    foldSteps step state items = foldSteps step' state items := by
  induction items generalizing state with
  | nil => rfl
  | cons item rest ih =>
    have hrest := ih fun state other ho => h state other (List.mem_cons_of_mem _ ho)
    rw [foldSteps, foldSteps, h state item List.mem_cons_self, funext hrest]

/-- What holds at the start and is kept by the step of every item holds at the end. -/
theorem foldSteps_induction {P : β → Prop} {state : β} {items : List α} (hstart : P state)
    (hstep : ∀ state, ∀ item ∈ items, P state → P (step state item).result) : P (foldSteps step state items).result := by
  induction items generalizing state with
  | nil => exact hstart
  | cons item rest ih =>
    rw [foldSteps, andThen]
    refine ih (hstep _ item List.mem_cons_self hstart) fun state other ho => ?_
    exact hstep state other (List.mem_cons_of_mem _ ho)

/-- An event of which each item alone decides whether its step reports it is reported when one of the items does. -/
theorem mem_log_foldSteps {event : Event} {reports : α → Prop}
    (h : ∀ state item, event ∈ (step state item).log ↔ reports item) {state : β} {items : List α} :
    event ∈ (foldSteps step state items).log ↔ ∃ item ∈ items, reports item := by
  induction items generalizing state with
  | nil => exact ⟨fun hm => (nomatch hm), fun ⟨_, hi, _⟩ => (nomatch hi)⟩
  | cons item rest ih =>
    rw [foldSteps, andThen, List.mem_append, h, ih]
    simp only [List.mem_cons, exists_eq_or_imp]

/-- What the log of the steps tells is what the logs of the single steps tell, where that depends on the items alone. -/
theorem filterMap_log_foldSteps {told? : Event → Option γ} {told : α → List γ}
    (h : ∀ state item, (step state item).log.filterMap told? = told item) (state : β) (items : List α) :
    (foldSteps step state items).log.filterMap told? = items.flatMap told := by
  induction items generalizing state with
  | nil => rfl
  | cons item rest ih =>
    rw [foldSteps, andThen, List.filterMap_append, h, List.flatMap_cons]
    exact congrArg _ (ih _)

/-- What holds of every event that a step can report holds of every event of the steps. -/
theorem forall_mem_log_foldSteps {P : Event → Prop} (h : ∀ state item, ∀ event ∈ (step state item).log, P event) {state : β}
    {items : List α} : ∀ event ∈ (foldSteps step state items).log, P event := by
  induction items generalizing state with
  | nil => exact fun _ hm => nomatch hm
  | cons item rest ih =>
    rw [foldSteps, andThen]
    intro event hm
    rcases List.mem_append.mp hm with hm | hm
    · exact h state item event hm
    · exact ih event hm

end JuliaStubs.Report.Logged
