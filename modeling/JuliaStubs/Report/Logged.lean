import JuliaStubs.Report.Event

/-!
# Results with a log

A result together with the events on the way to it, in the order in which they happened.
-/

namespace JuliaStubs.Report

/-- A result and the events on the way to it. -/
structure Logged (α : Type) where
  result : α
  log : List Event
deriving DecidableEq

namespace Logged

/-- A result without events. -/
def silent {α : Type} (result : α) : Logged α := ⟨result, []⟩

/-- A logged step after another one. -/
def andThen {α β : Type} (first : Logged α) (step : α → Logged β) : Logged β :=
  let second := step first.result
  ⟨second.result, first.log ++ second.log⟩

/-- Steps over a list, each from the result of the one before. -/
def foldSteps {α β : Type} (step : β → α → Logged β) : β → List α → Logged β
  | state, [] => silent state
  | state, item :: rest => (step state item).andThen fun state => foldSteps step state rest

end Logged

/-- The results that were not dropped. -/
def kept {α : Type} (outcomes : List (Except Drop α)) : List α := outcomes.filterMap Except.toOption

/-- The reason for which an outcome was dropped. -/
def dropReason? {α : Type} : Except Drop α → Option Drop
  | .ok _ => none
  | .error why => some why

/-- The reasons for the results that were dropped. -/
def drops {α : Type} (outcomes : List (Except Drop α)) : List Drop := outcomes.filterMap dropReason?

end JuliaStubs.Report
