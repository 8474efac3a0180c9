import JuliaStubs.Dump.Basic
import JuliaStubs.Report.Event
import JuliaStubs.Text.Sorted

/-!
# Traversal of a dump

The classes of a dump are visited breadth first from a root, the inheriters of a class in name order. A class of a known partition
that is exposed and enabled is admitted under its nearest admitted ancestor; the inheriters of the others are visited all the same.
-/

namespace JuliaStubs.Catalog

open Dump Report

/-- What becomes of a visited class. -/
inductive Verdict where
  | excluded (why : Exclusion)
  /-- No ancestor is admitted; the parent it names, empty for none. -/
  | orphan (parent : String)
  | admitted (parent : Option String)
deriving DecidableEq

/-- A visited class and what becomes of it. -/
structure Visit where
  name : String
  verdict : Verdict
deriving DecidableEq

namespace Traversal

/-- Why a class cannot be admitted, if so. -/
def exclusion? (host : Host) (name : String) : Option Exclusion :=
  if !(host.partition name).isRecognized then some .unrecognized
  else if !host.flag name ClassInfo.isExposed then some .unexposed
  else if !host.flag name ClassInfo.isEnabled then some .disabled
  else none

/-- The classes of a dump whose name has not been seen. -/
def unseen (host : Host) (seen : List String) : List ClassInfo := host.classes.filter fun cls => !seen.contains cls.name

/-- Only a class of the dump has a parent, and once its name is seen there is one class less to see. -/
theorem length_unseen_cons (host : Host) {seen : List String} {name : String} (h : seen.contains name = false) :
    (unseen host (name :: seen)).length + (host.parent? name).toList.length ≤ (unseen host seen).length := by
  have hfilter : unseen host (name :: seen) = (unseen host seen).filter fun cls => !(cls.name == name) := by
    rw [unseen, unseen, List.filter_filter]
    exact List.filter_congr fun cls _ => by rw [List.contains_cons, Bool.not_or]
  rw [hfilter]
  cases hp : host.parent? name with
  | none => exact List.length_filter_le _ _
  | some parent =>
    obtain ⟨cls, hc, _⟩ := Option.bind_eq_some_iff.mp hp
    have hname : cls.name = name := by simpa using List.find?_some hc
    have hmem : cls ∈ host.classes := List.mem_reverse.mp (List.mem_of_find?_eq_some hc)
    refine List.length_filter_lt_length_iff_exists.mpr ⟨cls, List.mem_filter.mpr ⟨hmem, ?_⟩, ?_⟩
    · rw [hname, h]
      rfl
    · simp [hname]

/-- The first admitted name from a name upwards. A name that is seen again ends the search: the parents form a cycle. -/
def nearestFrom (host : Host) (admitted seen : List String) : Option String → Option String
  | none => none
  | some name =>
    if admitted.contains name then some name
    else if seen.contains name then none
    else nearestFrom host admitted (name :: seen) (host.parent? name)
termination_by current => (unseen host seen).length + current.toList.length
decreasing_by
  have := length_unseen_cons host (Bool.eq_false_iff.mpr ‹_›)
  simp only [Option.toList_some, List.length_singleton]
  omega

/-- The nearest ancestor of a class among those admitted so far. -/
def nearestAdmitted? (host : Host) (admitted : List String) (name : String) : Option String :=
  nearestFrom host admitted [] (host.parent? name)

/-- What becomes of a class, given the classes admitted so far. -/
def verdict (host : Host) (root : String) (admitted : List String) (name : String) : Verdict :=
  match exclusion? host name with
  | some why => .excluded why
  | none =>
    if name = root then .admitted none
    else
      match nearestAdmitted? host admitted name with
      | some parent => .admitted (some parent)
      | none => .orphan ((host.parent? name).getD "")

/-- The admitted classes after a visit. -/
def admittedAfter (admitted : List String) (visit : Visit) : List String :=
  match visit.verdict with
  | .admitted _ => visit.name :: admitted
  | _ => admitted

/-- The classes of a dump whose parent has not been visited. -/
def unclaimed (host : Host) (visited : List String) : List ClassInfo :=
  host.classes.filter fun cls => cls.parent.any fun parent => !visited.contains parent

/-- Visiting a new class claims its inheriters. -/
theorem length_unclaimed_cons (host : Host) {visited : List String} {name : String} (h : visited.contains name = false) :
    (unclaimed host (name :: visited)).length + (host.inheriters name).length = (unclaimed host visited).length := by
  unfold unclaimed Host.inheriters
  rw [List.length_map]
  induction host.classes with
  | nil => rfl
  | cons cls rest ih =>
    simp only [List.contains_cons] at ih ⊢
    cases hp : cls.parent with
    | none => simpa [List.filter_cons, hp] using ih
    | some parent =>
      by_cases hn : parent = name
      · subst hn
        simp only [List.filter_cons, hp, Option.any_some, BEq.rfl, Bool.true_or, Bool.not_true, h,
          Bool.not_false, if_true, Bool.false_eq_true, if_false, List.length_cons]
        omega
      · have h1 : (some parent == some name) = false := by simpa using hn
        have h2 : (parent == name) = false := by simpa using hn
        simp only [List.filter_cons, hp, Option.any_some, h1, h2, Bool.false_or, Bool.false_eq_true, if_false]
        by_cases hv : visited.contains parent = true
        · simpa only [hv, Bool.not_true, Bool.false_eq_true, if_false] using ih
        · simp only [hv, Bool.not_false, if_true, List.length_cons]
          omega

/-- Visits the classes of a queue and those reached from them, each once. -/
def visitFrom (host : Host) (root : String) (queue visited admitted : List String) : List Visit :=
  match queue with
  | [] => []
  | name :: rest =>
    if visited.contains name then visitFrom host root rest visited admitted
    else
      let visit : Visit := ⟨name, verdict host root admitted name⟩
      visit :: visitFrom host root (rest ++ Text.sortNames (host.inheriters name)) (name :: visited)
        (admittedAfter admitted visit)
termination_by (unclaimed host visited).length + queue.length
decreasing_by
  · simp only [List.length_cons]
    omega
  · have := length_unclaimed_cons host (Bool.eq_false_iff.mpr ‹_›)
    simp only [List.length_append, List.length_cons, Text.sortNames, List.length_mergeSort]
    omega

end Traversal

/-- The classes of a dump that are reached from a root, in the order of their visits. -/
def visits (host : Host) (root : String) : List Visit := Traversal.visitFrom host root [root] [] []

end JuliaStubs.Catalog
