import JuliaStubs.Text.Sorted
import Mathlib.Data.String.Basic
import Mathlib.Data.List.Nodup

/-!
# Lists of sorted names

Sorting keeps the names of a list, each as often as it occurs, and forgets their order. Names that do not repeat ascend strictly
afterwards.
-/

namespace JuliaStubs.Text

variable {names : List String} {name : String}

theorem mem_sortNames : name ∈ sortNames names ↔ name ∈ names := List.mem_mergeSort

theorem nodup_sortNames : (sortNames names).Nodup ↔ names.Nodup := (List.mergeSort_perm _ _).nodup_iff

theorem pairwise_sortNames (names : List String) : (sortNames names).Pairwise (· ≤ ·) := by
  have hle : (sortNames names).Pairwise fun a b => decide (a ≤ b) = true :=
    List.pairwise_mergeSort (fun a b c hab hbc => by simp only [decide_eq_true_eq] at *; exact le_trans hab hbc)
      (fun a b => by simp only [Bool.or_eq_true, decide_eq_true_eq]; exact le_total a b) names
  exact hle.imp of_decide_eq_true

/-- Distinct names in order ascend. -/
theorem ascending_sortNames (h : names.Nodup) : (sortNames names).Pairwise (· < ·) :=
  (pairwise_sortNames names).imp₂ (fun _ _ hle hne => lt_of_le_of_ne hle hne) (nodup_sortNames.mpr h)

/-- Sorting forgets the order of names. -/
theorem sortNames_eq_of_perm {others : List String} (h : names.Perm others) : sortNames names = sortNames others := by
  have hsorted : (sortNames names).Perm (sortNames others) :=
    ((List.mergeSort_perm _ _).trans h).trans (List.mergeSort_perm _ _).symm
  exact hsorted.eq_of_pairwise (fun _ _ _ _ => le_antisymm) (pairwise_sortNames names) (pairwise_sortNames others)

end JuliaStubs.Text
