import JuliaStubs.Proofs.Catalog.Traversal
import Mathlib.Logic.Function.Iterate

/-!
# The loop of a traversal

What a traversal does on any dump, with the loop taken turn by turn (`Worklist.turn`). Its queue is empty after at most one turn more
than the dump has classes (`iterate_turn_start`): every class of the dump is claimed at most once, by the visit of the parent it names,
however often names repeat. What later statements use of the order of visits and of the verdicts is read off their trace.
-/

namespace JuliaStubs.Catalog

open Dump

/-! ## Turns -/

/-- The state of the loop. -/
structure Worklist where
  /-- The names that are still to be looked at. -/
  queue : List String
  visited : List String
  admitted : List String
  visits : List Visit

namespace Worklist

variable {host : Host} {root : String}

/-- The state before the first turn. -/
def start (root : String) : Worklist := ⟨[root], [], [], []⟩

/-- One turn: the name in front is visited, unless it was before, and its inheriters are queued in name order. -/
def turn (host : Host) (root : String) (w : Worklist) : Worklist :=
  match w.queue with
  | [] => w
  | name :: rest =>
    if w.visited.contains name then { w with queue := rest }
    else
      let visit : Visit := ⟨name, Traversal.verdict host root w.admitted name⟩
      { queue := rest ++ Text.sortNames (host.inheriters name)
        visited := name :: w.visited
        admitted := Traversal.admittedAfter w.admitted visit
        visits := w.visits ++ [visit] }

/-- The number of turns that are left: a class of the dump that is not queued yet will be when its parent is visited, if ever. -/
def left (host : Host) (w : Worklist) : Nat := (Traversal.unclaimed host w.visited).length + w.queue.length

theorem left_start (host : Host) (root : String) : (start root).left host ≤ host.classes.length + 1 :=
  Nat.add_le_add_right (List.length_filter_le _ _) 1

theorem turn_of_nil {w : Worklist} (h : w.queue = []) : w.turn host root = w := by
  rw [turn, h]

theorem left_turn {w : Worklist} {name : String} {rest : List String} (h : w.queue = name :: rest) :
    (w.turn host root).left host + 1 = w.left host := by
  rw [turn, h, left, left, h]
  dsimp only
  split
  · rw [List.length_cons]
    exact Nat.add_assoc _ _ _
  · rename_i hnew
    have hclaim := Traversal.length_unclaimed_cons host (Bool.eq_false_iff.mpr hnew)
    simp only [List.length_append, List.length_cons, Text.sortNames, List.length_mergeSort]
    omega

/-- The visits that a state leads to. -/
def outcome (host : Host) (root : String) (w : Worklist) : List Visit :=
  w.visits ++ Traversal.visitFrom host root w.queue w.visited w.admitted

/-- A turn changes nothing about what the state leads to. -/
theorem outcome_turn (w : Worklist) : (w.turn host root).outcome host root = w.outcome host root := by
  cases hq : w.queue with
  | nil => rw [turn_of_nil hq]
  | cons name rest =>
    rw [outcome, outcome, turn, hq, Traversal.visitFrom]
    dsimp only
    split
    · rfl
    · rw [List.append_assoc, List.singleton_append]

/-- As many turns as are left empty the queue, and the visits are then those of the recursion. -/
theorem iterate_turn {w : Worklist} {turns : Nat} (h : w.left host ≤ turns) :
    ((turn host root)^[turns] w).queue = [] ∧ ((turn host root)^[turns] w).visits = w.outcome host root := by
  induction turns generalizing w with
  | zero =>
    have hq : w.queue = [] := by
      rw [left] at h
      exact List.length_eq_zero_iff.mp (by omega)
    refine ⟨hq, ?_⟩
    rw [outcome, hq, Traversal.visitFrom, List.append_nil]
    rfl
  | succ turns ih =>
    rw [Function.iterate_succ_apply, ← outcome_turn]
    cases hq : w.queue with
    | nil =>
      have hstop : (turn host root)^[turns] w = w := Function.iterate_fixed (turn_of_nil hq) turns
      rw [turn_of_nil hq, hstop]
      refine ⟨hq, ?_⟩
      rw [outcome, hq, Traversal.visitFrom, List.append_nil]
    | cons name rest =>
      have hleft : (w.turn host root).left host + 1 = w.left host := left_turn hq
      exact ih (by omega)

/-- The loop ends on every dump. -/
theorem iterate_turn_start (host : Host) (root : String) :
    ((turn host root)^[host.classes.length + 1] (start root)).queue = [] ∧
      ((turn host root)^[host.classes.length + 1] (start root)).visits = Catalog.visits host root :=
  iterate_turn (left_start host root)

end Worklist

/-! ## Visits -/

namespace Traced

variable {host : Host} {root : String} {visited admitted : List String} {before after : List Visit}

/-- What follows some visits is traced from the state they lead to. -/
theorem of_append (h : Traced host root visited admitted (before ++ after)) :
    Traced host root ((before.map Visit.name).reverse ++ visited) (before.foldl Traversal.admittedAfter admitted) after := by
  induction before generalizing visited admitted with
  | nil => exact h
  | cons visit rest ih =>
    cases h with
    | cons _ _ _ h =>
      have hrest := ih h
      rwa [List.map_cons, List.reverse_cons, List.append_assoc, List.singleton_append, List.foldl_cons]

/-- No name is visited twice. -/
theorem nodup (h : Traced host root visited admitted after) :
    (after.map Visit.name).Nodup ∧ ∀ visit ∈ after, visit.name ∉ visited := by
  induction h with
  | nil => exact ⟨List.nodup_nil, fun _ h => nomatch h⟩
  | cons hnew _ _ _ ih =>
    obtain ⟨hnodup, hapart⟩ := ih
    refine ⟨List.nodup_cons.mpr ⟨fun hin => ?_, hnodup⟩, fun other ho => ?_⟩
    · obtain ⟨other, ho, hname⟩ := List.mem_map.mp hin
      exact hapart other ho (hname ▸ List.mem_cons_self)
    · rcases List.mem_cons.mp ho with rfl | ho
      · exact hnew
      · exact fun hin => hapart other ho (List.mem_cons_of_mem _ hin)

end Traced

/-- The classes admitted by some visits. -/
theorem Traversal.mem_foldl_admittedAfter {visits : List Visit} {admitted : List String} {name : String} :
    name ∈ visits.foldl admittedAfter admitted ↔
      name ∈ admitted ∨ ∃ visit ∈ visits, visit.name = name ∧ ∃ parent, visit.verdict = .admitted parent := by
  induction visits generalizing admitted with
  | nil => simp
  | cons visit rest ih =>
    rw [List.foldl_cons, ih, mem_admittedAfter, or_assoc]
    simp only [List.mem_cons, or_and_right, exists_or, exists_eq_left]

/-! ## Verdicts -/

/-- A class that may be admitted: its partition is known, and it is exposed and enabled. -/
def Admissible (host : Host) (name : String) : Prop :=
  (host.partition name).isRecognized = true ∧ host.flag name ClassInfo.isExposed = true ∧
    host.flag name ClassInfo.isEnabled = true

instance (host : Host) (name : String) : Decidable (Admissible host name) :=
  inferInstanceAs (Decidable (_ ∧ _ ∧ _))

namespace Traversal

variable {host : Host} {root name : String} {admitted : List String}

theorem exclusion?_eq_none_iff : exclusion? host name = none ↔ Admissible host name := by
  rw [exclusion?, Admissible]
  cases (host.partition name).isRecognized <;> cases host.flag name ClassInfo.isExposed <;>
    cases host.flag name ClassInfo.isEnabled <;> simp

/-- The verdict on a class that may be admitted. -/
theorem verdict_of_admissible (h : Admissible host name) : verdict host root admitted name =
    if name = root then .admitted none
    else
      match nearestAdmitted? host admitted name with
      | some parent => .admitted (some parent)
      | none => .orphan ((host.parent? name).getD "") := by
  unfold verdict
  split
  · rename_i why hwhy
    nomatch (exclusion?_eq_none_iff.mpr h).symm.trans hwhy
  · rfl

/-- The verdict excludes what may not be admitted, and nothing else. -/
theorem admissible_iff_verdict : Admissible host name ↔ ∀ why, verdict host root admitted name ≠ .excluded why := by
  rw [← exclusion?_eq_none_iff, verdict]
  cases exclusion? host name with
  | some why => exact ⟨fun h => (nomatch h), fun h => absurd rfl (h why)⟩
  | none =>
    refine ⟨fun _ why h => ?_, fun _ => rfl⟩
    dsimp only at h
    split at h
    · nomatch h
    · split at h <;> nomatch h

/-- What is admitted may be admitted. -/
theorem admissible_of_verdict {parent : Option String} (h : verdict host root admitted name = .admitted parent) :
    Admissible host name :=
  admissible_iff_verdict.mpr fun _ hv => nomatch h.symm.trans hv

/-- The root alone is admitted without a parent. -/
theorem root_iff_of_verdict {parent : Option String} (h : verdict host root admitted name = .admitted parent) :
    parent = none ↔ name = root := by
  rw [verdict_of_admissible (admissible_of_verdict h)] at h
  split at h
  · rename_i hn
    exact ⟨fun _ => hn, fun _ => (Verdict.admitted.inj h).symm⟩
  · rename_i hn
    refine ⟨fun hp => ?_, fun he => absurd he hn⟩
    split at h
    · rw [hp] at h
      nomatch Verdict.admitted.inj h
    · nomatch h

/-- The parent of an admitted class is the nearest class above it that was admitted before. -/
theorem nearest_of_verdict {p : String} (h : verdict host root admitted name = .admitted (some p)) :
    ∃ n, NearestAbove host (· ∈ admitted) n name p := by
  rw [verdict_of_admissible (admissible_of_verdict h)] at h
  split at h
  · nomatch Verdict.admitted.inj h
  · split at h
    · rename_i parent hp
      obtain rfl := Option.some.inj (Verdict.admitted.inj h)
      exact nearestAdmitted?_iff.mp hp
    · nomatch h

end Traversal

/-- Visits exclude what may not be admitted, and nothing else. -/
theorem Traced.admissible_iff {host : Host} {root : String} {visited admitted : List String} {visits : List Visit}
    (h : Traced host root visited admitted visits) :
    ∀ visit ∈ visits, Admissible host visit.name ↔ ∀ why, visit.verdict ≠ .excluded why := by
  induction h with
  | nil => exact fun _ hm => nomatch hm
  | cons _ _ hverdict _ ih =>
    intro other ho
    rcases List.mem_cons.mp ho with rfl | ho
    · rw [hverdict]
      exact Traversal.admissible_iff_verdict
    · exact ih other ho

end JuliaStubs.Catalog
