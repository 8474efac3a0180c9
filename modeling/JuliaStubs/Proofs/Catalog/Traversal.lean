import JuliaStubs.Proofs.Catalog.Ascent

/-!
# Visits of a traversal

All that a step of the traversal can add to the visits is said once, in `Traced`. Whatever the dump says of its classes, repeated names
and cycles of parents included, a traversal admits each class once and after its parent (`visits_grounded`): a class is visited once,
and a parent is taken from the classes admitted so far.
-/

namespace JuliaStubs.Catalog

open Dump

/-- Visits in the order of the loop: each name is new, it is the root or inherits from a visited class, and its verdict is that of the
classes admitted before. -/
inductive Traced (host : Host) (root : String) : List String → List String → List Visit → Prop where
  | nil {visited admitted : List String} : Traced host root visited admitted []
  | cons {visited admitted : List String} {visit : Visit} {rest : List Visit} :
      visit.name ∉ visited → (visit.name = root ∨ ∃ p ∈ visited, visit.name ∈ host.inheriters p) →
      visit.verdict = Traversal.verdict host root admitted visit.name →
      Traced host root (visit.name :: visited) (Traversal.admittedAfter admitted visit) rest →
      Traced host root visited admitted (visit :: rest)

theorem Traversal.visitFrom_traced {host : Host} {root : String} {queue visited admitted : List String}
    (hq : ∀ name ∈ queue, name = root ∨ ∃ p ∈ visited, name ∈ host.inheriters p) :
    Traced host root visited admitted (visitFrom host root queue visited admitted) := by
  fun_induction visitFrom host root queue visited admitted with
  | case1 => exact .nil
  | case2 visited admitted name rest hseen ih => exact ih fun other ho => hq other (List.mem_cons_of_mem _ ho)
  | case3 visited admitted name rest hnew visit ih =>
    refine .cons (fun hin => hnew (List.contains_iff_mem.mpr hin)) (hq name List.mem_cons_self) rfl (ih fun other ho => ?_)
    rcases List.mem_append.mp ho with ho | ho
    · refine (hq other (List.mem_cons_of_mem _ ho)).imp id ?_
      rintro ⟨p, hp, hin⟩
      exact ⟨p, List.mem_cons_of_mem _ hp, hin⟩
    · exact Or.inr ⟨name, List.mem_cons_self, List.mem_mergeSort.mp ho⟩

theorem visits_traced (host : Host) (root : String) : Traced host root [] [] (visits host root) :=
  Traversal.visitFrom_traced fun _ h => Or.inl (List.mem_singleton.mp h)

/-- Each admitted class is new to those admitted before it, and its parent is among them. -/
inductive Grounded : List String → List Visit → Prop where
  | nil {admitted : List String} : Grounded admitted []
  | cons {admitted : List String} {visit : Visit} {rest : List Visit} :
      (∀ parent, visit.verdict = .admitted parent → visit.name ∉ admitted ∧ ∀ p, parent = some p → p ∈ admitted) →
      Grounded (Traversal.admittedAfter admitted visit) rest → Grounded admitted (visit :: rest)

namespace Traversal

variable {host : Host} {root name : String} {admitted : List String}

/-- The parent of an admitted class is admitted. -/
theorem parent_of_verdict {p : String} (h : verdict host root admitted name = .admitted (some p)) : p ∈ admitted := by
  unfold verdict at h
  split at h
  · nomatch h
  · split at h
    · nomatch h
    · split at h
      · rename_i parent hn
        obtain rfl := Option.some.inj (Verdict.admitted.inj h)
        obtain ⟨_, habove⟩ := nearestAdmitted?_iff.mp hn
        exact habove.wanted_of
      · nomatch h

theorem mem_admittedAfter {visit : Visit} {other : String} : other ∈ admittedAfter admitted visit ↔
    other ∈ admitted ∨ visit.name = other ∧ ∃ parent, visit.verdict = .admitted parent := by
  rw [admittedAfter]
  cases hv : visit.verdict <;> simp [eq_comm, or_comm]

end Traversal

theorem Traced.grounded {host : Host} {root : String} {visited admitted : List String} {visits : List Visit}
    (h : Traced host root visited admitted visits) (hsub : ∀ name ∈ admitted, name ∈ visited) : Grounded admitted visits := by
  induction h with
  | nil => exact .nil
  | cons hnew _ hverdict _ ih =>
    refine .cons (fun parent hv => ⟨fun hin => hnew (hsub _ hin), ?_⟩) (ih fun other ho => ?_)
    · rintro p rfl
      exact Traversal.parent_of_verdict (hverdict.symm.trans hv)
    · rcases Traversal.mem_admittedAfter.mp ho with ho | ⟨rfl, _⟩
      · exact List.mem_cons_of_mem _ (hsub other ho)
      · exact List.mem_cons_self

/-- A traversal admits each class once and after its parent. -/
theorem visits_grounded (host : Host) (root : String) : Grounded [] (visits host root) :=
  (visits_traced host root).grounded fun _ h => nomatch h

end JuliaStubs.Catalog
