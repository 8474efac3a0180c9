import JuliaStubs.Catalog.Traversal
import JuliaStubs.Proofs.Dump.Ancestry

/-!
# The search for an admitted ancestor

A class is placed by a loop that goes upwards from its parent and keeps the names it has seen. It stops at the first admitted name, and
without a result at a name that comes again. That loses nothing: none of the seen names is admitted, and their parents were seen or are
next (`Passed`), so above a name that comes again there are seen names only. The loop finds the nearest admitted ancestor of a class
whenever there is one (`nearestAdmitted?_iff`), on any dump.
-/

namespace JuliaStubs.Catalog.Traversal

open Dump

/-- What the loop knows when it comes to a name. -/
structure Passed (host : Host) (admitted seen : List String) (current : Option String) : Prop where
  not_admitted : ∀ name ∈ seen, name ∉ admitted
  parents : ∀ name ∈ seen, ∀ p, host.ParentLink name p → p ∈ seen ∨ current = some p

section Search

variable {host : Host} {admitted seen : List String} {name p : String}

theorem Passed.start (current : Option String) : Passed host admitted [] current where
  not_admitted _ h := nomatch h
  parents _ h := nomatch h

/-- A turn goes from a name that is not admitted to its parent. -/
theorem Passed.step (h : Passed host admitted seen (some name)) (hname : name ∉ admitted) :
    Passed host admitted (name :: seen) (host.parent? name) where
  not_admitted other ho := by
    rcases List.mem_cons.mp ho with rfl | ho
    · exact hname
    · exact h.not_admitted other ho
  parents other ho q hlink := by
    rcases List.mem_cons.mp ho with rfl | ho
    · exact .inr hlink
    · rcases h.parents other ho q hlink with hq | hq
      · exact .inl (List.mem_cons_of_mem _ hq)
      · obtain rfl := Option.some.inj hq
        exact .inl List.mem_cons_self

/-- No name above one that comes again is admitted. -/
theorem Passed.not_nearestAbove (h : Passed host admitted seen (some name)) (hname : name ∈ seen) (n : Nat) :
    ¬NearestAbove host (· ∈ admitted) n name p := by
  have hclosed : ∀ other ∈ seen, ∀ q, host.ParentLink other q → q ∈ seen := fun other ho q hlink =>
    (h.parents other ho q hlink).elim id fun hq => Option.some.inj hq ▸ hname
  have hseen : ∀ {m other}, NearestAbove host (· ∈ admitted) m other p → other ∈ seen → p ∈ seen := by
    intro m other habove
    induction habove with
    | parent hlink _ => exact fun ho => hclosed _ ho _ hlink
    | skip hlink _ _ ih => exact fun ho => ih (hclosed _ ho _ hlink)
  exact fun habove => h.not_admitted p (hseen habove hname) habove.wanted_of

/-- The loop ends at the name where it stands, if that is admitted, and otherwise at the nearest admitted name above. -/
theorem nearestFrom_eq_some_iff {current : Option String} (h : Passed host admitted seen current) :
    nearestFrom host admitted seen current = some p ↔ ∃ name, current = some name ∧
      (name ∈ admitted ∧ p = name ∨ name ∉ admitted ∧ ∃ n, NearestAbove host (· ∈ admitted) n name p) := by
  fun_induction nearestFrom host admitted seen current with
  | case1 seen => simp
  | case2 seen name hin =>
    have hin := List.contains_iff_mem.mp hin
    constructor
    · rintro ⟨⟩
      exact ⟨p, rfl, .inl ⟨hin, rfl⟩⟩
    · rintro ⟨_, ⟨⟩, ⟨_, rfl⟩ | ⟨hnot, _⟩⟩
      · rfl
      · exact absurd hin hnot
  | case3 seen name hnot hagain =>
    have hnot : name ∉ admitted := fun hin => hnot (List.contains_iff_mem.mpr hin)
    refine ⟨nofun, ?_⟩
    rintro ⟨_, ⟨⟩, ⟨hin, _⟩ | ⟨_, n, habove⟩⟩
    · exact absurd hin hnot
    · exact absurd habove (h.not_nearestAbove (List.contains_iff_mem.mp hagain) n)
  | case4 seen name hnot hnew ih =>
    have hnot : name ∉ admitted := fun hin => hnot (List.contains_iff_mem.mpr hin)
    rw [ih (h.step hnot)]
    constructor
    · intro hnext
      exact ⟨name, rfl, .inr ⟨hnot, exists_nearestAbove_iff.mpr hnext⟩⟩
    · rintro ⟨_, ⟨⟩, ⟨hin, _⟩ | ⟨_, habove⟩⟩
      · exact absurd hin hnot
      · exact exists_nearestAbove_iff.mp habove

theorem nearestAdmitted?_iff :
    nearestAdmitted? host admitted name = some p ↔ ∃ n, NearestAbove host (· ∈ admitted) n name p :=
  (nearestFrom_eq_some_iff (.start _)).trans exists_nearestAbove_iff.symm

end Search

end JuliaStubs.Catalog.Traversal
