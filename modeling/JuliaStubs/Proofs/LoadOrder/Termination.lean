import JuliaStubs.Proofs.LoadOrder.Relocation

/-!
# Relocation ends

Runs of the scan of `relocate`, step by step. Whatever the dependencies, as long as no item is its own, a run keeps the places those of
the sequence and adds settled items to those that it has passed (`Valid.reaches`). It comes to an end exactly when the dependencies
have no cycle (`ends_iff`), and the sequence is then the relocated one (`relocate_sorts`).
-/

namespace JuliaStubs.LoadOrder

open Relation

namespace Scan

/-- The items that a scan has passed. -/
def passed (s : Scan) : List Nat := s.arrangement.sequence.take s.index

/-- What a scan keeps at every step: the places are the inverse of the sequence, and each passed item stands after all its
dependencies, which are passed as well. -/
structure Consistent (next : Nat → List Nat) (s : Scan) : Prop where
  inverse : ∀ i item : Nat, s.arrangement.sequence[i]? = some item ↔ s.arrangement.place[item]? = some i
  settled : Settled next s.passed

variable {next : Nat → List Nat} {n : Nat} {s s' : Scan} {done rest : List Nat}

theorem Valid.passed_eq (h : s.Valid next n done rest) : s.passed = done := by
  rw [passed, h.sequence, h.index, List.take_left]

theorem Valid.consistent (h : s.Valid next n done rest) : s.Consistent next where
  inverse := fun i item => by
    refine ⟨h.tracks i item, fun hp => ?_⟩
    have hlt : item < n := h.size ▸ (Array.getElem?_eq_some_iff.mp hp).1
    have hat := h.at_placeOf hlt
    rw [← h.sequence, Arrangement.placeOf, hp, Option.getD_some] at hat
    exact hat
  settled := h.passed_eq ▸ h.settled

section Runs

variable (hin : ∀ x < n, ∀ d ∈ next x, d < n) (hself : ∀ x < n, x ∉ next x)

include hin hself

/-- A scan that has not passed all items has a next step. -/
theorem Valid.step_cons {item : Nat} (h : s.Valid next n done (item :: rest)) :
    ∃ s' more rest', s.step? next = some s' ∧ s'.Valid next n (done ++ more) rest' := by
  have hitem : item < n := (h.mem_iff item).mp (List.mem_append_right _ List.mem_cons_self)
  rcases h.step (hin item hitem) (hself item hitem) with ⟨s', hs, hv⟩ | ⟨s', between, after, hs, -, -, -, hv⟩
  · exact ⟨s', [item], rest, hs, hv⟩
  · exact ⟨s', [], between ++ item :: after, hs, (List.append_nil done).symm ▸ hv⟩

/-- A run keeps what the scan has passed and passes more items. -/
theorem Valid.reaches (h : s.Valid next n done rest) (hreach : s.Reaches next s') :
    ∃ more rest', s'.Valid next n (done ++ more) rest' := by
  induction hreach with
  | refl => exact ⟨[], rest, (List.append_nil done).symm ▸ h⟩
  | @tail before after _ hstep ih =>
    obtain ⟨more, left, hv⟩ := ih
    cases left with
    | nil => nomatch hv.step_nil.symm.trans hstep
    | cons item left =>
      obtain ⟨found, extra, left', hfound, hv'⟩ := hv.step_cons hin hself
      obtain rfl := Option.some.inj (hfound.symm.trans hstep)
      exact ⟨more ++ extra, left', (List.append_assoc done more extra) ▸ hv'⟩

/-- At the end of a run the scan has passed all items. -/
theorem Valid.of_end (h : s.Valid next n done rest) (hend : s.step? next = none) : rest = [] := by
  cases rest with
  | nil => rfl
  | cons item rest =>
    obtain ⟨_, _, _, hstep, _⟩ := h.step_cons hin hself
    nomatch hend.symm.trans hstep

end Runs

end Scan

/-- Dependencies that lead on from an item below `n` stay below `n`. -/
theorem transGen_below {next : Nat → List Nat} {n : Nat} (hin : ∀ x < n, ∀ d ∈ next x, d < n) {x y : Nat} (hx : x < n)
    (h : TransGen (fun a b => b ∈ next a) x y) : y < n ∧ TransGen (fun a b => a < n ∧ b ∈ next a) x y := by
  induction h with
  | single hd => exact ⟨hin _ hx _ hd, .single ⟨hx, hd⟩⟩
  | tail _ hd ih => exact ⟨hin _ ih.1 _ hd, ih.2.tail ⟨ih.1, hd⟩⟩

/-- The scan ends exactly when the dependencies have no cycle. -/
theorem ends_iff {n : Nat} {next : Nat → List Nat} (hin : ∀ x < n, ∀ d ∈ next x, d < n) (hself : ∀ x < n, x ∉ next x) :
    (∃ last, (Scan.start n).Reaches next last ∧ last.step? next = none) ↔
      ∀ x < n, ¬TransGen (fun a b => b ∈ next a) x x := by
  constructor
  · rintro ⟨last, hreach, hend⟩ x hx hcycle
    obtain ⟨done, rest, hv⟩ := (Scan.Valid.initial next n).reaches hin hself hreach
    obtain rfl := hv.of_end hin hself hend
    have hmem : ∀ y < n, y ∈ [] ++ done := fun y hy => by simpa using (hv.mem_iff y).mpr hy
    have hnodup : ([] ++ done).Nodup := by simpa using hv.nodup
    exact Precedes.acyclic hnodup (fun a b hab => hv.settled.precedes (hmem a hab.1) hab.2) x (transGen_below hin hx hcycle).2
  · intro hac
    obtain ⟨last, hreach, hlast⟩ := relocate_ends n next hin hac
    exact ⟨last, hreach, hlast.step_nil⟩

/-- On dependencies without a cycle the scan comes to an end, and its sequence is then the relocated one: all items below `n`, each
after all its dependencies. At every step on the way the places are the inverse of the sequence, each item that the scan has passed
stands after all its dependencies, and what it has passed stays in front for good. -/
theorem relocate_sorts (n : Nat) (next : Nat → List Nat) (hin : ∀ x < n, ∀ d ∈ next x, d < n)
    (hac : ∀ x < n, ¬TransGen (fun a b => b ∈ next a) x x) :
    (∃ last, (Scan.start n).Reaches next last ∧ last.step? next = none ∧ last.arrangement.sequence = relocate n next) ∧
      (relocate n next).Perm (List.range n) ∧
      (∀ item < n, ∀ d ∈ next item, Precedes (relocate n next) d item) ∧
      ∀ s, (Scan.start n).Reaches next s → s.Consistent next ∧ ∀ s', s.Reaches next s' → s.passed <+: s'.passed := by
  have hself : ∀ x < n, x ∉ next x := fun x hx h => hac x hx (.single h)
  obtain ⟨last, hreach, hlast⟩ := relocate_ends n next hin hac
  have hperm : (relocate n next).Perm (List.range n) := by simpa using hlast.perm
  refine ⟨⟨last, hreach, hlast.step_nil, hlast.sequence.trans (List.append_nil _)⟩, hperm, fun item hitem d hd => ?_, fun s hs => ?_⟩
  · exact hlast.settled.precedes (hperm.mem_iff.mpr (List.mem_range.mpr hitem)) hd
  · obtain ⟨done, rest, hv⟩ := (Scan.Valid.initial next n).reaches hin hself hs
    refine ⟨hv.consistent, fun s' hs' => ?_⟩
    obtain ⟨more, rest', hv'⟩ := hv.reaches hin hself hs'
    rw [hv.passed_eq, hv'.passed_eq]
    exact List.prefix_append _ _

namespace RelocationAux

/-- Four items of which each depends on later ones only, the first of them on one item twice. -/
def next : Nat → List Nat
  | 0 => [1, 3, 3]
  | 1 => [2]
  | 2 => [3]
  | _ => []

theorem acyclic (x : Nat) : ¬TransGen (fun a b => b ∈ next a) x x := by
  refine Precedes.acyclic (by decide : [3, 2, 1, 0].Nodup) (fun a b hab => ?_) x
  match a with
  | 0 =>
    simp only [next, List.mem_cons, List.not_mem_nil, or_false] at hab
    rcases hab with rfl | rfl | rfl <;> decide
  | 1 | 2 =>
    simp only [next, List.mem_singleton] at hab
    subst hab
    decide
  | _ + 3 => nomatch hab

end RelocationAux

/-- The second item moves away twice: first behind the third one, and then again when the third one has moved itself. -/
theorem relocate_sorts_reversed : (∀ x < 4, ∀ d ∈ RelocationAux.next x, d < 4) ∧
    (∀ x < 4, ¬TransGen (fun a b => b ∈ RelocationAux.next a) x x) ∧ relocate 4 RelocationAux.next = [3, 2, 1, 0] ∧
    (∃ last, (Scan.start 4).Reaches RelocationAux.next last ∧ last.step? RelocationAux.next = none ∧
      last.arrangement.sequence = relocate 4 RelocationAux.next) ∧
    (relocate 4 RelocationAux.next).Perm (List.range 4) ∧
    (∀ item < 4, ∀ d ∈ RelocationAux.next item, Precedes (relocate 4 RelocationAux.next) d item) ∧
    ∀ s, (Scan.start 4).Reaches RelocationAux.next s →
      s.Consistent RelocationAux.next ∧ ∀ s', s.Reaches RelocationAux.next s' → s.passed <+: s'.passed :=
  ⟨by decide, fun x _ => RelocationAux.acyclic x, by decide,
    relocate_sorts 4 RelocationAux.next (by decide) fun x _ => RelocationAux.acyclic x⟩

end JuliaStubs.LoadOrder
