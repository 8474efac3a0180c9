import JuliaStubs.LoadOrder.Relocation
import Mathlib.Data.Finset.Card
import Mathlib.Logic.Relation
import Mathlib.Tactic.Ring

/-!
# Relocation sorts

Statements about `relocate`: on dependencies without a cycle the scan ends within `relocationSteps`, its places stay those of the
sequence, and what it has passed is settled (`Settled`: each item after all its dependencies).

An item may move away from the place of the scan many times, so neither the place nor the number of misplaced pairs is a measure.
What shrinks is a budget (`Budget`): the rank of every item to begin with, one less for an item each time it moves. An item that
moved can only come back to the place of the scan after its dependencies, which stand before it, have moved themselves.
-/

namespace JuliaStubs.LoadOrder

/-! ## Sequences -/

/-- An item stands before another one. -/
def Precedes {α : Type} (sequence : List α) (first second : α) : Prop := [first, second].Sublist sequence

instance {α : Type} [DecidableEq α] (sequence : List α) (first second : α) : Decidable (Precedes sequence first second) :=
  inferInstanceAs (Decidable ([first, second].Sublist sequence))

theorem precedes_iff {α : Type} {sequence : List α} {first second : α} :
    Precedes sequence first second ↔ ∃ front back, sequence = front ++ back ∧ first ∈ front ∧ second ∈ back := by
  rw [Precedes, List.cons_sublist_iff]
  simp only [List.singleton_sublist]

theorem Precedes.map {α β : Type} {sequence : List α} {first second : α} (h : Precedes sequence first second) (f : α → β) :
    Precedes (sequence.map f) (f first) (f second) :=
  List.Sublist.map f h

/-- Items that are kept stay in their order. -/
theorem Precedes.filter {α : Type} {sequence : List α} {first second : α} (h : Precedes sequence first second)
    {p : α → Bool} (hf : p first = true) (hs : p second = true) : Precedes (sequence.filter p) first second := by
  have hsub := List.Sublist.filter p h
  rwa [List.filter_cons_of_pos hf, List.filter_cons_of_pos hs, List.filter_nil] at hsub

/-- In a sequence without repetition the order is that of the places. -/
theorem Precedes.idxOf_lt {α : Type} [DecidableEq α] {sequence : List α} (hnd : sequence.Nodup) {first second : α}
    (h : Precedes sequence first second) : sequence.idxOf first < sequence.idxOf second := by
  obtain ⟨front, back, rfl, hf, hs⟩ := precedes_iff.mp h
  have hns : second ∉ front := fun hm => (List.nodup_append.mp hnd).2.2 second hm second hs rfl
  rw [List.idxOf_append_of_mem hf, List.idxOf_append_of_notMem hns]
  exact Nat.lt_add_right _ (List.idxOf_lt_length_of_mem hf)

/-- Of two distinct items of a sequence one stands before the other. -/
theorem precedes_or_precedes {α : Type} {sequence : List α} {a b : α} (ha : a ∈ sequence) (hb : b ∈ sequence) (hne : a ≠ b) :
    Precedes sequence a b ∨ Precedes sequence b a := by
  obtain ⟨front, back, rfl⟩ := List.append_of_mem ha
  have hsplit : front ++ a :: back = (front ++ [a]) ++ back := by simp
  rcases List.mem_append.mp hb with hb | hb
  · exact Or.inr (precedes_iff.mpr ⟨front, a :: back, rfl, hb, List.mem_cons_self⟩)
  · rcases List.mem_cons.mp hb with rfl | hb
    · exact absurd rfl hne
    · exact Or.inl (precedes_iff.mpr ⟨front ++ [a], back, hsplit, by simp, hb⟩)

theorem Precedes.mem {α : Type} {sequence : List α} {a b : α} (h : Precedes sequence a b) : a ∈ sequence ∧ b ∈ sequence :=
  ⟨List.Sublist.subset h List.mem_cons_self, List.Sublist.subset h (List.mem_cons_of_mem _ List.mem_cons_self)⟩

theorem Precedes.trans {α : Type} [DecidableEq α] {sequence : List α} (hnd : sequence.Nodup) {a b c : α}
    (hab : Precedes sequence a b) (hbc : Precedes sequence b c) : Precedes sequence a c := by
  have hlt := (hab.idxOf_lt hnd).trans (hbc.idxOf_lt hnd)
  rcases precedes_or_precedes hab.mem.1 hbc.mem.2 (fun heq => Nat.lt_irrefl _ (heq ▸ hlt)) with h | h
  · exact h
  · exact absurd (h.idxOf_lt hnd) hlt.asymm

/-- Steps that each lead towards the front of a sequence lead there together. -/
theorem Precedes.of_transGen {α : Type} [DecidableEq α] {sequence : List α} (hnd : sequence.Nodup) {step : α → α → Prop}
    (hstep : ∀ a b, step a b → Precedes sequence b a) {a b : α} (h : Relation.TransGen step a b) : Precedes sequence b a := by
  induction h with
  | single hs => exact hstep _ _ hs
  | tail _ hs ih => exact (hstep _ _ hs).trans hnd ih

/-- Steps that always lead towards the front of a sequence never lead back. -/
theorem Precedes.acyclic {α : Type} [DecidableEq α] {sequence : List α} (hnd : sequence.Nodup) {step : α → α → Prop}
    (hstep : ∀ a b, step a b → Precedes sequence b a) (a : α) : ¬Relation.TransGen step a a :=
  fun h => Nat.lt_irrefl _ ((Precedes.of_transGen hnd hstep h).idxOf_lt hnd)

/-- Each item of a sequence stands after everything that `next` says it depends on. -/
def Settled (next : Nat → List Nat) (sequence : List Nat) : Prop :=
  ∀ before item after, sequence = before ++ item :: after → ∀ d ∈ next item, d ∈ before

/-- One item after another depends on itself, directly or through others. -/
def Cyclic (next : Nat → List Nat) : Prop := ∃ item, Relation.TransGen (fun a b => b ∈ next a) item item

theorem Settled.nil (next : Nat → List Nat) : Settled next [] := by
  intro before item after h
  simp at h

/-- A settled sequence stays settled when an item follows whose dependencies it holds. -/
theorem Settled.snoc {next : Nat → List Nat} {sequence : List Nat} {last : Nat} (h : Settled next sequence)
    (hlast : ∀ d ∈ next last, d ∈ sequence) : Settled next (sequence ++ [last]) := by
  intro before item after he d hd
  rcases List.eq_nil_or_concat after with rfl | ⟨after', x, rfl⟩
  · obtain ⟨rfl, hx⟩ := List.append_inj' he rfl
    obtain rfl : last = item := by simpa using hx
    exact hlast d hd
  · have he' : sequence ++ [last] = (before ++ item :: after') ++ [x] := by simpa using he
    obtain ⟨hs, _⟩ := List.append_inj' he' rfl
    exact h before item after' hs d hd

theorem Settled.precedes {next : Nat → List Nat} {sequence : List Nat} (h : Settled next sequence) {item d : Nat}
    (hitem : item ∈ sequence) (hd : d ∈ next item) : Precedes sequence d item := by
  obtain ⟨before, after, rfl⟩ := List.append_of_mem hitem
  exact precedes_iff.mpr ⟨before, item :: after, rfl, h before item after rfl d hd, List.mem_cons_self⟩

/-! ## The places of a sequence -/

namespace Arrangement

/-- The places of an arrangement are those of the items of its sequence. -/
def Tracks (a : Arrangement) : Prop := ∀ i item : Nat, a.sequence[i]? = some item → a.place[item]? = some i

theorem Tracks.placeOf {a : Arrangement} (h : a.Tracks) {i item : Nat} (hi : a.sequence[i]? = some item) :
    a.placeOf item = i := by
  rw [Arrangement.placeOf, h i item hi, Option.getD_some]

theorem tracks_initial (n : Nat) : (initial n).Tracks := by
  intro i item h
  obtain ⟨hi, rfl⟩ := List.getElem?_eq_some_iff.mp h
  simp only [initial, List.length_range] at hi
  simp [initial, hi]

/-- Noting leaves the places of other items. -/
theorem note_of_not_mem (place : Array Nat) (start : Nat) (items : List Nat) {x : Nat} (hx : x ∉ items) :
    (note place start items)[x]? = place[x]? := by
  induction items generalizing place start with
  | nil => rfl
  | cons item rest ih =>
    rw [List.mem_cons, not_or] at hx
    rw [note, ih _ _ hx.2, Array.getElem?_setIfInBounds_ne (Ne.symm hx.1)]

theorem size_note (place : Array Nat) (start : Nat) (items : List Nat) : (note place start items).size = place.size := by
  induction items generalizing place start with
  | nil => rfl
  | cons item rest ih => rw [note, ih, Array.size_setIfInBounds]

/-- Noting gives distinct items their places in a row. -/
theorem note_of_mem (place : Array Nat) (start : Nat) (items : List Nat) (hnd : items.Nodup)
    (hlt : ∀ x ∈ items, x < place.size) {k x : Nat} (hk : items[k]? = some x) :
    (note place start items)[x]? = some (start + k) := by
  induction items generalizing place start k with
  | nil => simp at hk
  | cons item rest ih =>
    obtain ⟨hitem, hrest⟩ := List.nodup_cons.mp hnd
    have hltr : ∀ x ∈ rest, x < (place.setIfInBounds item start).size := by
      intro y hy
      rw [Array.size_setIfInBounds]
      exact hlt y (List.mem_cons_of_mem _ hy)
    cases k with
    | zero =>
      obtain rfl : item = x := by simpa using hk
      rw [note, note_of_not_mem _ _ _ hitem, Array.getElem?_setIfInBounds_self_of_lt (hlt item List.mem_cons_self),
        Nat.add_zero]
    | succ k =>
      rw [note, ih _ _ hrest hltr (by simpa using hk), Nat.add_assoc, Nat.add_comm 1 k]

theorem insertIdx_length_append (front back : List Nat) (item : Nat) :
    (front ++ back).insertIdx front.length item = front ++ item :: back := by
  induction front with
  | nil => rfl
  | cons x front ih => simp only [List.cons_append, List.length_cons, List.insertIdx_succ_cons, ih]

/-- What a move does: the items between go before the one that moves, and their places are noted. -/
theorem move_split (done between after : List Nat) (item : Nat) (place : Array Nat) :
    move ⟨done ++ item :: (between ++ after), place⟩ done.length (done.length + between.length) item =
      ⟨done ++ (between ++ item :: after), note place done.length (between ++ [item])⟩ := by
  have h1 : (done ++ item :: (between ++ after)).eraseIdx done.length = (done ++ between) ++ after := by
    rw [List.eraseIdx_append_of_length_le (Nat.le_refl _), Nat.sub_self, List.eraseIdx_cons_zero, List.append_assoc]
  have h2 : ((done ++ between) ++ after).insertIdx (done.length + between.length) item =
      done ++ (between ++ item :: after) := by
    rw [← List.length_append, insertIdx_length_append, List.append_assoc]
  have h3 : ((done ++ (between ++ item :: after)).drop done.length).take
      (done.length + between.length + 1 - done.length) = between ++ [item] := by
    rw [List.drop_left, show done.length + between.length + 1 - done.length = between.length + 1 by omega]
    simp [List.take_append]
  simp only [move, h1, h2, h3]

end Arrangement

/-! ## The scan -/

/-- A scan: the place it has come to and the arrangement it works on. -/
structure Scan where
  index : Nat
  arrangement : Arrangement

namespace Scan

/-- The state in which a scan of the items below `n` starts. -/
def start (n : Nat) : Scan := ⟨0, .initial n⟩

/-- The next state of a scan, none at the end of the sequence. -/
def step? (next : Nat → List Nat) (s : Scan) : Option Scan :=
  match s.arrangement.sequence[s.index]? with
  | none => none
  | some item =>
    match s.arrangement.furthest? next item with
    | some target =>
      if s.index < target then some ⟨s.index, s.arrangement.move s.index target item⟩
      else some ⟨s.index + 1, s.arrangement⟩
    | none => some ⟨s.index + 1, s.arrangement⟩

/-- The states that a scan comes to, step by step. -/
def Reaches (next : Nat → List Nat) : Scan → Scan → Prop := Relation.ReflTransGen fun s s' => s.step? next = some s'

/-- What a scan preserves: it has passed `done`, which is settled, and `rest` follows; together they are the items below `n`, and
the places are those of the sequence. -/
structure Valid (next : Nat → List Nat) (n : Nat) (s : Scan) (done rest : List Nat) : Prop where
  sequence : s.arrangement.sequence = done ++ rest
  index : s.index = done.length
  perm : (done ++ rest).Perm (List.range n)
  size : s.arrangement.place.size = n
  tracks : s.arrangement.Tracks
  settled : Settled next done

variable {next : Nat → List Nat} {n : Nat} {s : Scan} {done rest : List Nat} {item : Nat}

theorem Valid.initial (next : Nat → List Nat) (n : Nat) : Valid next n (.start n) [] (List.range n) where
  sequence := rfl
  index := rfl
  perm := List.Perm.refl _
  size := by simp [start, Arrangement.initial]
  tracks := Arrangement.tracks_initial n
  settled := Settled.nil next

theorem Valid.nodup (h : Valid next n s done rest) : (done ++ rest).Nodup :=
  h.perm.nodup_iff.mpr List.nodup_range

theorem Valid.mem_iff (h : Valid next n s done rest) (x : Nat) : x ∈ done ++ rest ↔ x < n := by
  rw [h.perm.mem_iff, List.mem_range]

/-- An item below `n` stands at its place. -/
theorem Valid.at_placeOf (h : Valid next n s done rest) {x : Nat} (hx : x < n) :
    (done ++ rest)[s.arrangement.placeOf x]? = some x := by
  obtain ⟨i, hi⟩ := List.mem_iff_getElem?.mp ((h.mem_iff x).mpr hx)
  rw [h.tracks.placeOf (i := i) (by rw [h.sequence]; exact hi)]
  exact hi

/-- The scan passes an item whose dependencies it has passed. -/
theorem Valid.advance (h : Valid next n s done (item :: rest)) (hd : ∀ d ∈ next item, d ∈ done) :
    Valid next n ⟨s.index + 1, s.arrangement⟩ (done ++ [item]) rest where
  sequence := by rw [h.sequence]; simp
  index := by rw [h.index]; simp
  perm := by simpa using h.perm
  size := h.size
  tracks := h.tracks
  settled := h.settled.snoc hd

/-- A move keeps the places those of the sequence and does not touch what the scan has passed. -/
theorem Valid.move {between after : List Nat} (h : Valid next n s done (item :: (between ++ after))) :
    Valid next n ⟨s.index, s.arrangement.move s.index (s.index + between.length) item⟩ done (between ++ item :: after) := by
  have hperm : (done ++ (between ++ item :: after)).Perm (done ++ item :: (between ++ after)) :=
    List.Perm.append_left done List.perm_middle
  have hmove : s.arrangement.move s.index (s.index + between.length) item =
      ⟨done ++ (between ++ item :: after), Arrangement.note s.arrangement.place done.length (between ++ [item])⟩ := by
    obtain ⟨index, sequence, place⟩ := s
    obtain rfl : sequence = _ := h.sequence
    obtain rfl : index = _ := h.index
    exact Arrangement.move_split done between after item place
  refine ⟨by rw [hmove], h.index, hperm.trans h.perm, ?_, ?_, h.settled⟩
  · rw [hmove, Arrangement.size_note, h.size]
  · rw [hmove]
    intro i x hi
    have hnd := hperm.nodup_iff.mpr h.nodup
    have hmid : (done ++ (between ++ item :: after)) = done ++ ((between ++ [item]) ++ after) := by simp
    simp only [hmid] at hi hnd
    obtain ⟨hnd1, hnd2, hdisj⟩ := List.nodup_append.mp hnd
    obtain ⟨hnd3, _, hdisj'⟩ := List.nodup_append.mp hnd2
    have hlt : ∀ y ∈ between ++ [item], y < s.arrangement.place.size := by
      intro y hy
      rw [h.size, ← h.mem_iff, ← hperm.mem_iff, hmid]
      exact List.mem_append_right _ (List.mem_append_left _ hy)
    rcases Nat.lt_or_ge i done.length with hlo | hlo
    · rw [List.getElem?_append_left hlo] at hi
      have hx : x ∉ between ++ [item] := fun hmem =>
        hdisj x (List.mem_of_getElem? hi) x (List.mem_append_left _ hmem) rfl
      rw [Arrangement.note_of_not_mem _ _ _ hx]
      exact h.tracks i x (by rw [h.sequence, List.getElem?_append_left hlo]; exact hi)
    · rw [List.getElem?_append_right hlo] at hi
      rcases Nat.lt_or_ge (i - done.length) (between ++ [item]).length with hmd | hmd
      · rw [List.getElem?_append_left hmd] at hi
        rw [Arrangement.note_of_mem _ _ _ hnd3 hlt hi, Nat.add_sub_cancel' hlo]
      · rw [List.getElem?_append_right hmd] at hi
        have hx : x ∉ between ++ [item] := fun hmem => hdisj' x hmem x (List.mem_of_getElem? hi) rfl
        rw [Arrangement.note_of_not_mem _ _ _ hx]
        apply h.tracks i x
        have hlen : (between ++ [item]).length = (item :: between).length := by simp
        rw [h.sequence, List.getElem?_append_right hlo, ← List.cons_append, List.getElem?_append_right (hlen ▸ hmd), ← hlen]
        exact hi

/-- One step of a scan at an item: it passes the item, whose dependencies all stand before it, or it moves the item behind the
last of its dependencies that follow. -/
theorem Valid.step (h : Valid next n s done (item :: rest)) (hin : ∀ d ∈ next item, d < n) (hself : item ∉ next item) :
    (∃ s', s.step? next = some s' ∧ Valid next n s' (done ++ [item]) rest) ∨
    (∃ s' between after, s.step? next = some s' ∧ rest = between ++ after ∧ (∃ d ∈ between, d ∈ next item) ∧
      (∀ d ∈ after, d ∉ next item) ∧ Valid next n s' done (between ++ item :: after)) := by
  have hat : s.arrangement.sequence[s.index]? = some item := by rw [h.sequence, h.index]; simp
  have hpass : (∀ d ∈ next item, s.arrangement.placeOf d ≤ s.index) → ∀ d ∈ next item, d ∈ done := by
    intro hle d hd
    have hp := h.at_placeOf (hin d hd)
    rcases Nat.lt_or_eq_of_le (h.index ▸ hle d hd) with hlt | heq
    · rw [List.getElem?_append_left hlt] at hp
      exact List.mem_of_getElem? hp
    · rw [heq] at hp
      obtain rfl : item = d := by simpa using hp
      exact absurd hd hself
  cases hf : s.arrangement.furthest? next item with
  | none =>
    have hnil : next item = [] := by simpa [Arrangement.furthest?] using hf
    exact Or.inl ⟨_, by simp only [step?, hat, hf], h.advance (by simp [hnil])⟩
  | some target =>
    obtain ⟨hmem, hmax⟩ := List.max?_eq_some_iff.mp hf
    have hle : ∀ d ∈ next item, s.arrangement.placeOf d ≤ target := fun d hd => hmax _ (List.mem_map_of_mem hd)
    by_cases hlt : s.index < target
    · right
      obtain ⟨d, hd, rfl⟩ := List.mem_map.mp hmem
      have hp := h.at_placeOf (hin d hd)
      have hk : ∃ k, s.arrangement.placeOf d = s.index + (k + 1) ∧ rest[k]? = some d := by
        refine ⟨s.arrangement.placeOf d - s.index - 1, by omega, ?_⟩
        rw [List.getElem?_append_right (by rw [← h.index]; omega), ← h.index,
          show s.arrangement.placeOf d - s.index = (s.arrangement.placeOf d - s.index - 1) + 1 by omega,
          List.getElem?_cons_succ] at hp
        exact hp
      obtain ⟨k, hk, hrk⟩ := hk
      have hklt : k < rest.length := (List.getElem?_eq_some_iff.mp hrk).1
      have hsplit : rest = rest.take (k + 1) ++ rest.drop (k + 1) := (List.take_append_drop _ _).symm
      have hlen : (rest.take (k + 1)).length = k + 1 := by rw [List.length_take]; omega
      have hv : Valid next n s done (item :: (rest.take (k + 1) ++ rest.drop (k + 1))) := by rw [← hsplit]; exact h
      refine ⟨⟨s.index, s.arrangement.move s.index (s.index + (rest.take (k + 1)).length) item⟩, _, _, ?_, hsplit,
        ⟨d, ?_, hd⟩, ?_, hv.move⟩
      · rw [hlen, ← hk]
        simp only [step?, hat, hf, hlt, if_true]
      · exact List.mem_of_getElem? (i := k) (by rw [List.getElem?_take]; simpa using hrk)
      · intro e he hde
        obtain ⟨j, hj⟩ := List.mem_iff_getElem?.mp he
        rw [List.getElem?_drop] at hj
        have hpe : s.arrangement.placeOf e = done.length + (k + 1 + j + 1) := by
          apply h.tracks.placeOf
          rw [h.sequence, List.getElem?_append_right (by omega), Nat.add_sub_cancel_left, List.getElem?_cons_succ]
          exact hj
        have := hle e hde
        rw [hpe, hk, h.index] at this
        omega
    · refine Or.inl ⟨_, by simp only [step?, hat, hf, hlt, if_false], h.advance (hpass ?_)⟩
      intro d hd
      exact (hle d hd).trans (Nat.le_of_not_lt hlt)

/-- At the end of the sequence a scan has no step. -/
theorem Valid.step_nil (h : Valid next n s done []) : s.step? next = none := by
  have hat : s.arrangement.sequence[s.index]? = none := by
    rw [h.sequence, h.index, List.append_nil]
    exact List.getElem?_eq_none (Nat.le_refl _)
  simp only [step?, hat]

end Scan

/-- A run of the relocation is a run of the scan. -/
theorem relocateFrom_succ (next : Nat → List Nat) (fuel : Nat) (s : Scan) :
    Arrangement.relocateFrom next (fuel + 1) s.index s.arrangement =
      match s.step? next with
      | none => s.arrangement
      | some s' => Arrangement.relocateFrom next fuel s'.index s'.arrangement := by
  rw [Arrangement.relocateFrom, Scan.step?]
  cases hat : s.arrangement.sequence[s.index]? with
  | none => simp only
  | some item =>
    cases hf : s.arrangement.furthest? next item with
    | none => simp only [hf]
    | some target => by_cases h : s.index < target <;> simp only [hf, h, if_true, if_false]

/-! ## The budget of a scan -/

/-- Budgets for the items ahead of a scan: an item has more than each of its dependencies that stands after it, and at least as much
as each that stands before it. -/
def Budget (next : Nat → List Nat) (budget : Nat → Nat) (rest : List Nat) : Prop :=
  rest.Pairwise fun u v => (v ∈ next u → budget v < budget u) ∧ (u ∈ next v → budget u ≤ budget v)

/-- A rank is a budget for every sequence. -/
theorem Budget.of_rank {next : Nat → List Nat} {rank : Nat → Nat} {rest : List Nat}
    (h : ∀ u ∈ rest, ∀ d ∈ next u, rank d < rank u) : Budget next rank rest := by
  refine List.pairwise_of_forall_sublist fun {u v} hs => ⟨fun hv => ?_, fun hu => ?_⟩
  · exact h u (hs.subset (by simp)) v hv
  · exact (h v (hs.subset (by simp)) u hu).le

/-- A move costs the item that moves one of its budget. -/
theorem Budget.move {next : Nat → List Nat} {budget : Nat → Nat} {item : Nat} {between after : List Nat}
    (h : Budget next budget (item :: (between ++ after))) (hnd : item ∉ between ++ after)
    (hself : item ∉ next item) (hbetween : ∃ d ∈ between, d ∈ next item) (hafter : ∀ d ∈ after, d ∉ next item) :
    ∃ budget', Budget next budget' (between ++ item :: after) ∧
      ((between ++ item :: after).map budget').sum < ((item :: (between ++ after)).map budget).sum := by
  obtain ⟨hitem, hrest⟩ := List.pairwise_cons.mp h
  obtain ⟨hb, ha, hba⟩ := List.pairwise_append.mp hrest
  obtain ⟨d, hdm, hdn⟩ := hbetween
  have hpos : budget d < budget item := (hitem d (List.mem_append_left _ hdm)).1 hdn
  let budget' := Function.update budget item (budget item - 1)
  have hself' : budget' item = budget item - 1 := Function.update_self ..
  have hother : ∀ x ∈ between ++ after, budget' x = budget x := fun x hx =>
    Function.update_of_ne (by rintro rfl; exact hnd hx) ..
  have hotherb : ∀ x ∈ between, budget' x = budget x := fun x hx => hother x (List.mem_append_left _ hx)
  have hothera : ∀ x ∈ after, budget' x = budget x := fun x hx => hother x (List.mem_append_right _ hx)
  refine ⟨budget', List.pairwise_append.mpr ⟨?_, List.pairwise_cons.mpr ⟨?_, ?_⟩, ?_⟩, ?_⟩
  · exact hb.imp_of_mem fun {u v} hu hv huv => by rw [hotherb u hu, hotherb v hv]; exact huv
  · intro v hv
    refine ⟨fun hvn => absurd hvn (hafter v hv), fun hin => ?_⟩
    have := (hitem v (List.mem_append_right _ hv)).2 hin
    rw [hself', hothera v hv]
    omega
  · exact ha.imp_of_mem fun {u v} hu hv huv => by rw [hothera u hu, hothera v hv]; exact huv
  · intro u hu v hv
    rw [hotherb u hu]
    rcases List.mem_cons.mp hv with rfl | hv
    · obtain ⟨h1, h2⟩ := hitem u (List.mem_append_left _ hu)
      rw [hself']
      exact ⟨fun hvu => by have := h2 hvu; omega, fun huv => by have := h1 huv; omega⟩
    · rw [hothera v hv]
      exact hba u hu v hv
  · have h1 : between.map budget' = between.map budget := List.map_congr_left hotherb
    have h2 : after.map budget' = after.map budget := List.map_congr_left hothera
    simp only [List.map_append, List.map_cons, List.sum_append, List.sum_cons, h1, h2, hself']
    omega

/-! ## Runs of the scan -/

/-- The sum of bounded numbers. -/
theorem sum_map_le (rank : Nat → Nat) (bound : Nat) {items : List Nat} (h : ∀ x ∈ items, rank x ≤ bound) :
    (items.map rank).sum ≤ items.length * bound := by
  induction items with
  | nil => simp
  | cons x rest ih =>
    have hx := h x List.mem_cons_self
    have hrest := ih fun y hy => h y (List.mem_cons_of_mem _ hy)
    simp only [List.map_cons, List.sum_cons, List.length_cons, Nat.add_mul, Nat.one_mul]
    omega

/-- A scan with enough fuel comes to its end, where it has passed all items. For each place to come the budget starts anew, at most `n`
for each of at most `n` items. -/
theorem relocateFrom_ends {next : Nat → List Nat} {n : Nat} {rank : Nat → Nat} (hin : ∀ x < n, ∀ d ∈ next x, d < n)
    (hrank : ∀ x < n, ∀ d ∈ next x, rank d < rank x) (hbound : ∀ x < n, rank x ≤ n) (fuel : Nat) :
    ∀ (s : Scan) (done rest : List Nat) (budget : Nat → Nat), s.Valid next n done rest → Budget next budget rest →
      (rest.map budget).sum + rest.length + rest.tail.length * n ^ 2 ≤ fuel →
      ∃ last sequence, s.Reaches next last ∧ last.Valid next n sequence [] ∧
        Arrangement.relocateFrom next fuel s.index s.arrangement = last.arrangement := by
  induction fuel with
  | zero =>
    intro s done rest budget hv _ hfuel
    obtain rfl : rest = [] := List.eq_nil_of_length_eq_zero (by omega)
    exact ⟨s, done, .refl, hv, rfl⟩
  | succ fuel ih =>
    intro s done rest budget hv hb hfuel
    rw [relocateFrom_succ]
    cases rest with
    | nil =>
      rw [hv.step_nil]
      exact ⟨s, done, .refl, hv, rfl⟩
    | cons item rest =>
      have hlt : ∀ x ∈ item :: rest, x < n := fun x hx => (hv.mem_iff x).mp (List.mem_append_right _ hx)
      have hitem := hlt item List.mem_cons_self
      have hself : item ∉ next item := fun h => Nat.lt_irrefl _ (hrank item hitem item h)
      rcases hv.step (hin item hitem) hself with ⟨s', hs, hv'⟩ | ⟨s', between, after, hs, rfl, hbt, haf, hv'⟩
      · rw [hs]
        have hltr : ∀ x ∈ rest, x < n := fun x hx => hlt x (List.mem_cons_of_mem _ hx)
        have hmeasure : (rest.map rank).sum + rest.length + rest.tail.length * n ^ 2 ≤ fuel := by
          have hsum := sum_map_le rank n fun x hx => hbound x (hltr x hx)
          have hlen : rest.length ≤ n := by
            have := hv.perm.length_eq
            simp only [List.length_append, List.length_cons, List.length_range] at this
            omega
          have hsq : rest.length * n ≤ n ^ 2 := by
            rw [pow_two]
            exact Nat.mul_le_mul_right n hlen
          simp only [List.map_cons, List.sum_cons, List.length_cons, List.tail_cons] at hfuel
          cases rest with
          | nil => simp
          | cons x rest =>
            simp only [List.length_cons, List.tail_cons, Nat.add_mul, Nat.one_mul] at hfuel hsum hsq ⊢
            omega
        obtain ⟨last, sequence, hreach, hlast, heq⟩ :=
          ih s' _ rest rank hv' (Budget.of_rank fun u hu => hrank u (hltr u hu)) hmeasure
        exact ⟨last, sequence, .head hs hreach, hlast, heq⟩
      · rw [hs]
        have hnd := (List.nodup_cons.mp (List.nodup_append.mp hv.nodup).2.1).1
        obtain ⟨budget', hb', hsum⟩ := hb.move hnd hself hbt haf
        have hmeasure : ((between ++ item :: after).map budget').sum + (between ++ item :: after).length +
            (between ++ item :: after).tail.length * n ^ 2 ≤ fuel := by
          have hlen : (between ++ item :: after).length = (item :: (between ++ after)).length := List.perm_middle.length_eq
          simp only [List.length_tail, hlen] at hfuel ⊢
          omega
        obtain ⟨last, sequence, hreach, hlast, heq⟩ := ih s' _ _ budget' hv' hb' hmeasure
        exact ⟨last, sequence, .head hs hreach, hlast, heq⟩

/-- Dependencies without a cycle have a rank below `n`: the number of items that one depends on, directly or through others. -/
theorem exists_rank {next : Nat → List Nat} {n : Nat} (hin : ∀ x < n, ∀ d ∈ next x, d < n)
    (hac : ∀ x < n, ¬Relation.TransGen (fun a b => b ∈ next a) x x) :
    ∃ rank : Nat → Nat, (∀ x < n, ∀ d ∈ next x, rank d < rank x) ∧ ∀ x < n, rank x ≤ n := by
  classical
  let below := fun x => (Finset.range n).filter (Relation.TransGen (fun a b => b ∈ next a) x)
  refine ⟨fun x => (below x).card, fun x hx d hd => Finset.card_lt_card ?_, fun x _ => ?_⟩
  · refine Finset.ssubset_iff_subset_ne.mpr ⟨fun y hy => ?_, fun heq => ?_⟩
    · obtain ⟨hyn, hdy⟩ := Finset.mem_filter.mp hy
      exact Finset.mem_filter.mpr ⟨hyn, .head hd hdy⟩
    · have hdx : d ∈ below x := Finset.mem_filter.mpr ⟨Finset.mem_range.mpr (hin x hx d hd), .single hd⟩
      rw [← heq] at hdx
      exact hac d (hin x hx d hd) (Finset.mem_filter.mp hdx).2
  · exact (Finset.card_filter_le _ _).trans (Finset.card_range n).le

/-- The scan of dependencies without a cycle ends, and its last sequence is the relocated one. -/
theorem relocate_ends (n : Nat) (next : Nat → List Nat) (hin : ∀ x < n, ∀ d ∈ next x, d < n)
    (hac : ∀ x < n, ¬Relation.TransGen (fun a b => b ∈ next a) x x) :
    ∃ last, (Scan.start n).Reaches next last ∧ last.Valid next n (relocate n next) [] := by
  obtain ⟨rank, hrank, hbound⟩ := exists_rank hin hac
  have hsum := sum_map_le rank n fun x (hx : x ∈ List.range n) => hbound x (List.mem_range.mp hx)
  have hmeasure : ((List.range n).map rank).sum + (List.range n).length + (List.range n).tail.length * n ^ 2 ≤
      relocationSteps n := by
    simp only [List.length_range, List.length_tail, relocationSteps] at hsum ⊢
    cases n with
    | zero => simp
    | succ n =>
      have hpow : (n + 1) * (n + 1) * (n + 1) = n * (n + 1) ^ 2 + (n + 1) * (n + 1) := by ring
      rw [hpow, Nat.add_sub_cancel]
      omega
  obtain ⟨last, sequence, hreach, hlast, heq⟩ := relocateFrom_ends hin hrank hbound (relocationSteps n) (.start n) [] (List.range n)
    rank (Scan.Valid.initial next n) (Budget.of_rank fun u hu => hrank u (List.mem_range.mp hu)) hmeasure
  obtain rfl : relocate n next = sequence := (congrArg Arrangement.sequence heq).trans (hlast.sequence.trans (List.append_nil _))
  exact ⟨last, hreach, hlast⟩

/-- Relocation sorts: on dependencies without a cycle it puts the items below `n` in an order in which each stands after all it
depends on. -/
theorem relocate_settled (n : Nat) (next : Nat → List Nat) (hin : ∀ x < n, ∀ d ∈ next x, d < n) (hac : ¬Cyclic next) :
    (relocate n next).Perm (List.range n) ∧ Settled next (relocate n next) := by
  obtain ⟨last, _, hlast⟩ := relocate_ends n next hin fun x _ hx => hac ⟨x, hx⟩
  exact ⟨by simpa using hlast.perm, hlast.settled⟩

end JuliaStubs.LoadOrder
