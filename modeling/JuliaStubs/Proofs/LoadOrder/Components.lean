import JuliaStubs.LoadOrder.Digraph
import Mathlib.Data.List.Sort
import Mathlib.Logic.Relation

/-!
# Cyclic components

Statements about `markReached`, `reach` and `cyclicComponents`: the search marks what is reached, no more and no less, and the sets
of `cyclicComponents` are the strongly connected components with at least two items, each in ascending order and each once.
-/

namespace JuliaStubs.LoadOrder

open Relation

/-! ## The search -/

namespace SearchAux

/-- An item is marked. -/
def Marked (marks : Array Bool) (item : Nat) : Prop := marks[item]? = some true

theorem marked_set {marks : Array Bool} {item : Nat} (h : item < marks.size) (x : Nat) :
    Marked (marks.set item true) x ↔ x = item ∨ Marked marks x := by
  unfold Marked
  by_cases hx : x = item
  · subst hx
    simp [h]
  · rw [Array.getElem?_set_ne h (Ne.symm hx)]
    simp [hx]

/-- Marks stay. -/
theorem marked_mono {next : Nat → List Nat} {marks : Array Bool} {pending : List Nat} {x : Nat} (hx : Marked marks x) :
    Marked (markReached next marks pending) x := by
  fun_induction markReached next marks pending with
  | case1 marks => exact hx
  | case2 marks item rest h ih => exact ih ((marked_set _ x).mpr (Or.inr hx))
  | case3 marks item rest h ih => exact ih hx

/-- A pending item gets a mark. -/
theorem marked_of_pending {next : Nat → List Nat} {marks : Array Bool} {pending : List Nat} {x : Nat} (hx : x ∈ pending)
    (hlt : x < marks.size) : Marked (markReached next marks pending) x := by
  fun_induction markReached next marks pending with
  | case1 marks => cases hx
  | case2 marks item rest h ih =>
    rcases List.mem_cons.mp hx with rfl | hx
    · exact marked_mono ((marked_set _ x).mpr (Or.inl rfl))
    · exact ih (List.mem_append_right _ hx) (by rw [Array.size_set]; exact hlt)
  | case3 marks item rest h ih =>
    rcases List.mem_cons.mp hx with rfl | hx
    · refine marked_mono ?_
      have hv : marks[x]? = some marks[x] := Array.getElem?_eq_getElem hlt
      unfold Marked
      cases hb : marks[x] with
      | true => rw [hv, hb]
      | false => exact absurd (hv.trans (congrArg some hb)) h
    · exact ih hx hlt

/-- What follows an item that the search marks gets a mark too. -/
theorem marked_of_next {next : Nat → List Nat} {marks : Array Bool} {pending : List Nat} {x y : Nat}
    (hx : Marked (markReached next marks pending) x) (hnew : ¬Marked marks x) (hy : y ∈ next x) (hlt : y < marks.size) :
    Marked (markReached next marks pending) y := by
  fun_induction markReached next marks pending with
  | case1 marks => exact absurd hx hnew
  | case2 marks item rest h ih =>
    by_cases hxi : x = item
    · subst hxi
      exact marked_of_pending (List.mem_append_left _ hy) (by rw [Array.size_set]; exact hlt)
    · refine ih hx (fun hm => ?_) (by rw [Array.size_set]; exact hlt)
      rcases (marked_set _ x).mp hm with he | hm
      · exact hxi he
      · exact hnew hm
  | case3 marks item rest h ih => exact ih hx hnew hlt

/-- What the search marks is reached from a pending item. -/
theorem reached_of_marked {next : Nat → List Nat} {marks : Array Bool} {pending : List Nat} {x : Nat}
    (hx : Marked (markReached next marks pending) x) (hnew : ¬Marked marks x) :
    ∃ p ∈ pending, ReflTransGen (fun a b => b ∈ next a) p x := by
  fun_induction markReached next marks pending with
  | case1 marks => exact absurd hx hnew
  | case2 marks item rest h ih =>
    by_cases hxi : x = item
    · exact ⟨item, List.mem_cons_self, hxi ▸ .refl⟩
    · obtain ⟨p, hp, hpx⟩ := ih hx fun hm => ((marked_set _ x).mp hm).elim hxi hnew
      rcases List.mem_append.mp hp with hp | hp
      · exact ⟨item, List.mem_cons_self, .head hp hpx⟩
      · exact ⟨p, List.mem_cons_of_mem _ hp, hpx⟩
  | case3 marks item rest h ih =>
    obtain ⟨p, hp, hpx⟩ := ih hx hnew
    exact ⟨p, List.mem_cons_of_mem _ hp, hpx⟩

/-- From a blank start the search marks exactly what is reached from an item. -/
theorem marked_iff {next : Nat → List Nat} {n item : Nat} (hitem : item < n) (hin : ∀ x < n, ∀ y ∈ next x, y < n) (x : Nat) :
    Marked (markReached next (Array.replicate n false) [item]) x ↔ ReflTransGen (fun a b => b ∈ next a) item x := by
  have hblank : ∀ y, ¬Marked (Array.replicate n false) y := by
    intro y hy
    unfold Marked at hy
    rw [Array.getElem?_replicate] at hy
    split at hy <;> simp at hy
  constructor
  · intro hx
    obtain ⟨p, hp, hpx⟩ := reached_of_marked hx (hblank x)
    rwa [List.mem_singleton.mp hp] at hpx
  · intro hx
    have hboth : x < n ∧ Marked (markReached next (Array.replicate n false) [item]) x := by
      induction hx with
      | refl => exact ⟨hitem, marked_of_pending List.mem_cons_self (by simpa using hitem)⟩
      | tail _ hbc ih =>
        have hlt := hin _ ih.1 _ hbc
        exact ⟨hlt, marked_of_next ih.2 (hblank _) hbc (by simpa using hlt)⟩
    exact hboth.2

end SearchAux

open SearchAux

/-- Ascending lists with the same members are equal. -/
theorem eq_of_ascending {α : Type} [Preorder α] {items items' : List α} (h : items.Pairwise (· < ·))
    (h' : items'.Pairwise (· < ·)) (hmem : ∀ x, x ∈ items ↔ x ∈ items') : items = items' := by
  have hnd : items.Nodup := h.imp ne_of_lt
  have hnd' : items'.Nodup := h'.imp ne_of_lt
  have hperm : items.Perm items' := (List.perm_ext_iff_of_nodup hnd hnd').mpr hmem
  exact hperm.eq_of_pairwise (fun _ _ _ _ hab hba => absurd (lt_trans hab hba) (lt_irrefl _)) h h'

/-- A list of at least two distinct items has one that differs from a given one. -/
theorem exists_ne_of_two {α : Type} {items : List α} (hnd : items.Nodup) (htwo : 2 ≤ items.length) (a : α) :
    ∃ b ∈ items, a ≠ b := by
  by_contra hall
  have hsub : items ⊆ [a] := by
    intro b hb
    by_contra hne
    exact hall ⟨b, hb, fun heq => hne (List.mem_singleton.mpr heq.symm)⟩
  have hle := List.Nodup.length_le_of_subset hnd hsub
  rw [List.length_singleton] at hle
  omega

/-! ## Reachability -/

namespace Digraph

/-- An item depends on another one. -/
def Adj (g : Digraph) (a b : Nat) : Prop := ∃ edge ∈ g.edges, edge.source = a ∧ edge.target = b

/-- The edges of a graph join items below its size, and none of them joins an item with itself. -/
structure WellFormed (g : Digraph) : Prop where
  source_lt : ∀ edge ∈ g.edges, edge.source < g.size
  target_lt : ∀ edge ∈ g.edges, edge.target < g.size
  loopless : ∀ edge ∈ g.edges, edge.source ≠ edge.target

/-- Two items reach each other. -/
def Mutual (g : Digraph) (a b : Nat) : Prop := ReflTransGen g.Adj a b ∧ ReflTransGen g.Adj b a

theorem mem_successors {g : Digraph} {a b : Nat} : b ∈ g.successors a ↔ g.Adj a b := by
  simp [successors, Adj, and_assoc]

theorem table_getD (g : Digraph) (a : Nat) : g.table[a]?.getD [] = if a < g.size then g.successors a else [] := by
  by_cases h : a < g.size <;> simp [table, h]

theorem mem_table {g : Digraph} (hg : g.WellFormed) {a b : Nat} : b ∈ g.table[a]?.getD [] ↔ g.Adj a b := by
  rw [table_getD]
  split
  · exact mem_successors
  · rename_i h
    refine ⟨fun hb => absurd hb List.not_mem_nil, fun ⟨edge, he, hs, _⟩ => ?_⟩
    exact absurd (hs ▸ hg.source_lt edge he) h

theorem WellFormed.adj_lt {g : Digraph} (hg : g.WellFormed) {a b : Nat} (h : g.Adj a b) : a < g.size ∧ b < g.size := by
  obtain ⟨edge, he, rfl, rfl⟩ := h
  exact ⟨hg.source_lt edge he, hg.target_lt edge he⟩

theorem WellFormed.reach_lt {g : Digraph} (hg : g.WellFormed) {a b : Nat} (ha : a < g.size) (h : ReflTransGen g.Adj a b) :
    b < g.size := by
  cases h with
  | refl => exact ha
  | tail _ hb => exact (hg.adj_lt hb).2

/-- The marks of an item are on what it reaches. -/
theorem reaches_iff {g : Digraph} (hg : g.WellFormed) {a : Nat} (ha : a < g.size) (b : Nat) :
    reaches g.reach a b = true ↔ ReflTransGen g.Adj a b := by
  have hrow : g.reach[a]?.getD #[] =
      markReached (fun item => g.table[item]?.getD []) (Array.replicate g.size false) [a] := by
    simp [reach, ha]
  have hin : ∀ x < g.size, ∀ y ∈ g.table[x]?.getD [], y < g.size := fun x _ y hy => (hg.adj_lt ((mem_table hg).mp hy)).2
  have hadj : (fun a b => b ∈ g.table[a]?.getD []) = g.Adj := by
    funext x y
    exact propext (mem_table hg)
  rw [reaches, hrow, ← hadj, ← marked_iff ha hin b]
  unfold Marked
  cases (markReached (fun item => g.table[item]?.getD []) (Array.replicate g.size false) [a])[b]? with
  | none => simp
  | some v => simp

theorem Mutual.refl (g : Digraph) (a : Nat) : g.Mutual a a := ⟨.refl, .refl⟩

theorem Mutual.symm {g : Digraph} {a b : Nat} (h : g.Mutual a b) : g.Mutual b a := ⟨h.2, h.1⟩

theorem Mutual.trans {g : Digraph} {a b c : Nat} (h : g.Mutual a b) (h' : g.Mutual b c) : g.Mutual a c :=
  ⟨h.1.trans h'.1, h'.2.trans h.2⟩

/-- With more edges, what reached each other still does. -/
theorem Mutual.mono {g g' : Digraph} (hsub : ∀ edge ∈ g.edges, edge ∈ g'.edges) {a b : Nat} (h : g.Mutual a b) :
    g'.Mutual a b := by
  have hadj : ∀ x y, g.Adj x y → g'.Adj x y := fun x y ⟨edge, he, hx, hy⟩ => ⟨edge, hsub edge he, hx, hy⟩
  exact ⟨ReflTransGen.mono hadj _ _ h.1, ReflTransGen.mono hadj _ _ h.2⟩

/-! ## Components -/

theorem mem_component {g : Digraph} (hg : g.WellFormed) {a : Nat} (ha : a < g.size) (b : Nat) :
    b ∈ component g.size g.reach a ↔ b < g.size ∧ g.Mutual a b := by
  rw [component, List.mem_filter, List.mem_range, Bool.and_eq_true]
  constructor
  · rintro ⟨hb, hab, hba⟩
    exact ⟨hb, (reaches_iff hg ha b).mp hab, (reaches_iff hg hb a).mp hba⟩
  · rintro ⟨hb, hab, hba⟩
    exact ⟨hb, (reaches_iff hg ha b).mpr hab, (reaches_iff hg hb a).mpr hba⟩

/-- At least two items in ascending order that reach each other, with all others that they reach and that reach them: a strongly
connected component that holds a cycle. -/
structure IsCyclic (g : Digraph) (items : List Nat) : Prop where
  ascending : items.Pairwise (· < ·)
  two : 2 ≤ items.length
  component : ∃ a ∈ items, ∀ b, b ∈ items ↔ b < g.size ∧ g.Mutual a b

theorem ascending_component (n : Nat) (reach : Array (Array Bool)) (a : Nat) :
    (component n reach a).Pairwise (· < ·) :=
  List.Pairwise.filter _ List.pairwise_lt_range

/-- The cyclic components of a graph are its strongly connected components with at least two items. -/
theorem mem_cyclicComponents {g : Digraph} (hg : g.WellFormed) (items : List Nat) :
    items ∈ g.cyclicComponents ↔ g.IsCyclic items := by
  simp only [cyclicComponents, List.mem_filterMap, List.mem_range]
  constructor
  · rintro ⟨a, ha, h⟩
    split at h
    · rename_i hc
      obtain rfl := Option.some.inj h
      refine ⟨ascending_component _ _ _, hc.2, a, ?_, mem_component hg ha⟩
      exact (mem_component hg ha a).mpr ⟨ha, Mutual.refl g a⟩
    · nomatch h
  · rintro ⟨hasc, htwo, a, _, hmem⟩
    cases items with
    | nil => simp at htwo
    | cons first rest =>
      obtain ⟨hfirst, haf⟩ := (hmem first).mp List.mem_cons_self
      have heq : component g.size g.reach first = first :: rest := by
        refine eq_of_ascending (ascending_component _ _ _) hasc fun b => ?_
        rw [mem_component hg hfirst, hmem]
        exact and_congr_right fun _ => ⟨fun h => haf.trans h, fun h => haf.symm.trans h⟩
      refine ⟨first, hfirst, ?_⟩
      rw [heq, if_pos ⟨rfl, htwo⟩]

/-- No component is listed twice: each is listed under its least item. -/
theorem nodup_cyclicComponents (g : Digraph) : g.cyclicComponents.Nodup := by
  refine List.Nodup.filterMap (fun a a' items h h' => ?_) List.nodup_range
  simp only [Option.mem_def, Option.ite_none_right_eq_some, Option.some.injEq] at h h'
  obtain ⟨⟨hhead, _⟩, rfl⟩ := h
  obtain ⟨⟨hhead', _⟩, heq⟩ := h'
  rw [heq] at hhead'
  exact Option.some.inj (hhead.symm.trans hhead')

/-- Two items that reach each other are in one component. -/
theorem exists_cyclicComponent {g : Digraph} (hg : g.WellFormed) {a b : Nat} (ha : a < g.size) (hne : a ≠ b)
    (h : g.Mutual a b) : ∃ items ∈ g.cyclicComponents, a ∈ items ∧ b ∈ items := by
  have hmem := mem_component hg ha
  have ha' : a ∈ component g.size g.reach a := (hmem a).mpr ⟨ha, Mutual.refl g a⟩
  have hb' : b ∈ component g.size g.reach a := (hmem b).mpr ⟨hg.reach_lt ha h.1, h⟩
  refine ⟨_, (mem_cyclicComponents hg _).mpr ⟨ascending_component _ _ _, ?_, a, ha', hmem⟩, ha', hb'⟩
  have hnd : [a, b].Nodup := by simp [hne]
  exact List.Nodup.length_le_of_subset hnd (by simp [ha', hb'])

/-- The items of one component reach each other. -/
theorem IsCyclic.mutual {g : Digraph} {items : List Nat} (h : g.IsCyclic items) {a b : Nat} (ha : a ∈ items)
    (hb : b ∈ items) : g.Mutual a b := by
  obtain ⟨c, _, hmem⟩ := h.component
  exact ((hmem a).mp ha).2.symm.trans ((hmem b).mp hb).2

/-- A component holds what is mutually reached from one of its items. -/
theorem IsCyclic.mem_of_mutual {g : Digraph} (hg : g.WellFormed) {items : List Nat} (h : g.IsCyclic items) {a b : Nat}
    (ha : a ∈ items) (hab : g.Mutual a b) : b ∈ items := by
  obtain ⟨c, _, hmem⟩ := h.component
  obtain ⟨halt, hca⟩ := (hmem a).mp ha
  exact (hmem b).mpr ⟨hg.reach_lt halt hab.1, hca.trans hab⟩

/-- The items of a component are items of the graph. -/
theorem IsCyclic.lt {g : Digraph} {items : List Nat} (h : g.IsCyclic items) {a : Nat} (ha : a ∈ items) : a < g.size := by
  obtain ⟨c, _, hmem⟩ := h.component
  exact ((hmem a).mp ha).1

end Digraph

end JuliaStubs.LoadOrder
