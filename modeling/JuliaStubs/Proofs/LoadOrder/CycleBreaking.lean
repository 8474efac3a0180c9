import JuliaStubs.Proofs.LoadOrder.Components
import JuliaStubs.Proofs.LoadOrder.Relocation

/-!
# Breaking cycles

Statements about `breakCycles`: which edges it keeps, that the graph it leaves has no cycle when the parent edges have none, and
when a cycle is reported as one in which argument edges were given up.

The second round looks at the graph without the result edges inside cycles. Its components are those of the graph without any result
edge (`firm`), since an edge of a cycle has both ends in one component; so what is kept depends on the edges alone.
-/

namespace JuliaStubs.LoadOrder

open Relation

/-- Each step of a way is reached from its start and leads to its end. -/
theorem transGen_between {α : Type} {r : α → α → Prop} {a b : α} (h : TransGen r a b) :
    TransGen (fun x y => r x y ∧ ReflTransGen r a x ∧ ReflTransGen r y b) a b := by
  induction h with
  | single hab => exact .single ⟨hab, .refl, .refl⟩
  | tail hab hbc ih =>
    refine TransGen.tail (TransGen.mono ?_ _ _ ih) ⟨hbc, hab.to_reflTransGen, .refl⟩
    exact fun x y hxy => ⟨hxy.1, hxy.2.1, hxy.2.2.tail hbc⟩

/-- On a way that leads back to where it starts, each step is reached from the start and leads back to it. -/
theorem transGen_round {α : Type} {r : α → α → Prop} {a b : α} (h : TransGen r a b) (hback : ReflTransGen r b a) :
    TransGen (fun x y => r x y ∧ ReflTransGen r a x ∧ ReflTransGen r y a) a b :=
  TransGen.mono (fun _ _ hxy => ⟨hxy.1, hxy.2.1, hxy.2.2.trans hback⟩) _ _ (transGen_between h)

theorem reflTransGen_round {α : Type} {r : α → α → Prop} {a b : α} (h : ReflTransGen r a b) (hback : ReflTransGen r b a) :
    ReflTransGen (fun x y => r x y ∧ ReflTransGen r a x ∧ ReflTransGen r y a) a b := by
  rcases reflTransGen_iff_eq_or_transGen.mp h with rfl | h
  · exact .refl
  · exact (transGen_round h hback).to_reflTransGen

namespace Digraph

variable {g : Digraph}

/-! ## What is dropped -/

/-- The graph without its result edges. -/
def firm (g : Digraph) : Digraph := { g with edges := g.edges.filter fun edge => edge.strength != .result }

/-- The graph without the result edges inside cycles, which is what the second round looks at. -/
def lighter (g : Digraph) : Digraph := g.dropWithin g.cyclicComponents .result

/-- An item is a child of another one. -/
def ParentAdj (g : Digraph) (a b : Nat) : Prop := ∃ edge ∈ g.edges, edge.source = a ∧ edge.target = b ∧ edge.strength = .parent

/-- A graph with fewer edges is as well formed. -/
theorem WellFormed.of_subset (hg : g.WellFormed) {g' : Digraph} (hsize : g'.size = g.size)
    (hsub : ∀ edge ∈ g'.edges, edge ∈ g.edges) : g'.WellFormed where
  source_lt := fun edge he => hsize ▸ hg.source_lt edge (hsub edge he)
  target_lt := fun edge he => hsize ▸ hg.target_lt edge (hsub edge he)
  loopless := fun edge he => hg.loopless edge (hsub edge he)

theorem dropWithin_subset (sets : List (List Nat)) (strength : Strength) :
    ∀ edge ∈ (g.dropWithin sets strength).edges, edge ∈ g.edges :=
  fun _ he => (List.mem_filter.mp he).1

/-- Dropping an edge strength inside the cyclic components drops the edges whose ends reach each other. -/
theorem mem_dropWithin (hg : g.WellFormed) (strength : Strength) (edge : Edge) :
    edge ∈ (g.dropWithin g.cyclicComponents strength).edges ↔
      edge ∈ g.edges ∧ ¬(edge.strength = strength ∧ g.Mutual edge.source edge.target) := by
  rw [dropWithin, List.mem_filter]
  refine and_congr_right fun he => ?_
  have hany : (g.cyclicComponents.any fun items => items.contains edge.source && items.contains edge.target) = true ↔
      g.Mutual edge.source edge.target := by
    simp only [List.any_eq_true, Bool.and_eq_true, List.contains_iff_mem]
    constructor
    · rintro ⟨items, hi, hs, ht⟩
      exact ((mem_cyclicComponents hg items).mp hi).mutual hs ht
    · intro hm
      exact exists_cyclicComponent hg (hg.source_lt edge he) (hg.loopless edge he) hm
  rw [Bool.not_eq_true', ← Bool.not_eq_true, Bool.and_eq_true, beq_iff_eq, hany]

theorem WellFormed.lighter (hg : g.WellFormed) : g.lighter.WellFormed := hg.of_subset rfl (dropWithin_subset _ _)

theorem WellFormed.firm (hg : g.WellFormed) : g.firm.WellFormed :=
  hg.of_subset rfl fun _ he => (List.mem_filter.mp he).1

theorem mem_firm {edge : Edge} : edge ∈ g.firm.edges ↔ edge ∈ g.edges ∧ edge.strength ≠ .result := by
  simp [firm, List.mem_filter]

/-- The two rounds agree with the graph without result edges: what reaches each other in the second round does so without them. -/
theorem mutual_lighter_iff (hg : g.WellFormed) {a b : Nat} : g.lighter.Mutual a b ↔ g.firm.Mutual a b := by
  constructor
  · intro h
    have hfirm : ∀ c x y, g.lighter.Adj x y ∧ ReflTransGen g.lighter.Adj c x ∧ ReflTransGen g.lighter.Adj y c →
        g.firm.Adj x y := by
      rintro c x y ⟨⟨edge, he, rfl, rfl⟩, hto, hfrom⟩
      obtain ⟨heg, hkept⟩ := (mem_dropWithin hg .result edge).mp he
      have hm : g.lighter.Mutual edge.source edge.target := ⟨.single ⟨edge, he, rfl, rfl⟩, hfrom.trans hto⟩
      exact ⟨edge, mem_firm.mpr ⟨heg, fun hr => hkept ⟨hr, hm.mono (dropWithin_subset _ _)⟩⟩, rfl, rfl⟩
    exact ⟨ReflTransGen.mono (hfirm a) _ _ (reflTransGen_round h.1 h.2),
      ReflTransGen.mono (hfirm b) _ _ (reflTransGen_round h.2 h.1)⟩
  · intro h
    refine h.mono fun edge he => ?_
    obtain ⟨heg, hne⟩ := mem_firm.mp he
    exact (mem_dropWithin hg .result edge).mpr ⟨heg, fun hr => hne hr.1⟩

/-- Breaking cycles drops the result edges whose ends reach each other and the argument edges whose ends reach each other without
result edges. -/
theorem mem_rest (hg : g.WellFormed) (edge : Edge) :
    edge ∈ g.breakCycles.rest.edges ↔ edge ∈ g.edges ∧ ¬(edge.strength = .result ∧ g.Mutual edge.source edge.target) ∧
      ¬(edge.strength = .argument ∧ g.firm.Mutual edge.source edge.target) := by
  have h := mem_dropWithin hg.lighter .argument edge
  rw [mutual_lighter_iff hg, lighter, mem_dropWithin hg, and_assoc] at h
  exact h

theorem rest_subset_lighter : ∀ edge ∈ g.breakCycles.rest.edges, edge ∈ g.lighter.edges := dropWithin_subset _ _

theorem WellFormed.rest (hg : g.WellFormed) : g.breakCycles.rest.WellFormed :=
  hg.lighter.of_subset rfl rest_subset_lighter

/-- Without a cycle of parent edges, breaking cycles leaves no cycle: result edges of a cycle go in the first round, argument edges
in the second. -/
theorem rest_acyclic (hg : g.WellFormed) (hparent : ∀ a, ¬TransGen g.ParentAdj a a) (a : Nat) :
    ¬TransGen g.breakCycles.rest.Adj a a := by
  intro h
  refine hparent a (TransGen.mono ?_ a a (transGen_round h .refl))
  rintro x y ⟨⟨edge, he, rfl, rfl⟩, hto, hfrom⟩
  obtain ⟨heg, hresult, hargument⟩ := (mem_rest hg edge).mp he
  have hm : g.breakCycles.rest.Mutual edge.source edge.target := ⟨.single ⟨edge, he, rfl, rfl⟩, hfrom.trans hto⟩
  have hl : g.lighter.Mutual edge.source edge.target := hm.mono rest_subset_lighter
  refine ⟨edge, heg, rfl, rfl, ?_⟩
  cases hs : edge.strength with
  | parent => rfl
  | argument => exact absurd ⟨hs, (mutual_lighter_iff hg).mp hl⟩ hargument
  | result => exact absurd ⟨hs, hl.mono (dropWithin_subset _ _)⟩ hresult

/-! ## The sequence -/

/-- The items of a graph in load order. -/
def sequence (g : Digraph) : List Nat := relocate g.size fun item => g.breakCycles.rest.table[item]?.getD []

/-- The sequence lists the items once each, and the ends of every edge that is kept in the order of their dependency. -/
theorem sequence_settled (hg : g.WellFormed) (hparent : ∀ a, ¬TransGen g.ParentAdj a a) :
    g.sequence.Perm (List.range g.size) ∧
      ∀ edge ∈ g.breakCycles.rest.edges, Precedes g.sequence edge.target edge.source := by
  have hadj : (fun a b => b ∈ g.breakCycles.rest.table[a]?.getD []) = g.breakCycles.rest.Adj := by
    funext x y
    exact propext (mem_table hg.rest)
  obtain ⟨hperm, hsettled⟩ := relocate_settled g.size (fun item => g.breakCycles.rest.table[item]?.getD [])
    (fun x _ d hd => (hg.rest.adj_lt ((mem_table hg.rest).mp hd)).2)
    (fun ⟨a, ha⟩ => rest_acyclic hg hparent a (hadj ▸ ha))
  refine ⟨hperm, fun edge he => hsettled.precedes ?_ ((mem_table hg.rest).mpr ⟨edge, he, rfl, rfl⟩)⟩
  exact hperm.mem_iff.mpr (List.mem_range.mpr (hg.rest.source_lt edge he))

/-! ## The report -/

/-- The cycles that are reported are the cyclic components, each once; a cycle is marked when two of its items reach each other
without result edges. -/
theorem mem_cycles (hg : g.WellFormed) (items : List Nat) (stubborn : Bool) :
    (items, stubborn) ∈ g.breakCycles.cycles ↔
      g.IsCyclic items ∧ (stubborn = true ↔ ∃ a ∈ items, ∃ b, a ≠ b ∧ g.firm.Mutual a b) := by
  have hmark : ∀ items, g.IsCyclic items →
      ((items.any fun item => g.lighter.cyclicComponents.any (·.contains item)) = true ↔
        ∃ a ∈ items, ∃ b, a ≠ b ∧ g.firm.Mutual a b) := by
    intro items hi
    simp only [List.any_eq_true, List.contains_iff_mem]
    refine exists_congr fun a => and_congr_right fun ha => ?_
    constructor
    · rintro ⟨component, hc, hac⟩
      have hcyc := (mem_cyclicComponents hg.lighter component).mp hc
      obtain ⟨b, hb, hne⟩ := exists_ne_of_two (hcyc.ascending.imp ne_of_lt) hcyc.two a
      exact ⟨b, hne, (mutual_lighter_iff hg).mp (hcyc.mutual hac hb)⟩
    · rintro ⟨b, hne, hm⟩
      obtain ⟨component, hc, hac, _⟩ := exists_cyclicComponent hg.lighter (hi.lt ha) hne ((mutual_lighter_iff hg).mpr hm)
      exact ⟨component, hc, hac⟩
  have hmem : (items, stubborn) ∈ g.breakCycles.cycles ↔
      items ∈ g.cyclicComponents ∧ (items.any fun item => g.lighter.cyclicComponents.any (·.contains item)) = stubborn := by
    simp only [breakCycles, byLeaving, lighter, List.mem_map, List.mem_mergeSort, Prod.mk.injEq]
    exact ⟨fun ⟨x, hx, he, hs⟩ => he ▸ ⟨hx, hs⟩, fun ⟨hx, hs⟩ => ⟨items, hx, rfl, hs⟩⟩
  rw [hmem, mem_cyclicComponents hg]
  refine and_congr_right fun hi => ?_
  rw [← hmark items hi, Bool.eq_iff_iff]
  exact Iff.comm

theorem nodup_cycles (g : Digraph) : (g.breakCycles.cycles.map Prod.fst).Nodup := by
  have h : g.breakCycles.cycles.map Prod.fst = g.byLeaving g.cyclicComponents := by
    simp [breakCycles, Function.comp_def]
  rw [h, byLeaving, (List.mergeSort_perm _ _).nodup_iff]
  exact nodup_cyclicComponents g

end Digraph

end JuliaStubs.LoadOrder
