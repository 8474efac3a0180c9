import JuliaStubs.Proofs.LoadOrder.Dependencies
import JuliaStubs.Proofs.Text.Sorted
import Mathlib

/-!
# The load order and its cycles

Statements about `order` on distinct classes of a registry that a session leads to. The order lists each class once and after every
dependency that is kept; only dependencies inside a reported cycle are not, and never those on a parent
(`order_meets_dependencies`). The report is exact: its cycles are the sets of at least two classes that depend on each other, and a
cycle is marked when some argument type in it is loaded after its user, which is when parents and argument types alone form a cycle
(`cycles_exact`).
-/

namespace JuliaStubs.LoadOrder

open Catalog Relation Text

/-- The name of a listed class, by its number. -/
def nameAt (classes : List ClassDecl) (i : Nat) : String := (classes.map ClassDecl.name)[i]?.getD ""

/-- At least two classes in ascending order, and all classes that depend on each other with them. -/
structure IsCycle (r : Registry) (classes : List ClassDecl) (names : List String) : Prop where
  ascending : names.Pairwise (· < ·)
  two : 2 ≤ names.length
  component : ∃ a ∈ names, ∀ b, b ∈ names ↔ b ∈ classes.map ClassDecl.name ∧ Interdepends r classes (fun _ => True) a b

section Order

variable {r : Registry} {classes : List ClassDecl}

theorem names_order (r : Registry) (classes : List ClassDecl) :
    (order r classes).names = (graph r classes).sequence.map (nameAt classes) := rfl

theorem cycles_order (r : Registry) (classes : List ClassDecl) :
    (order r classes).cycles = (graph r classes).breakCycles.cycles.map
      fun (items, stubborn) => ⟨Text.sortNames (items.map (nameAt classes)), stubborn⟩ := rfl

theorem nameAt_eq {i : Nat} {name : String} (h : (classes.map ClassDecl.name)[i]? = some name) : nameAt classes i = name := by
  rw [nameAt, h, Option.getD_some]

theorem getElem?_nameAt {i : Nat} (h : i < (graph r classes).size) :
    (classes.map ClassDecl.name)[i]? = some (nameAt classes i) := by
  rw [nameAt, List.getElem?_eq_getElem h, Option.getD_some]

theorem nameAt_inj (h : Listing r classes) {i j : Nat} (hi : i < (graph r classes).size) (hj : j < (graph r classes).size)
    (heq : nameAt classes i = nameAt classes j) : i = j :=
  (List.getElem?_inj hi h.nodup).mp ((getElem?_nameAt hi).trans (heq ▸ (getElem?_nameAt hj).symm))

theorem map_nameAt_range (r : Registry) (classes : List ClassDecl) :
    (List.range (graph r classes).size).map (nameAt classes) = classes.map ClassDecl.name := by
  apply List.ext_getElem?
  intro i
  by_cases hi : i < (graph r classes).size
  · rw [getElem?_nameAt hi, List.getElem?_map, List.getElem?_range hi, Option.map_some]
  · rw [List.getElem?_eq_none (by simpa using hi), List.getElem?_eq_none (Nat.le_of_not_lt hi)]

/-- The order lists the classes it is given. -/
theorem order_perm (h : Listing r classes) : (order r classes).names.Perm (classes.map ClassDecl.name) := by
  rw [names_order, ← map_nameAt_range r classes]
  exact (Digraph.sequence_settled (graph_wellFormed h) (graph_parents_acyclic h)).1.map _

theorem nodup_order (h : Listing r classes) : (order r classes).names.Nodup :=
  (order_perm h).nodup_iff.mpr h.nodup

/-- A dependency is met, or it was given up: one by a result type in a cycle, or one by an argument type in a cycle of parents and
argument types. -/
theorem precedes_or_given_up (h : Listing r classes) {cls : ClassDecl} {name : String} {strength : Strength}
    (hc : cls ∈ classes) (hn : name ∈ classes.map ClassDecl.name) (hd : DependsAs r cls name strength) :
    Precedes (order r classes).names name cls.name ∨
      (strength = .result ∧ Interdepends r classes (fun _ => True) cls.name name) ∨
      (strength = .argument ∧ Interdepends r classes (· ≠ .result) cls.name name) := by
  have hg := graph_wellFormed h
  obtain ⟨i, hi⟩ := List.mem_iff_getElem?.mp hc
  obtain ⟨j, hj⟩ := List.mem_iff_getElem?.mp hn
  have hi' : (classes.map ClassDecl.name)[i]? = some cls.name := by rw [List.getElem?_map, hi, Option.map_some]
  have he : (⟨i, j, strength⟩ : Edge) ∈ (graph r classes).edges := (mem_graph_edges h _).mpr ⟨cls, name, hi, hj, hd⟩
  by_cases hkept : (⟨i, j, strength⟩ : Edge) ∈ (graph r classes).breakCycles.rest.edges
  · left
    have hp := (Digraph.sequence_settled hg (graph_parents_acyclic h)).2 _ hkept
    have hnames := hp.map (nameAt classes)
    simp only [nameAt_eq hi', nameAt_eq hj] at hnames
    exact hnames
  · right
    rw [Digraph.mem_rest hg, mutual_graph_iff h hi' hj, mutual_firm_iff h hi' hj] at hkept
    by_contra hnot
    rw [not_or] at hnot
    exact hkept ⟨he, hnot.1, hnot.2⟩

/-! ## The cycles -/

/-- The names of a component are a cycle of the classes. -/
theorem isCycle_of_isCyclic (h : Listing r classes) {items : List Nat} (hi : (graph r classes).IsCyclic items) :
    IsCycle r classes (Text.sortNames (items.map (nameAt classes))) where
  ascending := by
    have hnd : items.Nodup := hi.ascending.imp ne_of_lt
    refine ascending_sortNames (List.Nodup.map_on (fun i hii j hjj heq => ?_) hnd)
    exact nameAt_inj h (hi.lt hii) (hi.lt hjj) heq
  two := by
    rw [Text.sortNames, List.length_mergeSort, List.length_map]
    exact hi.two
  component := by
    obtain ⟨i, hii, hmem⟩ := hi.component
    have hni := getElem?_nameAt (hi.lt hii)
    refine ⟨nameAt classes i, mem_sortNames.mpr (List.mem_map_of_mem hii), fun b => ?_⟩
    rw [mem_sortNames, List.mem_map]
    constructor
    · rintro ⟨j, hjj, rfl⟩
      have hnj := getElem?_nameAt (hi.lt hjj)
      exact ⟨List.mem_of_getElem? hnj, (mutual_graph_iff h hni hnj).mp (hi.mutual hii hjj)⟩
    · rintro ⟨hb, hab⟩
      obtain ⟨j, hj⟩ := List.mem_iff_getElem?.mp hb
      have hm := (mutual_graph_iff h hni hj).mpr hab
      exact ⟨j, hi.mem_of_mutual (graph_wellFormed h) hii hm, nameAt_eq hj⟩

theorem Interdepends.symm {reason : Strength → Prop} {a b : String} (h : Interdepends r classes reason a b) :
    Interdepends r classes reason b a := ⟨h.2, h.1⟩

theorem Interdepends.trans {reason : Strength → Prop} {a b c : String} (h : Interdepends r classes reason a b)
    (h' : Interdepends r classes reason b c) : Interdepends r classes reason a c :=
  ⟨h.1.trans h'.1, h'.2.trans h.2⟩

theorem Interdepends.mono {reason : Strength → Prop} {a b : String} (h : Interdepends r classes reason a b) :
    Interdepends r classes (fun _ => True) a b := by
  have hsub : ∀ x y, Depends r classes reason x y → Depends r classes (fun _ => True) x y :=
    fun _ _ ⟨cls, hc, hn, hm, s, _, hd⟩ => ⟨cls, hc, hn, hm, s, trivial, hd⟩
  exact ⟨ReflTransGen.mono hsub _ _ h.1, ReflTransGen.mono hsub _ _ h.2⟩

theorem IsCycle.interdepends {names : List String} (h : IsCycle r classes names) {a b : String} (ha : a ∈ names)
    (hb : b ∈ names) : Interdepends r classes (fun _ => True) a b := by
  obtain ⟨c, _, hmem⟩ := h.component
  exact ((hmem a).mp ha).2.symm.trans ((hmem b).mp hb).2

theorem IsCycle.mem_names {names : List String} (h : IsCycle r classes names) {a : String} (ha : a ∈ names) :
    a ∈ classes.map ClassDecl.name := by
  obtain ⟨c, _, hmem⟩ := h.component
  exact ((hmem a).mp ha).1

theorem IsCycle.mem_of_interdepends {names : List String} (h : IsCycle r classes names) {a b : String} (ha : a ∈ names)
    (hb : b ∈ classes.map ClassDecl.name) (hab : Interdepends r classes (fun _ => True) a b) : b ∈ names := by
  obtain ⟨c, _, hmem⟩ := h.component
  exact (hmem b).mpr ⟨hb, ((hmem a).mp ha).2.trans hab⟩

/-- Two cycles with a class in common are one. -/
theorem IsCycle.eq {names names' : List String} (h : IsCycle r classes names) (h' : IsCycle r classes names') {a : String}
    (ha : a ∈ names) (ha' : a ∈ names') : names = names' := by
  refine eq_of_ascending h.ascending h'.ascending fun b => ⟨fun hb => ?_, fun hb => ?_⟩
  · exact h'.mem_of_interdepends ha' (h.mem_names hb) (h.interdepends ha hb)
  · exact h.mem_of_interdepends ha (h'.mem_names hb) (h'.interdepends ha' hb)

/-- Some class of a cycle depends on another class and it on that one, by parents and argument types alone. -/
def HasFirmCycle (r : Registry) (classes : List ClassDecl) (names : List String) : Prop :=
  ∃ a ∈ names, ∃ b ∈ classes.map ClassDecl.name, a ≠ b ∧ Interdepends r classes (· ≠ .result) a b

/-- The cycles that are reported, in terms of the dependencies alone. -/
theorem mem_cycles_iff (h : Listing r classes) (cycle : Cycle) :
    cycle ∈ (order r classes).cycles ↔
      IsCycle r classes cycle.classes ∧ (cycle.forwardArguments = true ↔ HasFirmCycle r classes cycle.classes) := by
  have hg := graph_wellFormed h
  have hfirm : ∀ items, (graph r classes).IsCyclic items →
      ((∃ i ∈ items, ∃ j, i ≠ j ∧ (graph r classes).firm.Mutual i j) ↔
        HasFirmCycle r classes (Text.sortNames (items.map (nameAt classes)))) := by
    intro items hi
    constructor
    · rintro ⟨i, hii, j, hne, hm⟩
      have hj : j < (graph r classes).size := hg.firm.reach_lt (hi.lt hii) hm.1
      refine ⟨nameAt classes i, mem_sortNames.mpr (List.mem_map_of_mem hii), nameAt classes j,
        List.mem_of_getElem? (getElem?_nameAt hj), fun heq => hne (nameAt_inj h (hi.lt hii) hj heq), ?_⟩
      exact (mutual_firm_iff h (getElem?_nameAt (hi.lt hii)) (getElem?_nameAt hj)).mp hm
    · rintro ⟨a, ha, b, hb, hne, hm⟩
      obtain ⟨i, hii, rfl⟩ := List.mem_map.mp (mem_sortNames.mp ha)
      obtain ⟨j, hj⟩ := List.mem_iff_getElem?.mp hb
      refine ⟨i, hii, j, fun heq => hne (heq ▸ nameAt_eq hj), ?_⟩
      exact (mutual_firm_iff h (getElem?_nameAt (hi.lt hii)) hj).mpr hm
  rw [cycles_order, List.mem_map]
  constructor
  · rintro ⟨⟨items, stubborn⟩, hmem, rfl⟩
    obtain ⟨hi, hs⟩ := (Digraph.mem_cycles hg items stubborn).mp hmem
    exact ⟨isCycle_of_isCyclic h hi, hs.trans (hfirm items hi)⟩
  · rintro ⟨hcycle, hs⟩
    obtain ⟨names, forwardArguments⟩ := cycle
    obtain ⟨a, ha, hmem⟩ := hcycle.component
    obtain ⟨i, hia⟩ := List.mem_iff_getElem?.mp (hcycle.mem_names ha)
    obtain ⟨b, hb, hne⟩ := exists_ne_of_two (hcycle.ascending.imp ne_of_lt) hcycle.two a
    obtain ⟨j, hjb⟩ := List.mem_iff_getElem?.mp (hcycle.mem_names hb)
    have hm := (mutual_graph_iff h hia hjb).mpr (hcycle.interdepends ha hb)
    have hij : i ≠ j := by
      rintro rfl
      exact hne (Option.some.inj (hia.symm.trans hjb))
    obtain ⟨items, hic, hii, _⟩ := Digraph.exists_cyclicComponent hg (List.getElem?_eq_some_iff.mp hia).1 hij hm
    have hi := (Digraph.mem_cyclicComponents hg items).mp hic
    obtain rfl : Text.sortNames (items.map (nameAt classes)) = names := by
      refine (isCycle_of_isCyclic h hi).eq hcycle (mem_sortNames.mpr ?_) ha
      exact List.mem_map.mpr ⟨i, hii, nameAt_eq hia⟩
    exact ⟨(items, forwardArguments), (Digraph.mem_cycles hg items _).mpr ⟨hi, hs.trans (hfirm items hi).symm⟩, rfl⟩

/-- Two listed classes that depend on each other are in a reported cycle. -/
theorem exists_cycle (h : Listing r classes) {a b : String} (ha : a ∈ classes.map ClassDecl.name)
    (hb : b ∈ classes.map ClassDecl.name) (hne : a ≠ b) (hab : Interdepends r classes (fun _ => True) a b) :
    ∃ cycle ∈ (order r classes).cycles, a ∈ cycle.classes ∧ b ∈ cycle.classes := by
  classical
  obtain ⟨i, hi⟩ := List.mem_iff_getElem?.mp ha
  obtain ⟨j, hj⟩ := List.mem_iff_getElem?.mp hb
  have hij : i ≠ j := by
    rintro rfl
    exact hne (Option.some.inj (hi.symm.trans hj))
  obtain ⟨items, hic, hii, hjj⟩ := Digraph.exists_cyclicComponent (graph_wellFormed h)
    (List.getElem?_eq_some_iff.mp hi).1 hij ((mutual_graph_iff h hi hj).mpr hab)
  have hcycle := isCycle_of_isCyclic h ((Digraph.mem_cyclicComponents (graph_wellFormed h) items).mp hic)
  refine ⟨⟨_, decide (HasFirmCycle r classes _)⟩, (mem_cycles_iff h _).mpr ⟨hcycle, decide_eq_true_iff⟩, ?_, ?_⟩
  · exact mem_sortNames.mpr (List.mem_map.mpr ⟨i, hii, nameAt_eq hi⟩)
  · exact mem_sortNames.mpr (List.mem_map.mpr ⟨j, hjj, nameAt_eq hj⟩)

/-- A parent is a dependency of the strongest kind. -/
theorem dependsAs_parent (h : ParentsFirst r.newestFirst) {cls : ClassDecl} (hc : cls ∈ r.newestFirst) {name : String}
    (hp : cls.parent = some name) : DependsAs r cls name .parent := by
  refine ⟨.parent hp fun heq => ?_, fun other _ => Nat.zero_le _⟩
  have hlt := h.idxOf_lt hc hp
  rw [heq] at hlt
  exact Nat.lt_irrefl _ hlt

/-- A parent in the list precedes its children. -/
theorem precedes_of_parent (h : Listing r classes) {cls : ClassDecl} (hc : cls ∈ classes) {name : String}
    (hn : name ∈ classes.map ClassDecl.name) (hp : cls.parent = some name) :
    Precedes (order r classes).names name cls.name := by
  have hd := dependsAs_parent h.parentsFirst (h.registered cls hc) hp
  rcases precedes_or_given_up h hc hn hd with hprec | ⟨hs, _⟩ | ⟨hs, _⟩
  · exact hprec
  · nomatch hs
  · nomatch hs

/-- What is given up is given up inside a reported cycle, argument types inside a marked one. -/
theorem precedes_or_in_cycle (h : Listing r classes) {cls : ClassDecl} {name : String} {strength : Strength}
    (hc : cls ∈ classes) (hn : name ∈ classes.map ClassDecl.name) (hd : DependsAs r cls name strength) :
    Precedes (order r classes).names name cls.name ∨
      ∃ cycle ∈ (order r classes).cycles, cls.name ∈ cycle.classes ∧ name ∈ cycle.classes ∧
        (strength = .result ∨ strength = .argument ∧ cycle.forwardArguments = true) := by
  have hcn := List.mem_map_of_mem (f := ClassDecl.name) hc
  rcases precedes_or_given_up h hc hn hd with hprec | ⟨hs, hcyc⟩ | ⟨hs, hcyc⟩
  · exact Or.inl hprec
  · obtain ⟨cycle, hm, ha, hb⟩ := exists_cycle h hcn hn hd.1.ne.symm hcyc
    exact Or.inr ⟨cycle, hm, ha, hb, Or.inl hs⟩
  · obtain ⟨cycle, hm, ha, hb⟩ := exists_cycle h hcn hn hd.1.ne.symm hcyc.mono
    have hmark := ((mem_cycles_iff h cycle).mp hm).2.mpr ⟨_, ha, name, hn, hd.1.ne.symm, hcyc⟩
    exact Or.inr ⟨cycle, hm, ha, hb, Or.inr ⟨hs, hmark⟩⟩

/-! ## What a mark stands for -/

/-- No two of the reported cycles have the same classes. -/
theorem nodup_cycles_order (h : Listing r classes) : ((order r classes).cycles.map Cycle.classes).Nodup := by
  have hg := graph_wellFormed h
  have hnames : (order r classes).cycles.map Cycle.classes =
      ((graph r classes).breakCycles.cycles.map Prod.fst).map fun items => Text.sortNames (items.map (nameAt classes)) := by
    rw [cycles_order, List.map_map, List.map_map]
    rfl
  have hcyclic : ∀ items ∈ (graph r classes).breakCycles.cycles.map Prod.fst, (graph r classes).IsCyclic items := by
    intro items hi
    obtain ⟨⟨_, stubborn⟩, hm, rfl⟩ := List.mem_map.mp hi
    exact ((Digraph.mem_cycles hg _ stubborn).mp hm).1
  have hsub : ∀ items items', (graph r classes).IsCyclic items → (graph r classes).IsCyclic items' →
      Text.sortNames (items.map (nameAt classes)) = Text.sortNames (items'.map (nameAt classes)) →
      ∀ i ∈ items, i ∈ items' := by
    intro items items' hi hi' heq i hii
    have hmem : nameAt classes i ∈ Text.sortNames (items.map (nameAt classes)) :=
      mem_sortNames.mpr (List.mem_map_of_mem hii)
    rw [heq, mem_sortNames] at hmem
    obtain ⟨j, hj, hn⟩ := List.mem_map.mp hmem
    exact nameAt_inj h (hi'.lt hj) (hi.lt hii) hn ▸ hj
  rw [hnames]
  refine List.Nodup.map_on (fun items hi items' hi' heq => ?_) (Digraph.nodup_cycles _)
  have hc := hcyclic items hi
  have hc' := hcyclic items' hi'
  exact eq_of_ascending hc.ascending hc'.ascending fun i => ⟨hsub _ _ hc hc' heq i, hsub _ _ hc' hc heq.symm i⟩

/-- What depends on what is a matter of which classes are listed, not of their places. -/
theorem depends_congr {others : List ClassDecl} (hp : others.Perm classes) : Depends r others = Depends r classes := by
  funext reason a b
  simp only [Depends, (hp.map ClassDecl.name).mem_iff, hp.mem_iff]

theorem interdepends_congr {others : List ClassDecl} (hp : others.Perm classes) :
    Interdepends r others = Interdepends r classes := by
  funext reason a b
  simp only [Interdepends, depends_congr hp]

theorem isCycle_congr {others : List ClassDecl} (hp : others.Perm classes) {names : List String} :
    (IsCycle r others names ↔ IsCycle r classes names) ∧
      (HasFirmCycle r others names ↔ HasFirmCycle r classes names) := by
  have hmem : ∀ name, name ∈ others.map ClassDecl.name ↔ name ∈ classes.map ClassDecl.name := fun name =>
    (hp.map ClassDecl.name).mem_iff
  refine ⟨⟨fun hc => ⟨hc.ascending, hc.two, ?_⟩, fun hc => ⟨hc.ascending, hc.two, ?_⟩⟩, ?_⟩
  · have := hc.component
    simpa only [hmem, interdepends_congr hp] using this
  · have := hc.component
    simpa only [hmem, interdepends_congr hp] using this
  · simp only [HasFirmCycle, hmem, interdepends_congr hp]

/-- The cycles of a list of classes are those of every arrangement of it. -/
theorem cycles_perm {others : List ClassDecl} (h : Listing r classes) (hp : others.Perm classes) :
    (order r others).cycles.Perm (order r classes).cycles := by
  have hnd := List.Nodup.of_map _ (nodup_cycles_order h)
  have hnd' := List.Nodup.of_map _ (nodup_cycles_order (h.of_perm hp))
  refine (List.perm_ext_iff_of_nodup hnd' hnd).mpr fun cycle => ?_
  rw [mem_cycles_iff (h.of_perm hp), mem_cycles_iff h, (isCycle_congr hp).1, (isCycle_congr hp).2]

/-- Some class of a set has an argument type that another class of the set declares and that is loaded after it. -/
def HasLateArgument (r : Registry) (classes : List ClassDecl) (names : List String) : Prop :=
  ∃ cls ∈ classes, ∃ other ∈ classes, cls.name ∈ names ∧ other.name ∈ names ∧ DependsAs r cls other.name .argument ∧
    Precedes (order r classes).names cls.name other.name

/-- Inside a set some class leads back to itself by parents and argument types. -/
def HasFirmRound (r : Registry) (classes : List ClassDecl) (names : List String) : Prop :=
  ∃ a, TransGen (fun x y => x ∈ names ∧ y ∈ names ∧ Depends r classes (· ≠ .result) x y) a a

/-- A way back by parents and argument types stays inside the cycle that it starts in. -/
theorem IsCycle.hasFirmRound {names : List String} (h : IsCycle r classes names) (hf : HasFirmCycle r classes names) :
    HasFirmRound r classes names := by
  obtain ⟨a, ha, b, _, hne, hab, hba⟩ := hf
  have hround : TransGen (Depends r classes (· ≠ .result)) a a := by
    rcases reflTransGen_iff_eq_or_transGen.mp hab with heq | hab
    · exact absurd heq.symm hne
    · exact hab.trans_left hba
  refine ⟨a, TransGen.mono ?_ a a (transGen_round hround .refl)⟩
  rintro x y ⟨hxy, hax, hya⟩
  have hx : x ∈ classes.map ClassDecl.name := by
    obtain ⟨cls, hc, rfl, _⟩ := hxy
    exact List.mem_map_of_mem hc
  have hix : Interdepends r classes (· ≠ .result) a x := ⟨hax, .head hxy hya⟩
  have hiy : Interdepends r classes (· ≠ .result) a y := ⟨hax.tail hxy, hya⟩
  exact ⟨h.mem_of_interdepends ha hx hix.mono, h.mem_of_interdepends ha hxy.mem hiy.mono, hxy⟩

/-- Parents are loaded first, so a way back without a late argument would lead ever closer to the front. -/
theorem HasFirmRound.hasLateArgument (h : Listing r classes) {names : List String} (hr : HasFirmRound r classes names) :
    HasLateArgument r classes names := by
  by_contra hnot
  obtain ⟨a, ha⟩ := hr
  refine Precedes.acyclic (nodup_order h) ?_ a ha
  rintro x y ⟨hx, hy, cls, hc, rfl, hn, strength, hs, hd⟩
  have hmem : ∀ name, name ∈ classes.map ClassDecl.name → name ∈ (order r classes).names := fun name hin =>
    (order_perm h).mem_iff.mpr hin
  obtain ⟨other, ho, rfl⟩ := List.mem_map.mp hn
  rcases precedes_or_precedes (hmem _ hn) (hmem _ (List.mem_map_of_mem hc)) hd.1.ne with hp | hp
  · exact hp
  · cases strength with
    | parent => exact (precedes_or_given_up h hc hn hd).resolve_right (by simp)
    | argument => exact absurd ⟨cls, hc, other, ho, hx, hy, hd, hp⟩ hnot
    | result => exact absurd rfl hs

/-- An argument type that is loaded after its user was given up, in a cycle of parents and argument types. -/
theorem HasLateArgument.hasFirmCycle (h : Listing r classes) {names : List String} (hl : HasLateArgument r classes names) :
    HasFirmCycle r classes names := by
  obtain ⟨cls, hc, other, ho, hcn, _, hd, hlate⟩ := hl
  have hon := List.mem_map_of_mem (f := ClassDecl.name) ho
  rcases precedes_or_given_up h hc hon hd with hp | ⟨hs, _⟩ | ⟨_, hcyc⟩
  · exact absurd (hp.idxOf_lt (nodup_order h)) (hlate.idxOf_lt (nodup_order h)).asymm
  · nomatch hs
  · exact ⟨_, hcn, _, hon, hd.1.ne.symm, hcyc⟩

/-- A parent or an argument type that does not lead back is loaded first. -/
theorem precedes_of_firm (h : Listing r classes) {a b : String} (hab : Depends r classes (· ≠ .result) a b)
    (hback : ¬ReflTransGen (Depends r classes (· ≠ .result)) b a) : Precedes (order r classes).names b a := by
  obtain ⟨cls, hc, rfl, hn, strength, hs, hd⟩ := hab
  rcases precedes_or_given_up h hc hn hd with hp | ⟨hresult, _⟩ | ⟨_, hcyc⟩
  · exact hp
  · exact absurd hresult hs
  · exact absurd hcyc.2 hback

/-- Parents and argument types are all loaded first exactly when they form no cycle. -/
theorem firm_met_iff (h : Listing r classes) :
    (∀ a b, Depends r classes (· ≠ .result) a b → Precedes (order r classes).names b a) ↔
      ∀ a, ¬TransGen (Depends r classes (· ≠ .result)) a a :=
  ⟨fun hmet a => Precedes.acyclic (nodup_order h) hmet a,
    fun hac a _ hab => precedes_of_firm h hab fun hba => hac a (.head' hab hba)⟩

/-- A reported cycle is marked when some argument type in it is loaded after its user. -/
theorem marked_iff_late (h : Listing r classes) {cycle : Cycle} (hc : cycle ∈ (order r classes).cycles) :
    cycle.forwardArguments = true ↔ HasLateArgument r classes cycle.classes := by
  obtain ⟨hcycle, hmark⟩ := (mem_cycles_iff h cycle).mp hc
  rw [hmark]
  exact ⟨fun hf => (hcycle.hasFirmRound hf).hasLateArgument h, fun hl => hl.hasFirmCycle h⟩

/-- A reported cycle is marked when parents and argument types alone form a cycle in it. -/
theorem marked_iff_round (h : Listing r classes) {cycle : Cycle} (hc : cycle ∈ (order r classes).cycles) :
    cycle.forwardArguments = true ↔ HasFirmRound r classes cycle.classes := by
  obtain ⟨hcycle, hmark⟩ := (mem_cycles_iff h cycle).mp hc
  rw [hmark]
  exact ⟨hcycle.hasFirmRound, fun hr => (hr.hasLateArgument h).hasFirmCycle h⟩

end Order

/-! ## The order and the report -/

/-- The order lists the classes, each parent before its children. A dependency that it does not meet is between classes of one
reported cycle: on a result type, or on an argument type and then the cycle is marked. -/
theorem order_meets_dependencies {r : Registry} (hr : r.Reachable) {classes : List ClassDecl}
    (hin : ∀ cls ∈ classes, cls ∈ r.classes) (hnd : classes.Nodup) :
    (order r classes).names.Perm (classes.map ClassDecl.name) ∧
      (∀ cls ∈ classes, ∀ parent ∈ classes, cls.parent = some parent.name →
        Precedes (order r classes).names parent.name cls.name) ∧
      (∀ cls ∈ classes, ∀ other ∈ classes, ∀ strength, DependsAs r cls other.name strength →
        Precedes (order r classes).names other.name cls.name ∨
          ∃ cycle ∈ (order r classes).cycles, cls.name ∈ cycle.classes ∧ other.name ∈ cycle.classes ∧
            (strength = .result ∨ strength = .argument ∧ cycle.forwardArguments = true)) ∧
      ((order r classes).cycles = [] → ∀ cls ∈ classes, ∀ other ∈ classes, ∀ strength, DependsAs r cls other.name strength →
        Precedes (order r classes).names other.name cls.name) := by
  have h := Listing.of_reachable hr hin hnd
  refine ⟨order_perm h, fun cls hc parent hp heq => ?_, fun cls hc other ho strength hd => ?_,
    fun hnone cls hc other ho strength hd => ?_⟩
  · exact precedes_of_parent h hc (List.mem_map_of_mem hp) heq
  · exact precedes_or_in_cycle h hc (List.mem_map_of_mem ho) hd
  · rcases precedes_or_in_cycle h hc (List.mem_map_of_mem ho) hd with hprec | ⟨cycle, hm, _⟩
    · exact hprec
    · rw [hnone] at hm
      nomatch hm

/-- A class with a method for each class in a list, which takes an object of it. -/
def acquaintance (name : String) (parent : Option String) (others : List String) : ClassDecl :=
  { name
    parent
    partition := .core
    isSingleton := false
    isInstantiable := true
    isRefCounted := false
    doc := none
    enums := []
    constants := []
    methods := others.map fun other => ⟨"meet", false, false, false, .plain "void", [⟨"other", .plain other, none⟩], none⟩
    properties := [] }

/-- The calls that register a root and two classes below it that take each other. -/
def rivals : Registry :=
  ((Registry.standard.after (.object (acquaintance "Object" none []))).after
    (.object (acquaintance "Alpha" (some "Object") ["Beta"]))).after (.object (acquaintance "Beta" (some "Object") ["Alpha"]))

theorem reachable_rivals : rivals.Reachable := .after _ (.after _ (.after _ Registry.reachable_standard))

theorem order_meets_dependencies_rivals : (order rivals rivals.classes).names.Perm ["Object", "Alpha", "Beta"] ∧
    Precedes (order rivals rivals.classes).names "Object" "Alpha" := by
  have h := order_meets_dependencies reachable_rivals (fun _ hc => hc) (by decide : rivals.classes.Nodup)
  refine ⟨h.1, h.2.1 (acquaintance "Alpha" (some "Object") ["Beta"]) (by decide) (acquaintance "Object" none []) (by decide) ?_⟩
  rfl

/-- The reported cycles are the sets of at least two classes that depend on each other, each reported once and whatever the order of
the list. A cycle is marked when some argument type in it is loaded after its user, and that is when some class of it leads back to
itself by parents and argument types inside it. -/
theorem cycles_exact {r : Registry} (hr : r.Reachable) {classes : List ClassDecl} (hin : ∀ cls ∈ classes, cls ∈ r.classes)
    (hnd : classes.Nodup) :
    (∀ names, names ∈ (order r classes).cycles.map Cycle.classes ↔ IsCycle r classes names) ∧
      ((order r classes).cycles.map Cycle.classes).Nodup ∧
      (∀ others : List ClassDecl, others.Perm classes → (order r others).cycles.Perm (order r classes).cycles) ∧
      ∀ cycle ∈ (order r classes).cycles,
        (cycle.forwardArguments = true ↔ HasLateArgument r classes cycle.classes) ∧
          (cycle.forwardArguments = true ↔ HasFirmRound r classes cycle.classes) := by
  classical
  have h := Listing.of_reachable hr hin hnd
  refine ⟨fun names => ⟨fun hm => ?_, fun hc => ?_⟩, nodup_cycles_order h, fun others hp => ?_, fun cycle hc => ?_⟩
  · obtain ⟨cycle, hc, rfl⟩ := List.mem_map.mp hm
    exact ((mem_cycles_iff h cycle).mp hc).1
  · have hmem := (mem_cycles_iff h ⟨names, decide (HasFirmCycle r classes names)⟩).mpr ⟨hc, decide_eq_true_iff⟩
    exact List.mem_map_of_mem (f := Cycle.classes) hmem
  · exact cycles_perm h hp
  · exact ⟨marked_iff_late h hc, marked_iff_round h hc⟩

theorem cycles_exact_rivals : IsCycle rivals rivals.classes ["Alpha", "Beta"] ∧
    HasLateArgument rivals rivals.classes ["Alpha", "Beta"] := by
  have hcycles : (order rivals rivals.classes).cycles = [⟨["Alpha", "Beta"], true⟩] := by cbv
  have h := cycles_exact reachable_rivals (fun _ hc => hc) (by decide : rivals.classes.Nodup)
  rw [hcycles] at h
  exact ⟨(h.1 _).mp (List.mem_singleton.mpr rfl), (h.2.2.2 _ (List.mem_singleton.mpr rfl)).1.mp rfl⟩

end JuliaStubs.LoadOrder
