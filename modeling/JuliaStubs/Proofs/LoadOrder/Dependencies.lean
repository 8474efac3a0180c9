import JuliaStubs.LoadOrder.Basic
import JuliaStubs.Proofs.Catalog.Registration
import JuliaStubs.Proofs.LoadOrder.CycleBreaking

/-!
# Dependencies between listed classes

What a class depends on, said without the lists that `dependencies` goes through (`Mentions`, `DependsAs`), and the graph of a list of
classes in terms of their names: an edge of `graph` is a dependency between the classes at its ends (`mem_graph_edges`), and items
reach each other when their classes do (`mutual_graph_iff`, `mutual_firm_iff`).
-/

namespace JuliaStubs.LoadOrder

open Catalog Relation

/-! ## Mentions -/

/-- A class mentions another one: it is its parent, or its file declares the type of an argument or of a result. -/
inductive Mentions (r : Registry) (cls : ClassDecl) (name : String) : Strength → Prop where
  | parent : cls.parent = some name → name ≠ cls.name → Mentions r cls name .parent
  | argument {method : Method} {argument : Argument} : method ∈ cls.methods → argument ∈ method.arguments →
      declaringClass? r argument.type = some name → name ≠ cls.name → Mentions r cls name .argument
  | result {method : Method} : method ∈ cls.methods → declaringClass? r method.result = some name → name ≠ cls.name →
      Mentions r cls name .result

/-- A class depends on another one for a reason: the strongest of its mentions. -/
def DependsAs (r : Registry) (cls : ClassDecl) (name : String) (strength : Strength) : Prop :=
  Mentions r cls name strength ∧ ∀ other, Mentions r cls name other → strength.rank ≤ other.rank

theorem Mentions.ne {r : Registry} {cls : ClassDecl} {name : String} {strength : Strength}
    (h : Mentions r cls name strength) : name ≠ cls.name := by
  cases h <;> assumption

theorem mem_signatureMentions {r : Registry} {method : Method} {mention : Dependency} :
    mention ∈ signatureMentions r method ↔
      (declaringClass? r method.result = some mention.name ∧ mention.strength = .result) ∨
      ∃ argument ∈ method.arguments, declaringClass? r argument.type = some mention.name ∧ mention.strength = .argument := by
  obtain ⟨name, strength⟩ := mention
  simp only [signatureMentions, List.mem_filterMap, List.mem_cons, List.mem_map, Option.map_eq_some_iff, Dependency.mk.injEq]
  constructor
  · rintro ⟨_, rfl | ⟨argument, ha, rfl⟩, _, hd, rfl, rfl⟩
    · exact Or.inl ⟨hd, rfl⟩
    · exact Or.inr ⟨argument, ha, hd, rfl⟩
  · rintro (⟨hd, rfl⟩ | ⟨argument, ha, hd, rfl⟩)
    · exact ⟨_, Or.inl rfl, name, hd, rfl, rfl⟩
    · exact ⟨_, Or.inr ⟨argument, ha, rfl⟩, name, hd, rfl, rfl⟩

theorem mem_mentions {r : Registry} {cls : ClassDecl} {mention : Dependency} :
    mention ∈ mentions r cls ↔ Mentions r cls mention.name mention.strength := by
  simp only [mentions, List.mem_filter, List.mem_append, Option.mem_toList, Option.map_eq_some_iff, List.mem_flatMap,
    mem_signatureMentions, bne_iff_ne]
  constructor
  · rintro ⟨⟨p, hp, rfl⟩ | ⟨method, hm, ⟨hd, hs⟩ | ⟨argument, ha, hd, hs⟩⟩, hne⟩
    · exact .parent hp hne
    · exact hs ▸ .result hm hd hne
    · exact hs ▸ .argument hm ha hd hne
  · intro h
    refine ⟨?_, h.ne⟩
    obtain ⟨name, strength⟩ := mention
    cases h with
    | parent hp _ => exact Or.inl ⟨name, hp, rfl⟩
    | argument hm ha hd _ => exact Or.inr ⟨_, hm, Or.inr ⟨_, ha, hd, rfl⟩⟩
    | result hm hd _ => exact Or.inr ⟨_, hm, Or.inl ⟨hd, rfl⟩⟩

namespace Strength

theorem rank_inj {a b : Strength} (h : a.rank = b.rank) : a = b := by
  cases a <;> cases b <;> simp [rank] at h ⊢

theorem rank_le_result (a : Strength) : a.rank ≤ result.rank := by
  cases a <;> decide

theorem foldl_stronger_spec (strengths : List Strength) (a : Strength) :
    (strengths.foldl stronger a = a ∨ strengths.foldl stronger a ∈ strengths) ∧ (strengths.foldl stronger a).rank ≤ a.rank ∧
      ∀ b ∈ strengths, (strengths.foldl stronger a).rank ≤ b.rank := by
  induction strengths generalizing a with
  | nil => exact ⟨Or.inl rfl, Nat.le_refl _, by simp⟩
  | cons b rest ih =>
    obtain ⟨hmem, ha, hrest⟩ := ih (stronger a b)
    have hle : (stronger a b).rank ≤ a.rank ∧ (stronger a b).rank ≤ b.rank ∧ (stronger a b = a ∨ stronger a b = b) := by
      unfold stronger
      split
      · rename_i h
        exact ⟨Nat.le_refl _, h, Or.inl rfl⟩
      · rename_i h
        exact ⟨by omega, Nat.le_refl _, Or.inr rfl⟩
    refine ⟨?_, ha.trans hle.1, fun c hc => ?_⟩
    · rw [List.foldl_cons]
      rcases hmem with hmem | hmem
      · rw [hmem]
        exact hle.2.2.imp id fun h => by rw [h]; exact List.mem_cons_self
      · exact Or.inr (List.mem_cons_of_mem _ hmem)
    · rcases List.mem_cons.mp hc with rfl | hc
      · exact ha.trans hle.2.1
      · exact hrest c hc

/-- The strongest of some strengths is one of them, and none of them is stronger. -/
theorem strongest_eq_iff {strengths : List Strength} (hne : strengths ≠ []) (a : Strength) :
    strongest strengths = a ↔ a ∈ strengths ∧ ∀ b ∈ strengths, a.rank ≤ b.rank := by
  obtain ⟨hmem, _, hle⟩ := foldl_stronger_spec strengths result
  have hin : strongest strengths ∈ strengths := by
    rcases hmem with hmem | hmem
    · obtain ⟨b, hb⟩ := List.exists_mem_of_ne_nil strengths hne
      have hrank : b.rank = result.rank := Nat.le_antisymm (rank_le_result b) (hmem ▸ hle b hb)
      rw [strongest, hmem, ← rank_inj hrank]
      exact hb
    · exact hmem
  constructor
  · rintro rfl
    exact ⟨hin, hle⟩
  · rintro ⟨ha, hmin⟩
    exact rank_inj (Nat.le_antisymm (hle a ha) (hmin _ hin))

end Strength

/-- The dependencies of a class are the classes it mentions, each for the strongest of its mentions. -/
theorem mem_dependencies {r : Registry} {cls : ClassDecl} {dependency : Dependency} :
    dependency ∈ dependencies r cls ↔ DependsAs r cls dependency.name dependency.strength := by
  obtain ⟨name, strength⟩ := dependency
  have hin : ∀ s, s ∈ ((mentions r cls).filter fun mention => mention.name == name).map Dependency.strength ↔
      Mentions r cls name s := by
    intro s
    simp only [List.mem_map, List.mem_filter, beq_iff_eq]
    constructor
    · rintro ⟨mention, ⟨hm, rfl⟩, rfl⟩
      exact mem_mentions.mp hm
    · intro h
      exact ⟨⟨name, s⟩, ⟨mem_mentions.mpr h, rfl⟩, rfl⟩
  have hname : name ∈ (mentions r cls).map Dependency.name ↔ ∃ s, Mentions r cls name s := by
    rw [List.mem_map]
    constructor
    · rintro ⟨mention, hm, rfl⟩
      exact ⟨_, mem_mentions.mp hm⟩
    · rintro ⟨s, h⟩
      exact ⟨⟨name, s⟩, mem_mentions.mpr h, rfl⟩
  have hmem : (⟨name, strength⟩ : Dependency) ∈ dependencies r cls ↔
      name ∈ (mentions r cls).map Dependency.name ∧
        .strongest (((mentions r cls).filter fun mention => mention.name == name).map Dependency.strength) = strength := by
    simp only [dependencies, List.mem_map (f := fun name => Dependency.mk name _), List.mem_eraseDups, Dependency.mk.injEq]
    exact ⟨fun ⟨x, hx, he, hs⟩ => he ▸ ⟨hx, hs⟩, fun ⟨hx, hs⟩ => ⟨name, hx, rfl, hs⟩⟩
  rw [hmem, hname]
  constructor
  · rintro ⟨⟨s, hs⟩, hstrong⟩
    obtain ⟨ha, hmin⟩ := (Strength.strongest_eq_iff (List.ne_nil_of_mem ((hin s).mpr hs)) strength).mp hstrong
    exact ⟨(hin strength).mp ha, fun t ht => hmin t ((hin t).mpr ht)⟩
  · rintro ⟨hm, hmin⟩
    refine ⟨⟨strength, hm⟩, ?_⟩
    refine (Strength.strongest_eq_iff (List.ne_nil_of_mem ((hin strength).mpr hm)) strength).mpr ⟨(hin strength).mpr hm, ?_⟩
    exact fun b hb => hmin b ((hin b).mp hb)

/-- A class that mentions another one depends on it at least as strongly. -/
theorem Mentions.exists_dependsAs {r : Registry} {cls : ClassDecl} {name : String} {strength : Strength}
    (h : Mentions r cls name strength) : ∃ strongest, DependsAs r cls name strongest ∧ strongest.rank ≤ strength.rank := by
  induction hn : strength.rank using Nat.strong_induction_on generalizing strength with
  | _ n ih =>
    by_cases hmin : ∀ other, Mentions r cls name other → strength.rank ≤ other.rank
    · exact ⟨strength, ⟨h, hmin⟩, hn.le⟩
    · push Not at hmin
      obtain ⟨other, ho, hlt⟩ := hmin
      obtain ⟨strongest, hd, hle⟩ := ih _ (hn ▸ hlt) ho rfl
      exact ⟨strongest, hd, hle.trans (hn ▸ hlt.le)⟩

/-! ## The graph of listed classes -/

theorem getElem?_of_lastIndex? {name : String} {names : List String} {i : Nat} (h : lastIndex? name names = some i) :
    names[i]? = some name := by
  induction names generalizing i with
  | nil => nomatch h
  | cons first rest ih =>
    rw [lastIndex?] at h
    split at h
    · rename_i j hj
      obtain rfl := Option.some.inj h
      exact ih hj
    · split at h
      · rename_i heq
        obtain rfl := Option.some.inj h
        exact congrArg some heq
      · nomatch h

theorem exists_lastIndex? {name : String} {names : List String} (h : name ∈ names) : ∃ i, lastIndex? name names = some i := by
  induction names with
  | nil => cases h
  | cons first rest ih =>
    rw [lastIndex?]
    cases hr : lastIndex? name rest with
    | some j => exact ⟨j + 1, rfl⟩
    | none =>
      rcases List.mem_cons.mp h with rfl | h
      · exact ⟨0, if_pos rfl⟩
      · obtain ⟨i, hi⟩ := ih h
        rw [hr] at hi
        nomatch hi

/-- Among names that do not repeat the last place of a name is its place. -/
theorem lastIndex?_eq_some_iff {name : String} {names : List String} (hnd : names.Nodup) {i : Nat} :
    lastIndex? name names = some i ↔ names[i]? = some name := by
  refine ⟨getElem?_of_lastIndex?, fun h => ?_⟩
  obtain ⟨j, hj⟩ := exists_lastIndex? (List.mem_of_getElem? h)
  have hn := getElem?_of_lastIndex? hj
  have hlt := (List.getElem?_eq_some_iff.mp h).1
  rw [hj, (List.getElem?_inj hlt hnd).mp (h.trans hn.symm)]

/-- Distinct classes of a registry, of which parents are registered first. -/
structure Listing (r : Registry) (classes : List ClassDecl) : Prop where
  parentsFirst : ParentsFirst r.newestFirst
  registered : ∀ cls ∈ classes, cls ∈ r.newestFirst
  nodup : (classes.map ClassDecl.name).Nodup

theorem Listing.of_perm {r : Registry} {classes others : List ClassDecl} (h : Listing r classes) (hp : others.Perm classes) :
    Listing r others where
  parentsFirst := h.parentsFirst
  registered := fun cls hc => h.registered cls (hp.mem_iff.mp hc)
  nodup := (hp.map ClassDecl.name).nodup_iff.mpr h.nodup

/-- Classes of a session's registry, each listed once, are distinct by name. -/
theorem Listing.of_reachable {r : Registry} {classes : List ClassDecl} (hr : r.Reachable)
    (hin : ∀ cls ∈ classes, cls ∈ r.classes) (hnd : classes.Nodup) : Listing r classes where
  parentsFirst := hr.parentsFirst
  registered := fun cls hc => Registry.mem_classes.mp (hin cls hc)
  nodup := by
    refine List.Nodup.map_on (fun a ha b hb hn => ?_) hnd
    exact hr.parentsFirst.eq_of_name (Registry.mem_classes.mp (hin a ha)) (Registry.mem_classes.mp (hin b hb)) hn

/-- All classes of a session's registry. -/
theorem listing_classes {r : Registry} (hr : r.Reachable) : Listing r r.classes :=
  .of_reachable hr (fun _ hc => hc) (List.nodup_reverse.mpr (List.Nodup.of_map _ hr.parentsFirst.nodup_names))

section Graph

variable {r : Registry} {classes : List ClassDecl}

/-- The edges of the graph are the dependencies of listed classes on listed classes. -/
theorem mem_graph_edges (h : Listing r classes) (edge : Edge) :
    edge ∈ (graph r classes).edges ↔ ∃ cls name, classes[edge.source]? = some cls ∧
      (classes.map ClassDecl.name)[edge.target]? = some name ∧ DependsAs r cls name edge.strength := by
  obtain ⟨i, j, strength⟩ := edge
  simp only [graph, List.mem_flatMap, List.mem_filterMap, bind, pure, Option.bind_eq_some_iff, Option.some.injEq, Edge.mk.injEq,
    lastIndex?_eq_some_iff h.nodup]
  constructor
  · rintro ⟨cls, hc, dependency, hd, i', hi', j', hj', rfl, rfl, rfl⟩
    rw [List.getElem?_map, Option.map_eq_some_iff] at hi'
    obtain ⟨other, ho, hn⟩ := hi'
    have := h.parentsFirst.eq_of_name (h.registered _ (List.mem_of_getElem? ho)) (h.registered cls hc) hn
    exact ⟨cls, dependency.name, this ▸ ho, hj', mem_dependencies.mp hd⟩
  · rintro ⟨cls, name, hi, hj, hd⟩
    refine ⟨cls, List.mem_of_getElem? hi, ⟨name, strength⟩, mem_dependencies.mpr hd, i, ?_, j, hj, rfl, rfl, rfl⟩
    rw [List.getElem?_map, hi, Option.map_some]

theorem graph_wellFormed (h : Listing r classes) : (graph r classes).WellFormed where
  source_lt := by
    intro edge he
    obtain ⟨cls, _, hi, _⟩ := (mem_graph_edges h edge).mp he
    show edge.source < (classes.map ClassDecl.name).length
    rw [List.length_map]
    exact (List.getElem?_eq_some_iff.mp hi).1
  target_lt := by
    intro edge he
    obtain ⟨_, _, _, hj, _⟩ := (mem_graph_edges h edge).mp he
    exact (List.getElem?_eq_some_iff.mp hj).1
  loopless := by
    intro edge he heq
    obtain ⟨cls, name, hi, hj, hd⟩ := (mem_graph_edges h edge).mp he
    rw [← heq, List.getElem?_map, hi, Option.map_some] at hj
    exact hd.1.ne (Option.some.inj hj).symm

/-- Inheritance is no cycle: a parent is registered before its children. -/
theorem graph_parents_acyclic (h : Listing r classes) (i : Nat) : ¬TransGen (graph r classes).ParentAdj i i := by
  let age := fun i : Nat => (r.newestFirst.map ClassDecl.name).idxOf ((classes.map ClassDecl.name)[i]?.getD "")
  have hstep : ∀ i j, (graph r classes).ParentAdj i j → age i < age j := by
    rintro i j ⟨edge, he, rfl, rfl, hs⟩
    obtain ⟨cls, name, hi, hj, hd⟩ := (mem_graph_edges h edge).mp he
    rw [hs] at hd
    obtain ⟨hm, _⟩ := hd
    cases hm with
    | parent hp _ =>
      have hi' : (classes.map ClassDecl.name)[edge.source]? = some cls.name := by rw [List.getElem?_map, hi, Option.map_some]
      simp only [age, hi', hj, Option.getD_some]
      exact h.parentsFirst.idxOf_lt (h.registered cls (List.mem_of_getElem? hi)) hp
  have hrun : ∀ i j, TransGen (graph r classes).ParentAdj i j → age i < age j := by
    intro i j hij
    induction hij with
    | single hs => exact hstep _ _ hs
    | tail _ hs ih => exact ih.trans (hstep _ _ hs)
  intro hi
  exact Nat.lt_irrefl _ (hrun i i hi)

/-! ## Names in place of items -/

/-- A listed class depends on a listed class for one of some reasons. -/
def Depends (r : Registry) (classes : List ClassDecl) (reason : Strength → Prop) (a b : String) : Prop :=
  ∃ cls ∈ classes, cls.name = a ∧ b ∈ classes.map ClassDecl.name ∧ ∃ strength, reason strength ∧ DependsAs r cls b strength

/-- Two classes depend on each other, directly or through others. -/
def Interdepends (r : Registry) (classes : List ClassDecl) (reason : Strength → Prop) (a b : String) : Prop :=
  ReflTransGen (Depends r classes reason) a b ∧ ReflTransGen (Depends r classes reason) b a

/-- Ways between numbered names are ways between their numbers. -/
theorem reflTransGen_names_iff {names : List String} (hnd : names.Nodup) {step : Nat → Nat → Prop}
    {named : String → String → Prop}
    (hstep : ∀ i j, step i j ↔ ∃ a b, names[i]? = some a ∧ names[j]? = some b ∧ named a b)
    (hnamed : ∀ a b, named a b → b ∈ names) {i j : Nat} {a b : String} (hi : names[i]? = some a) (hj : names[j]? = some b) :
    ReflTransGen step i j ↔ ReflTransGen named a b := by
  constructor
  · intro h
    induction h generalizing b with
    | refl =>
      obtain rfl := Option.some.inj (hi.symm.trans hj)
      exact .refl
    | tail _ hs ih =>
      obtain ⟨c, d, hc, hd, hcd⟩ := (hstep _ _).mp hs
      obtain rfl := Option.some.inj (hd.symm.trans hj)
      exact (ih hc).tail hcd
  · intro h
    induction h generalizing j with
    | refl =>
      obtain rfl := (List.getElem?_inj (List.getElem?_eq_some_iff.mp hi).1 hnd).mp (hi.trans hj.symm)
      exact .refl
    | @tail c d hac hcd ih =>
      have hmem : c ∈ names := by
        cases hac with
        | refl => exact List.mem_of_getElem? hi
        | tail _ hc => exact hnamed _ _ hc
      obtain ⟨k, hk⟩ := List.mem_iff_getElem?.mp hmem
      exact (ih hk).tail ((hstep _ _).mpr ⟨c, d, hk, hj, hcd⟩)

/-- Edges of some strengths are dependencies for these reasons. -/
theorem exists_edge_iff (h : Listing r classes) (reason : Strength → Prop) (i j : Nat) :
    (∃ edge ∈ (graph r classes).edges, edge.source = i ∧ edge.target = j ∧ reason edge.strength) ↔
      ∃ a b, (classes.map ClassDecl.name)[i]? = some a ∧ (classes.map ClassDecl.name)[j]? = some b ∧
        Depends r classes reason a b := by
  constructor
  · rintro ⟨edge, he, rfl, rfl, hs⟩
    obtain ⟨cls, name, hi, hj, hd⟩ := (mem_graph_edges h edge).mp he
    refine ⟨cls.name, name, by rw [List.getElem?_map, hi, Option.map_some], hj, ?_⟩
    exact ⟨cls, List.mem_of_getElem? hi, rfl, List.mem_of_getElem? hj, _, hs, hd⟩
  · rintro ⟨a, b, hi, hj, cls, hc, rfl, _, strength, hs, hd⟩
    refine ⟨⟨i, j, strength⟩, (mem_graph_edges h _).mpr ⟨cls, b, ?_, hj, hd⟩, rfl, rfl, hs⟩
    rw [List.getElem?_map, Option.map_eq_some_iff] at hi
    obtain ⟨other, ho, hn⟩ := hi
    exact h.parentsFirst.eq_of_name (h.registered _ (List.mem_of_getElem? ho)) (h.registered cls hc) hn ▸ ho

theorem Depends.mem {reason : Strength → Prop} {a b : String} (h : Depends r classes reason a b) :
    b ∈ classes.map ClassDecl.name := by
  obtain ⟨_, _, _, hb, _⟩ := h
  exact hb

/-- Items reach each other in a graph when their classes depend on each other, for the reasons of its edges. -/
theorem mutual_iff (h : Listing r classes) {g : Digraph} {reason : Strength → Prop}
    (hg : ∀ i j, g.Adj i j ↔ ∃ edge ∈ (graph r classes).edges, edge.source = i ∧ edge.target = j ∧ reason edge.strength)
    {i j : Nat} {a b : String} (hi : (classes.map ClassDecl.name)[i]? = some a)
    (hj : (classes.map ClassDecl.name)[j]? = some b) : g.Mutual i j ↔ Interdepends r classes reason a b := by
  have hstep := fun i j => (hg i j).trans (exists_edge_iff h reason i j)
  have hmem : ∀ a b, Depends r classes reason a b → b ∈ classes.map ClassDecl.name := fun a b hab => hab.mem
  exact and_congr (reflTransGen_names_iff h.nodup hstep hmem hi hj) (reflTransGen_names_iff h.nodup hstep hmem hj hi)

theorem mutual_graph_iff (h : Listing r classes) {i j : Nat} {a b : String} (hi : (classes.map ClassDecl.name)[i]? = some a)
    (hj : (classes.map ClassDecl.name)[j]? = some b) :
    (graph r classes).Mutual i j ↔ Interdepends r classes (fun _ => True) a b :=
  mutual_iff h (fun i j => by simp only [Digraph.Adj, and_true]) hi hj

theorem mutual_firm_iff (h : Listing r classes) {i j : Nat} {a b : String} (hi : (classes.map ClassDecl.name)[i]? = some a)
    (hj : (classes.map ClassDecl.name)[j]? = some b) :
    (graph r classes).firm.Mutual i j ↔ Interdepends r classes (· ≠ .result) a b := by
  refine mutual_iff h (fun i j => ?_) hi hj
  simp only [Digraph.Adj, Digraph.mem_firm, and_assoc]
  refine exists_congr fun edge => and_congr_right fun _ => ?_
  rw [and_comm, and_assoc]

end Graph

end JuliaStubs.LoadOrder
