import JuliaStubs.Proofs.Catalog.Placement
import JuliaStubs.Proofs.Catalog.Session

/-!
# Ancestry in a dump and in its registry

Two walks answer whether a class inherits from another one. That of the dump follows the parents that the dump names, through classes
that are not registered as well; that of the registry follows the nearest registered ancestors. Between registered classes they agree
(`ancestry_exact`), because none of the names that the second walk leaves out is registered, and the walk of the dump passes through
the nearest registered ancestor whenever it comes to a registered class at all (`NearestAbove.between`).
-/

namespace JuliaStubs.Catalog

open Dump Relation

/-- The dump is asked whether a class is reference counted. -/
theorem isRefCounted_of_populated {settings : Settings} {host : Host} {docs : Docs} {cls : ClassDecl}
    (h : cls ∈ populated settings host docs) : cls.isRefCounted = host.inherits cls.name settings.refCountedClass := by
  obtain ⟨bare, hbare, rfl⟩ := List.mem_map.mp h
  obtain ⟨visit, _, hadmitted⟩ := List.mem_filterMap.mp hbare
  obtain ⟨_, hcls⟩ := name_of_admittedClass? hadmitted
  show bare.isRefCounted = host.inherits bare.name settings.refCountedClass
  rw [hcls]
  rfl

theorem isSome_class?_of_admissible {host : Host} {name : String} (h : Admissible host name) : (host.class? name).isSome = true := by
  obtain ⟨_, hexposed, _⟩ := h
  cases hc : host.class? name with
  | none => simp [Host.flag, hc] at hexposed
  | some _ => rfl

section Registered

variable {settings : Settings} {host : Host} {docs : Docs} (hdistinct : (host.classes.map ClassInfo.name).Nodup)
include hdistinct

/-- A registered class may be admitted and has the place of its name: below a root that may not be admitted none is registered. -/
theorem placedUnder_of_populated {cls : ClassDecl} (h : cls ∈ populated settings host docs) :
    Admissible host cls.name ∧ PlacedUnder host settings.rootClass cls.name cls.parent := by
  have htraced := visits_traced host settings.rootClass
  obtain ⟨visit, hvisit, hname, hverdict⟩ := exists_visit_of_populated h
  have hroot : Admissible host settings.rootClass := by
    by_contra hnot
    exact (htraced.orphaned hnot visit hvisit).1 _ hverdict
  have hadmissible := (htraced.admissible_iff visit hvisit).mpr fun _ he => nomatch hverdict.symm.trans he
  obtain ⟨parent, hp, hplace⟩ := htraced.verdict_eq hdistinct hroot .nil visit hvisit hadmissible
  obtain rfl := Verdict.admitted.inj (hverdict.symm.trans hp)
  exact hname ▸ ⟨hadmissible, hplace⟩

/-- Between registered classes the walk of the registry comes to where the parents in the dump lead. -/
theorem inherits_iff_reaches (hroot : host.parent? settings.rootClass = none) {ancestor : ClassDecl}
    (ha : ancestor ∈ (ofDump settings host docs).result.registry.newestFirst) :
    ∀ cls ∈ (ofDump settings host docs).result.registry.newestFirst,
      (ofDump settings host docs).result.registry.inherits cls.name ancestor.name = true ↔
        ReflTransGen host.ParentLink cls.name ancestor.name := by
  have hr := (reachable_ofDump settings host docs).parentsFirst
  have hplaced : ∀ cls ∈ (ofDump settings host docs).result.registry.newestFirst,
      Admissible host cls.name ∧ PlacedUnder host settings.rootClass cls.name cls.parent := fun cls hc =>
    placedUnder_of_populated hdistinct (classes_ofDump ▸ Registry.mem_classes.mpr hc)
  -- from parents to children, since the parent of a class is its nearest ancestor that is registered
  refine hr.descend fun cls hc ih => ?_
  rw [Registry.inherits_iff_parent hr hc]
  constructor
  · rintro (heq | ⟨parent, hm, hp, hin⟩)
    · rw [heq]
    · rcases (hplaced cls hc).2 with ⟨_, hnone⟩ | ⟨_, n, p, hsome, hnearest⟩
      · nomatch hnone.symm.trans hp
      · obtain rfl := Option.some.inj (hp.symm.trans hsome)
        exact hnearest.reaches.trans ((ih parent hm hp).mp hin)
  · intro h
    rcases (hplaced cls hc).2 with ⟨hname, _⟩ | ⟨_, n, p, hp, hnearest⟩
    · rcases h.cases_head with heq | ⟨q, hlink, _⟩
      · exact Or.inl heq
      · rw [hname] at hlink
        nomatch hroot.symm.trans hlink
    · rcases hnearest.between (hplaced ancestor ha).1 h with heq | habove
      · exact Or.inl heq
      · obtain ⟨parent, hm, rfl⟩ := List.mem_map.mp (hr.parent_mem hc hp)
        exact Or.inr ⟨parent, hm, hp, (ih parent hm hp).mpr habove⟩

/-- Between registered classes the dump and its registry agree on inheritance. -/
theorem inherits_eq (hroot : host.parent? settings.rootClass = none) {cls : ClassDecl}
    (hc : cls ∈ (ofDump settings host docs).result.registry.newestFirst) {name : String}
    (hname : (ofDump settings host docs).result.registry.hasClass name = true) :
    (ofDump settings host docs).result.registry.inherits cls.name name = host.inherits cls.name name := by
  obtain ⟨ancestor, ha, rfl⟩ := List.mem_map.mp ((Registry.hasClass_iff _ name).mp hname)
  have hadmissible := (placedUnder_of_populated hdistinct (classes_ofDump ▸ Registry.mem_classes.mpr ha)).1
  rw [Bool.eq_iff_iff, inherits_iff_reaches hdistinct hroot ha cls hc, Host.inherits_iff]
  exact (and_iff_right (isSome_class?_of_admissible hadmissible)).symm

end Registered

/-- Ancestry in a dump, whatever its parents: a class inherits from another one when both are defined and parents that are defined lead
from the one to the other. A walk of any other length comes to nothing that is not found within as many steps as the dump has classes.
Where no name of the dump repeats and the root has no parent, the registry agrees for the registered classes. So with the class that
marks reference counting registered, those that are marked are those that inherit from it in the registry. -/
theorem ancestry_exact (host : Host) :
    (∀ name ancestor, host.inherits name ancestor = true ↔
      (host.class? name).isSome = true ∧ (host.class? ancestor).isSome = true ∧ ReflTransGen host.DefinedLink name ancestor) ∧
    (∀ steps name ancestor, (∃ cls ∈ host.chain steps name, cls.name = ancestor) → host.inherits name ancestor = true) ∧
    ∀ (settings : Settings) (docs : Docs), (host.classes.map ClassInfo.name).Nodup → host.parent? settings.rootClass = none →
      let r := (ofDump settings host docs).result.registry
      (∀ cls ∈ r.classes, ∀ name, r.hasClass name = true → r.inherits cls.name name = host.inherits cls.name name) ∧
      (r.hasClass settings.refCountedClass = true →
        ∀ cls ∈ r.classes, cls.isRefCounted = true ↔ r.inherits cls.name settings.refCountedClass = true) := by
  refine ⟨fun name ancestor => ?_, fun steps name ancestor => Host.inherits_of_mem_chain, fun settings docs hdistinct hroot => ?_⟩
  · rw [Host.inherits_iff, ← and_left_comm]
    exact and_congr_right fun htop => (Host.reflTransGen_definedLink_iff htop).symm
  · have hagree := fun cls hc name => @inherits_eq settings host docs hdistinct hroot cls (Registry.mem_classes.mp hc) name
    refine ⟨hagree, fun hcounted cls hc => ?_⟩
    rw [hagree cls hc _ hcounted, isRefCounted_of_populated (classes_ofDump ▸ hc)]

namespace AncestryAux

/-- A dump in which a class that is not exposed stands between two others, and one class names itself as its parent. -/
def host : Host :=
  ⟨[bareClass "Object" none true, bareClass "RefCounted" (some "Object") true, bareClass "Hidden" (some "RefCounted") false,
    bareClass "Resource" (some "Hidden") true, bareClass "Ring" (some "Ring") true], []⟩

end AncestryAux

theorem ancestry_exact_hidden : (AncestryAux.host.classes.map ClassInfo.name).Nodup ∧
    AncestryAux.host.parent? Settings.standard.rootClass = none ∧
    (ofDump .standard AncestryAux.host .empty).result.registry.classNames = ["Object", "RefCounted", "Resource"] ∧
    AncestryAux.host.inherits "Resource" "RefCounted" = true ∧ AncestryAux.host.inherits "Ring" "Object" = false ∧
    (ofDump .standard AncestryAux.host .empty).result.registry.hasClass Settings.standard.refCountedClass = true ∧
    ∀ cls ∈ (ofDump .standard AncestryAux.host .empty).result.registry.classes, cls.isRefCounted = true ↔
      (ofDump .standard AncestryAux.host .empty).result.registry.inherits cls.name Settings.standard.refCountedClass = true := by
  have hdistinct : (AncestryAux.host.classes.map ClassInfo.name).Nodup := by decide
  have hroot : AncestryAux.host.parent? Settings.standard.rootClass = none := by decide
  have hnames : (ofDump .standard AncestryAux.host .empty).result.registry.classNames = ["Object", "RefCounted", "Resource"] := by
    decide +kernel
  have hcounted : (ofDump .standard AncestryAux.host .empty).result.registry.hasClass Settings.standard.refCountedClass = true := by
    have hmem : Settings.standard.refCountedClass ∈ ["Object", "RefCounted", "Resource"] := by decide
    obtain ⟨cls, hc, hname⟩ := List.mem_map.mp (hnames ▸ hmem)
    exact (Registry.hasClass_iff _ _).mpr (List.mem_map.mpr ⟨cls, Registry.mem_classes.mp hc, hname⟩)
  obtain ⟨_, hmarked⟩ := (ancestry_exact AncestryAux.host).2.2 .standard .empty hdistinct hroot
  exact ⟨hdistinct, hroot, hnames, by decide, by decide, hcounted, hmarked hcounted⟩

end JuliaStubs.Catalog
