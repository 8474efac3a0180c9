import JuliaStubs.Proofs.LoadOrder.Arrangements
import JuliaStubs.Proofs.Package.Declared

/-!
# Loading a package

In which order the manifest loads the files, and what each of them needs when it is loaded: the tag of the parent, and the types that
its stubs are annotated with. The order is made for all classes of the registry and all their methods, and a file is written for some
of the classes, with stubs for some of the methods. So a need is met unless the parents and argument types of the registry lead back
(`needs_precede`), and they may where the needs of the files do not: a class without a file can close a cycle that the files are not
part of (`needs_precede_false`).
-/

namespace JuliaStubs

open Catalog LoadOrder Relation Report Source

/-- A file needs another one when it is loaded: the other one declares the tag of its parent, or a type that the parameter of a stub
is annotated with. -/
def Source.ClassFile.Needs (file other : ClassFile) : Prop :=
  file.cls.name ≠ other.cls.name ∧
    (file.cls.parent = some other.cls.name ∨
      ∃ stub ∈ file.stubs, ∃ parameter ∈ stub.parameters, parameter.type.declaringClass? = some other.cls.name)

instance : DecidableRel ClassFile.Needs := fun file other => by
  unfold ClassFile.Needs
  infer_instance

/-- Needs between the files of a package, by the names of their classes. -/
def Package.Needs (package : Package) (a b : String) : Prop :=
  ∃ file ∈ package.classFiles, ∃ other ∈ package.classFiles, file.cls.name = a ∧ other.cls.name = b ∧ file.Needs other

/-- Parents and argument types of registered classes, with or without a file, and of all their methods. -/
def LoadDepends (r : Registry) : String → String → Prop := Depends r r.classes (· ≠ .result)

section Files

variable {settings : Settings} {catalog : Catalog}

/-- What a file needs is among the dependencies that the order looks at. -/
theorem loadDepends_of_needs (hr : catalog.registry.Reachable) {a b : String}
    (h : (Package.ofCatalog settings catalog).result.Needs a b) : LoadDepends catalog.registry a b := by
  obtain ⟨file, hf, other, ho, rfl, rfl, hne, hneed⟩ := h
  obtain ⟨cls, hc, _, rfl⟩ := (mem_classFiles hr).mp hf
  obtain ⟨target, ht, _, rfl⟩ := (mem_classFiles hr).mp ho
  have hmention : ∃ strength, strength ≠ .result ∧ Mentions catalog.registry cls target.name strength := by
    rcases hneed with hp | ⟨stub, hs, parameter, hp, hd⟩
    · exact ⟨.parent, by decide, .parent hp (Ne.symm hne)⟩
    · obtain ⟨method, hm, _, hstub⟩ := mem_stubsOf.mp hs
      obtain ⟨argument, ha, hok⟩ := exists_of_forall₂ (stubOf_ok_iff.mp hstub).2.1 hp
      have hres : catalog.registry.resolve argument.type = some parameter.type :=
        (resolve_ok_iff.mp (parameterOf_ok_iff.mp hok).1).1
      refine ⟨.argument, by decide, .argument hm ha ?_ (Ne.symm hne)⟩
      rw [declaringClass?, hres]
      exact hd
  obtain ⟨strength, hs, hm⟩ := hmention
  obtain ⟨strongest, hd, hle⟩ := hm.exists_dependsAs
  refine ⟨cls, Registry.mem_classes.mpr hc, rfl, List.mem_map_of_mem (Registry.mem_classes.mpr ht), strongest, ?_, hd⟩
  rintro rfl
  exact hs (Strength.rank_inj (Nat.le_antisymm (Strength.rank_le_result _) hle))

/-- The lines of two files stand in the load order of their classes. -/
theorem precedes_includeLines (hr : catalog.registry.Reachable) {a b : String}
    (ha : (scopeOf settings catalog.registry).hasFile a = true) (hb : (scopeOf settings catalog.registry).hasFile b = true)
    (h : Precedes (order catalog.registry catalog.registry.classes).names b a) :
    Precedes (Package.ofCatalog settings catalog).result.includeLines (includeLine settings.classesDir b)
      (includeLine settings.classesDir a) := by
  have hlines : (Package.ofCatalog settings catalog).result.includeLines =
      ((order catalog.registry catalog.registry.classes).names.filter (scopeOf settings catalog.registry).hasFile).map
        (includeLine settings.classesDir) := by
    rw [← names_classFiles hr, List.map_map]
    rfl
  rw [hlines]
  exact (h.filter hb ha).map _

/-- A dependency that no order of the registered classes can push behind its user: it does not lead back, or it is an ancestor. -/
def Assured (r : Registry) (a b : String) : Prop :=
  ¬ReflTransGen (LoadDepends r) b a ∨ TransGen (Depends r r.classes (· = .parent)) a b

theorem assured_iff (hr : catalog.registry.Reachable) {a b : String} (h : LoadDepends catalog.registry a b) :
    Assured catalog.registry a b ↔ ∀ others : List ClassDecl, others.Perm catalog.registry.classes →
      Precedes (order catalog.registry others).names b a :=
  (always_precedes_iff (listing_classes hr) h).symm

/-- A file is loaded after what it needs, if that is assured. -/
theorem precedes_of_needs (hr : catalog.registry.Reachable) {a b : String}
    (h : (Package.ofCatalog settings catalog).result.Needs a b) (ha : Assured catalog.registry a b) :
    Precedes (Package.ofCatalog settings catalog).result.includeLines (includeLine settings.classesDir b)
      (includeLine settings.classesDir a) := by
  have hprec := (assured_iff hr (loadDepends_of_needs hr h)).mp ha _ (.refl _)
  obtain ⟨file, hf, other, ho, rfl, rfl, _⟩ := h
  obtain ⟨cls, _, hcf, rfl⟩ := (mem_classFiles hr).mp hf
  obtain ⟨target, _, htf, rfl⟩ := (mem_classFiles hr).mp ho
  exact precedes_includeLines hr hcf htf hprec

end Files

/-- Whatever the dump and the settings, each file is loaded after the files it needs that do not lead back to it by parents and
argument types of the registry, and after those of its ancestors. These are exactly the needs that are met in whatever order the
classes are registered. The order meets all parents and argument types of the registry exactly when they form no cycle; the needs of
the files are some of them, those through classes without a file and methods without a stub are not. -/
theorem needs_precede (g : Generator) (host : Dump.Host) (docs : Dump.Docs) :
    ∃ catalog rendered, (g.load host docs).result.catalog = some catalog ∧ (g.load host docs).result.render = .ok rendered ∧
      rendered.result.manifest = textOfLines rendered.result.includeLines ∧
      (∀ a b, rendered.result.Needs a b → LoadDepends catalog.registry a b ∧
        (Assured catalog.registry a b → Precedes rendered.result.includeLines (includeLine g.settings.classesDir b)
          (includeLine g.settings.classesDir a)) ∧
        (Assured catalog.registry a b ↔ ∀ others : List ClassDecl, others.Perm catalog.registry.classes →
          Precedes (order catalog.registry others).names b a)) ∧
      ((∀ a, ¬TransGen (LoadDepends catalog.registry) a a) ↔ ∀ a b, LoadDepends catalog.registry a b →
        Precedes (order catalog.registry catalog.registry.classes).names b a) := by
  obtain ⟨catalog, log, hcatalog, hc, hrender⟩ := render_load g host docs
  have hr := hc.reachable
  refine ⟨catalog, _, hcatalog, hrender, manifest_eq _, fun a b hab => ?_, (firm_met_iff (listing_classes hr)).symm⟩
  have hdep := loadDepends_of_needs hr hab
  exact ⟨hdep, precedes_of_needs hr hab, assured_iff hr hdep⟩

/-! ## A need that is not met -/

namespace LoadingAux

/-- A method that takes an object of a class. -/
def taking (name other : String) : Dump.MethodInfo :=
  ⟨name, .none, .blank, [⟨"object", .object, other, .none⟩], .unspecified, [], []⟩

/-- A class below the root. -/
def member (name : String) (partition : Dump.Partition) (methods : List Dump.MethodInfo) : Dump.ClassInfo :=
  ⟨name, some "Object", partition, true, true, false, false, [], methods, [], []⟩

/-- Two classes, of which the first takes the second, and a class of the editor through which the second leads back. -/
def host : Dump.Host :=
  { classes :=
      [⟨"Object", none, .core, true, true, false, false, [], [], [], []⟩, member "Alpha" .core [taking "take_beta" "Beta"],
        member "Beta" .core [taking "take_tool" "Tool"], member "Tool" .editor [taking "take_alpha" "Alpha"]]
    globalConstants := [] }

/-- The package of that dump. -/
def package : Package := (Package.ofCatalog .standard (Catalog.ofDump .standard host .empty).result).result

/-- The needs between files, listed. -/
def needs (files : List ClassFile) : List (String × String) :=
  files.flatMap fun file => (files.filter file.Needs).map fun other => (file.cls.name, other.cls.name)

theorem mem_needs {package : Package} {a b : String} : package.Needs a b ↔ (a, b) ∈ needs package.classFiles := by
  simp only [Package.Needs, needs, List.mem_flatMap, List.mem_map, List.mem_filter, decide_eq_true_eq, Prod.mk.injEq]
  constructor
  · rintro ⟨file, hf, other, ho, ha, hb, hn⟩
    exact ⟨file, hf, other, ⟨ho, hn⟩, ha, hb⟩
  · rintro ⟨file, hf, other, ⟨ho, hn⟩, ha, hb⟩
    exact ⟨file, hf, other, ho, ha, hb, hn⟩

theorem needs_host {a b : String} : package.Needs a b ↔
    (a, b) ∈ [("Alpha", "Object"), ("Alpha", "Beta"), ("Beta", "Object")] := by
  have h : needs package.classFiles = [("Alpha", "Object"), ("Alpha", "Beta"), ("Beta", "Object")] := by
    cbv
  rw [mem_needs, h]

/-- The needs of the files lead to the root and not back. -/
theorem acyclic_host (a : String) : ¬TransGen package.Needs a a := by
  refine Precedes.acyclic (by decide : ["Object", "Beta", "Alpha"].Nodup) (fun a b hab => ?_) a
  simp only [needs_host, List.mem_cons, Prod.mk.injEq, List.not_mem_nil, or_false] at hab
  rcases hab with ⟨rfl, rfl⟩ | ⟨rfl, rfl⟩ | ⟨rfl, rfl⟩ <;> decide

theorem includeLines_host : package.includeLines =
    ["include(\"classes/Object.jl\");", "include(\"classes/Alpha.jl\");", "include(\"classes/Beta.jl\");"] := by
  cbv

end LoadingAux

/-- That the needs of the files form no cycle is not enough for them to be met: a class that no file is written for can close a cycle
of argument types, and the order gives up the one between files. -/
theorem needs_precede_false : ¬∀ (g : Generator) (host : Dump.Host) (docs : Dump.Docs) (rendered : Logged Package),
    (g.load host docs).result.render = .ok rendered → (∀ a, ¬TransGen rendered.result.Needs a a) →
      ∀ a b, rendered.result.Needs a b →
        Precedes rendered.result.includeLines (includeLine g.settings.classesDir b) (includeLine g.settings.classesDir a) := by
  intro h
  have hneed : LoadingAux.package.Needs "Alpha" "Beta" := LoadingAux.needs_host.mpr (by decide)
  have hprec : Precedes LoadingAux.package.includeLines (includeLine "classes" "Beta") (includeLine "classes" "Alpha") :=
    h (.new .standard) LoadingAux.host .empty ⟨LoadingAux.package, _⟩ rfl LoadingAux.acyclic_host _ _ hneed
  rw [LoadingAux.includeLines_host] at hprec
  exact absurd hprec (by decide)

end JuliaStubs
