import JuliaStubs.Proofs.Catalog.Agreement
import JuliaStubs.Proofs.Catalog.Generations
import JuliaStubs.Proofs.Catalog.Tree
import JuliaStubs.Proofs.Package.Files

/-!
# Classes of which nothing is used

Of a class that is not admitted, or not reached from the root, a run uses the place in the tree and nothing else: whatever its members
are, the catalog and the package are the same (`render_concealed`). Such a class is visited at most, and a visit looks at the members
of a class when it admits it (`not_unused_of_admitted`). The enum types are entered with the members, so none of them belongs to such a
class, and a reference to an enum that it declares means what it means without the declaration.
-/

namespace JuliaStubs

open Catalog Dump Report

/-- A class of which a run that starts at a root uses nothing but the place in the tree: its partition is not known, it is not exposed
or not enabled, or its parents do not lead to the root. -/
def Dump.Host.Unused (host : Host) (root : String) (cls : ClassInfo) : Prop :=
  ¬(cls.partition.isRecognized = true ∧ cls.isExposed = true ∧ cls.isEnabled = true) ∨
    ¬Relation.ReflTransGen host.ParentLink cls.name root

/-- The dump with other members in classes of which nothing is used. -/
structure Dump.Host.Conceals (host other : Host) (root : String) : Prop where
  classes : List.Forall₂ (fun cls found => found = cls ∨ found.outline = cls.outline ∧ host.Unused root cls) host.classes other.classes
  globalConstants : other.globalConstants = host.globalConstants

/-- What is found in two lists of corresponding items corresponds. -/
theorem rel_find? {α β : Type} {R : α → β → Prop} {items : List α} {others : List β} (h : List.Forall₂ R items others)
    {wanted : α → Bool} {wanted' : β → Bool} (heq : ∀ item other, R item other → wanted item = wanted' other) :
    Option.Rel R (items.find? wanted) (others.find? wanted') := by
  induction h with
  | nil => exact .none
  | @cons item other rest rest' hR _ ih =>
    rw [List.find?_cons, List.find?_cons, ← heq item other hR]
    cases wanted item with
    | true => exact .some hR
    | false => exact ih

section Used

variable {host : Host} (hdistinct : (host.classes.map ClassInfo.name).Nodup) {root : String}

include hdistinct

/-- An admitted class is one that is used. -/
theorem not_unused_of_admitted {visit : Visit} (hv : visit ∈ visits host root) {parent : Option String}
    (hverdict : visit.verdict = .admitted parent) {cls : ClassInfo} (hc : host.class? visit.name = some cls) :
    ¬host.Unused root cls := by
  have hname := (Host.mem_of_class? hc).2
  have hadmissible : Admissible host visit.name :=
    ((visits_traced host root).admissible_iff visit hv).mpr fun why hwhy => nomatch hverdict.symm.trans hwhy
  have hreach : Relation.ReflTransGen host.ParentLink visit.name root :=
    (mem_visits_iff hdistinct).mp (List.mem_map_of_mem hv)
  rw [Admissible, Host.partition, Host.flag, Host.flag, hc] at hadmissible
  rintro (hrejected | haway)
  · exact hrejected hadmissible
  · exact haway (hname ▸ hreach)

/-- A class of which nothing is used is not registered. -/
theorem not_mem_of_unused {settings : Settings} {docs : Docs} {cls : ClassInfo} (hc : cls ∈ host.classes)
    (hunused : host.Unused settings.rootClass cls) :
    cls.name ∉ (ofDump settings host docs).result.registry.newestFirst.map ClassDecl.name := by
  intro hm
  obtain ⟨registered, hr, hname⟩ := List.mem_map.mp hm
  rw [← Registry.mem_classes, classes_ofDump] at hr
  obtain ⟨visit, hv, hvisit, hverdict⟩ := exists_visit_of_populated hr
  have hclass := Host.class?_of_mem hdistinct hc
  rw [← hname, ← hvisit] at hclass
  exact not_unused_of_admitted hdistinct hv hverdict hclass hunused

end Used

namespace Dump.Host.Conceals

variable {host other : Host} {root : String} (h : host.Conceals other root)

include h

theorem outlines : host.classes.map ClassInfo.outline = other.classes.map ClassInfo.outline := by
  refine map_eq_of_forall₂ h.classes ?_
  rintro cls found (rfl | ⟨houtline, _⟩)
  · rfl
  · exact houtline.symm

/-- The classes of a name are the same, or nothing is used of them. -/
theorem rel_class? (name : String) :
    Option.Rel (fun cls found => found = cls ∨ found.outline = cls.outline ∧ host.Unused root cls) (host.class? name)
      (other.class? name) := by
  refine rel_find? (List.forall₂_reverse_iff.mpr h.classes) ?_
  rintro cls found (rfl | ⟨houtline, _⟩)
  · rfl
  · have hname : found.outline.name = cls.outline.name := by rw [houtline]
    exact congrArg (· == name) (Eq.symm hname)

/-- The dumps have the same tree, and admitted classes are the same. -/
theorem class?_of_admitted (hdistinct : (host.classes.map ClassInfo.name).Nodup) {visit : Visit} (hv : visit ∈ visits host root)
    {parent : Option String} (hverdict : visit.verdict = .admitted parent) : host.class? visit.name = other.class? visit.name := by
  have hrel := h.rel_class? visit.name
  have hused : ∀ cls, host.class? visit.name = some cls → ¬host.Unused root cls :=
    fun _ => not_unused_of_admitted hdistinct hv hverdict
  generalize host.class? visit.name = cls?, other.class? visit.name = found? at hrel hused ⊢
  cases hrel with
  | none => rfl
  | some hfound =>
    rcases hfound with rfl | ⟨_, hunused⟩
    · rfl
    · exact absurd hunused (hused _ rfl)

theorem agreeFrom (hdistinct : (host.classes.map ClassInfo.name).Nodup) : host.AgreeFrom other root where
  sameTree := .of_eq h.outlines
  globalConstants := h.globalConstants.symm
  admitted := fun _ hv _ hverdict => congrArg _ (h.class?_of_admitted hdistinct hv hverdict)

omit h in
/-- The methods of a class that is entered are the same. -/
theorem methodsOf {settings : Settings} {docs : Docs} (h : host.Conceals other settings.rootClass)
    (hdistinct : (host.classes.map ClassInfo.name).Nodup) {cls : ClassDecl} (hc : cls ∈ surveyed settings host docs) (r : Registry) :
    methodsOf settings host docs r cls.name = methodsOf settings other docs r cls.name := by
  obtain ⟨visit, hv, hadmitted⟩ := List.mem_filterMap.mp hc
  obtain ⟨hverdict, hcls⟩ := name_of_admittedClass? hadmitted
  have hname : cls.name = visit.name := congrArg ClassDecl.name hcls
  rw [hname]
  exact methodsOf_of_class? (h.class?_of_admitted hdistinct hv hverdict)

end Dump.Host.Conceals

/-- Where no name of a class repeats, the members of classes of which nothing is used leave no trace: neither in the catalog, nor in
what is reported, nor in the package and its counts. No such class is registered, and no enum type belongs to one. -/
theorem render_concealed (g : Generator) {host other : Host} (docs : Docs) (hdistinct : (host.classes.map ClassInfo.name).Nodup)
    (h : host.Conceals other g.settings.rootClass) :
    g.load other docs = g.load host docs ∧
      ∃ catalog, ∃ rendered rendered' : Logged Package, (g.load host docs).result.catalog = some catalog ∧
        (g.load host docs).result.render = .ok rendered ∧ (g.load other docs).result.render = .ok rendered' ∧
        rendered'.result.files = rendered.result.files ∧ rendered'.result.summary = rendered.result.summary ∧ rendered' = rendered ∧
        ∀ cls ∈ host.classes, host.Unused g.settings.rootClass cls →
          cls.name ∉ catalog.registry.newestFirst.map ClassDecl.name ∧ ∀ e ∈ catalog.registry.enums, e.owner ≠ some cls.name := by
  have hcatalog : ofDump g.settings host docs = ofDump g.settings other docs :=
    (h.agreeFrom hdistinct).ofDump_eq docs fun r _ hc => h.methodsOf hdistinct hc r
  have hload : g.load other docs = g.load host docs := by rw [Generator.load, ← hcatalog, Generator.load]
  rw [hload]
  obtain ⟨catalog, log, hfound, hsound, hrender⟩ := render_load g host docs
  refine ⟨rfl, catalog, _, _, hfound, hrender, hrender, rfl, rfl, rfl, fun cls hc hunused => ?_⟩
  obtain rfl : (ofDump g.settings host docs).result = catalog := Option.some.inj hfound
  have hnew : cls.name ∉ (ofDump g.settings host docs).result.registry.newestFirst.map ClassDecl.name :=
    not_mem_of_unused hdistinct hc hunused
  exact ⟨hnew, fun e he howner => hnew ((Registry.hasClass_iff _ _).mp (hsound.hasClass_owner he howner))⟩

namespace ConcealmentAux

/-- A class whose partition is not known, with a value for an enum. -/
def hidden (isSingleton : Bool) (enums : List EnumInfo) : ClassInfo :=
  ⟨"Hidden", some "Object", .unlisted, true, true, isSingleton, false, [], [], [⟨"OFF", 0⟩], enums⟩

/-- A class with a method that gives a value of an enum of that class. -/
def host (hidden : ClassInfo) : Host :=
  { classes :=
      [⟨"Object", none, .core, true, true, false, false, [], [], [], []⟩, hidden,
        ⟨"Alpha", some "Object", .core, true, true, false, false, [],
          [⟨"mode", .none, ⟨"", .int, "Hidden.Mode", ⟨flagBit 16⟩⟩, [], .unspecified, [], []⟩], [], []⟩]
    globalConstants := [] }

/-- Whether the class is a singleton and declares the enum makes the difference. -/
theorem conceals : (host (hidden false [⟨"Mode", ["OFF"], false⟩])).Conceals (host (hidden true [])) "Object" where
  classes := .cons (.inl rfl) (.cons (.inr ⟨rfl, .inl (by decide)⟩) (.cons (.inl rfl) .nil))
  globalConstants := rfl

/-- The registry of the dump with the enum. -/
def registry : Registry := (ofDump .standard (host (hidden false [⟨"Mode", ["OFF"], false⟩])) .empty).result.registry

/-- What the method gives is an integer, as it is without the enum. -/
theorem resolve_result :
    (registry.class? "Alpha").map (fun cls => cls.methods.map fun method => (method.result, registry.resolve method.result)) =
      some [(.enumeration "Hidden.Mode", (registry.builtin? .int32).map .builtin)] := by
  cbv

end ConcealmentAux

theorem render_concealed_enum :
    let declared := ConcealmentAux.host (ConcealmentAux.hidden false [⟨"Mode", ["OFF"], false⟩])
    let bare := ConcealmentAux.host (ConcealmentAux.hidden true [])
    (declared.classes.map ClassInfo.name).Nodup ∧ declared.Conceals bare "Object" ∧ bare ≠ declared ∧
      (ConcealmentAux.registry.class? "Alpha").map (fun cls => cls.methods.map fun method =>
        (method.result, ConcealmentAux.registry.resolve method.result)) =
        some [(.enumeration "Hidden.Mode", (ConcealmentAux.registry.builtin? .int32).map .builtin)] ∧
      (Generator.new .standard).load bare .empty = (Generator.new .standard).load declared .empty ∧
      ∃ catalog, ∃ rendered rendered' : Logged Package,
        ((Generator.new .standard).load declared .empty).result.catalog = some catalog ∧
        ((Generator.new .standard).load declared .empty).result.render = .ok rendered ∧
        ((Generator.new .standard).load bare .empty).result.render = .ok rendered' ∧
        rendered'.result.files = rendered.result.files ∧ rendered'.result.summary = rendered.result.summary ∧ rendered' = rendered ∧
        ∀ cls ∈ declared.classes, declared.Unused "Object" cls →
          cls.name ∉ catalog.registry.newestFirst.map ClassDecl.name ∧ ∀ e ∈ catalog.registry.enums, e.owner ≠ some cls.name :=
  ⟨by decide, ConcealmentAux.conceals, by decide, ConcealmentAux.resolve_result,
    render_concealed (.new .standard) .empty (by decide) ConcealmentAux.conceals⟩

end JuliaStubs
