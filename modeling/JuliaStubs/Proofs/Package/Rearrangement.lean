import JuliaStubs.Package.Generator
import JuliaStubs.Proofs.Catalog.Agreement
import JuliaStubs.Proofs.Catalog.Methods
import JuliaStubs.Proofs.Report.Outcomes

/-!
# Rearranged dumps

The order in which a dump lists its classes, and each class its methods, leaves no trace in the package (`render_rearranged`), where
no names repeat. A rearranged dump answers every question that is not about methods alike; each class has the same methods, and these
are sorted by name before anything is made of them.
-/

namespace JuliaStubs

open Catalog Dump Report

/-- The class with its methods in another order. -/
def Dump.ClassInfo.Rearranged (cls other : ClassInfo) : Prop := other.bare = cls.bare ∧ other.methods.Perm cls.methods

/-- The dump with its classes in another order, and the methods of each of them in another order. -/
structure Dump.Host.Rearranged (host other : Host) : Prop where
  classes : ∃ classes, classes.Perm host.classes ∧ List.Forall₂ ClassInfo.Rearranged classes other.classes
  globalConstants : other.globalConstants = host.globalConstants

namespace Dump.Host.Rearranged

variable {host other : Host} (h : host.Rearranged other)

include h

theorem exists_of_mem {cls : ClassInfo} (hc : cls ∈ host.classes) : ∃ found ∈ other.classes, cls.Rearranged found := by
  obtain ⟨classes, hperm, hpaired⟩ := h.classes
  exact exists_of_forall₂ hpaired.flip (hperm.mem_iff.mpr hc)

theorem exists_of_mem_other {found : ClassInfo} (hf : found ∈ other.classes) : ∃ cls ∈ host.classes, cls.Rearranged found := by
  obtain ⟨classes, hperm, hpaired⟩ := h.classes
  obtain ⟨cls, hc, hr⟩ := exists_of_forall₂ hpaired hf
  exact ⟨cls, hperm.mem_iff.mp hc, hr⟩

theorem perm_bare : (other.classes.map ClassInfo.bare).Perm (host.classes.map ClassInfo.bare) := by
  obtain ⟨classes, hperm, hpaired⟩ := h.classes
  rw [← map_eq_of_forall₂ hpaired fun _ _ hr => hr.1.symm]
  exact hperm.map _

theorem perm_names : (other.classes.map ClassInfo.name).Perm (host.classes.map ClassInfo.name) := by
  rw [← map_name_bare other.classes, ← map_name_bare host.classes]
  exact h.perm_bare.map _

variable (hdistinct : (host.classes.map ClassInfo.name).Nodup)

include hdistinct

theorem agree : other.Agree host :=
  .of_perm h.perm_bare (h.perm_names.nodup_iff.mpr hdistinct) h.globalConstants

/-- The classes of a name correspond. -/
theorem exists_class? {name : String} {cls : ClassInfo} (hc : host.class? name = some cls) :
    ∃ found, other.class? name = some found ∧ cls.Rearranged found := by
  obtain ⟨hm, hname⟩ := Host.mem_of_class? hc
  obtain ⟨found, hf, hr⟩ := h.exists_of_mem hm
  have hfound : found.name = name := (congrArg ClassInfo.name hr.1).trans hname
  have hclass := Host.class?_of_mem (h.perm_names.nodup_iff.mpr hdistinct) hf
  rw [hfound] at hclass
  exact ⟨found, hclass, hr⟩

/-- Each class has the same methods. -/
theorem methods (name : String) : (other.methods name).Perm (host.methods name) := by
  cases hc : host.class? name with
  | none =>
    have hnone := (h.agree hdistinct).class? name
    rw [hc, Option.map_none, Option.map_eq_none_iff] at hnone
    rw [Host.methods, hnone, Host.methods, hc]
  | some cls =>
    obtain ⟨found, hf, hr⟩ := h.exists_class? hdistinct hc
    rw [Host.methods, hf, Host.methods, hc]
    exact hr.2

omit hdistinct in
theorem distinctMethods (hmethods : host.DistinctMethods) : other.DistinctMethods := by
  intro found hf
  obtain ⟨cls, hc, hr⟩ := h.exists_of_mem_other hf
  exact (hr.2.map _).nodup_iff.mpr (hmethods cls hc)

/-- The same becomes of the methods of each class. -/
theorem methodsOf (hmethods : host.DistinctMethods) (settings : Settings) (docs : Docs) (r : Registry) (cls : String) :
    methodsOf settings other docs r cls = methodsOf settings host docs r cls := by
  have hperm := h.methods hdistinct cls
  refine methodsOf_congr (sortedMethods_eq_of_perm hperm (hmethods.nodup_methods cls)) fun info hi => ?_
  rw [hmethods.binding?_of_mem hi, (h.distinctMethods hmethods).binding?_of_mem (hperm.mem_iff.mpr hi)]

end Dump.Host.Rearranged

/-- Where neither the names of classes nor those of the methods of a class repeat, the order of classes and methods in a dump changes
neither the catalog nor what is reported on the way, and the package that is rendered is the same. -/
theorem render_rearranged (g : Generator) {host other : Host} (docs : Docs) (hdistinct : (host.classes.map ClassInfo.name).Nodup)
    (hmethods : host.DistinctMethods) (h : host.Rearranged other) :
    g.load other docs = g.load host docs ∧
      ∃ rendered rendered' : Logged Package, (g.load host docs).result.render = .ok rendered ∧
        (g.load other docs).result.render = .ok rendered' ∧ rendered'.result.files = rendered.result.files ∧
        rendered'.result.summary = rendered.result.summary ∧ rendered' = rendered := by
  have hcatalog : ofDump g.settings other docs = ofDump g.settings host docs :=
    (h.agree hdistinct).ofDump_eq (h.methodsOf hdistinct hmethods g.settings docs)
  have hload : g.load other docs = g.load host docs := by rw [Generator.load, hcatalog, Generator.load]
  rw [hload]
  exact ⟨rfl, _, _, rfl, rfl, rfl, rfl, rfl⟩

namespace RearrangementAux

/-- A method that takes an object of a class. -/
def taking (name other : String) : MethodInfo :=
  ⟨name, .none, .blank, [⟨"object", .object, other, .none⟩], .unspecified, [], []⟩

/-- A class below the root. -/
def member (name : String) (methods : List MethodInfo) : ClassInfo :=
  ⟨name, some "Object", .core, true, true, false, false, [], methods, [], []⟩

/-- The root class. -/
def root : ClassInfo := ⟨"Object", none, .core, true, true, false, false, [], [], [], []⟩

/-- Two classes that take each other, so that their order is decided by breaking a cycle. -/
def host : Host := ⟨[root, member "Alpha" [taking "take" "Beta", taking "admit" "Alpha"], member "Beta" [taking "take" "Alpha"]], []⟩

/-- The same dump backwards. -/
def backwards : Host :=
  ⟨[member "Beta" [taking "take" "Alpha"], member "Alpha" [taking "admit" "Alpha", taking "take" "Beta"], root], []⟩

theorem rearranged : host.Rearranged backwards where
  classes := ⟨host.classes.reverse, List.reverse_perm _,
    .cons ⟨rfl, .refl _⟩ (.cons ⟨rfl, .swap _ _ _⟩ (.cons ⟨rfl, .refl _⟩ .nil))⟩
  globalConstants := rfl

end RearrangementAux

theorem render_rearranged_mutual : (RearrangementAux.host.classes.map ClassInfo.name).Nodup ∧
    RearrangementAux.host.DistinctMethods ∧ RearrangementAux.host.Rearranged RearrangementAux.backwards ∧
    RearrangementAux.backwards ≠ RearrangementAux.host ∧
    (Generator.new .standard).load RearrangementAux.backwards .empty = (Generator.new .standard).load RearrangementAux.host .empty ∧
      ∃ rendered rendered' : Logged Package,
        ((Generator.new .standard).load RearrangementAux.host .empty).result.render = .ok rendered ∧
        ((Generator.new .standard).load RearrangementAux.backwards .empty).result.render = .ok rendered' ∧
        rendered'.result.files = rendered.result.files ∧ rendered'.result.summary = rendered.result.summary ∧
        rendered' = rendered :=
  ⟨by decide, by decide, RearrangementAux.rearranged, by decide,
    render_rearranged (.new .standard) .empty (by decide) (by decide) RearrangementAux.rearranged⟩

end JuliaStubs
