import JuliaStubs.Proofs.Source.Accessors
import JuliaStubs.Proofs.Source.Reclassed
import JuliaStubs.Proofs.Source.Stub
import Mathlib.Data.List.Find

/-!
# Packages with one method less

When the entry of a method in a dump is replaced by one that is rejected, the catalog loses the method and the count of skipped members
tells it; the files keep the text of all other stubs, and a dispatch changes in accessors that name the method at most
(`render_rejected`).
-/

namespace JuliaStubs

open Catalog Dump Report Source

/-- Accessors for the same properties, each made for a property and its routine, of which only those for one routine can differ. -/
def Source.SameBut (routine : String) (pairs : List (Property × String)) (accessors others : List Accessor) : Prop :=
  ∃ pick pick' : Property × String → Option Accessor, accessors = pairs.filterMap pick ∧ others = pairs.filterMap pick' ∧
    (∀ pair accessor, pick pair = some accessor ∨ pick' pair = some accessor →
      accessor.property = pair.1.juliaName ∧ accessor.routine = Naming.identifier pair.2) ∧
    ∀ pair ∈ pairs, pair.2 ≠ routine → pick' pair = pick pair

/-- How the file of a class changes when a method is dropped from a class: every other stub keeps its text, and of the accessors those
alone can change that are made for the name of the method. -/
structure Source.ClassFile.OneLess (r : Registry) (owner method : String) (file other : ClassFile) : Prop where
  cls : other.cls = file.cls.without owner method
  typeLines : other.typeLines = file.typeLines
  infoLines : other.infoLines = file.infoLines
  stubs : other.stubs.map (fun stub => (stub.method, stub.lines)) =
    (file.stubs.filter fun stub => !(file.cls.name == owner && stub.method == method)).map fun stub => (stub.method, stub.lines)
  dispatch : Option.Rel (fun d d' : Dispatch => d'.tag = d.tag ∧ SameBut method (readable r file.cls) d.getters d'.getters ∧
    SameBut method (writable r file.cls) d.setters d'.setters) file.dispatch other.dispatch

section Files

variable {owner method : String}

theorem method?_without {routine : String} (h : routine ≠ method) (cls : ClassDecl) :
    (cls.without owner method).method? routine = (cls.method? routine).map id := by
  rw [Option.map_id_apply, ClassDecl.method?, cls.methods_without, List.find?_filter]
  refine List.find?_congr fun found _ => ?_
  by_cases hfound : found.name = routine
  · simp [hfound, h]
  · simp [hfound]

theorem stubs_without (scope : Scope) (cls : ClassDecl) :
    (ClassFile.stubsOf (scope.mapClasses fun cls => cls.without owner method) (cls.without owner method)).result =
      ((ClassFile.stubsOf scope cls).result.filter fun stub => !(cls.name == owner && stub.method == method)).map
        (Stub.mapClass fun cls => cls.without owner method) := by
  rw [result_stubsOf, result_stubsOf, cls.methods_without, List.filter_comm, List.filterMap_filter, List.filter_filterMap,
    List.map_filterMap]
  refine List.filterMap_congr fun found _ => ?_
  rw [(methodsOnly_without owner method).heads.stubOf_mapClasses]
  cases hs : stubOf scope cls found with
  | error fault => exact ite_self _
  | ok stub =>
    have hname : stub.method = found.name := (stubOf_ok_iff.mp hs).2.2.2.1
    simp only [Except.map, Except.toOption, Option.filter_some, hname]
    split <;> rfl

theorem sameBut_accessors (scope : Scope) (cls : ClassDecl) (values : Nat) (pairs : List (Property × String)) :
    SameBut method pairs (pairs.filterMap (accessor? scope cls values))
      (pairs.filterMap (accessor? (scope.mapClasses fun cls => cls.without owner method) (cls.without owner method) values)) := by
  refine ⟨_, _, rfl, rfl, fun pair accessor h => h.elim names_of_accessor? names_of_accessor?, fun pair _ hroutine => ?_⟩
  exact congrArg Except.toOption
    ((methodsOnly_without owner method).heads.accessorOf_mapClasses signatureKept_id (method?_without hroutine) scope cls rfl rfl
      values)

theorem oneLess_fileOf (scope : Scope) (cls : ClassDecl) : (fileOf scope cls).OneLess scope.registry owner method
    (fileOf (scope.mapClasses fun cls => cls.without owner method) (cls.without owner method)) := by
  have h := methodsOnly_without owner method
  refine ⟨rfl, h.typeLines_fileOf _ _ cls, h.infoLines_fileOf _ _ cls, ?_, ?_⟩
  · show (ClassFile.stubsOf _ (cls.without owner method)).result.map _ = _
    rw [stubs_without, List.map_map]
    refine List.map_congr_left fun stub _ => ?_
    exact congrArg (Prod.mk stub.method) (h.heads.lines_mapClass stub)
  · have hreadable : readable (scope.mapClasses fun cls => cls.without owner method).registry (cls.without owner method) =
        readable scope.registry cls := h.readable_mapClasses scope.registry cls
    have hwritable : writable (scope.mapClasses fun cls => cls.without owner method).registry (cls.without owner method) =
        writable scope.registry cls := h.writable_mapClasses scope.registry cls
    have hsingleton : (cls.without owner method).isSingleton = cls.isSingleton := h.heads.isSingleton cls
    rw [fileOf, fileOf, hsingleton, result_dispatchOf, result_dispatchOf, hreadable, hwritable]
    dsimp only
    split
    · exact .none
    · exact .some ⟨congrArg Naming.tag (h.heads.name cls), sameBut_accessors scope cls 0 _, sameBut_accessors scope cls 1 _⟩

variable {settings : Settings} {catalog other : Catalog}

/-- The files of two packages of which the second is that of the catalog without a method correspond. -/
theorem oneLess_classFiles (hr : catalog.registry.Reachable) (ho : other.registry.Reachable)
    (hother : other.registry = (catalog.without owner method).registry) :
    (∀ file ∈ (Package.ofCatalog settings catalog).result.classFiles,
        ∃ file' ∈ (Package.ofCatalog settings other).result.classFiles, file.OneLess catalog.registry owner method file') ∧
      ∀ file' ∈ (Package.ofCatalog settings other).result.classFiles,
        ∃ file ∈ (Package.ofCatalog settings catalog).result.classFiles, file.OneLess catalog.registry owner method file' := by
  have h := methodsOnly_without owner method
  have hscope : scopeOf settings other.registry =
      (scopeOf settings catalog.registry).mapClasses fun cls => cls.without owner method := by
    rw [hother]
    exact h.heads.scopeOf_mapClasses settings catalog.registry
  have hfile : ∀ cls : ClassDecl, (scopeOf settings other.registry).hasFile (cls.without owner method).name =
      (scopeOf settings catalog.registry).hasFile cls.name := fun cls => by
    rw [hscope]
    exact congrArg (scopeOf settings catalog.registry).hasFile (h.heads.name cls)
  have hmem : ∀ cls', cls' ∈ other.registry.newestFirst ↔ ∃ cls ∈ catalog.registry.newestFirst, cls.without owner method = cls' := by
    rw [hother]
    exact fun _ => List.mem_map
  simp only [mem_classFiles hr, mem_classFiles ho]
  constructor
  · rintro _ ⟨cls, hc, hf, rfl⟩
    refine ⟨_, ⟨_, (hmem _).mpr ⟨cls, hc, rfl⟩, (hfile cls).trans hf, rfl⟩, ?_⟩
    rw [hscope]
    exact oneLess_fileOf (scopeOf settings catalog.registry) cls
  · rintro _ ⟨_, hc', hf, rfl⟩
    obtain ⟨cls, hc, rfl⟩ := (hmem _).mp hc'
    refine ⟨_, ⟨cls, hc, (hfile cls).symm.trans hf, rfl⟩, ?_⟩
    rw [hscope]
    exact oneLess_fileOf (scopeOf settings catalog.registry) cls

end Files

/-- Two dumps that are the same except for the entry of a method, whose class names each of its methods once: where the second entry is
rejected, the second catalog is the first one without this method, and counts one member more as skipped when the first one has the
method. The files of the two packages correspond. Each file of the second has the same text for every stub but the one of the method,
and its dispatch differs from the first in accessors that are made for the name of the method, if at all. -/
theorem render_rejected (g : Generator) (docs : Docs) (place : MethodPlace) {entry entry' : MethodInfo}
    (hname : entry'.name = entry.name) (hdistinct : ((place.methodsWith entry).map MethodInfo.name).Nodup) {catalog other : Catalog}
    (hcatalog : (g.load (place.hostWith entry) docs).result.catalog = some catalog)
    (hother : (g.load (place.hostWith entry') docs).result.catalog = some other)
    (hrejected : other.method? place.cls.name entry.name = none) :
    other = { catalog.without place.cls.name entry.name with
        skipped := catalog.skipped + if (catalog.method? place.cls.name entry.name).isSome then 1 else 0 } ∧
      ∃ rendered rendered' : Logged Package, (g.load (place.hostWith entry) docs).result.render = .ok rendered ∧
        (g.load (place.hostWith entry') docs).result.render = .ok rendered' ∧
        (∀ file ∈ rendered.result.classFiles, ∃ file' ∈ rendered'.result.classFiles,
          file.OneLess catalog.registry place.cls.name entry.name file') ∧
        ∀ file' ∈ rendered'.result.classFiles, ∃ file ∈ rendered.result.classFiles,
          file.OneLess catalog.registry place.cls.name entry.name file' := by
  obtain rfl := Option.some.inj hcatalog
  obtain rfl := Option.some.inj hother
  have heq := ofDump_hostWith hname hdistinct hrejected
  have hregistry : (ofDump g.settings (place.hostWith entry') docs).result.registry =
      ((ofDump g.settings (place.hostWith entry) docs).result.without place.cls.name entry.name).registry := by rw [heq]
  obtain ⟨hforth, hback⟩ := oneLess_classFiles (reachable_ofDump g.settings (place.hostWith entry) docs)
    (reachable_ofDump g.settings (place.hostWith entry') docs) hregistry
  exact ⟨heq, _, _, rfl, rfl, hforth, hback⟩

namespace RemovalAux

/-- The getter of a property, with a result of some kind. -/
def getter (kind : ValueKind) : MethodInfo := ⟨"get_size", .none, ⟨"", kind, "", .none⟩, [], .unspecified, [], []⟩

/-- The place of the getter, after a method that takes its class. -/
def place : MethodPlace :=
  { before := [⟨"Object", none, .core, true, true, false, false, [], [], [], []⟩]
    cls :=
      { name := "Alpha"
        parent := some "Object"
        partition := .core
        isExposed := true
        isEnabled := true
        isSingleton := false
        isInstantiable := true
        properties := [⟨⟨"size", .int, "", .none⟩, some "get_size", none, -1, false⟩]
        methods := []
        constants := []
        enums := [] }
    preceding := [⟨"attach", .none, .blank, [⟨"other", .object, "Alpha", .none⟩], .unspecified, [], []⟩]
    following := []
    after := []
    globalConstants := [] }

/-- The catalog of the dump with such a getter. -/
def catalog (kind : ValueKind) : Catalog := (ofDump .standard (place.hostWith (getter kind)) .empty).result

theorem rejected : (catalog .color).method? "Alpha" "get_size" = none := by cbv

theorem bound : ((catalog .int).method? "Alpha" "get_size").isSome = true := by cbv

theorem render_rejected_color : (getter .color).name = (getter .int).name ∧
    ((place.methodsWith (getter .int)).map MethodInfo.name).Nodup ∧
    ((Generator.new .standard).load (place.hostWith (getter .int)) .empty).result.catalog = some (catalog .int) ∧
    ((Generator.new .standard).load (place.hostWith (getter .color)) .empty).result.catalog = some (catalog .color) ∧
    (catalog .color).method? "Alpha" "get_size" = none ∧ ((catalog .int).method? "Alpha" "get_size").isSome = true ∧
    catalog .color = { (catalog .int).without "Alpha" "get_size" with
      skipped := (catalog .int).skipped + if ((catalog .int).method? "Alpha" "get_size").isSome then 1 else 0 } ∧
      ∃ rendered rendered' : Logged Package,
        ((Generator.new .standard).load (place.hostWith (getter .int)) .empty).result.render = .ok rendered ∧
        ((Generator.new .standard).load (place.hostWith (getter .color)) .empty).result.render = .ok rendered' ∧
        (∀ file ∈ rendered.result.classFiles, ∃ file' ∈ rendered'.result.classFiles,
          file.OneLess (catalog .int).registry "Alpha" "get_size" file') ∧
        ∀ file' ∈ rendered'.result.classFiles, ∃ file ∈ rendered.result.classFiles,
          file.OneLess (catalog .int).registry "Alpha" "get_size" file' := by
  have hname : (getter .color).name = (getter .int).name := rfl
  have hdistinct : ((place.methodsWith (getter .int)).map MethodInfo.name).Nodup := by decide
  exact ⟨hname, hdistinct, rfl, rfl, rejected, bound,
    render_rejected (.new .standard) .empty place hname hdistinct rfl rfl rejected⟩

end RemovalAux

end JuliaStubs
