import JuliaStubs.Proofs.Package.Loading
import JuliaStubs.Proofs.Source.InternedNames
import JuliaStubs.Proofs.Source.Widening

/-!
# Including the editor API

What it changes to write the classes of the editor too: it adds files, stubs and branches between those that are there without them,
and replaces none (`editor_api_adds`). The catalog is the same, since it knows nothing of files. A type that could be named still can,
and it is the same type, so the scope of the larger package widens that of the smaller one (`widens_scopeOf`).
-/

namespace JuliaStubs

open Catalog Report Source

/-- The generator with the choice whether classes of the editor get files. -/
def Generator.withEditorApi (g : Generator) (flag : Bool) : Generator :=
  { g with settings := { g.settings with includeEditorApi := flag } }

/-- Every branch of a dispatch is one of the other, in the same order. -/
structure Source.Dispatch.Within (dispatch other : Dispatch) : Prop where
  tag : dispatch.tag = other.tag
  getters : dispatch.getters.Sublist other.getters
  setters : dispatch.setters.Sublist other.setters

/-- Two files of a class, where every member of the first is one of the second, in the same order. -/
structure Source.ClassFile.Within (file other : ClassFile) : Prop where
  cls : file.cls = other.cls
  parentTag : file.parentTag = other.parentTag
  stubs : file.stubs.Sublist other.stubs
  dispatch : Option.Rel Dispatch.Within file.dispatch other.dispatch

/-- Two packages, where the first consists of parts of the second, in the same order. -/
structure Package.Within (package other : Package) : Prop where
  globalEnums : package.globalEnums = other.globalEnums
  globalConstants : package.globalConstants = other.globalConstants
  files : List.SublistForall₂ ClassFile.Within package.classFiles other.classFiles
  manifest : package.includeLines.Sublist other.includeLines
  names : ∀ name ∈ package.internedNames.names, name ∈ other.internedNames.names

theorem Source.ClassFile.Within.internedNames {file other : ClassFile} (h : file.Within other) :
    file.internedNames.Sublist other.internedNames := by
  rw [ClassFile.internedNames, h.cls]
  exact (h.stubs.map _).cons_cons _

section Scopes

variable {wide scope : Scope}

theorem within_fileOf (h : wide.Widens scope) (cls : ClassDecl) : (fileOf scope cls).Within (fileOf wide cls) where
  cls := rfl
  parentTag := rfl
  stubs := h.stubsOf
  dispatch := by
    unfold fileOf
    dsimp only
    split
    · exact .none
    · obtain ⟨htag, hgetters, hsetters⟩ := h.dispatchOf
      exact .some ⟨htag.symm, hgetters, hsetters⟩

end Scopes

section Settings

variable {narrow wide : Settings} {r : Registry}

/-- With the editor API classes keep their file, and others may get one. -/
theorem widens_scopeOf (hr : ParentsFirst r.newestFirst) (hreal : wide.realIsDouble = narrow.realIsDouble)
    (hflag : wide.includeEditorApi = true) : (scopeOf wide r).Widens (scopeOf narrow r) where
  registry := rfl
  realIsDouble := hreal
  hasFile := fun name hn => by
    rw [hasFile_iff hr] at hn ⊢
    exact ⟨hn.1, Or.inl hflag⟩

/-- The classes that are written keep their order when more of them are. -/
theorem classesToWrite_sublist (h : (scopeOf wide r).Widens (scopeOf narrow r)) (order : List String) :
    (Package.classesToWrite (scopeOf narrow r) order).Sublist (Package.classesToWrite (scopeOf wide r) order) :=
  List.monotone_filter_right _ fun cls => h.hasFile cls.name

theorem within_ofCatalog {catalog : Catalog} (hr : catalog.registry.Reachable) (hdir : wide.classesDir = narrow.classesDir)
    (h : (scopeOf wide catalog.registry).Widens (scopeOf narrow catalog.registry)) :
    (Package.ofCatalog narrow catalog).result.Within (Package.ofCatalog wide catalog).result := by
  have hclasses := classesToWrite_sublist h (LoadOrder.order catalog.registry catalog.registry.classes).names
  have hpaired : ∀ classes : List ClassDecl, List.Forall₂ ClassFile.Within
      (classes.map (fileOf (scopeOf narrow catalog.registry))) (classes.map (fileOf (scopeOf wide catalog.registry))) := by
    intro classes
    rw [List.forall₂_map_left_iff, List.forall₂_map_right_iff]
    exact List.forall₂_same.mpr fun cls _ => within_fileOf h cls
  have hfiles : List.SublistForall₂ ClassFile.Within (Package.ofCatalog narrow catalog).result.classFiles
      (Package.ofCatalog wide catalog).result.classFiles := by
    rw [classFiles_ofCatalog hr, classFiles_ofCatalog hr]
    exact List.sublistForall₂_iff.mpr ⟨_, hpaired _, hclasses.map _⟩
  obtain ⟨kept, hkept, hsublist⟩ := List.sublistForall₂_iff.mp hfiles
  refine ⟨rfl, rfl, hfiles, ?_, fun name hn => ?_⟩
  · have hlines : (Package.ofCatalog narrow catalog).result.includeLines =
        kept.map fun file => includeLine wide.classesDir file.cls.name :=
      map_eq_of_forall₂ hkept fun file other hw => by
        rw [hw.cls, hdir]
        rfl
    rw [hlines]
    exact hsublist.map _
  · rw [Package.internedNames, mem_ofList, List.mem_flatMap] at hn ⊢
    obtain ⟨file, hf, hn⟩ := hn
    obtain ⟨other, ho, hw⟩ := exists_of_forall₂ hkept.flip hf
    exact ⟨other, hsublist.subset ho, hw.internedNames.subset hn⟩

end Settings

/-- Whatever the dump, writing the classes of the editor too leaves the catalog as it is, and what is reported while it is made. Each
file that is written without them is written with them, with the same stubs and branches in the same order, and maybe more between
them; the manifest lists the files in the same order; and no name is interned less. Each stub that a method has, and each accessor that
a property has, stays the same. -/
theorem editor_api_adds (g : Generator) (host : Dump.Host) (docs : Dump.Docs) :
    ∃ catalog narrow wide,
      ((g.withEditorApi false).load host docs).result.catalog = some catalog ∧
      ((g.withEditorApi true).load host docs).result.catalog = some catalog ∧
      ((g.withEditorApi true).load host docs).log = ((g.withEditorApi false).load host docs).log ∧
      ((g.withEditorApi false).load host docs).result.render = .ok narrow ∧
      ((g.withEditorApi true).load host docs).result.render = .ok wide ∧
      narrow.result.Within wide.result ∧
      narrow.result.manifest = textOfLines narrow.result.includeLines ∧ wide.result.manifest = textOfLines wide.result.includeLines ∧
      let scope := scopeOf (g.withEditorApi false).settings catalog.registry
      let scope' := scopeOf (g.withEditorApi true).settings catalog.registry
      ∀ cls, (∀ method stub, stubOf scope cls method = .ok stub → stubOf scope' cls method = .ok stub) ∧
        ∀ property routine values accessor, accessorOf scope cls property routine values = .ok accessor →
          accessorOf scope' cls property routine values = .ok accessor := by
  have hr := reachable_ofDump g.settings host docs
  have hwidens : (scopeOf (g.withEditorApi true).settings (ofDump g.settings host docs).result.registry).Widens
      (scopeOf (g.withEditorApi false).settings (ofDump g.settings host docs).result.registry) :=
    widens_scopeOf hr.parentsFirst rfl rfl
  exact ⟨_, _, _, rfl, rfl, rfl, rfl, rfl, within_ofCatalog hr rfl hwidens, manifest_eq _, manifest_eq _,
    fun _ => ⟨fun _ _ => hwidens.stubOf, fun _ _ _ _ => hwidens.accessorOf⟩⟩

end JuliaStubs
