import JuliaStubs.Proofs.Package.Files
import JuliaStubs.Proofs.Source.Accessors
import JuliaStubs.Proofs.Source.Stub

/-!
# Rendering a package

A rendered package is complete: it has one file for each class that the run writes, next to the four fixed files, and its manifest
lists these files (`render_complete`). The classes with a file are found in one pass over the registry and the files stand in an order
that is made elsewhere. That no class is lost or refused on the way follows from the two facts that parents are registered before their
children and that the order lists every class once.
-/

namespace JuliaStubs

open Catalog Report Source

/-- The registered classes that a run writes, in the order of their registration. -/
def visibleClasses (settings : Settings) (r : Registry) : List ClassDecl :=
  r.classes.filter fun cls => Visible settings r cls.name

section Events

/-- Making the file of a class leaves out methods and accessors, and reports nothing else. -/
theorem mem_fileEvents {scope : Scope} {cls : ClassDecl} {event : Event} (h : event ∈ fileEvents scope cls) :
    (∃ method fault, event = .methodWithoutSource cls.name method fault) ∨
      ∃ property routine fault, event = .accessorFailed cls.name property routine fault := by
  rcases List.mem_append.mp h with h | h
  · left
    rw [log_stubsOf] at h
    obtain ⟨method, _, heq⟩ := List.mem_filterMap.mp h
    unfold omission? at heq
    split at heq
    · nomatch heq
    · exact ⟨_, _, (Option.some.inj heq).symm⟩
  · right
    split at h
    · nomatch h
    · exact mem_log_dispatchOf h

variable {settings : Settings} {catalog : Catalog}

/-- Finding the classes with a file reports classes below hidden ones, and nothing else. -/
theorem mem_log_scope {event : Event} (h : event ∈ (Scope.ofRegistry settings catalog.registry).log) :
    ∃ cls, event = .hiddenParent cls := by
  have hstep : ∀ (files : List String) (cls : ClassDecl), ∀ event ∈ (admitFile settings.includeEditorApi files cls).log,
      ∃ cls, event = .hiddenParent cls := by
    intro files cls event hm
    unfold admitFile at hm
    split at hm
    · nomatch hm
    · exact ⟨_, List.mem_singleton.mp hm⟩
  exact Logged.forall_mem_log_foldSteps hstep event h

/-- All that the making of class files reports is omissions. -/
theorem filter_fileEvents (scope : Scope) (classes : List ClassDecl) :
    (classes.flatMap (fileEvents scope)).filter Package.isOmission = classes.flatMap (fileEvents scope) := by
  refine List.filter_eq_self.mpr fun event hm => ?_
  obtain ⟨cls, _, hm⟩ := List.mem_flatMap.mp hm
  rcases mem_fileEvents hm with ⟨_, _, rfl⟩ | ⟨_, _, _, rfl⟩ <;> rfl

/-- The omissions of a package are those of its class files. -/
theorem omissions_ofCatalog (hr : catalog.registry.Reachable) :
    (Package.ofCatalog settings catalog).log.filter Package.isOmission =
      (Package.classesToWrite (scopeOf settings catalog.registry)
        (LoadOrder.order catalog.registry catalog.registry.classes).names).flatMap
          (fileEvents (scopeOf settings catalog.registry)) := by
  have hcycles : ∀ cycles : List LoadOrder.Cycle, (cycles.map Event.cycleFound).filter Package.isOmission = [] := by
    intro cycles
    rw [List.filter_map, List.map_eq_nil_iff]
    exact List.filter_eq_nil_iff.mpr fun _ _ => Bool.false_ne_true
  have hscope : (Scope.ofRegistry settings catalog.registry).log.filter Package.isOmission = [] := by
    refine List.filter_eq_nil_iff.mpr fun event hm => ?_
    obtain ⟨cls, rfl⟩ := mem_log_scope hm
    exact Bool.false_ne_true
  have hfiles := congrArg (fun files => files.log.filter Package.isOmission) (@filesOf_catalog settings catalog hr)
  rw [Package.ofCatalog, List.filter_append, List.filter_append, List.filter_append, hcycles, hscope]
  exact hfiles.trans (filter_fileEvents _ _)

/-- What a package counts as skipped is what the catalog does, and its own omissions. -/
theorem skipped_ofCatalog (hr : catalog.registry.Reachable) :
    (Package.ofCatalog settings catalog).result.skipped =
      catalog.skipped + ((Package.ofCatalog settings catalog).log.filter Package.isOmission).length := by
  have hfiles := congrArg (fun files => files.log.filter Package.isOmission) (@filesOf_catalog settings catalog hr)
  rw [omissions_ofCatalog hr]
  exact congrArg (fun omissions => catalog.skipped + omissions.length) (hfiles.trans (filter_fileEvents _ _))

/-- No class is refused a file. -/
theorem not_mem_log_ofCatalog (hr : catalog.registry.Reachable) (cls : String) (fault : SourceFault) :
    Event.classWithoutSource cls fault ∉ (Package.ofCatalog settings catalog).log := by
  intro hm
  have hm := List.mem_filter.mpr ⟨hm, show Package.isOmission (.classWithoutSource cls fault) = true from rfl⟩
  rw [omissions_ofCatalog hr] at hm
  obtain ⟨_, _, hm⟩ := List.mem_flatMap.mp hm
  rcases mem_fileEvents hm with ⟨_, _, heq⟩ | ⟨_, _, _, heq⟩ <;> nomatch heq

end Events

/-! ## The visible classes and their files -/

/-- What makes the package of a registry complete. -/
structure Package.Complete (settings : Settings) (r : Registry) (package : Package) : Prop where
  /-- The parent of a visible class is visible. -/
  parents : ∀ cls ∈ visibleClasses settings r, ∀ p, cls.parent = some p →
    ∃ parent ∈ visibleClasses settings r, parent.name = p
  /-- Every class for which a file is asked gets it: the file of its parent is not missing. -/
  declared : ∀ cls ∈ Package.classesToWrite (scopeOf settings r) (LoadOrder.order r r.classes).names,
    ∃ file, ClassFile.ofClass (scopeOf settings r) cls = .ok file ∧ file.result ∈ package.classFiles
  /-- Each visible class has one file. -/
  classes : (package.classFiles.map ClassFile.cls).Perm (visibleClasses settings r)
  nodup : (package.classFiles.map fun file => file.cls.name).Nodup
  /-- The files stand in load order. -/
  ordered : (package.classFiles.map fun file => file.cls.name) =
    (LoadOrder.order r r.classes).names.filter (Visible settings r)
  /-- The fixed files, the class files, and behind them the manifest, line by line. -/
  files : package.files =
    [⟨"core_constants.jl", buildConstants settings⟩,
      ⟨"constants.jl", Source.globalConstants package.globalEnums package.globalConstants⟩,
      ⟨"string_names.jl", package.internedNames.text⟩] ++
      package.classFiles.map (fun file => ⟨Files.join settings.classesDir (file.cls.name ++ ".jl"), file.text⟩) ++
      [⟨"classes.jl", String.join (package.includeLines.map (· ++ "\n"))⟩]
  /-- Each line of the manifest includes the file of a class, and the lines stand as the files do. -/
  includes : package.includeLines =
    package.classFiles.map fun file => "include(\"" ++ settings.classesDir ++ "/" ++ file.cls.name ++ ".jl\");"
  types : package.summary.types = (visibleClasses settings r).length
  methods : package.summary.methods = (package.classFiles.map fun file => file.stubs.length).sum

section Complete

variable {settings : Settings}

theorem mem_visibleClasses {r : Registry} (hr : r.Reachable) {cls : ClassDecl} :
    cls ∈ visibleClasses settings r ↔ cls ∈ r.newestFirst ∧ (scopeOf settings r).hasFile cls.name = true := by
  rw [visibleClasses, List.mem_filter, Registry.mem_classes, decide_eq_true_eq, hasFile_iff hr.parentsFirst]
  exact and_congr_right fun hc => (and_iff_right (List.mem_map_of_mem hc)).symm

theorem nodup_classesToWrite {r : Registry} (hr : r.Reachable) :
    ((Package.classesToWrite (scopeOf settings r) (LoadOrder.order r r.classes).names).map ClassDecl.name).Nodup := by
  rw [names_classesToWrite hr]
  exact (LoadOrder.nodup_order (LoadOrder.listing_classes hr)).filter _

/-- The classes that are written are the visible ones, each once. -/
theorem classesToWrite_perm {r : Registry} (hr : r.Reachable) :
    (Package.classesToWrite (scopeOf settings r) (LoadOrder.order r r.classes).names).Perm (visibleClasses settings r) := by
  have hvisible : (visibleClasses settings r).Nodup := (List.Nodup.of_map _ (LoadOrder.listing_classes hr).nodup).filter _
  refine (List.perm_ext_iff_of_nodup (List.Nodup.of_map _ (nodup_classesToWrite hr)) hvisible).mpr fun cls => ?_
  rw [mem_classesToWrite hr, mem_visibleClasses hr]

/-- Among the names of an order those with a file are the visible ones. -/
theorem filter_hasFile {r : Registry} (hr : r.Reachable) :
    (LoadOrder.order r r.classes).names.filter (scopeOf settings r).hasFile =
      (LoadOrder.order r r.classes).names.filter (Visible settings r) := by
  refine List.filter_congr fun name hn => ?_
  obtain ⟨cls, hc, rfl⟩ := List.mem_map.mp ((LoadOrder.order_perm (LoadOrder.listing_classes hr)).mem_iff.mp hn)
  rw [Bool.eq_iff_iff, decide_eq_true_eq, hasFile_iff hr.parentsFirst]
  exact and_iff_right (List.mem_map_of_mem (Registry.mem_classes.mp hc))

theorem complete_ofCatalog {catalog : Catalog} (hr : catalog.registry.Reachable) :
    (Package.ofCatalog settings catalog).result.Complete settings catalog.registry := by
  have h := hr.parentsFirst
  have hfiles := @classFiles_ofCatalog settings catalog hr
  have hclasses : ((Package.ofCatalog settings catalog).result.classFiles.map ClassFile.cls).Perm
      (visibleClasses settings catalog.registry) := by
    rw [hfiles, List.map_map]
    exact (List.map_id _).symm ▸ classesToWrite_perm hr
  have hordered := (@names_classFiles settings catalog hr).trans (filter_hasFile hr)
  refine
    { parents := fun cls hc p hp => ?_
      declared := fun cls hc => ?_
      classes := hclasses
      nodup := ?_
      ordered := hordered
      files := ?_
      includes := rfl
      types := ?_
      methods := List.length_flatMap }
  · obtain ⟨hm, hf⟩ := (mem_visibleClasses hr).mp hc
    obtain ⟨parent, hpm, rfl⟩ := List.mem_map.mp (h.parent_mem hm hp)
    exact ⟨parent, (mem_visibleClasses hr).mpr ⟨hpm, hasFile_parent h hm hp hf⟩, rfl⟩
  · obtain ⟨hm, hf⟩ := (mem_classesToWrite hr).mp hc
    exact ⟨_, ofClass_eq h hm hf, (mem_classFiles hr).mpr ⟨cls, hm, hf, rfl⟩⟩
  · rw [hordered]
    exact (LoadOrder.nodup_order (LoadOrder.listing_classes hr)).filter _
  · rw [Package.files, manifest_eq]
    rfl
  · rw [Package.summary, ← hclasses.length_eq, List.length_map]

end Complete

/-- Whatever the dump and the settings, rendering succeeds and the package is complete. No class is refused a file on the way. -/
theorem render_complete (g : Generator) (host : Dump.Host) (docs : Dump.Docs) :
    ∃ catalog rendered, (g.load host docs).result.catalog = some catalog ∧ (g.load host docs).result.render = .ok rendered ∧
      rendered.result.Complete g.settings catalog.registry ∧
      ∀ cls fault, Event.classWithoutSource cls fault ∉ rendered.log := by
  have hr := Catalog.reachable_ofDump g.settings host docs
  refine ⟨_, _, rfl, rfl, complete_ofCatalog hr, fun cls fault hm => ?_⟩
  rcases List.mem_append.mp hm with hm | hm
  · exact not_mem_log_ofCatalog hr cls fault hm
  · nomatch List.mem_singleton.mp hm

end JuliaStubs
