import JuliaStubs.Package.Generator
import JuliaStubs.Proofs.Catalog.Population
import JuliaStubs.Proofs.LoadOrder.Order
import JuliaStubs.Proofs.Source.Branches

/-!
# Files of a package

Which classes of a registry get a file, and the files they get. A class has a file when the run writes classes of the editor or
neither the class nor an ancestor is one (`hasFile_iff`), so the parent of a class with a file has one (`hasFile_parent`) and no file
is refused: the class files are those of these classes, in load order (`classFiles_ofCatalog`). The text of each of them holds the
dispatch of its class (`writes_of_mem`), and that of the manifest is made of the include lines (`manifest_eq`).
-/

namespace JuliaStubs

open Catalog Report Source

/-- Whether a run writes a class: it writes the classes of the editor, or neither the class nor an ancestor is one. -/
def Visible (settings : Settings) (r : Registry) (name : String) : Prop :=
  settings.includeEditorApi = true ∨ ∀ cls ∈ r.lineage name, cls.partition.isEditor = false

instance (settings : Settings) (r : Registry) (name : String) : Decidable (Visible settings r name) :=
  inferInstanceAs (Decidable (_ ∨ _))

/-- The scope of a registry in a run. -/
def scopeOf (settings : Settings) (r : Registry) : Scope := (Scope.ofRegistry settings r).result

section Classes

variable {settings : Settings} {r : Registry}

theorem mem_admitFile {flag : Bool} {files : List String} {cls : ClassDecl} {name : String} :
    name ∈ (admitFile flag files cls).result ↔ name ∈ files ∨
      name = cls.name ∧ (∀ p, cls.parent = some p → p ∈ files) ∧ (flag = true ∨ cls.partition.isEditor = false) := by
  have hall : cls.parent.all files.contains = true ↔ ∀ p, cls.parent = some p → p ∈ files := by
    cases cls.parent <;> simp
  unfold admitFile
  split
  · rename_i hp
    have hp := hall.mp hp
    by_cases hw : (flag || !cls.partition.isEditor) = true
    · rw [if_pos hw, Logged.silent, List.mem_cons]
      simp only [Bool.or_eq_true, Bool.not_eq_eq_eq_not, Bool.not_true] at hw
      exact ⟨fun h => h.symm.imp id fun h => ⟨h, hp, hw⟩, fun h => h.symm.imp And.left id⟩
    · rw [if_neg hw, Logged.silent]
      simp only [Bool.or_eq_true, Bool.not_eq_eq_eq_not, Bool.not_true] at hw
      exact ⟨Or.inl, fun h => h.resolve_right fun h => hw h.2.2⟩
  · rename_i hp
    exact ⟨Or.inl, fun h => h.resolve_right fun h => hp (hall.mpr h.2.1)⟩

/-- The classes with a file, by induction on the order of registration: a class follows its parent. -/
theorem mem_files_iff {flag : Bool} {classes : List ClassDecl} (h : ParentsFirst classes) (name : String) :
    name ∈ (Logged.foldSteps (admitFile flag) [] classes.reverse).result ↔
      name ∈ classes.map ClassDecl.name ∧
        (flag = true ∨ ∀ cls ∈ Registry.lineageIn classes name, cls.partition.isEditor = false) := by
  induction h generalizing name with
  | nil => simp [Logged.foldSteps, Logged.silent]
  | @cons newest older hname hparent holder ih =>
    have hlast : (Logged.foldSteps (admitFile flag) [] (newest :: older).reverse).result =
        (admitFile flag (Logged.foldSteps (admitFile flag) [] older.reverse).result newest).result := by
      rw [List.reverse_cons, Logged.result_foldSteps, Logged.result_foldSteps, List.foldl_append]
      rfl
    rw [hlast, mem_admitFile, ih]
    by_cases heq : newest.name = name
    · subst heq
      have hold : ¬(newest.name ∈ older.map ClassDecl.name) := hname
      have hlineage : Registry.lineageIn (newest :: older) newest.name =
          newest :: (newest.parent.map (Registry.lineageIn older)).getD [] := by
        rw [Registry.lineageIn, if_pos rfl]
        cases newest.parent <;> rfl
      rw [hlineage]
      cases hp : newest.parent with
      | none => simp [hold]
      | some p =>
        have hin := hparent p hp
        simp only [hold, false_and, true_and, false_or, Option.some.injEq, forall_eq', ih p, hin, Option.map_some,
          Option.getD_some, List.map_cons, List.mem_cons, true_or, forall_eq_or_imp]
        constructor
        · rintro ⟨hl, he⟩
          rcases hl with hl | hl
          · exact Or.inl hl
          · exact he.imp id fun he => ⟨he, hl⟩
        · rintro (hf | ⟨he, hl⟩)
          · exact ⟨Or.inl hf, Or.inl hf⟩
          · exact ⟨Or.inr hl, Or.inr he⟩
    · have hne : ¬(name = newest.name) := fun h => heq h.symm
      rw [Registry.lineageIn, if_neg heq, List.map_cons, List.mem_cons]
      simp only [hne, false_and, or_false, false_or]

/-- A class has a file when it is registered and visible. -/
theorem hasFile_iff (h : ParentsFirst r.newestFirst) (name : String) :
    (scopeOf settings r).hasFile name = true ↔ name ∈ r.newestFirst.map ClassDecl.name ∧ Visible settings r name := by
  rw [Scope.hasFile, List.contains_iff_mem]
  exact mem_files_iff h name

/-- The parent of a class with a file has one. -/
theorem hasFile_parent (h : ParentsFirst r.newestFirst) {cls : ClassDecl} (hc : cls ∈ r.newestFirst) {p : String}
    (hp : cls.parent = some p) (hf : (scopeOf settings r).hasFile cls.name = true) : (scopeOf settings r).hasFile p = true := by
  rw [hasFile_iff h] at hf ⊢
  refine ⟨h.parent_mem hc hp, hf.2.imp id fun hl ancestor ha => hl ancestor ?_⟩
  rw [Registry.lineage_of_mem h hc, hp]
  exact List.mem_cons_of_mem _ ha

/-! ## Class files -/

/-- The file of a class of which the parent has a file. -/
def fileOf (scope : Scope) (cls : ClassDecl) : ClassFile :=
  { cls
    parentTag := cls.parent.map Naming.tag
    stubs := (ClassFile.stubsOf scope cls).result
    dispatch := if cls.isSingleton then none else some (dispatchOf scope cls).result }

theorem dispatch_fileOf_of_object (scope : Scope) {cls : ClassDecl} (h : cls.isSingleton = false) :
    (fileOf scope cls).dispatch = some (dispatchOf scope cls).result := by
  rw [fileOf, h, if_neg Bool.false_ne_true]

/-- The events of making that file. -/
def fileEvents (scope : Scope) (cls : ClassDecl) : List Event :=
  (ClassFile.stubsOf scope cls).log ++ if cls.isSingleton then [] else (dispatchOf scope cls).log

/-- A class with a file can be declared. -/
theorem ofClass_eq (h : ParentsFirst r.newestFirst) {cls : ClassDecl} (hc : cls ∈ r.newestFirst)
    (hf : (scopeOf settings r).hasFile cls.name = true) :
    ClassFile.ofClass (scopeOf settings r) cls =
      .ok ⟨fileOf (scopeOf settings r) cls, fileEvents (scopeOf settings r) cls⟩ := by
  have htag : ClassFile.parentTagOf (scopeOf settings r) cls = .ok (cls.parent.map Naming.tag) := by
    unfold ClassFile.parentTagOf
    cases hp : cls.parent with
    | none => rfl
    | some p =>
      obtain ⟨parent, hm, rfl⟩ := List.mem_map.mp (h.parent_mem hc hp)
      have hclass : (scopeOf settings r).registry.class? parent.name = some parent := Registry.class?_of_mem h hm
      simp only [hclass, Option.filter_some, hasFile_parent h hc hp hf, if_true]
      rfl
  unfold ClassFile.ofClass fileOf fileEvents
  rw [htag]
  by_cases hs : cls.isSingleton = true
  · simp only [hs, if_true, List.append_nil]
    rfl
  · simp only [hs]
    rfl

theorem mem_classesToWrite {cls : ClassDecl} (hr : r.Reachable) :
    cls ∈ Package.classesToWrite (scopeOf settings r) (LoadOrder.order r r.classes).names ↔
      cls ∈ r.newestFirst ∧ (scopeOf settings r).hasFile cls.name = true := by
  have h := hr.parentsFirst
  rw [Package.classesToWrite, List.mem_filter, List.mem_filterMap]
  refine and_congr_left fun _ => ⟨?_, fun hc => ⟨cls.name, ?_, Registry.class?_of_mem h hc⟩⟩
  · rintro ⟨name, _, hn⟩
    exact (Registry.mem_of_class? hn).1
  · rw [(LoadOrder.order_perm (LoadOrder.listing_classes hr)).mem_iff]
    exact List.mem_map_of_mem (Registry.mem_classes.mpr hc)

/-- The classes that are written, by name: the order without the names of classes that have no file. -/
theorem names_classesToWrite (hr : r.Reachable) :
    (Package.classesToWrite (scopeOf settings r) (LoadOrder.order r r.classes).names).map ClassDecl.name =
      (LoadOrder.order r r.classes).names.filter (scopeOf settings r).hasFile := by
  have hfilter : ∀ names : List String, (∀ name ∈ names, ∃ cls, r.class? name = some cls) →
      (Package.classesToWrite (scopeOf settings r) names).map ClassDecl.name = names.filter (scopeOf settings r).hasFile := by
    intro names
    induction names with
    | nil => exact fun _ => rfl
    | cons name rest ih =>
      intro hin
      obtain ⟨cls, hc⟩ := hin name List.mem_cons_self
      have hc' : (scopeOf settings r).registry.class? name = some cls := hc
      have ih := ih fun other ho => hin other (List.mem_cons_of_mem _ ho)
      rw [Package.classesToWrite] at ih ⊢
      rw [List.filterMap_cons_some hc', List.filter_cons, List.filter_cons, (Registry.mem_of_class? hc).2]
      split
      · rw [List.map_cons, ih, (Registry.mem_of_class? hc).2]
      · exact ih
  refine hfilter _ fun name hn => ?_
  obtain ⟨cls, hc, rfl⟩ := List.mem_map.mp ((LoadOrder.order_perm (LoadOrder.listing_classes hr)).mem_iff.mp hn)
  exact ⟨cls, Registry.class?_of_mem hr.parentsFirst (Registry.mem_classes.mp hc)⟩

end Classes

/-- The files of classes that have one are added one after another, and none of them is refused. -/
theorem foldSteps_addFile {settings : Settings} {r : Registry} (h : ParentsFirst r.newestFirst) {classes : List ClassDecl}
    (hin : ∀ cls ∈ classes, cls ∈ r.newestFirst ∧ (scopeOf settings r).hasFile cls.name = true) (files : List ClassFile) :
    Logged.foldSteps (Package.addFile (scopeOf settings r)) files classes =
      ⟨files ++ classes.map (fileOf (scopeOf settings r)), classes.flatMap (fileEvents (scopeOf settings r))⟩ := by
  induction classes generalizing files with
  | nil => rw [Logged.foldSteps, List.map_nil, List.append_nil, List.flatMap_nil, Logged.silent]
  | cons cls rest ih =>
    obtain ⟨hc, hf⟩ := hin cls List.mem_cons_self
    have hstep : Package.addFile (scopeOf settings r) files cls =
        ⟨files ++ [fileOf (scopeOf settings r) cls], fileEvents (scopeOf settings r) cls⟩ := by
      rw [Package.addFile, ofClass_eq h hc hf]
    rw [Logged.foldSteps, hstep, Logged.andThen, ih fun other ho => hin other (List.mem_cons_of_mem _ ho)]
    simp only [List.append_assoc, List.map_cons, List.singleton_append, List.flatMap_cons]

section OfCatalog

variable {settings : Settings} {catalog : Catalog}

/-- The files of a catalog, and the events of making them. -/
theorem filesOf_catalog (hr : catalog.registry.Reachable) :
    let scope := scopeOf settings catalog.registry
    let classes := Package.classesToWrite scope (LoadOrder.order catalog.registry catalog.registry.classes).names
    Logged.foldSteps (Package.addFile scope) [] classes = ⟨classes.map (fileOf scope), classes.flatMap (fileEvents scope)⟩ :=
  foldSteps_addFile hr.parentsFirst (fun _ hc => (mem_classesToWrite hr).mp hc) []

/-- The class files of a package are those of the classes with a file, in load order. -/
theorem classFiles_ofCatalog (hr : catalog.registry.Reachable) :
    (Package.ofCatalog settings catalog).result.classFiles =
      (Package.classesToWrite (scopeOf settings catalog.registry)
        (LoadOrder.order catalog.registry catalog.registry.classes).names).map (fileOf (scopeOf settings catalog.registry)) :=
  congrArg Logged.result (filesOf_catalog hr)

/-- The files are those of the registered classes with a file. -/
theorem mem_classFiles (hr : catalog.registry.Reachable) {file : ClassFile} :
    file ∈ (Package.ofCatalog settings catalog).result.classFiles ↔
      ∃ cls ∈ catalog.registry.newestFirst, (scopeOf settings catalog.registry).hasFile cls.name = true ∧
        fileOf (scopeOf settings catalog.registry) cls = file := by
  rw [classFiles_ofCatalog hr, List.mem_map]
  simp only [mem_classesToWrite hr, and_assoc]

/-- The package has a file of each class that has one by the scope. -/
theorem exists_classFile_iff (hr : catalog.registry.Reachable) {name : String} :
    (∃ file ∈ (Package.ofCatalog settings catalog).result.classFiles, file.cls.name = name) ↔
      (scopeOf settings catalog.registry).hasFile name = true := by
  simp only [mem_classFiles hr]
  constructor
  · rintro ⟨_, ⟨cls, _, hf, rfl⟩, rfl⟩
    exact hf
  · intro hf
    obtain ⟨cls, hc, rfl⟩ := List.mem_map.mp ((hasFile_iff hr.parentsFirst name).mp hf).1
    exact ⟨_, ⟨cls, hc, hf, rfl⟩, rfl⟩

/-- The classes of the files, in their order: the load order without the classes that have no file. -/
theorem names_classFiles (hr : catalog.registry.Reachable) :
    (Package.ofCatalog settings catalog).result.classFiles.map (fun file => file.cls.name) =
      (LoadOrder.order catalog.registry catalog.registry.classes).names.filter (scopeOf settings catalog.registry).hasFile := by
  rw [classFiles_ofCatalog hr, List.map_map, ← names_classesToWrite hr]
  rfl

end OfCatalog

/-! ## Texts of the files -/

theorem Package.mem_files_of_mem_classFiles {package : Package} {file : ClassFile} (h : file ∈ package.classFiles) :
    package.classSourceFile file ∈ package.files :=
  List.mem_append_left _ (List.mem_append_right _ (List.mem_map_of_mem h))

/-- A dispatch for objects of a class is written in the file of the class. -/
structure Package.Writes (package : Package) (file : ClassFile) (d : Dispatch) : Prop where
  tag : d.tag = file.cls.tag
  text : ∃ lines, ⟨Files.join package.settings.classesDir (file.cls.name ++ ".jl"), textOfLines lines⟩ ∈ package.files ∧
    d.WrittenIn lines

theorem Package.writes_of_mem {package : Package} {file : ClassFile} {d : Dispatch} (hf : file ∈ package.classFiles)
    (hd : file.dispatch = some d) (ht : d.tag = file.cls.tag) : package.Writes file d where
  tag := ht
  text := by
    refine ⟨file.lines, mem_files_of_mem_classFiles hf, (writtenIn_lines d).mono ?_⟩
    rw [ClassFile.lines, hd]
    exact (List.suffix_append _ _).isInfix


/-- The lines of the manifest. -/
def Package.includeLines (package : Package) : List String :=
  package.classFiles.map fun file => includeLine package.settings.classesDir file.cls.name

theorem manifest_eq (package : Package) : package.manifest = textOfLines package.includeLines := by
  rw [Package.manifest, Source.manifest, Package.includeLines, List.map_map]
  rfl

/-- A generator that has read a dump holds a sound catalog and renders its package. -/
theorem render_load (g : Generator) (host : Dump.Host) (docs : Dump.Docs) :
    ∃ catalog log, (g.load host docs).result.catalog = some catalog ∧ catalog.Sound ∧
      (g.load host docs).result.render = .ok ⟨(Package.ofCatalog g.settings catalog).result, log⟩ :=
  ⟨_, _, rfl, Catalog.sound_ofDump g.settings host docs, rfl⟩

end JuliaStubs
