import JuliaStubs.Proofs.Package.Files
import JuliaStubs.Proofs.Source.Stub

/-!
# Declared types

No file of a package names a type that nothing declares (`types_declared`). Three stores that are filled at different times have to
agree for this: the enum types of the registry, which are entered while the classes are visited, the classes, which are registered when
all are known, and the classes with a file. What is declared stands in the files: the block of an enum in the module of its class or
among the global constants (`inModule_of_mem`, `declaresEnum_of_mem`).
-/

namespace JuliaStubs

open Catalog Report Source

/-- Lines that declare an enum: its block is among them, and the block begins with its Julia name. -/
structure Source.DeclaresEnum (lines : List String) (e : Enum) : Prop where
  block : enumLines e <:+: lines
  header : ∃ base ∈ ["", "::Int64"], (enumLines e).head? = some ("@enum " ++ e.juliaName ++ base ++ " begin")

/-- The lines stand in the module of a class, in the file of the class. -/
def Package.InModule (package : Package) (file : ClassFile) (lines : List String) : Prop :=
  ∃ front back, ⟨Files.join package.settings.classesDir (file.cls.name ++ ".jl"),
    textOfLines (front ++ ["baremodule " ++ (file.cls.name ++ "Info")] ++ lines ++ ["end", ""] ++ back)⟩ ∈ package.files

/-- A type of a registry that exists when the files of a package are loaded: a builtin type, a class with a file, an enum in the module
of a class with a file, or an enum among the constants of the global scope. -/
inductive Declared (r : Registry) (package : Package) : ResolvedType → Prop where
  | builtin {b : Builtin} : b ∈ r.builtins → Declared r package (.builtin b)
  | object {file : ClassFile} : file.cls ∈ r.classes → file ∈ package.classFiles → Declared r package (.object file.cls)
  | ofClass {e : Enum} {type : EnumType} {file : ClassFile} : type ∈ r.enums → file ∈ package.classFiles →
      e ∈ file.cls.enums → type = .companion (Naming.enumKey file.cls.name e.name) (some file.cls.name) e →
      type.qualified = file.cls.name ++ "Info" ++ "." ++ e.juliaName →
      (∃ lines, package.InModule file lines ∧ DeclaresEnum lines e) → Declared r package (.enumeration type)
  | ofGlobal {e : Enum} {type : EnumType} : type ∈ r.enums → e ∈ package.globalEnums → type = .companion e.name none e →
      type.qualified = e.juliaName →
      (∃ lines, ⟨"constants.jl", textOfLines lines⟩ ∈ package.files ∧ DeclaresEnum lines e) → Declared r package (.enumeration type)

/-! ## Blocks in files -/

/-- Every enum of a file is declared in it. -/
theorem declaresEnum_of_mem {e : Enum} {enums : List Enum} (he : e ∈ enums) (isConst : Bool) (constants : List Constant) :
    DeclaresEnum (declarationLines isConst enums constants) e where
  block := by
    obtain ⟨before, after, rfl⟩ := List.append_of_mem he
    rw [declarationLines, List.flatMap_append, List.flatMap_cons]
    exact ⟨before.flatMap enumLines, after.flatMap enumLines ++ constants.flatMap (constantLines isConst),
      by simp only [List.append_assoc]⟩
  header := by
    refine ⟨if e.isNarrow then "" else "::Int64", ?_, ?_⟩
    · cases e.isNarrow <;> decide
    · rw [enumLines, blockLines, enumStatements, List.cons_append, List.flatMap_cons, Statement.lines]
      cases e.isNarrow <;> rfl

/-- The enums of a class are declared in its module. -/
theorem inModule_of_mem {package : Package} {file : ClassFile} (hf : file ∈ package.classFiles) {e : Enum}
    (he : e ∈ file.cls.enums) : ∃ lines, package.InModule file lines ∧ DeclaresEnum lines e := by
  have hfile := Package.mem_files_of_mem_classFiles hf
  have hdeclares := declaresEnum_of_mem he false file.cls.constants
  refine ⟨["using Base: @enum, @raw_str", "using Core: @doc", ""] ++ declarationLines false file.cls.enums file.cls.constants,
    ⟨file.typeLines, file.stubs.flatMap Stub.lines ++ (file.dispatch.map Dispatch.lines).getD [], ?_⟩,
    hdeclares.block.trans (List.suffix_append _ _).isInfix, hdeclares.header⟩
  rw [Package.classSourceFile, ClassFile.fileName, ClassFile.text, ClassFile.lines, ClassFile.infoLines,
    Naming.infoModule] at hfile
  simpa only [List.append_assoc, List.cons_append, List.nil_append] using hfile

section OfCatalog

variable {settings : Settings} {catalog : Catalog}

theorem hasFile_of_canName (hc : catalog.Sound) {type : ResolvedType} {cls : ClassDecl} (hm : cls ∈ catalog.registry.newestFirst)
    (hd : type.declaringClass? = some cls.name) (hn : (scopeOf settings catalog.registry).canName type = true) :
    (scopeOf settings catalog.registry).hasFile cls.name = true := by
  have hclass : (scopeOf settings catalog.registry).registry.class? cls.name = some cls :=
    Registry.class?_of_mem hc.reachable.parentsFirst hm
  rw [Scope.canName, hd, Option.bind_some, hclass] at hn
  exact hn

/-- What a reference resolves to is declared if a file can name it. -/
theorem declared_of_resolve (hc : catalog.Sound) {ref : TypeRef} {type : ResolvedType}
    (hr : catalog.registry.resolve ref = some type) (hn : (scopeOf settings catalog.registry).canName type = true) :
    Declared catalog.registry (Package.ofCatalog settings catalog).result type := by
  have hmem := mem_of_resolve hr
  cases type with
  | builtin b => exact .builtin hmem
  | object cls =>
    have hfile := hasFile_of_canName hc hmem rfl hn
    exact .object (Registry.mem_classes.mpr hmem) ((mem_classFiles hc.reachable).mpr ⟨cls, hmem, hfile, rfl⟩)
  | enumeration type =>
    cases hc.companion type hmem with
    | @ofGlobal e he =>
      exact .ofGlobal hmem he rfl (hc.qualifiedGlobal e he)
        ⟨_, List.mem_append_left _ (List.mem_append_left _ (List.mem_cons_of_mem _ List.mem_cons_self)), declaresEnum_of_mem he true _⟩
    | @ofClass cls e hcls he =>
      have hm := Registry.mem_classes.mp hcls
      have hfile := hasFile_of_canName hc hm rfl hn
      have hin := (mem_classFiles hc.reachable).mpr ⟨cls, hm, hfile, rfl⟩
      exact .ofClass hmem hin he rfl (hc.qualified cls hcls e he) (inModule_of_mem hin he)

/-- The class that declares a type which a file can name is visible. -/
theorem visible_of_canName (hc : catalog.Sound) {ref : TypeRef} {type : ResolvedType} {name : String}
    (hr : catalog.registry.resolve ref = some type) (hn : (scopeOf settings catalog.registry).canName type = true)
    (hd : type.declaringClass? = some name) : Visible settings catalog.registry name := by
  have hregistered : ∃ cls ∈ catalog.registry.newestFirst, cls.name = name := by
    have hmem := mem_of_resolve hr
    cases type with
    | builtin b => nomatch hd
    | object cls => exact ⟨cls, hmem, Option.some.inj hd⟩
    | enumeration type =>
      cases hc.companion type hmem with
      | ofGlobal _ => nomatch hd
      | @ofClass cls e hcls _ => exact ⟨cls, Registry.mem_classes.mp hcls, Option.some.inj hd⟩
  obtain ⟨cls, hm, rfl⟩ := hregistered
  exact ((hasFile_iff hc.reachable.parentsFirst _).mp (hasFile_of_canName hc hm hd hn)).2

end OfCatalog

/-- Whatever the dump and the settings, rendering succeeds and the files name declared types alone. The tag that a class inherits from
is that of a class with a file, and only a class without a parent has none; the types that its stubs take and return are declared. A
class that is hidden as one of the editor, or for an ancestor that is, declares none of them. -/
theorem types_declared (g : Generator) (host : Dump.Host) (docs : Dump.Docs) :
    ∃ catalog rendered, (g.load host docs).result.catalog = some catalog ∧ (g.load host docs).result.render = .ok rendered ∧
      ∀ file ∈ rendered.result.classFiles,
        (file.parentTag = none ↔ file.cls.parent = none) ∧
          (∀ tag, file.parentTag = some tag → ∃ parent ∈ rendered.result.classFiles,
            file.cls.parent = some parent.cls.name ∧ tag = parent.cls.tag ∧
              Visible g.settings catalog.registry parent.cls.name) ∧
          ∀ stub ∈ file.stubs, ∀ type ∈ stub.result :: stub.parameters.map Parameter.type,
            Declared catalog.registry rendered.result type ∧
              ∀ name, type.declaringClass? = some name → Visible g.settings catalog.registry name := by
  obtain ⟨catalog, log, hcatalog, hc, hrender⟩ := render_load g host docs
  refine ⟨catalog, _, hcatalog, hrender, fun file hfile => ?_⟩
  have h := hc.reachable.parentsFirst
  obtain ⟨cls, hm, hf, rfl⟩ := (mem_classFiles hc.reachable).mp hfile
  refine ⟨by simp [fileOf], fun tag ht => ?_, fun stub hs type ht => ?_⟩
  · obtain ⟨p, hp, rfl⟩ := Option.map_eq_some_iff.mp ht
    obtain ⟨parent, hpm, rfl⟩ := List.mem_map.mp (h.parent_mem hm hp)
    have hpf := hasFile_parent h hm hp hf
    exact ⟨_, (mem_classFiles hc.reachable).mpr ⟨parent, hpm, hpf, rfl⟩, hp, rfl, ((hasFile_iff h _).mp hpf).2⟩
  · obtain ⟨_, _, ref, _, hr, hn⟩ := resolve_of_mem_stubsOf hs ht
    exact ⟨declared_of_resolve hc hr hn, fun name hd => visible_of_canName hc hr hn hd⟩

end JuliaStubs
