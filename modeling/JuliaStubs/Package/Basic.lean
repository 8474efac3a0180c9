import JuliaStubs.Catalog.OfDump
import JuliaStubs.Files.Path
import JuliaStubs.Source.ClassFile
import JuliaStubs.Source.Globals
import JuliaStubs.Source.InternedNames

/-!
# Packages

The Julia package made of a catalog: the files of its classes in load order, and the files around them. What a member refers to may
have no file; such a member is left out, reported and counted.
-/

namespace JuliaStubs

open Report Source

/-- A file of a package, by its path below the output directory. -/
structure SourceFile where
  path : String
  contents : String
deriving DecidableEq

/-- The counts of a run. -/
structure Summary where
  /-- The classes with a file. -/
  types : Nat
  /-- The stubs in the files. -/
  methods : Nat
  /-- The members that were dropped from the catalog or left out of the files. -/
  skipped : Nat
  /-- The files written. -/
  files : Nat
deriving DecidableEq

/-- A package before it is written. -/
structure Package where
  settings : Settings
  globalEnums : List Catalog.Enum
  globalConstants : List Catalog.Constant
  /-- The files of the classes in load order. -/
  classFiles : List ClassFile
  /-- The number of members that were dropped or left out. -/
  skipped : Nat
deriving DecidableEq

namespace Package

/-! ### Contents -/

/-- Adds the file of a class to those before it, if it can be declared. -/
def addFile (scope : Scope) (files : List ClassFile) (cls : Catalog.ClassDecl) : Logged (List ClassFile) :=
  match ClassFile.ofClass scope cls with
  | .ok file => ⟨files ++ [file.result], file.log⟩
  | .error fault => ⟨files, [.classWithoutSource cls.name fault]⟩

/-- Whether an event tells of something that was left out of the files. -/
def isOmission : Event → Bool
  | .methodWithoutSource .. | .classWithoutSource .. | .accessorFailed .. => true
  | _ => false

/-- The classes that get a file, in an order of their names. -/
def classesToWrite (scope : Scope) (order : List String) : List Catalog.ClassDecl :=
  (order.filterMap scope.registry.class?).filter fun cls => scope.hasFile cls.name

/-- The package of a catalog, and the events of making it. -/
def ofCatalog (settings : Settings) (catalog : Catalog) : Logged Package :=
  let order := LoadOrder.order catalog.registry catalog.registry.classes
  let scope := Scope.ofRegistry settings catalog.registry
  let files := Logged.foldSteps (addFile scope.result) [] (classesToWrite scope.result order.names)
  { result :=
      { settings
        globalEnums := catalog.globalEnums
        globalConstants := catalog.globalConstants
        classFiles := files.result
        skipped := catalog.skipped + (files.log.filter isOmission).length }
    log := order.cycles.map .cycleFound ++ [.ordered order.names.length order.cycles.length] ++ scope.log ++ files.log }

/-- The names that the stubs of the package look up. -/
def internedNames (package : Package) : InternedNames :=
  .ofList (package.classFiles.flatMap ClassFile.internedNames)

/-- The counts of a package of which nothing is written yet. -/
def summary (package : Package) : Summary :=
  { types := package.classFiles.length
    methods := (package.classFiles.flatMap ClassFile.stubs).length
    skipped := package.skipped
    files := 0 }

/-- The event that ends the making of a package. -/
def renderedEvent (package : Package) : Event :=
  .rendered package.summary.types package.summary.methods package.internedNames.size

/-! ### Files -/

/-- The file of a class with its path. -/
def classSourceFile (package : Package) (file : ClassFile) : SourceFile :=
  ⟨Files.join package.settings.classesDir file.fileName, file.text⟩

/-- The source of the manifest. -/
def manifest (package : Package) : String :=
  Source.manifest package.settings.classesDir (package.classFiles.map fun file => file.cls.name)

/-- The files of the package in the order in which they are written. -/
def files (package : Package) : List SourceFile :=
  [⟨"core_constants.jl", buildConstants package.settings⟩,
    ⟨"constants.jl", Source.globalConstants package.globalEnums package.globalConstants⟩,
    ⟨"string_names.jl", package.internedNames.text⟩] ++
    package.classFiles.map package.classSourceFile ++ [⟨"classes.jl", package.manifest⟩]

end Package

end JuliaStubs
