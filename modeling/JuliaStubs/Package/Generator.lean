import JuliaStubs.Dump.Schema
import JuliaStubs.Package.Basic
import JuliaStubs.Package.Failure

/-!
# Generating packages

A generator holds the catalog of the dump that was read last and writes its package below a directory, any number of times.
-/

namespace JuliaStubs

open Report

/-- The settings of the runs and the catalog of the dump that was read last. -/
structure Generator where
  settings : Settings
  catalog : Option Catalog
deriving DecidableEq

namespace Generator

/-- A generator that has read no dump. -/
def new (settings : Settings) : Generator := ⟨settings, none⟩

/-- The generator with the catalog of a dump. -/
def load (g : Generator) (host : Dump.Host) (docs : Dump.Docs) : Logged Generator :=
  let catalog := Catalog.ofDump g.settings host docs
  ⟨{ g with catalog := some catalog.result }, catalog.log⟩

/-- The package of the catalog. -/
def render (g : Generator) : Except Failure (Logged Package) :=
  match g.catalog with
  | none => .error .notInitialized
  | some catalog =>
    let package := Package.ofCatalog g.settings catalog
    .ok { package with log := package.log ++ [package.result.renderedEvent] }

end Generator

/-! ### Files -/

section Files

variable {m : Type → Type} [Monad m]

/-- Reads a dump with a reader of its text. -/
def readDump {α : Type} (access : Files.Access m) (ofText : String → Except Json.Flaw α) (path : String) :
    m (Except Failure α) := do
  match ← access.read path with
  | .error fault => return .error (.readDump path fault)
  | .ok text => return (ofText text).mapError (.loadDump path)

/-- Writes files below a directory, up to the first failure. -/
def writeFiles (access : Files.Access m) (dir : String) : List SourceFile → m (Except Failure Unit)
  | [] => return .ok ()
  | file :: rest => do
    let path := Files.join dir file.path
    match ← access.write path file.contents with
    | .error fault => return .error (.writeFile path fault)
    | .ok () => writeFiles access dir rest

/-- Writes a package below a directory. -/
def Package.write (access : Files.Access m) (package : Package) (dir : String) : m (Except Failure Summary) := do
  let classesDir := Files.join dir package.settings.classesDir
  match ← access.createDirectories classesDir with
  | .error fault => return .error (.createDirectory classesDir fault)
  | .ok () =>
    let files := package.files
    match ← writeFiles access dir files with
    | .error failure => return .error failure
    | .ok () => return .ok { package.summary with files := files.length }

/-- The event of a package that was written. -/
def generatedEvent (settings : Settings) (summary : Summary) : Event :=
  .generated settings.packageName summary.types summary.methods summary.skipped summary.files

/-- Writes the package of the catalog below a directory. -/
def Generator.generate (access : Files.Access m) (g : Generator) (dir : String) : m (Logged (Except Failure Summary)) := do
  match g.render with
  | .error failure => return .silent (.error failure)
  | .ok package =>
    match ← package.result.write access dir with
    | .error failure => return ⟨.error failure, package.log⟩
    | .ok summary => return ⟨.ok summary, package.log ++ [generatedEvent g.settings summary]⟩

end Files

end JuliaStubs
