import JuliaStubs.CommandLine.Options
import JuliaStubs.Package.Generator

/-!
# Runs of the command line

A run reads the class database, then the documentation if there is one, and writes the package. It ends at its first failure.
-/

namespace JuliaStubs.CommandLine

open Report

/-- What a run is doing. -/
inductive Stage where
  | loadingClasses
  | loadingDocs
  | generating (dir : String)
deriving DecidableEq

/-- The words for a stage. -/
def Stage.message : Stage → String
  | loadingClasses => "loading the class database"
  | loadingDocs => "loading the documentation"
  | generating dir => "generating sources in '" ++ dir ++ "'"

/-- The failure of a run and what the run was doing. -/
structure RunFailure where
  stage : Stage
  failure : Failure
deriving DecidableEq

/-- The texts of a failure, from what was being done to what caused it. -/
def RunFailure.chain (f : RunFailure) : List String :=
  [f.stage.message, f.failure.message] ++ f.failure.cause?.toList

/-- The settings that options choose. -/
def Options.settings (options : Options) : Settings :=
  { Settings.standard with realIsDouble := options.realIsDouble, includeEditorApi := options.includeEditorApi }

section Run

variable {m : Type → Type} [Monad m]

/-- The documentation that options name. -/
def readDocs (access : Files.Access m) : Option String → m (Except Failure Dump.Docs)
  | none => return .ok .empty
  | some path => readDump access Dump.Docs.ofText path

/-- Carries a command line out. -/
def run (access : Files.Access m) (options : Options) : m (Logged (Except RunFailure Summary)) := do
  match ← readDump access Dump.Host.ofText options.api with
  | .error failure => return .silent (.error ⟨.loadingClasses, failure⟩)
  | .ok host =>
    match ← readDocs access options.docs with
    | .error failure => return .silent (.error ⟨.loadingDocs, failure⟩)
    | .ok docs =>
      let generator := (Generator.new options.settings).load host docs
      let outcome ← generator.result.generate access options.outputDir
      return ⟨outcome.result.mapError (RunFailure.mk (.generating options.outputDir)), generator.log ++ outcome.log⟩

end Run

end JuliaStubs.CommandLine
