import JuliaStubs.Catalog.Registry
import JuliaStubs.Package.Settings
import JuliaStubs.Report.Logged

/-!
# What source can refer to

A class gets a file when its partition is written and its parent gets one. A type reference makes sense in a file when the type is
builtin, global, or declared in one of the files.
-/

namespace JuliaStubs.Source

open Catalog Report

/-- A registry and the classes of it that get a file. -/
structure Scope where
  registry : Registry
  realIsDouble : Bool
  /-- The names of the classes with a file, the last one registered in front. -/
  files : List String
deriving DecidableEq

/-- Decides whether a class gets a file, given the classes before it that do. A class without the file of its parent is reported. -/
def admitFile (includeEditorApi : Bool) (files : List String) (cls : ClassDecl) : Logged (List String) :=
  if cls.parent.all files.contains then
    .silent (if includeEditorApi || !cls.partition.isEditor then cls.name :: files else files)
  else ⟨files, [.hiddenParent cls.name]⟩

namespace Scope

/-- The scope of a registry under the settings of a run. -/
def ofRegistry (settings : Settings) (r : Registry) : Logged Scope :=
  let files := Logged.foldSteps (admitFile settings.includeEditorApi) [] r.classes
  ⟨⟨r, settings.realIsDouble, files.result⟩, files.log⟩

/-- Whether a class of a name gets a file. -/
def hasFile (scope : Scope) (name : String) : Bool := scope.files.contains name

/-- Whether a type can be named: nothing defines a class without a file, nor the enums of such a class. -/
def canName (scope : Scope) (type : ResolvedType) : Bool :=
  match type.declaringClass?.bind scope.registry.class? with
  | some cls => scope.hasFile cls.name
  | none => true

/-- Resolves a type reference of a member of a class. -/
def resolve (scope : Scope) (owner : ClassDecl) (member : String) (ref : TypeRef) : Except SourceFault ResolvedType :=
  match (scope.registry.resolve ref).filter scope.canName with
  | some type => .ok type
  | none => .error (.unresolvedType owner.name member ref.name)

end Scope

end JuliaStubs.Source
