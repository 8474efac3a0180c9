import JuliaStubs.Source.Block
import JuliaStubs.Source.Dispatch

/-!
# Class files

The file of a class declares its types, the module of its enums and constants, the stubs of its methods and the dispatch of its
properties. Members that refer to a type without a declaration are left out.
-/

namespace JuliaStubs.Source

open Catalog Report

/-- The file of a class. -/
structure ClassFile where
  cls : ClassDecl
  /-- The tag of the parent; none for a root. -/
  parentTag : Option String
  stubs : List Stub
  /-- The dispatch of the properties; a singleton has none. -/
  dispatch : Option Dispatch
deriving DecidableEq

namespace ClassFile

/-- The tag of the parent of a class, if the parent has a file. -/
def parentTagOf (scope : Scope) (cls : ClassDecl) : Except SourceFault (Option String) :=
  match cls.parent with
  | none => .ok none
  | some name =>
    match (scope.registry.class? name).filter fun parent => scope.hasFile parent.name with
    | some parent => .ok (some parent.tag)
    | none => .error (.missingParent cls.name name)

/-- The stubs of the methods of a class that can be called on an object. -/
def stubsOf (scope : Scope) (cls : ClassDecl) : Logged (List Stub) :=
  let outcomes := (cls.methods.filter Method.isBindable).map fun method =>
    (stubOf scope cls method).mapError (Event.methodWithoutSource cls.name method.name)
  { result := outcomes.filterMap Except.toOption
    log := outcomes.filterMap fun | .ok _ => none | .error event => some event }

/-- The file of a class, and an event for each member that is left out; no file for a class whose parent has none. -/
def ofClass (scope : Scope) (cls : ClassDecl) : Except SourceFault (Logged ClassFile) := do
  let parentTag ← parentTagOf scope cls
  let stubs := stubsOf scope cls
  if cls.isSingleton then return ⟨⟨cls, parentTag, stubs.result, none⟩, stubs.log⟩
  else
    let dispatch := dispatchOf scope cls
    return ⟨⟨cls, parentTag, stubs.result, some dispatch.result⟩, stubs.log ++ dispatch.log⟩

/-- The name of the file in the directory of the class files. -/
def fileName (file : ClassFile) : String := file.cls.name ++ ".jl"

/-- The names that the stubs of the file look up. -/
def internedNames (file : ClassFile) : List String := file.cls.name :: file.stubs.map Stub.method

/-! ### Text -/

/-- The field of an object that holds its handle. -/
def handleField : String := indented "native_ptr::Ptr\x7bNothing\x7d"

/-- The documentation of the class. -/
def docLines (cls : ClassDecl) : List String :=
  DocText.docstrings (cls.doc.map fun doc => doc.brief ++ "\n\n" ++ doc.description)

/-- The lines that declare the holder of a singleton. -/
def singletonLines (cls : ClassDecl) : List String :=
  let type := Naming.singleton cls.name
  ["mutable struct " ++ type ++ " <: " ++ cls.tag, handleField, indented (type ++ "() = new(C_NULL)"), "end", "",
    "const " ++ Naming.singletonHolder cls.name ++ " = " ++ type ++ "()", ""]

/-- The lines that declare the types of the class. -/
def typeLines (file : ClassFile) : List String :=
  let cls := file.cls
  ["abstract type " ++ cls.tag ++ (file.parentTag.map (" <: " ++ ·)).getD "" ++ " end", ""] ++ docLines cls ++
    ["struct " ++ cls.name ++ " <: " ++ cls.tag, handleField, "end", ""] ++
    if cls.isSingleton then singletonLines cls else []

/-- The lines of the module of the enums and constants. -/
def infoLines (file : ClassFile) : List String :=
  ["baremodule " ++ Naming.infoModule file.cls.name, "using Base: @enum, @raw_str", "using Core: @doc", ""] ++
    declarationLines false file.cls.enums file.cls.constants ++ ["end", ""]

/-- The lines of the file. -/
def lines (file : ClassFile) : List String :=
  file.typeLines ++ file.infoLines ++ file.stubs.flatMap Stub.lines ++ (file.dispatch.map Dispatch.lines).getD []

/-- The text of the file. -/
def text (file : ClassFile) : String := textOfLines file.lines

end ClassFile

end JuliaStubs.Source
