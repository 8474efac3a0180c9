import JuliaStubs.DocText
import JuliaStubs.Source.Line
import JuliaStubs.Source.Scope

/-!
# Method stubs

A stub is a Julia function that calls a method of the host. It looks the method up at its first call and passes its arguments and the
holder of its result by pointers. Methods of singletons are called on the type and find the instance by themselves.
-/

namespace JuliaStubs.Source

open Catalog Report

/-- What a stub is called on. -/
inductive Receiver where
  /-- An object of a class, annotated with the tag of the class. -/
  | object (tag : String)
  /-- The type of a singleton class, whose instance is kept in a constant. -/
  | singleton (cls holder : String)
deriving DecidableEq

/-- A parameter after the receiver. -/
structure Parameter where
  name : String
  type : ResolvedType
  /-- The literal of its default. -/
  default : Option String
deriving DecidableEq

/-- A method stub. -/
structure Stub where
  /-- The host name of the class. -/
  cls : String
  /-- The host name of the method. -/
  method : String
  receiver : Receiver
  parameters : List Parameter
  result : ResolvedType
  doc : Option String
deriving DecidableEq

/-- What the methods of a class are called on. -/
def receiverOf (cls : ClassDecl) : Receiver :=
  if cls.isSingleton then .singleton cls.name (Naming.singletonHolder cls.name) else .object cls.tag

/-- The parameter for an argument. -/
def parameterOf (scope : Scope) (cls : ClassDecl) (method : Method) (argument : Argument) : Except SourceFault Parameter := do
  let type ← scope.resolve cls method.name argument.type
  return ⟨argument.juliaName, type, argument.default.map Default.literal⟩

/-- The stub of a method, or the first of its types that cannot be named, the result first. -/
def stubOf (scope : Scope) (cls : ClassDecl) (method : Method) : Except SourceFault Stub := do
  let result ← scope.resolve cls method.name method.result
  let parameters ← method.arguments.mapM (parameterOf scope cls method)
  return { cls := cls.name, method := method.name, receiver := receiverOf cls, parameters, result, doc := method.doc }

/-! ### Text -/

namespace Receiver

/-- The receiver as the first parameter. -/
def parameter : Receiver → String
  | object tag => "self::" ++ tag
  | singleton cls _ => "::Type\x7b" ++ cls ++ "\x7d"

/-- The receiver in a signature without names. -/
def signature : Receiver → String
  | object tag => "::" ++ tag
  | singleton cls _ => "::Type\x7b" ++ cls ++ "\x7d"

/-- The expression for the handle of the object. -/
def handle : Receiver → String
  | object _ => "getfield(self, :native_ptr)"
  | singleton _ holder => "getfield(" ++ holder ++ ", :native_ptr)"

end Receiver

namespace Parameter

/-- The parameter with its annotation and its default. -/
def declaration (p : Parameter) : String :=
  p.name ++ "::" ++ p.type.annotation ++ (p.default.map (" = " ++ ·)).getD ""

/-- The argument as it crosses the boundary of the call. -/
def conversion (p : Parameter) : String := p.type.marshaling.input.fill p.name

end Parameter

/-- An untyped pointer. -/
def pointerType : String := "Ptr\x7bNothing\x7d"

/-- The pointer that stands for nothing. -/
def nullPointer : String := "C_NULL::" ++ pointerType

/-- The reference to an interned name as an argument of a call. -/
def internedArgument (name : String) : String := "string_names._" ++ name ++ "::" ++ refType "StringName"

namespace Stub

/-- The Julia name of the routine. -/
def routine (stub : Stub) : String := Naming.identifier stub.method

/-- Whether the stub returns nothing. -/
def isVoid (stub : Stub) : Bool := stub.result.isVoid

/-- The line that looks the method up. -/
def lookUp (stub : Stub) : String :=
  "method_bind = @ccall godot_julia_get_method_bind(" ++ internedArgument stub.cls ++ ", " ++ internedArgument stub.method ++
    ")::" ++ pointerType

/-- The lines that find the instance of a singleton. -/
def instanceLines (stub : Stub) : List String :=
  match stub.receiver with
  | .object _ => []
  | .singleton _ holder =>
    ["if " ++ stub.receiver.handle ++ " == C_NULL",
      indented ("setfield!(" ++ holder ++ ", :native_ptr, @ccall godot_julia_get_singleton(" ++ internedArgument stub.cls ++
        ")::" ++ pointerType ++ ")"),
      "end"]

/-- The line that makes the holder of the result. -/
def holderLines (stub : Stub) : List String :=
  if stub.isVoid then [] else ["ret = " ++ stub.result.marshaling.holder]

/-- The line that converts the arguments. -/
def argumentLines (stub : Stub) : List String :=
  if stub.parameters.isEmpty then []
  else ["args = [" ++ ", ".intercalate (stub.parameters.map Parameter.conversion) ++ "]"]

/-- The line of the call. -/
def call (stub : Stub) : String :=
  let arguments := if stub.parameters.isEmpty then nullPointer else "args::" ++ refType pointerType
  let result := if stub.isVoid then nullPointer else "ret::" ++ stub.result.marshaling.boundary
  "@ccall godot_julia_method_bind_ptrcall(method_bind::" ++ pointerType ++ ", " ++ stub.receiver.handle ++ "::" ++ pointerType ++
    ", " ++ arguments ++ ", " ++ result ++ ")::Cvoid"

/-- The line that returns the result. -/
def returnLines (stub : Stub) : List String :=
  if stub.isVoid then [] else ["return " ++ stub.result.marshaling.output.fill "ret"]

/-- The lines of the body of the function. -/
def bodyLines (stub : Stub) : List String :=
  ["if method_bind == C_NULL", indented stub.lookUp, "end"] ++ stub.instanceLines ++ stub.holderLines ++ stub.argumentLines ++
    [stub.call] ++ stub.returnLines

/-- The first line of the function. -/
def header (stub : Stub) : String :=
  "function " ++ stub.routine ++ "(" ++
    ", ".intercalate (stub.receiver.parameter :: stub.parameters.map Parameter.declaration) ++ ")"

/-- The signature that the documentation is attached to. -/
def signature (stub : Stub) : String :=
  stub.routine ++ "(" ++
    ", ".intercalate (stub.receiver.signature :: stub.parameters.map fun p => "::" ++ p.type.annotation) ++ ")"

/-- The lines of the documentation. -/
def docLines (stub : Stub) : List String :=
  match stub.doc with
  | none => []
  | some doc => [DocText.docstring doc, stub.signature, ""]

/-- The lines of the stub. -/
def lines (stub : Stub) : List String :=
  ["let", indented ("global " ++ stub.routine), indented "method_bind = C_NULL", indented stub.header] ++
    stub.bodyLines.map (fun line => indented (indented line)) ++ [indented "end", "end", ""] ++ stub.docLines

end Stub

end JuliaStubs.Source
