import JuliaStubs.Catalog.Members
import JuliaStubs.Catalog.Registry
import JuliaStubs.Source.Literal

/-!
# Method signatures

A reported method becomes a method of the catalog when all its types can cross the boundary of a call, it is called on an object and
each of its defaults has a literal. Otherwise the method is dropped, and nothing else with it.
-/

namespace JuliaStubs.Catalog

open Dump Report Source

/-- Why a method is of a sort that is never bound. The reports of the method itself come before those of its binding. -/
def refusal? (cls : String) (info : MethodInfo) (binding : Option Binding) : Option Drop :=
  match (info.arguments ++ [info.result]).find? fun slot => !slot.kind.isBindable with
  | some slot => some (.unsupportedType cls info.name slot.kind)
  | none =>
    if info.name.isEmpty then some (.emptyMethodName cls)
    else if info.flags.isStatic then some (.staticMethod cls info.name)
    else if info.flags.isVirtual then some (.virtualMethod cls info.name)
    else if binding.any Binding.isVararg then some (.varargMethod cls info.name)
    else if binding.any Binding.isStatic then some (.staticMethod cls info.name)
    else none

/-- The width of a slot of a method, the result at index -1; a binding knows better than the method. -/
def slotWidth (info : MethodInfo) (binding : Option Binding) (index : Int) : Width :=
  match binding with
  | some binding => binding.width index
  | none => info.width index

/-- The type of an argument. -/
def argumentType (slot : Slot) (width : Width) : TypeRef :=
  match slot.kind with
  | .nil => .plain BuiltinKind.variant.hostName
  | .int => if slot.usage.isEnumLike then .enumeration slot.className else .plain (BuiltinKind.ofIntWidth width).hostName
  | .float => .plain (BuiltinKind.ofRealWidth width).hostName
  | .object => .plain slot.className
  | kind => .plain kind.hostName

/-- The type of a result, which may be no value at all. -/
def resultType (slot : Slot) (width : Width) : TypeRef :=
  if slot.kind = .nil ∧ !slot.usage.nilIsVariant then .plain BuiltinKind.void.hostName else argumentType slot width

/-- What a default of a type is written for. An enum without a companion type is a 32-bit integer. -/
def destination (r : Registry) (ref : TypeRef) : Destination :=
  if ref.isEnum then
    match r.enum? ref.name with
    | some e => .enumeration e.qualified e.isFlags
    | none => .builtin .int32
  else
    match BuiltinKind.ofHostName? ref.name with
    | some kind => .builtin kind
    | none => .object ref.name

/-- An argument of a method, or why its default drops the method. -/
def argumentOf (r : Registry) (realIsDouble : Bool) (cls : String) (info : MethodInfo) (binding : Option Binding)
    (slot : Slot) (index : Nat) : Except Drop Argument :=
  let type := argumentType slot (slotWidth info binding index)
  match binding.bind fun binding => binding.default? index with
  | none => .ok ⟨slot.name, type, none⟩
  | some value =>
    match synthesize value (destination r type) realIsDouble with
    | some literal => .ok ⟨slot.name, type, some ⟨value, literal⟩⟩
    | none => .error (.unsupportedDefault cls info.name slot.name value)

/-- The method made of a reported one, or why it is dropped. -/
def methodOf (r : Registry) (realIsDouble : Bool) (host : Host) (doc : Option ClassDoc) (cls : String) (info : MethodInfo) :
    Except Drop Method :=
  let binding := host.binding? cls info.name
  match refusal? cls info binding with
  | some why => .error why
  | none => do
    let arguments ← info.arguments.zipIdx.mapM fun (slot, index) => argumentOf r realIsDouble cls info binding slot index
    return {
      name := info.name
      isStatic := false
      isVirtual := false
      isVararg := false
      result := resultType info.result (slotWidth info binding (-1))
      arguments
      doc := memberDoc doc ClassDoc.methods info.name }

/-- The reported methods of a class by name, those of one name in the order of the dump. -/
def sortedMethods (host : Host) (cls : String) : List MethodInfo :=
  (host.methods cls).mergeSort fun a b => a.name ≤ b.name

end JuliaStubs.Catalog
