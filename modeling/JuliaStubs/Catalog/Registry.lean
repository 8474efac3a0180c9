import JuliaStubs.Catalog.Builtin
import JuliaStubs.Catalog.Class

/-!
# The type registry

The builtin types, enum types and classes that signatures can refer to. Classes are registered parents first, so that the ancestors of
a class are found among those registered before it.
-/

namespace JuliaStubs.Catalog

/-- Why a type is refused. -/
inductive RegistrationError where
  | duplicate (name : String)
  | unknownParent (cls parent : String)
deriving DecidableEq

/-- The text of a registration error. -/
def RegistrationError.message : RegistrationError → String
  | duplicate name => "duplicate type: " ++ name
  | unknownParent cls parent => "class '" ++ cls ++ "' registered before its parent '" ++ parent ++ "'"

/-- A resolved type. -/
inductive ResolvedType where
  | builtin (b : Builtin)
  | enumeration (e : EnumType)
  | object (cls : ClassDecl)
deriving DecidableEq

namespace ResolvedType

/-- The host name, which is the key in the registry. -/
def name : ResolvedType → String
  | builtin b => b.kind.hostName
  | enumeration e => e.name
  | object cls => cls.name

/-- The Julia name. -/
def juliaName : ResolvedType → String
  | builtin b => b.kind.juliaName
  | enumeration e => e.annotation
  | object cls => cls.name

/-- How values of the type cross the boundary of a call. -/
def marshaling : ResolvedType → Marshaling
  | builtin b => b.marshaling
  | enumeration e => e.marshaling
  | object cls => cls.marshaling

/-- The annotation of a parameter: objects are annotated with their tag, so that subclasses are accepted. -/
def annotation : ResolvedType → String
  | object cls => cls.tag
  | type => type.juliaName

/-- Whether the type stands for no value. -/
def isVoid : ResolvedType → Bool
  | builtin b => b.kind.isVoid
  | _ => false

/-- The class whose file declares the type: the class itself, or the owner of an enum. -/
def declaringClass? : ResolvedType → Option String
  | builtin _ => none
  | enumeration e => e.owner
  | object cls => some cls.name

end ResolvedType

/-- The types of one run. -/
structure Registry where
  builtins : List Builtin
  enums : List EnumType
  /-- The classes, the one registered last in front. -/
  newestFirst : List ClassDecl
deriving DecidableEq

namespace Registry

/-- The registry without types. -/
def empty : Registry := ⟨[], [], []⟩

/-! ### Look-up -/

/-- The builtin type of a host name. -/
def builtinNamed? (r : Registry) (name : String) : Option Builtin := r.builtins.find? fun b => b.kind.hostName == name

/-- The builtin type of a kind. -/
def builtin? (r : Registry) (kind : BuiltinKind) : Option Builtin := r.builtinNamed? kind.hostName

/-- The enum type of a key. -/
def enum? (r : Registry) (key : String) : Option EnumType := r.enums.find? fun e => e.name == key

/-- The class of a name. -/
def class? (r : Registry) (name : String) : Option ClassDecl := r.newestFirst.find? fun cls => cls.name == name

/-- Whether a class of a name is registered. -/
def hasClass (r : Registry) (name : String) : Bool := (r.class? name).isSome

/-- The classes in the order of their registration. -/
def classes (r : Registry) : List ClassDecl := r.newestFirst.reverse

/-- The names of the classes in the order of their registration. -/
def classNames (r : Registry) : List String := r.classes.map ClassDecl.name

/-- Resolves a reference: builtin types first, then classes, then enums. A reference to an enum that was never registered is a 32-bit
integer. -/
def resolve (r : Registry) (ref : TypeRef) : Option ResolvedType :=
  ((r.builtinNamed? ref.name).map ResolvedType.builtin).or <|
    ((r.class? ref.name).map ResolvedType.object).or <|
      if ref.isEnum then
        ((r.enum? ref.name).map ResolvedType.enumeration).or ((r.builtin? .int32).map ResolvedType.builtin)
      else none

/-- A class and its ancestors up to the root, out of classes of which each comes before its parent. -/
def lineageIn : List ClassDecl → String → List ClassDecl
  | [], _ => []
  | cls :: older, name =>
    if cls.name = name then
      match cls.parent with
      | none => [cls]
      | some parent => cls :: lineageIn older parent
    else lineageIn older name

/-- A class and its ancestors, up to and with the root. -/
def lineage (r : Registry) (name : String) : List ClassDecl := lineageIn r.newestFirst name

/-- Whether a class is another one or inherits from it. -/
def inherits (r : Registry) (name ancestor : String) : Bool := (r.lineage name).any fun cls => cls.name == ancestor

/-! ### Registration -/

/-- Registers a builtin type in place of an earlier one of its kind. -/
def addBuiltin (r : Registry) (b : Builtin) : Registry :=
  { r with builtins := b :: r.builtins.filter fun old => old.kind != b.kind }

/-- Registers every builtin type of the standard table. -/
def addStandardBuiltins (r : Registry) : Registry :=
  BuiltinKind.all.foldl (fun r kind => r.addBuiltin (.standard kind)) r

/-- The registry with the standard builtin types alone. -/
def standard : Registry := empty.addStandardBuiltins

/-- What registers types: it changes the registry, and may be refused on the way. -/
abbrev Registering (α : Type) := EStateM RegistrationError Registry α

/-- Registers an enum type under a new key. -/
def putEnum (e : EnumType) : Registering Unit := do
  if ((← get).enum? e.name).isSome then throw (.duplicate e.name)
  modify fun r => { r with enums := r.enums ++ [e] }

/-- Registers a class under a new name; its parent must be registered. -/
def putClass (cls : ClassDecl) : Registering Unit := do
  if (← get).hasClass cls.name then throw (.duplicate cls.name)
  if let some parent := cls.parent then
    if !(← get).hasClass parent then throw (.unknownParent cls.name parent)
  modify fun r => { r with newestFirst := cls :: r.newestFirst }

/-- What registering leads to: a registry, or why the type is refused. -/
def outcome (registering : Registering Unit) (r : Registry) : Except RegistrationError Registry :=
  match registering.run r with
  | .ok _ r' => .ok r'
  | .error error _ => .error error

/-- The registry with an enum type, if it is not refused. -/
def addEnum (r : Registry) (e : EnumType) : Except RegistrationError Registry := outcome (putEnum e) r

/-- The registry with a class, if it is not refused. -/
def addClass (r : Registry) (cls : ClassDecl) : Except RegistrationError Registry := outcome (putClass cls) r

end Registry

end JuliaStubs.Catalog
