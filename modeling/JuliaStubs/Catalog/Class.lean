import JuliaStubs.Catalog.Enum
import JuliaStubs.Dump.Value
import JuliaStubs.Dump.Vocabulary
import JuliaStubs.Naming

/-!
# Classes and their members

A class of the catalog: its flags and documentation, its enums and constants, the methods that can be bound and the properties with
the names of their accessors. Types are referred to by host name.
-/

namespace JuliaStubs.Catalog

/-- A reference to a type by host name, marked when it names an enum or a bit field. -/
structure TypeRef where
  name : String
  isEnum : Bool
deriving DecidableEq

namespace TypeRef

/-- A reference to a builtin type or a class. -/
def plain (name : String) : TypeRef := ⟨name, false⟩

/-- A reference to an enum. -/
def enumeration (name : String) : TypeRef := ⟨name, true⟩

/-- The reference as text, enums with a mark in front. -/
def display (ref : TypeRef) : String := if ref.isEnum then "enum::" ++ ref.name else ref.name

end TypeRef

/-- A default argument: the host value and the Julia literal made of it. -/
structure Default where
  value : Dump.Value
  literal : String
deriving DecidableEq

/-- An argument of a method. -/
structure Argument where
  name : String
  type : TypeRef
  default : Option Default
deriving DecidableEq

/-- The Julia name of a parameter. -/
def Argument.juliaName (argument : Argument) : String := Naming.identifier argument.name

/-- A method. -/
structure Method where
  name : String
  isStatic : Bool
  isVirtual : Bool
  isVararg : Bool
  result : TypeRef
  arguments : List Argument
  doc : Option String
deriving DecidableEq

namespace Method

/-- The name of the Julia routine. -/
def juliaName (method : Method) : String := Naming.identifier method.name

/-- Whether a stub is written for the method. -/
def isBindable (method : Method) : Bool := !method.isStatic && !method.isVirtual && !method.isVararg

/-- The number of arguments without a default. -/
def required (method : Method) : Nat := (method.arguments.filter fun argument => argument.default.isNone).length

/-- Whether the method can be called with a number of arguments after its receiver. -/
def accepts (method : Method) (provided : Nat) : Bool :=
  method.required ≤ provided && provided ≤ method.arguments.length

end Method

/-- A property and the names of its accessors, which need not exist. -/
structure Property where
  name : String
  index : Int32
  getter : Option String
  setter : Option String
  doc : Option String
deriving DecidableEq

namespace Property

/-- The Julia name. -/
def juliaName (property : Property) : String := Naming.identifier property.name

/-- Whether the property cannot be assigned. -/
def isReadOnly (property : Property) : Bool := property.setter.isNone

/-- Whether the accessors take the index of the property. -/
def isIndexed (property : Property) : Bool := 0 ≤ property.index.toInt

end Property

/-- The cleaned documentation of a class. -/
structure Doc where
  brief : String
  description : String
deriving DecidableEq

/-- A class. Its Julia name is its host name. -/
structure ClassDecl where
  name : String
  /-- The host name of the parent; none for the root alone. -/
  parent : Option String
  partition : Dump.Partition
  isSingleton : Bool
  isInstantiable : Bool
  isRefCounted : Bool
  doc : Option Doc
  enums : List Enum
  constants : List Constant
  methods : List Method
  properties : List Property
deriving DecidableEq

namespace ClassDecl

/-- Whether the class is a root. -/
def isRoot (cls : ClassDecl) : Bool := cls.parent.isNone

/-- The tag type that the classes below it inherit from. -/
def tag (cls : ClassDecl) : String := Naming.tag cls.name

/-- How objects of the class cross the boundary of a call. -/
def marshaling (cls : ClassDecl) : Marshaling := .object cls.name

/-- The first method of a name. -/
def method? (cls : ClassDecl) (name : String) : Option Method := cls.methods.find? fun method => method.name == name

/-- The first enum of a name. -/
def enum? (cls : ClassDecl) (name : String) : Option Enum := cls.enums.find? fun e => e.name == name

/-- The first property of a name. -/
def property? (cls : ClassDecl) (name : String) : Option Property :=
  cls.properties.find? fun property => property.name == name

end ClassDecl

end JuliaStubs.Catalog
