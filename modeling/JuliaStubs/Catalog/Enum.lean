import JuliaStubs.Catalog.Marshaling

/-!
# Constants and enums

Named integers, enums with their members in declaration order, and the companion types that let signatures refer to enums.
-/

namespace JuliaStubs.Catalog

/-- A named integer with its cleaned documentation, if it has any. -/
structure Constant where
  name : String
  value : Int64
  doc : Option String
deriving DecidableEq

/-- An enum and its members. -/
structure Enum where
  /-- The host name. -/
  name : String
  /-- The Julia name inside the declaring module. -/
  juliaName : String
  /-- The Julia name that signatures use. -/
  qualified : String
  /-- Whether the enum is a bit field, whose values may be combined. -/
  isFlags : Bool
  members : List Constant
deriving DecidableEq

/-- The members of an enum by value: the first member of each value, and every later member with the first of its value. -/
structure EnumPartition where
  canonical : List Constant
  aliases : List (Constant × Constant)
deriving DecidableEq

namespace Enum

/-- Whether the enum has no member. -/
def isEmpty (e : Enum) : Bool := e.members.isEmpty

/-- The value of the first member of a name. -/
def value? (e : Enum) (name : String) : Option Int64 :=
  (e.members.find? fun member => member.name == name).map Constant.value

/-- The first member of a value. -/
def ofValue? (e : Enum) (value : Int64) : Option Constant := e.members.find? fun member => member.value == value

/-- The name of the first member of a value. -/
def name? (e : Enum) (value : Int64) : Option String := (e.ofValue? value).map Constant.name

/-- Two enums are the same when their host names are. -/
def sameName (e other : Enum) : Bool := e.name == other.name

/-- Splits the members that follow the canonical ones found so far. -/
def partitionFrom (found : List Constant) : List Constant → EnumPartition
  | [] => ⟨[], []⟩
  | member :: rest =>
    match found.find? fun first => first.value == member.value with
    | some first =>
      let others := partitionFrom found rest
      { others with aliases := (member, first) :: others.aliases }
    | none =>
      let others := partitionFrom (member :: found) rest
      { others with canonical := member :: others.canonical }

/-- Splits the members into canonical ones and aliases. -/
def partition (e : Enum) : EnumPartition := partitionFrom [] e.members

/-- Whether a value fits in thirty-two bits. -/
def fitsInt32 (value : Int64) : Bool := Int32.minValue.toInt ≤ value.toInt && value.toInt ≤ Int32.maxValue.toInt

/-- Whether every value fits the default base type, a 32-bit integer. -/
def isNarrow (e : Enum) : Bool := e.members.all fun member => fitsInt32 member.value

end Enum

/-- The companion type of an enum. -/
structure EnumType where
  /-- The key in the registry: with its class for a class enum, the bare name for a global one. -/
  name : String
  /-- The annotation of a parameter of this type. -/
  annotation : String
  qualified : String
  /-- The declaring class; none for a global enum. -/
  owner : Option String
  isFlags : Bool
  marshaling : Marshaling
deriving DecidableEq

namespace EnumType

/-- The companion type of an enum: results of a plain enum become its members again, those of a bit field stay integers, since
combined flags are not members. -/
def companion (key : String) (owner : Option String) (e : Enum) : EnumType :=
  { name := key
    annotation := if e.isFlags then "Union\x7bInteger, " ++ e.qualified ++ "\x7d" else e.qualified
    qualified := e.qualified
    owner
    isFlags := e.isFlags
    marshaling := .enumValue (if e.isFlags then ⟨"", "[]"⟩ else ⟨e.qualified ++ "(", "[])"⟩) }

/-- Whether no class declares the enum. -/
def isGlobal (e : EnumType) : Bool := e.owner.isNone

end EnumType

end JuliaStubs.Catalog
