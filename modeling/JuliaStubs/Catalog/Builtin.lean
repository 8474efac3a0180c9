import JuliaStubs.Catalog.Marshaling
import JuliaStubs.Dump.Vocabulary

/-!
# Builtin types

The fixed list of scalar and small value types, with their host and Julia names, the ranges of the integers, and how each crosses
the boundary of a call: every integer as a 64-bit one and every float as a double.
-/

namespace JuliaStubs.Catalog

open Dump

/-- A builtin type. -/
inductive BuiltinKind where
  | void | bool
  | int8 | int16 | int32 | int64
  | uint8 | uint16 | uint32 | uint64
  | float | double
  | variant | string | stringName
  | vector2 | vector2i | vector3 | vector3i | vector4 | vector4i
deriving DecidableEq

namespace BuiltinKind

/-- The builtin types in their order. -/
def all : List BuiltinKind :=
  [.void, .bool, .int8, .int16, .int32, .int64, .uint8, .uint16, .uint32, .uint64, .float, .double, .variant, .string,
    .stringName, .vector2, .vector2i, .vector3, .vector3i, .vector4, .vector4i]

/-- The host name, which is the key of the type. -/
def hostName : BuiltinKind → String
  | void => "void"
  | bool => "bool"
  | int8 => "sbyte"
  | int16 => "short"
  | int32 => "int"
  | int64 => "long"
  | uint8 => "byte"
  | uint16 => "ushort"
  | uint32 => "uint"
  | uint64 => "ulong"
  | float => "float"
  | double => "double"
  | variant => "Variant"
  | string => "String"
  | stringName => "StringName"
  | vector2 => "Vector2"
  | vector2i => "Vector2i"
  | vector3 => "Vector3"
  | vector3i => "Vector3i"
  | vector4 => "Vector4"
  | vector4i => "Vector4i"

/-- The Julia name. -/
def juliaName : BuiltinKind → String
  | void => "Cvoid"
  | bool => "Bool"
  | int8 => "Int8"
  | int16 => "Int16"
  | int32 => "Int32"
  | int64 => "Int64"
  | uint8 => "UInt8"
  | uint16 => "UInt16"
  | uint32 => "UInt32"
  | uint64 => "UInt64"
  | float => "Float32"
  | double => "Float64"
  | variant => "Variant"
  | string => "String"
  | stringName => "StringName"
  | vector2 => "Vector2"
  | vector2i => "Vector2i"
  | vector3 => "Vector3"
  | vector3i => "Vector3i"
  | vector4 => "Vector4"
  | vector4i => "Vector4i"

/-- The builtin type with a host name. -/
def ofHostName? (name : String) : Option BuiltinKind := all.find? fun kind => kind.hostName == name

/-- The type of an integer slot of a width: 64 bits unless the width says less. -/
def ofIntWidth : Width → BuiltinKind
  | .int8 => int8
  | .int16 => int16
  | .int32 => int32
  | .uint8 => uint8
  | .uint16 => uint16
  | .uint32 => uint32
  | .uint64 => uint64
  | _ => int64

/-- The type of a real slot of a width: double precision unless the width says single. -/
def ofRealWidth : Width → BuiltinKind
  | .realIsFloat => float
  | _ => double

/-- The least and the greatest value of an integer type. -/
def range? : BuiltinKind → Option (Int × Int)
  | int8 => some (Int8.minValue.toInt, Int8.maxValue.toInt)
  | int16 => some (Int16.minValue.toInt, Int16.maxValue.toInt)
  | int32 => some (Int32.minValue.toInt, Int32.maxValue.toInt)
  | int64 => some (Int64.minValue.toInt, Int64.maxValue.toInt)
  | uint8 => some (0, UInt8.size - 1)
  | uint16 => some (0, UInt16.size - 1)
  | uint32 => some (0, UInt32.size - 1)
  | uint64 => some (0, UInt64.size - 1)
  | _ => none

/-- Whether the type stands for no value. -/
def isVoid (kind : BuiltinKind) : Bool := kind == .void

/-- Whether the type is an integer type. -/
def isInteger (kind : BuiltinKind) : Bool := kind.range?.isSome

/-- Whether the type is a floating-point type. -/
def isReal (kind : BuiltinKind) : Bool := kind == .float || kind == .double

/-- How values of the type cross the boundary of a call. -/
def marshaling (kind : BuiltinKind) : Marshaling :=
  match kind with
  | void => .void
  | bool => .boxed "Cint" "0" ⟨"Bool(", "[])"⟩
  | int64 => .boxed "Int64" "0" ⟨"", "[]"⟩
  | uint64 =>
    ⟨refType "Int64", refType "Int64" ++ "(0)", ⟨refType "Int64" ++ "(reinterpret(Int64, ", "))"⟩, ⟨"reinterpret(UInt64, ", "[])"⟩⟩
  | int8 | int16 | int32 | uint8 | uint16 | uint32 => .boxed "Int64" "0" ⟨kind.juliaName ++ "(", "[])"⟩
  | float => .boxed "Float64" "0.0" ⟨"Float32(", "[])"⟩
  | double => .boxed "Float64" "0.0" ⟨"", "[]"⟩
  | variant => ⟨refType "Variant", "Variant()", ⟨refType "Variant" ++ "(", ")"⟩, .identity⟩
  | string =>
    ⟨refType "GodotString", refType "GodotString" ++ "(GodotString())", ⟨refType "GodotString" ++ "(GodotString(", "))"⟩,
      ⟨"String(", "[])"⟩⟩
  | stringName | vector2 | vector2i | vector3 | vector3i | vector4 | vector4i =>
    .boxed kind.juliaName (kind.juliaName ++ "()") ⟨"", "[]"⟩

end BuiltinKind

/-- A registered builtin type: its kind and how it crosses the boundary of a call. -/
structure Builtin where
  kind : BuiltinKind
  marshaling : Marshaling
deriving DecidableEq

/-- The entry of a builtin type in the standard table. -/
def Builtin.standard (kind : BuiltinKind) : Builtin := ⟨kind, kind.marshaling⟩

end JuliaStubs.Catalog
