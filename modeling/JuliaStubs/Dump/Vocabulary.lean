/-!
# The vocabulary of a dump

The closed lists of words a reflection dump uses: API partitions, kinds of values and numeric widths, each with its spelling.
-/

namespace JuliaStubs.Dump

/-- The word of a list that has a spelling. -/
def wordSpelled? {α : Type} (words : List α) (spelling : α → String) (text : String) : Option α :=
  words.find? fun word => spelling word == text

/-- The part of the host API a class belongs to; classes outside every known part are never admitted. -/
inductive Partition where
  | unlisted
  | core
  | editor
  | extension
  | editorExtension
deriving DecidableEq

namespace Partition

/-- The partitions. -/
def all : List Partition := [.unlisted, .core, .editor, .extension, .editorExtension]

/-- The spelling in a dump. -/
def spelling : Partition → String
  | unlisted => "none"
  | core => "core"
  | editor => "editor"
  | extension => "extension"
  | editorExtension => "editor_extension"

/-- The partition with a spelling. -/
def ofSpelling? : String → Option Partition := wordSpelled? all spelling

/-- Whether the partition is one of the known ones. -/
def isRecognized (p : Partition) : Bool := p != .unlisted

/-- Whether classes of the partition exist inside the editor only. -/
def isEditor : Partition → Bool
  | editor | editorExtension => true
  | _ => false

end Partition

/-- The kind of a host value or of a declared type. -/
inductive ValueKind where
  | nil | bool | int | float | string
  | vector2 | vector2i | rect2 | rect2i | vector3 | vector3i | transform2d | vector4 | vector4i
  | plane | quaternion | aabb | basis | transform3d | projection
  | color | stringName | nodePath | rid | object | callable | signal | dictionary | array
  | packedByteArray | packedInt32Array | packedInt64Array | packedFloat32Array | packedFloat64Array
  | packedStringArray | packedVector2Array | packedVector3Array | packedColorArray | packedVector4Array
deriving DecidableEq

namespace ValueKind

/-- The kinds in the host's order. -/
def all : List ValueKind :=
  [.nil, .bool, .int, .float, .string, .vector2, .vector2i, .rect2, .rect2i, .vector3, .vector3i, .transform2d,
    .vector4, .vector4i, .plane, .quaternion, .aabb, .basis, .transform3d, .projection, .color, .stringName,
    .nodePath, .rid, .object, .callable, .signal, .dictionary, .array, .packedByteArray, .packedInt32Array,
    .packedInt64Array, .packedFloat32Array, .packedFloat64Array, .packedStringArray, .packedVector2Array,
    .packedVector3Array, .packedColorArray, .packedVector4Array]

/-- The spelling in a dump. -/
def spelling : ValueKind → String
  | nil => "nil"
  | bool => "bool"
  | int => "int"
  | float => "float"
  | string => "string"
  | vector2 => "vector2"
  | vector2i => "vector2i"
  | rect2 => "rect2"
  | rect2i => "rect2i"
  | vector3 => "vector3"
  | vector3i => "vector3i"
  | transform2d => "transform2d"
  | vector4 => "vector4"
  | vector4i => "vector4i"
  | plane => "plane"
  | quaternion => "quaternion"
  | aabb => "aabb"
  | basis => "basis"
  | transform3d => "transform3d"
  | projection => "projection"
  | color => "color"
  | stringName => "string_name"
  | nodePath => "node_path"
  | rid => "rid"
  | object => "object"
  | callable => "callable"
  | signal => "signal"
  | dictionary => "dictionary"
  | array => "array"
  | packedByteArray => "packed_byte_array"
  | packedInt32Array => "packed_int32_array"
  | packedInt64Array => "packed_int64_array"
  | packedFloat32Array => "packed_float32_array"
  | packedFloat64Array => "packed_float64_array"
  | packedStringArray => "packed_string_array"
  | packedVector2Array => "packed_vector2_array"
  | packedVector3Array => "packed_vector3_array"
  | packedColorArray => "packed_color_array"
  | packedVector4Array => "packed_vector4_array"

/-- The name the host gives the kind. -/
def hostName : ValueKind → String
  | nil => "Nil"
  | bool => "bool"
  | int => "int"
  | float => "float"
  | string => "String"
  | vector2 => "Vector2"
  | vector2i => "Vector2i"
  | rect2 => "Rect2"
  | rect2i => "Rect2i"
  | vector3 => "Vector3"
  | vector3i => "Vector3i"
  | transform2d => "Transform2D"
  | vector4 => "Vector4"
  | vector4i => "Vector4i"
  | plane => "Plane"
  | quaternion => "Quaternion"
  | aabb => "AABB"
  | basis => "Basis"
  | transform3d => "Transform3D"
  | projection => "Projection"
  | color => "Color"
  | stringName => "StringName"
  | nodePath => "NodePath"
  | rid => "RID"
  | object => "Object"
  | callable => "Callable"
  | signal => "Signal"
  | dictionary => "Dictionary"
  | array => "Array"
  | packedByteArray => "PackedByteArray"
  | packedInt32Array => "PackedInt32Array"
  | packedInt64Array => "PackedInt64Array"
  | packedFloat32Array => "PackedFloat32Array"
  | packedFloat64Array => "PackedFloat64Array"
  | packedStringArray => "PackedStringArray"
  | packedVector2Array => "PackedVector2Array"
  | packedVector3Array => "PackedVector3Array"
  | packedColorArray => "PackedColorArray"
  | packedVector4Array => "PackedVector4Array"

/-- The kind with a spelling. -/
def ofSpelling? : String → Option ValueKind := wordSpelled? all spelling

/-- Whether arguments and return values of the kind can be bound. -/
def isBindable : ValueKind → Bool
  | nil | bool | int | float | string | stringName | vector2 | vector2i | vector3 | vector3i | vector4 | vector4i
  | object => true
  | _ => false

end ValueKind

/-- The width of a numeric argument or return value, which its kind does not tell. -/
inductive Width where
  | unspecified
  | int8 | int16 | int32 | int64
  | uint8 | uint16 | uint32 | uint64
  | realIsFloat | realIsDouble
deriving DecidableEq

namespace Width

/-- The widths. -/
def all : List Width :=
  [.unspecified, .int8, .int16, .int32, .int64, .uint8, .uint16, .uint32, .uint64, .realIsFloat, .realIsDouble]

/-- The spelling in a dump. -/
def spelling : Width → String
  | unspecified => "none"
  | int8 => "int8"
  | int16 => "int16"
  | int32 => "int32"
  | int64 => "int64"
  | uint8 => "uint8"
  | uint16 => "uint16"
  | uint32 => "uint32"
  | uint64 => "uint64"
  | realIsFloat => "real_is_float"
  | realIsDouble => "real_is_double"

/-- The width with a spelling. -/
def ofSpelling? : String → Option Width := wordSpelled? all spelling

end Width

end JuliaStubs.Dump
