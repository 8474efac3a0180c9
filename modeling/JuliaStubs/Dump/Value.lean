import JuliaStubs.Decimal.Style
import JuliaStubs.Text.Quoted

/-!
# Host values

The values that a dump stores, restricted to the kinds that have a Julia literal. Every other value is carried as unsupported, with
the name of its kind.
-/

namespace JuliaStubs.Dump

/-- A value as the host stores it. -/
inductive Value where
  | nil
  | bool (b : Bool)
  | int (n : Int64)
  | float (x : Float)
  | string (s : String)
  | stringName (s : String)
  | vector2 (x y : Float)
  | vector2i (x y : Int32)
  | vector3 (x y z : Float)
  | vector3i (x y z : Int32)
  | vector4 (x y z w : Float)
  | vector4i (x y z w : Int32)
  | unsupported (kind : String)
deriving DecidableEq

namespace Value

/-- The host name of the value's kind. -/
def kindName : Value → String
  | nil => "Nil"
  | bool _ => "bool"
  | int _ => "int"
  | float _ => "float"
  | string _ => "String"
  | stringName _ => "StringName"
  | vector2 .. => "Vector2"
  | vector2i .. => "Vector2i"
  | vector3 .. => "Vector3"
  | vector3i .. => "Vector3i"
  | vector4 .. => "Vector4"
  | vector4i .. => "Vector4i"
  | unsupported kind => kind

/-- Whether the value is nil. -/
def isNil : Value → Bool
  | nil => true
  | _ => false

/-- A truth value as a word. -/
def boolWord (b : Bool) : String := if b then "true" else "false"

/-- Items between parentheses. -/
def parenthesized (items : List String) : String := "(" ++ ", ".intercalate items ++ ")"

/-- The components of an integer vector in decimal. -/
def intTexts (components : List Int32) : List String := components.map fun c => toString c.toInt

/-- The value as a reader of a report sees it. -/
def display : Value → String
  | nil => "null"
  | bool b => boolWord b
  | int n => toString n.toInt
  | float x => Decimal.ofFloat .plain x
  | string s => Text.quoted s
  | stringName s => "&" ++ Text.quoted s
  | vector2 x y => parenthesized ([x, y].map (Decimal.ofFloat .plain))
  | vector2i x y => parenthesized (intTexts [x, y])
  | vector3 x y z => parenthesized ([x, y, z].map (Decimal.ofFloat .plain))
  | vector3i x y z => parenthesized (intTexts [x, y, z])
  | vector4 x y z w => parenthesized ([x, y, z, w].map (Decimal.ofFloat .plain))
  | vector4i x y z w => parenthesized (intTexts [x, y, z, w])
  | unsupported kind => "<" ++ kind ++ ">"

/-- A kind applied to a text. -/
def tagged (kind body : String) : String := kind ++ "(" ++ body ++ ")"

/-- A kind applied to a list of real components. -/
def taggedReals (kind : String) (components : List Float) : String :=
  tagged kind (Text.bracketed (components.map (Decimal.ofFloat .general)))

/-- A kind applied to a list of integer components. -/
def taggedInts (kind : String) (components : List Int32) : String := tagged kind (Text.bracketed (intTexts components))

/-- The value with its kind spelled out. -/
def detail : Value → String
  | nil => "Nil"
  | bool b => tagged "Bool" (boolWord b)
  | int n => tagged "Int" (toString n.toInt)
  | float x => tagged "Float" (Decimal.ofFloat .general x)
  | string s => tagged "String" (Text.quoted s)
  | stringName s => tagged "StringName" (Text.quoted s)
  | vector2 x y => taggedReals "Vector2" [x, y]
  | vector2i x y => taggedInts "Vector2i" [x, y]
  | vector3 x y z => taggedReals "Vector3" [x, y, z]
  | vector3i x y z => taggedInts "Vector3i" [x, y, z]
  | vector4 x y z w => taggedReals "Vector4" [x, y, z, w]
  | vector4i x y z w => taggedInts "Vector4i" [x, y, z, w]
  | unsupported kind => "Unsupported \x7b kind: " ++ Text.quoted kind ++ " \x7d"

end Value

end JuliaStubs.Dump
