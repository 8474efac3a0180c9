import JuliaStubs.Catalog.Builtin
import JuliaStubs.Catalog.Enum
import JuliaStubs.Dump.Value

/-!
# Default literals

Julia literals for host values. What a value becomes depends on the type of the parameter it is the default of; a pair of value and
destination without a literal has none, so that nothing is guessed, truncated or wrapped.
-/

namespace JuliaStubs.Source

open Catalog Dump

/-- The type of a parameter that a default is written for. -/
inductive Destination where
  | builtin (kind : BuiltinKind)
  | enumeration (qualified : String) (isFlags : Bool)
  | object (cls : String)
deriving DecidableEq

/-- A Julia literal. -/
inductive Literal where
  | bool (b : Bool)
  | int (n : Int)
  | double (x : Float)
  | single (x : Float32)
  | string (s : String)
  | null
  /-- A function, or a type, applied to literals. -/
  | call (function : String) (arguments : List Literal)

namespace Literal

/-- The form of one character between the quotes of a Julia string: only the characters that would end the string, start an
interpolation or an escape, or break the line are escaped. -/
def escapeChar (c : Char) : List Char :=
  match c with
  | '"' => ['\\', '"']
  | '\\' => ['\\', '\\']
  | '$' => ['\\', '$']
  | '\n' => ['\\', 'n']
  | '\t' => ['\\', 't']
  | '\r' => ['\\', 'r']
  | c => [c]

/-- A Julia string literal. -/
def quoted (s : String) : String := String.ofList ('"' :: s.toList.flatMap escapeChar ++ ['"'])

mutual

/-- The source of a literal. -/
def render : Literal → String
  | bool b => Value.boolWord b
  | int n => toString n
  | double x => Decimal.ofFloat .juliaDouble x
  | single x => Decimal.ofFloat32 .juliaSingle x
  | string s => quoted s
  | null => "C_NULL"
  | call function arguments => function ++ "(" ++ ", ".intercalate (renderAll arguments) ++ ")"

/-- The sources of literals. -/
def renderAll : List Literal → List String
  | [] => []
  | first :: rest => first.render :: renderAll rest

end

/-- A host string. -/
def hostString (s : String) : Literal := .call "String" [.string s]

/-- An interned name. -/
def hostStringName (s : String) : Literal := .call "StringName" [hostString s]

/-- A single-precision literal; none when a finite number is too large for it. -/
def single? (x : Float) : Option Literal :=
  if x.toFloat32.isInf && x.isFinite then none else some (.single x.toFloat32)

/-- A literal of the host's real type. -/
def real? (realIsDouble : Bool) (x : Float) : Option Literal := if realIsDouble then some (.double x) else single? x

/-- A vector of reals; none when a component has no literal. -/
def reals? (realIsDouble : Bool) (name : String) (components : List Float) : Option Literal :=
  (components.mapM (real? realIsDouble)).map (.call name)

/-- A vector of integers. -/
def ints (name : String) (components : List Int32) : Literal := .call name (components.map fun c => .int c.toInt)

/-- The literal of a value of its own kind, independent of any destination. -/
def natural? (realIsDouble : Bool) : Value → Option Literal
  | .nil | .unsupported _ => none
  | .bool b => some (.bool b)
  | .int n => some (.int n.toInt)
  | .float x => some (.double x)
  | .string s => some (hostString s)
  | .stringName s => some (hostStringName s)
  | .vector2 x y => reals? realIsDouble "Vector2" [x, y]
  | .vector2i x y => some (ints "Vector2i" [x, y])
  | .vector3 x y z => reals? realIsDouble "Vector3" [x, y, z]
  | .vector3i x y z => some (ints "Vector3i" [x, y, z])
  | .vector4 x y z w => reals? realIsDouble "Vector4" [x, y, z, w]
  | .vector4i x y z w => some (ints "Vector4i" [x, y, z, w])

/-- The literal of a value for a parameter of any type: the value's own literal, boxed. -/
def variant? (realIsDouble : Bool) : Value → Option Literal
  | .nil => some (.call "Variant" [])
  | value => (natural? realIsDouble value).map fun literal => .call "Variant" [literal]

/-- The literal of an integer for an integer type; none outside the range of the type. -/
def integer? (kind : BuiltinKind) (n : Int64) : Option Literal :=
  match kind.range? with
  | none => none
  | some (low, high) =>
    if low ≤ n.toInt ∧ n.toInt ≤ high then
      some (if kind = .int64 then .int n.toInt else .call kind.juliaName [.int n.toInt])
    else none

/-- The literal of a number for a floating-point type. -/
def floating? (kind : BuiltinKind) (x : Float) : Option Literal :=
  match kind with
  | .double => some (.double x)
  | .float => single? x
  | _ => none

/-- The literal of an integer for an enum, which crosses as a 32-bit integer: bit fields take the integer itself. -/
def enumeration? (qualified : String) (isFlags : Bool) (n : Int64) : Option Literal :=
  if Enum.fitsInt32 n then some (if isFlags then .int n.toInt else .call qualified [.int n.toInt]) else none

/-- The literal of a value for a builtin type. -/
def builtin? (realIsDouble : Bool) (kind : BuiltinKind) (value : Value) : Option Literal :=
  match kind, value with
  | .variant, value => variant? realIsDouble value
  | .bool, .bool b => some (.bool b)
  | .string, .string s | .string, .stringName s => some (hostString s)
  | .stringName, .string s | .stringName, .stringName s => some (hostStringName s)
  | .vector2, .vector2 .. | .vector3, .vector3 .. | .vector4, .vector4 ..
  | .vector2i, .vector2i .. | .vector3i, .vector3i .. | .vector4i, .vector4i .. => natural? realIsDouble value
  | kind, .int n => if kind.isInteger then integer? kind n else floating? kind n.toFloat
  | kind, .float x => floating? kind x
  | _, _ => none

/-- The literal of a value for a destination. -/
def for? (realIsDouble : Bool) (value : Value) : Destination → Option Literal
  | .builtin kind => builtin? realIsDouble kind value
  | .enumeration qualified isFlags =>
    match value with
    | .int n => enumeration? qualified isFlags n
    | _ => none
  | .object cls =>
    match value with
    | .nil => some (.call cls [.null])
    | _ => none

end Literal

/-- The source of the literal of a value for a destination, if there is one. -/
def synthesize (value : Value) (destination : Destination) (realIsDouble : Bool) : Option String :=
  (Literal.for? realIsDouble value destination).map Literal.render

end JuliaStubs.Source
