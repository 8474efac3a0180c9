/-!
# Marshaling

How a value crosses the boundary of a pointer call: its declared form there, the holder that receives a result, and the conversions
in and out. A conversion is a template with one hole.
-/

namespace JuliaStubs.Catalog

/-- A piece of Julia source with one hole: what stands before the hole and what stands after it. -/
structure Template where
  before : String
  after : String
deriving DecidableEq

namespace Template

/-- The template that leaves its expression unchanged. -/
def identity : Template := ⟨"", ""⟩

/-- The template with its hole filled. -/
def fill (t : Template) (expression : String) : String := t.before ++ expression ++ t.after

/-- Whether filling the template changes nothing. -/
def isIdentity (t : Template) : Bool := t.before.isEmpty && t.after.isEmpty

/-- The template with its hole shown as `%s`. -/
def display (t : Template) : String := t.before ++ "%s" ++ t.after

theorem fill_identity (expression : String) : identity.fill expression = expression := by
  simp [fill, identity]

end Template

/-- A reference type of Julia. -/
def refType (type : String) : String := "Ref\x7b" ++ type ++ "\x7d"

/-- The form of a value at the boundary of a call. -/
structure Marshaling where
  /-- The declared type of the value at the boundary. -/
  boundary : String
  /-- The expression for a holder of a result. -/
  holder : String
  /-- Turns an argument into a value at the boundary. -/
  input : Template
  /-- Turns a holder into a value. -/
  output : Template
deriving DecidableEq

namespace Marshaling

/-- A value in a box of a type, which starts as `zero`. -/
def boxed (type zero : String) (output : Template) : Marshaling :=
  ⟨refType type, refType type ++ "(" ++ zero ++ ")", ⟨refType type ++ "(", ")"⟩, output⟩

/-- The absence of a value. -/
def void : Marshaling := ⟨"Ptr\x7bNothing\x7d", "C_NULL", .identity, .identity⟩

/-- An enum, which crosses as a 32-bit integer. -/
def enumValue (output : Template) : Marshaling :=
  ⟨refType "Cint", refType "Cint" ++ "(0)", ⟨refType "Cint" ++ "(Cint(", "))"⟩, output⟩

/-- An object of a class, which crosses as an opaque handle. -/
def object (cls : String) : Marshaling :=
  let handle := refType "Ptr\x7bNothing\x7d"
  ⟨handle, handle ++ "(C_NULL)", ⟨handle ++ "(getfield(", ", :native_ptr))"⟩, ⟨cls ++ "(", "[])"⟩⟩

end Marshaling

end JuliaStubs.Catalog
