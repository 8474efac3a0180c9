/-!
# Settings

The choices of one run.
-/

namespace JuliaStubs

/-- The settings of a run. -/
structure Settings where
  /-- Whether the host was built with reals of double precision. -/
  realIsDouble : Bool
  /-- The class from which the classes are reached, the only one without a parent. -/
  rootClass : String
  /-- The class whose descendants are reference counted. -/
  refCountedClass : String
  /-- Whether classes of the editor get files. -/
  includeEditorApi : Bool
  /-- The name of the Julia package. -/
  packageName : String
  /-- The directory of the class files below the output directory. -/
  classesDir : String
deriving DecidableEq

namespace Settings

/-- The settings of a run that chooses nothing. -/
def standard : Settings := ⟨false, "Object", "RefCounted", false, "Godot.jl", "classes"⟩

/-- The Julia type of the host's reals. -/
def realType (s : Settings) : String := if s.realIsDouble then "Float64" else "Float32"

/-- The word for the precision of the host's reals. -/
def realWord (s : Settings) : String := if s.realIsDouble then "double" else "float"

/-- The size of a host variant in bytes. -/
def variantSize (s : Settings) : Nat := if s.realIsDouble then 40 else 24

end Settings

end JuliaStubs
