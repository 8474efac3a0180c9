import JuliaStubs.Package.Settings
import JuliaStubs.Source.Block

/-!
# Sources of the whole package

The constants that depend on how the host was built, the constants of its global scope, and the manifest that includes the files of
the classes.
-/

namespace JuliaStubs.Source

open Catalog

/-- The source of the build constants. -/
def buildConstants (settings : Settings) : String :=
  textOfLines
    ["# " ++ settings.packageName ++ " build constants",
      "RealT = " ++ settings.realType,
      "const VARIANT_SIZE = " ++ toString settings.variantSize ++ " # assuming real_t is " ++ settings.realWord]

/-- The source of the global enums and constants. -/
def globalConstants (enums : List Enum) (constants : List Constant) : String :=
  textOfLines (declarationLines true enums constants)

/-- The line that includes the file of a class. -/
def includeLine (classesDir cls : String) : String := "include(\"" ++ classesDir ++ "/" ++ cls ++ ".jl\");"

/-- The source of the manifest: the files of the classes in load order. -/
def manifest (classesDir : String) (classes : List String) : String :=
  textOfLines (classes.map (includeLine classesDir))

end JuliaStubs.Source
