/-!
# Julia identifiers

Host names become Julia names unchanged, except the reserved words, which get an underscore in front, and the two global enums that
would collide with class enums of the same name.
-/

namespace JuliaStubs.Naming

/-- The Julia words that cannot be used as identifiers. -/
def reservedWords : List String :=
  ["baremodule", "begin", "break", "catch", "const", "continue", "do", "else", "elseif", "end", "export", "false",
    "finally", "for", "function", "global", "if", "import", "let", "local", "macro", "module", "quote", "return",
    "struct", "true", "try", "using", "while"]

/-- Whether a name is a reserved word. -/
def isReserved (name : String) : Bool := reservedWords.contains name

/-- The Julia identifier for a host name. -/
def identifier (name : String) : String := if isReserved name then "_" ++ name else name

/-- The Julia name of a global enum: the two enums of the variant type are flattened. -/
def globalEnum (name : String) : String :=
  if name = "Variant.Type" then "VariantType"
  else if name = "Variant.Operator" then "VariantOperator"
  else name

/-- The tag type that the classes below a class inherit from. -/
def tag (cls : String) : String := "Godot" ++ cls

/-- The type of the lazily resolved instance of a singleton class. -/
def singleton (cls : String) : String := cls ++ "Singleton"

/-- The constant that holds the instance of a singleton class. -/
def singletonHolder (cls : String) : String := singleton cls ++ "Instance"

/-- The module of a class's enums and constants. -/
def infoModule (cls : String) : String := cls ++ "Info"

/-- The registry key of an enum that a class declares. -/
def enumKey (cls enum : String) : String := cls ++ "." ++ enum

end JuliaStubs.Naming
