import JuliaStubs.Catalog.Enum
import JuliaStubs.DocText
import JuliaStubs.Source.Line

/-!
# Enum and constant blocks

The declarations of an enum and of a constant as statements of Julia, and their text. Only the first member of each value is declared
inside the enum; the others are bound to it by name afterwards.
-/

namespace JuliaStubs.Source

open Catalog

/-- A statement that declares or documents constants. -/
inductive Statement where
  /-- An enum with its members and their values; a wide one has a 64-bit base type. -/
  | declareEnum (name : String) (isWide : Bool) (members : List (String × Int64))
  /-- A second name for a member. -/
  | synonym (name canonical : String)
  /-- A plain integer. -/
  | assign (isConst : Bool) (name : String) (value : Int64)
  /-- Documentation of a name that is declared. -/
  | document (doc name : String)
  /-- Documentation of the statement that follows. -/
  | documentNext (doc : String)
deriving DecidableEq

namespace Statement

/-- A name and its value. -/
def assignment (name : String) (value : Int64) : String := name ++ " = " ++ toString value.toInt

/-- The lines of a statement. -/
def lines : Statement → List String
  | declareEnum name isWide members =>
    ("@enum " ++ name ++ (if isWide then "::Int64" else "") ++ " begin") ::
      members.map (fun (name, value) => assignment name value) ++ ["end"]
  | synonym name canonical => [name ++ " = " ++ canonical]
  | assign isConst name value => [(if isConst then "const " else "") ++ assignment name value]
  | document doc name => [DocText.docstring doc, name]
  | documentNext doc => [DocText.docstring doc]

end Statement

/-- The statements of an enum: its declaration, the aliases, and the documentation of its members. -/
def enumStatements (e : Enum) : List Statement :=
  let partition := e.partition
  .declareEnum e.juliaName (!e.isNarrow) (partition.canonical.map fun member => (member.name, member.value)) ::
    partition.aliases.map (fun (member, first) => .synonym member.name first.name) ++
    e.members.filterMap fun member => member.doc.map (.document · member.name)

/-- The statements of a constant. -/
def constantStatements (isConst : Bool) (constant : Constant) : List Statement :=
  (constant.doc.map .documentNext).toList ++ [.assign isConst constant.name constant.value]

/-- The lines of statements that belong together, with an empty line after them. -/
def blockLines (statements : List Statement) : List String := statements.flatMap Statement.lines ++ [""]

/-- The lines of an enum. -/
def enumLines (e : Enum) : List String := blockLines (enumStatements e)

/-- The lines of a constant, declared with `const` where the module is a package. -/
def constantLines (isConst : Bool) (constant : Constant) : List String := blockLines (constantStatements isConst constant)

/-- The lines of enums and of the constants after them. -/
def declarationLines (isConst : Bool) (enums : List Enum) (constants : List Constant) : List String :=
  enums.flatMap enumLines ++ constants.flatMap (constantLines isConst)

end JuliaStubs.Source
