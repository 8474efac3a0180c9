import JuliaStubs.Source.Line
import JuliaStubs.Text.Sorted

/-!
# Interned names

The host names of classes and methods that stubs look up, each interned once. The set is kept in ascending order, so that its source
depends on the names alone.
-/

namespace JuliaStubs.Source

/-- A set of names in ascending order. -/
structure InternedNames where
  names : List String
deriving DecidableEq

/-- A list without the items that repeat the one before them. -/
def dropRepeats : List String → List String
  | a :: b :: rest => if a = b then dropRepeats (b :: rest) else a :: dropRepeats (b :: rest)
  | list => list

namespace InternedNames

/-- The set of the names of a list. -/
def ofList (names : List String) : InternedNames := ⟨dropRepeats (Text.sortNames names)⟩

/-- No name. -/
def empty : InternedNames := ⟨[]⟩

/-- The set with more names. -/
def extend (set : InternedNames) (names : List String) : InternedNames := ofList (set.names ++ names)

/-- The set with one more name. -/
def insert (set : InternedNames) (name : String) : InternedNames := set.extend [name]

/-- The number of names. -/
def size (set : InternedNames) : Nat := set.names.length

/-- Whether there is no name. -/
def isEmpty (set : InternedNames) : Bool := set.names.isEmpty

/-- The line that declares a name. -/
def declaration (name : String) : String := indented ("_" ++ name ++ "::StringName")

/-- The line that interns a name. -/
def initialization (name : String) : String := indented ("string_names._" ++ name ++ " = StringName(\"" ++ name ++ "\")")

/-- The lines of the source. -/
def lines (set : InternedNames) : List String :=
  ["mutable struct StringNames"] ++ set.names.map declaration ++
    [indented "StringNames() = new()", "end", "", "string_names = StringNames()", "", "function initialize_string_names()"] ++
    set.names.map initialization ++ ["end", ""]

/-- The text of the source. -/
def text (set : InternedNames) : String := textOfLines set.lines

end InternedNames

end JuliaStubs.Source
