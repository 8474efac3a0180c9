import JuliaStubs.Text.Lines
import JuliaStubs.Text.Replace

/-!
# Documentation texts

Host documentation is cleaned before it becomes a raw Julia docstring: common indentation, tabs and carriage returns go, the two
renamed global enums get their Julia names, triple quotes are escaped and the ends are trimmed.
-/

namespace JuliaStubs.DocText

open Text

/-- The text with its characters cleaned, step by step. -/
def cleanChars (s : List Char) : List Char :=
  let s := dedent s
  let s := s.filter (· != '\t')
  let s := s.filter (· != '\r')
  let s := replace "Variant.Type".toList "VariantType".toList s
  let s := replace "Variant.Operator".toList "VariantOperator".toList s
  let s := replace "\"\"\"".toList "\\\"\\\"\\\"".toList s
  trim s

/-- The cleaned documentation text. -/
def clean (s : String) : String := String.ofList (cleanChars s.toList)

/-- The cleaned documentation text, none when nothing is left of it. -/
def clean? (s : String) : Option String :=
  let cleaned := clean s
  if cleaned.isEmpty then none else some cleaned

/-- The line that documents what follows it: the text as a raw docstring. -/
def docstring (doc : String) : String := "@doc raw\"\"\"" ++ doc ++ "\"\"\""

/-- The documentation line of an optional text, no line without one. -/
def docstrings (doc : Option String) : List String := (doc.map docstring).toList

end JuliaStubs.DocText
