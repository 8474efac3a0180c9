/-!
# Lines of source

Generated source is a list of lines until it is written; a line may hold a text that itself breaks over several lines.
-/

namespace JuliaStubs.Source

/-- The text of lines, each of them ended by a line break. -/
def textOfLines (lines : List String) : String := String.join (lines.map (· ++ "\n"))

/-- The line with one more level of indentation. -/
def indented (line : String) : String := "\t" ++ line

end JuliaStubs.Source
