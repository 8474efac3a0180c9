/-!
# Replacing and cutting

Replacing every occurrence of a pattern, left to right and without overlap, and cutting a text at a separator.
-/

namespace JuliaStubs.Text

/-- Replaces from here on, after passing over the next `skip` characters, which belong to an occurrence already replaced. -/
def replaceFrom (pattern substitute : List Char) : Nat → List Char → List Char
  | _, [] => []
  | skip + 1, _ :: rest => replaceFrom pattern substitute skip rest
  | 0, c :: rest =>
    if pattern.isPrefixOf (c :: rest) then
      substitute ++ replaceFrom pattern substitute (pattern.length - 1) rest
    else c :: replaceFrom pattern substitute 0 rest

/-- The text with every occurrence of a nonempty pattern replaced: the leftmost first, the next one sought after its end. -/
def replace (pattern substitute s : List Char) : List Char := replaceFrom pattern substitute 0 s

/-- The parts of a text between the occurrences of a separator; one more than there are separators. -/
def splitOn (separator : Char) : List Char → List (List Char)
  | [] => [[]]
  | c :: rest =>
    if c = separator then [] :: splitOn separator rest
    else
      match splitOn separator rest with
      | [] => [[c]]
      | part :: more => (c :: part) :: more

end JuliaStubs.Text
