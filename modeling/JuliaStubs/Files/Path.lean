/-!
# Paths

A path is a text of names with slashes between them. Joining a path to a base keeps both as they are written.
-/

namespace JuliaStubs.Files

/-- Whether a path starts at the root directory. -/
def isAbsolute (path : String) : Bool := path.toList.head? == some '/'

/-- Whether a path ends with a slash. -/
def endsWithSlash (path : String) : Bool := path.toList.getLast? == some '/'

/-- A path below a base: an absolute path stands for itself, and so does any path below the empty one. -/
def join (base path : String) : String :=
  if isAbsolute path || base.isEmpty then path
  else if endsWithSlash base then base ++ path
  else base ++ "/" ++ path

/-- The names of a path, its characters read from the end; empty names between slashes do not count. -/
def splitNames : List Char → List Char → List String
  | name, [] => if name.isEmpty then [] else [String.ofList name.reverse]
  | name, c :: rest =>
    if c = '/' then
      if name.isEmpty then splitNames [] rest else String.ofList name.reverse :: splitNames [] rest
    else splitNames (c :: name) rest

/-- The names of a path in order. -/
def names (path : String) : List String := splitNames [] path.toList

/-- The names that say where a path leads, without those that stay in place. -/
def movingNames (path : String) : List String := (names path).filter (· != ".")

/-- The paths of the directories that a path lies in, nearest first, the working directory left out. -/
def parents (path : String) : List String :=
  let names := movingNames path
  let root := if isAbsolute path then "/" else ""
  ((List.range names.length).reverse.map fun n => root ++ "/".intercalate (names.take n)).filter (· != "")

end JuliaStubs.Files
