import JuliaStubs.Files.Access

/-!
# File trees

A tree of directories and text files in memory, with the operations that a program does by path and the faults they meet. Following a
path moves a place through the tree, name by name, and a change at a place is carried up to the root. Relative paths start at the root
as well.
-/

namespace JuliaStubs.Files

mutual

/-- A directory or a text file. -/
inductive Node where
  | directory (entries : Entries)
  | file (contents : String)

/-- What lies in a directory, by name; the names differ. -/
inductive Entries where
  | empty
  | entry (name : String) (node : Node) (rest : Entries)

end

namespace Entries

/-- The node of a name. -/
def find? (name : String) : Entries → Option Node
  | .empty => none
  | .entry other node rest => if other = name then some node else rest.find? name

/-- The entries with a node in place of what had its name. -/
def put (name : String) (node : Node) : Entries → Entries
  | .empty => .entry name node .empty
  | .entry other old rest => if other = name then .entry name node rest else .entry other old (rest.put name node)

end Entries

mutual

/-- The nodes below a node, each by the path that leads to it through that of the node. -/
def Node.listing (path : String) : Node → List (String × Node)
  | .directory entries => entries.listing (path ++ "/")
  | .file _ => []

/-- The nodes of the entries and those below them, each by its path after that of the directory. -/
def Entries.listing (path : String) : Entries → List (String × Node)
  | .empty => []
  | .entry name node rest => (path ++ name, node) :: (node.listing (path ++ name) ++ rest.listing path)

end

/-- A tree: what lies in its root directory. -/
structure Tree where
  root : Entries

/-- A directory of a tree: its entries, and the way up to the root, which has the name of each directory passed with the entries it is
among. -/
structure Place where
  entries : Entries
  way : List (String × Entries)

namespace Place

/-- The directory that a directory lies in; the root is its own. -/
def up (place : Place) : Place :=
  match place.way with
  | [] => place
  | (_, entries) :: way => ⟨entries, way⟩

/-- A directory among the entries of a place. -/
def enter (place : Place) (name : String) (entries : Entries) : Place := ⟨entries, (name, place.entries) :: place.way⟩

/-- The tree in which the directory at the end of a way has other entries. -/
def rebuild (entries : Entries) : List (String × Entries) → Tree
  | [] => ⟨entries⟩
  | (name, siblings) :: way => rebuild (siblings.put name (.directory entries)) way

/-- The tree with a node at a name of a place. -/
def put (place : Place) (name : String) (node : Node) : Tree := rebuild (place.entries.put name node) place.way

end Place

/-- Where a path leads: to a directory, or to a file or a free name in one. -/
inductive Target where
  | directory (place : Place)
  | file (parent : Place) (name contents : String)
  | free (parent : Place) (name : String)

namespace Tree

/-- The tree without entries. -/
def empty : Tree := ⟨.empty⟩

/-- The most bytes that a name may have. -/
def longestName : Nat := 255

/-- The most bytes that a path may have. -/
def longestPath : Nat := 4095

/-- Follows names from a place. -/
def follow (place : Place) : List String → Except Fault Target
  | [] => .ok (.directory place)
  | name :: rest =>
    if name = "." then follow place rest
    else if name = ".." then follow place.up rest
    else if longestName < name.utf8ByteSize then .error .nameTooLong
    else
      match place.entries.find? name with
      | some (.directory entries) => follow (place.enter name entries) rest
      | some (.file contents) => if rest.isEmpty then .ok (.file place name contents) else .error .notDirectory
      | none => if rest.isEmpty then .ok (.free place name) else .error .missing

/-- Follows a path from the root. A path that cannot be one leads nowhere, whatever is in the tree. -/
def target (t : Tree) (path : String) : Except Fault Target :=
  if path.isEmpty then .error .missing
  else if path.toList.contains '\x00' then .error .nulInName
  else if longestPath < path.utf8ByteSize then .error .nameTooLong
  else follow ⟨t.root, []⟩ (names path)

/-- Whether a path leads to a directory. -/
def isDirectory (t : Tree) (path : String) : Bool :=
  match t.target path with
  | .ok (.directory _) => true
  | _ => false

/-- The text of the file at a path. -/
def read (t : Tree) (path : String) : Except Fault String :=
  match t.target path with
  | .error fault => .error fault
  | .ok (.free ..) => .error .missing
  | .ok (.directory _) => .error .isDirectory
  | .ok (.file _ _ contents) => if endsWithSlash path then .error .notDirectory else .ok contents

/-- Writes a file at a path, in place of what it held; a path with a slash at its end can only lead to a directory. -/
def write (t : Tree) (path contents : String) : Except Fault Tree :=
  match t.target path with
  | .error fault => .error fault
  | .ok (.directory _) => .error .isDirectory
  | .ok (.free parent name) | .ok (.file parent name _) =>
    if endsWithSlash path then .error .isDirectory else .ok (parent.put name (.file contents))

/-- Makes a directory in an existing one. -/
def createDirectory (t : Tree) (path : String) : Except Fault Tree :=
  match t.target path with
  | .error fault => .error fault
  | .ok (.free parent name) => .ok (parent.put name (.directory .empty))
  | .ok _ => .error .alreadyExists

/-- The nodes below the directory at a path by their paths from there, in the order of the paths. -/
def listing (t : Tree) (path : String) : List (String × Node) :=
  match t.target path with
  | .ok (.directory place) => (place.entries.listing "").mergeSort fun a b => a.1 ≤ b.1
  | _ => []

/-- Carries a change of the tree out; the tree stays as it is when the change fails. -/
def change (step : Tree → Except Fault Tree) : StateM Tree (Except Fault Unit) := fun t =>
  match step t with
  | .ok t => (.ok (), t)
  | .error fault => (.error fault, t)

/-- Access to the files of a tree. -/
def access : Access (StateM Tree) where
  read path := fun t => (t.read path, t)
  write path contents := change fun t => t.write path contents
  createDirectory path := change fun t => t.createDirectory path
  isDirectory path := fun t => (t.isDirectory path, t)

end Tree

end JuliaStubs.Files
