import JuliaStubs.Files.Path

/-!
# Access to files

The operations on files that the program needs, over any way of carrying them out. An operation that fails tells why in the words of
the operating system.
-/

namespace JuliaStubs.Files

/-- Why an operation on files fails. -/
inductive Fault where
  | missing
  | alreadyExists
  | notDirectory
  | isDirectory
  | nameTooLong
  | nulInName
  | other (words : String)
deriving DecidableEq

/-- The words for a fault. -/
def Fault.message : Fault → String
  | missing => "No such file or directory (os error 2)"
  | alreadyExists => "File exists (os error 17)"
  | notDirectory => "Not a directory (os error 20)"
  | isDirectory => "Is a directory (os error 21)"
  | nameTooLong => "File name too long (os error 36)"
  | nulInName => "file name contained an unexpected NUL byte"
  | other words => words

/-- A way of reading and writing files, by path. -/
structure Access (m : Type → Type) where
  /-- The text of a file. -/
  read : String → m (Except Fault String)
  /-- Writes a file in place of what it held. -/
  write : String → String → m (Except Fault Unit)
  /-- Makes a directory in an existing one. -/
  createDirectory : String → m (Except Fault Unit)
  /-- Whether a path leads to a directory. -/
  isDirectory : String → m Bool

namespace Access

variable {m : Type → Type} [Monad m]

/-- Makes a directory where there is none. -/
def ensureDirectory (access : Access m) (path : String) : m (Except Fault Unit) := do
  match ← access.createDirectory path with
  | .ok () => return .ok ()
  | .error fault => return if ← access.isDirectory path then .ok () else .error fault

/-- Makes directories at the paths of a list, of which each lies in the next; those further away are tried when a nearer one cannot
be made without them. -/
def ensureNested (access : Access m) : List String → m (Except Fault Unit)
  | [] => return .ok ()
  | path :: parents => do
    match ← access.ensureDirectory path with
    | .error .missing =>
      match ← access.ensureNested parents with
      | .ok () => access.ensureDirectory path
      | .error fault => return .error fault
    | outcome => return outcome

/-- Makes a directory and those it lies in, as far as they are missing. -/
def createDirectories (access : Access m) (path : String) : m (Except Fault Unit) :=
  if path.isEmpty then return .ok () else access.ensureNested (path :: parents path)

end Access

end JuliaStubs.Files
