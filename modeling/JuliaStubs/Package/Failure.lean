import JuliaStubs.Files.Access
import JuliaStubs.Json.Draft

/-!
# Failures of a run

What ends a run, as opposed to the faults that drop a single member.
-/

namespace JuliaStubs

/-- Why a run fails. -/
inductive Failure where
  /-- Sources were asked for before a dump was read. -/
  | notInitialized
  | createDirectory (path : String) (cause : Files.Fault)
  | writeFile (path : String) (cause : Files.Fault)
  | readDump (path : String) (cause : Files.Fault)
  | loadDump (path : String) (cause : Json.Flaw)
deriving DecidableEq

namespace Failure

/-- The text of a failure. -/
def message : Failure → String
  | notInitialized => "bindings generator is not initialized"
  | createDirectory path _ => "cannot create directory '" ++ path ++ "'"
  | writeFile path _ => "cannot write file '" ++ path ++ "'"
  | readDump path _ => "cannot read '" ++ path ++ "'"
  | loadDump path _ => "cannot load '" ++ path ++ "'"

/-- The text of what caused a failure. -/
def cause? : Failure → Option String
  | notInitialized => none
  | createDirectory _ fault | writeFile _ fault | readDump _ fault => some fault.message
  | loadDump _ flaw => some flaw.name

/-- Whether the failure happened while output was written. -/
def isWriting : Failure → Bool
  | createDirectory .. | writeFile .. => true
  | _ => false

end Failure

end JuliaStubs
