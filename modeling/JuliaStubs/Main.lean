import JuliaStubs.CommandLine.Run

/-!
# The command line

The outer layer of the program: files are read and written on disk, and what a run reports goes to the error stream.
-/

namespace JuliaStubs.CommandLine

open Report

/-- The fault of an error number; numbers come with either sign. -/
def faultOfNumber? (number : UInt32) : Option Files.Fault :=
  if number = 20 ∨ -number = 20 then some .notDirectory
  else if number = 21 ∨ -number = 21 then some .isDirectory
  else if number = 36 ∨ -number = 36 then some .nameTooLong
  else none

/-- The fault that an error of the file system stands for. -/
def faultOf : IO.Error → Files.Fault
  | .noFileOrDirectory .. => .missing
  | .alreadyExists .. => .alreadyExists
  | error@(.inappropriateType _ number _) | error@(.invalidArgument _ number _) =>
    (faultOfNumber? number).getD (.other (toString error))
  | error => .other (toString error)

/-- Carries out an action on files. -/
def attempt {α : Type} (action : IO α) : IO (Except Files.Fault α) := do
  try
    return .ok (← action)
  catch error => return .error (faultOf error)

/-- Access to the files on disk. -/
def diskAccess : Files.Access IO where
  read path := attempt (IO.FS.readFile path)
  write path contents := attempt (IO.FS.writeFile path contents)
  createDirectory path := attempt (IO.FS.createDir path)
  isDirectory path := (System.mkFilePath [path]).isDir

/-- How the program is called. -/
def usage : String :=
  Source.textOfLines
    ["Generate Julia stubs from the class database dump of a host", "",
      "Usage: julia-stubs [OPTIONS] --api <FILE> <OUTPUT_DIR>", "",
      "Arguments:",
      "  <OUTPUT_DIR>          Directory the generated sources are written to", "",
      "Options:",
      "      --api <FILE>          JSON dump of the host class database",
      "      --docs <FILE>         JSON dump of the class documentation",
      "      --real-is-double      The host was built with double-precision reals",
      "      --include-editor-api  Also write classes of the editor",
      "  -q, --quiet               Only report failures",
      "  -h, --help                Print help",
      "  -V, --version             Print version"]

/-- The words for a usage error. -/
def UsageError.message : UsageError → String
  | displayHelp => usage
  | displayVersion => "julia-stubs 0.1.0\n"
  | missingRequiredArgument => "error: OUTPUT_DIR and --api are required\n\n" ++ usage
  | unknownArgument => "error: unexpected argument\n\n" ++ usage
  | invalidValue => "error: a value is required\n\n" ++ usage
  | argumentConflict => "error: an argument is given more than once\n\n" ++ usage
  | tooManyValues => "error: a flag takes no value\n\n" ++ usage

/-- The line for an event. -/
def recordLine (record : Record) : String :=
  " ".intercalate ([record.level.name, record.message] ++ record.fields.map fun (name, value) => name ++ "=" ++ value)

/-- Whether an event is shown on the error stream. -/
def isShown (record : Record) : Bool := record.level == .info || record.level == .warn

/-- Runs the program and gives its exit code. -/
def start (arguments : List String) : IO UInt32 := do
  match Options.ofArguments arguments with
  | .error error =>
    if error.exitCode = 0 then IO.print error.message else IO.eprint error.message
    return UInt32.ofNat error.exitCode
  | .ok options =>
    let outcome ← run diskAccess options
    unless options.quiet do
      for record in (outcome.log.filterMap Event.record?).filter isShown do
        IO.eprintln (recordLine record)
    match outcome.result with
    | .ok _ => return 0
    | .error failure =>
      IO.eprintln ("ERROR " ++ ": ".intercalate failure.chain)
      return 1

end JuliaStubs.CommandLine

/-- The entry point. -/
def main (arguments : List String) : IO UInt32 := JuliaStubs.CommandLine.start arguments
