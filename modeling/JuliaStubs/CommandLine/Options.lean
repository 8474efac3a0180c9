/-!
# Command line options

The arguments of the command line: the output directory, the options that take a file, and flags. Options may stand before or after the
directory; everything after `--` is a directory. A value is judged when the next argument that makes sense is met, or at the end.
-/

namespace JuliaStubs.CommandLine

/-- The arguments of a run. -/
structure Options where
  outputDir : String
  /-- The file of the class database. -/
  api : String
  /-- The file of the documentation. -/
  docs : Option String
  realIsDouble : Bool
  includeEditorApi : Bool
  quiet : Bool
deriving DecidableEq

/-- Why a command line does not start a run. -/
inductive UsageError where
  | displayHelp
  | displayVersion
  | missingRequiredArgument
  | unknownArgument
  | invalidValue
  | argumentConflict
  | tooManyValues
deriving DecidableEq

/-- The exit code for a usage error: help and version were asked for. -/
def UsageError.exitCode : UsageError → Nat
  | displayHelp | displayVersion => 0
  | _ => 2

/-- An argument that takes a value. -/
inductive Valued where
  | outputDir
  | api
  | docs
deriving DecidableEq

/-- An argument that takes no value. -/
inductive Flag where
  | realIsDouble
  | includeEditorApi
  | quiet
  | help
  | version
deriving DecidableEq

/-- What was read of a command line so far. -/
structure Intake where
  values : List (Valued × String)
  flags : List Flag
  /-- The argument whose value has not been judged, with the value if it was given. -/
  pending : Option (Valued × Option String)
  /-- Whether the output directory was given. -/
  hasOutputDir : Bool
  /-- Whether `--` was met. -/
  isTrailing : Bool
deriving DecidableEq

namespace Intake

/-- Nothing read. -/
def empty : Intake := ⟨[], [], none, false, false⟩

/-- Notes the value of an argument. -/
def store (s : Intake) (argument : Valued) (value : Option String) : Except UsageError Intake :=
  match value with
  | none => .error .invalidValue
  | some value =>
    if s.values.any fun entry => entry.1 == argument then .error .argumentConflict
    else if value.isEmpty then .error .invalidValue
    else .ok { s with values := (argument, value) :: s.values }

/-- Judges the value that is pending. -/
def settle (s : Intake) : Except UsageError Intake :=
  match s.pending with
  | none => .ok s
  | some (argument, value) => ({ s with pending := none } : Intake).store argument value

/-- Notes a flag. -/
def setFlag (s : Intake) (flag : Flag) : Except UsageError Intake := do
  let s ← s.settle
  match flag with
  | .help => .error .displayHelp
  | .version => .error .displayVersion
  | flag => if s.flags.contains flag then .error .argumentConflict else .ok { s with flags := flag :: s.flags }

/-- The option of a long name that takes a value. -/
def longValued? : String → Option Valued
  | "api" => some .api
  | "docs" => some .docs
  | _ => none

/-- The flag of a long name. -/
def longFlag? : String → Option Flag
  | "real-is-double" => some .realIsDouble
  | "include-editor-api" => some .includeEditorApi
  | "quiet" => some .quiet
  | "help" => some .help
  | "version" => some .version
  | _ => none

/-- The flag of a short name. -/
def shortFlag? : Char → Option Flag
  | 'q' => some .quiet
  | 'h' => some .help
  | 'V' => some .version
  | _ => none

/-- Reads an option with a long name and the value attached to it. -/
def readLong (s : Intake) (name : String) (attached : Option String) : Except UsageError Intake :=
  match longValued? name, longFlag? name with
  | some argument, _ => do
    let s ← s.settle
    match attached with
    | some value => s.store argument (some value)
    | none => .ok { s with pending := some (argument, none) }
  | none, some flag => if attached.isSome then .error .tooManyValues else s.setFlag flag
  | none, none => .error .unknownArgument

/-- Reads flags with short names. -/
def readShort (s : Intake) : List Char → Except UsageError Intake
  | [] => .ok s
  | name :: rest =>
    match shortFlag? name with
    | some flag => do (← s.setFlag flag).readShort rest
    | none => .error .unknownArgument

/-- Reads an argument that is no option: the output directory, of which there is one. -/
def readPlain (s : Intake) (argument : String) : Except UsageError Intake :=
  if s.hasOutputDir then .error .unknownArgument
  else do return { ← s.settle with pending := some (.outputDir, some argument), hasOutputDir := true }

/-- Reads an argument that may be the value of the option before it. -/
def readValue (s : Intake) (argument : String) : Except UsageError Intake :=
  match s.pending with
  | some (option, none) => .ok { s with pending := some (option, some argument) }
  | _ => s.readPlain argument

/-- Reads an argument. -/
def read (s : Intake) (argument : String) : Except UsageError Intake :=
  if s.isTrailing then s.readPlain argument
  else
    match argument.toList with
    | '-' :: '-' :: [] => .ok { s with isTrailing := true }
    | '-' :: '-' :: long =>
      let name := long.takeWhile (· != '=')
      let attached := (long.dropWhile (· != '=')).tail?.map String.ofList
      s.readLong (String.ofList name) attached
    | '-' :: c :: short => s.readShort (c :: short)
    | _ => s.readValue argument

/-- The value of an argument. -/
def value? (s : Intake) (argument : Valued) : Option String := (s.values.find? fun entry => entry.1 == argument).map (·.2)

/-- The options of a command line that was read to its end. -/
def finish (s : Intake) : Except UsageError Options := do
  let s ← s.settle
  match s.value? .outputDir, s.value? .api with
  | some outputDir, some api =>
    return {
      outputDir
      api
      docs := s.value? .docs
      realIsDouble := s.flags.contains .realIsDouble
      includeEditorApi := s.flags.contains .includeEditorApi
      quiet := s.flags.contains .quiet }
  | _, _ => .error .missingRequiredArgument

end Intake

/-- The options that a command line gives, or why there are none. -/
def Options.ofArguments (arguments : List String) : Except UsageError Options := do
  (← arguments.foldlM Intake.read .empty).finish

end JuliaStubs.CommandLine
