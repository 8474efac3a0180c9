import JuliaStubs.Catalog.Registry

/-!
# Faults

Why a member of a dump is dropped from the catalog, and why a member of the catalog gets no source. Each fault names the unit that is
dropped; none of them ends a run.
-/

namespace JuliaStubs.Report

/-- Why something of a dump is dropped. -/
inductive Drop where
  | unsupportedType (cls method : String) (kind : Dump.ValueKind)
  | emptyMethodName (cls : String)
  | staticMethod (cls method : String)
  | virtualMethod (cls method : String)
  | varargMethod (cls method : String)
  | unsupportedDefault (cls method argument : String) (value : Dump.Value)
  | invalidPropertyIndex (cls property : String)
  | missingConstantValue (cls constant : String)
  | unknownParent (cls parent : String)
deriving DecidableEq

/-- The words that name a method of a class. -/
def methodWords (cls method : String) : String := "method '" ++ cls ++ "." ++ method ++ "'"

namespace Drop

/-- The text of the reason. -/
def message : Drop → String
  | unsupportedType cls method kind => methodWords cls method ++ " uses unsupported type '" ++ kind.hostName ++ "'"
  | emptyMethodName cls => "class '" ++ cls ++ "' reports a method with an empty name"
  | staticMethod cls method => methodWords cls method ++ " is static"
  | virtualMethod cls method => methodWords cls method ++ " is virtual"
  | varargMethod cls method => methodWords cls method ++ " is vararg"
  | unsupportedDefault cls method argument value =>
    "cannot determine default value for argument '" ++ argument ++ "' of " ++ methodWords cls method ++ ": " ++ value.detail
  | invalidPropertyIndex cls property => "invalid property: '" ++ cls ++ "." ++ property ++ "'"
  | missingConstantValue cls constant => "failed to find value of constant " ++ cls ++ "::" ++ constant
  | unknownParent cls parent => "class '" ++ cls ++ "' has no admitted ancestor (parent '" ++ parent ++ "')"

/-- Whether the member is of a sort that is never bound, which is expected of every host. -/
def isPolicy : Drop → Bool
  | unsupportedType .. | emptyMethodName .. | staticMethod .. | virtualMethod .. | varargMethod .. => true
  | _ => false

end Drop

/-- Why a member of the catalog gets no source. -/
inductive SourceFault where
  /-- A type reference does not resolve to a type with a declaration. -/
  | unresolvedType (owner member type : String)
  /-- The parent of a class has no file. -/
  | missingParent (cls parent : String)
deriving DecidableEq

/-- The text of the fault. -/
def SourceFault.message : SourceFault → String
  | unresolvedType owner member type => owner ++ "." ++ member ++ ": type not found: " ++ type
  | missingParent cls parent => "class '" ++ cls ++ "' has unknown parent '" ++ parent ++ "'"

end JuliaStubs.Report
