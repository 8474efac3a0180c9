import JuliaStubs.LoadOrder.Basic
import JuliaStubs.Report.Fault

/-!
# Events of a run

What a run reports while it works, as data: each event has a level, a message and named fields.
-/

namespace JuliaStubs.Report

/-- The importance of an event. -/
inductive Level where
  | trace
  | debug
  | info
  | warn
deriving DecidableEq

/-- The name of a level. -/
def Level.name : Level → String
  | trace => "TRACE"
  | debug => "DEBUG"
  | info => "INFO"
  | warn => "WARN"

/-- Why a class of the dump is left out of the catalog. -/
inductive Exclusion where
  | unrecognized
  | unexposed
  | disabled
deriving DecidableEq

/-- The words for an exclusion. -/
def Exclusion.message : Exclusion → String
  | unrecognized => "ignoring type outside the known API partitions"
  | unexposed => "ignoring type because it's not exposed"
  | disabled => "ignoring type because it's not enabled"

/-- Why a property gets no branch in the dispatch of a class. -/
inductive AccessorFault where
  /-- No class of the lineage has the routine with a stub for instances. -/
  | unbound
  /-- The routine does not take the index and the value. -/
  | arity
  /-- The first argument of the routine has no literal for the index. -/
  | noIndexLiteral
deriving DecidableEq

/-- Something a run reports. -/
inductive Event where
  | groupedGlobals (enums constants : Nat)
  | globalEnumRefused (error : Catalog.RegistrationError)
  | excluded (cls : String) (why : Exclusion)
  | dropped (why : Drop)
  | skippedEmptyEnum (cls enum : String)
  | enumRefused (cls : String) (error : Catalog.RegistrationError)
  | describedClass (cls : String) (properties enums constants : Nat)
  | boundMethod (cls method : String)
  | boundMethods (cls : String) (methods : Nat)
  | classRefused (cls : String) (error : Catalog.RegistrationError)
  | catalogued (classes enums skipped : Nat)
  | cycleFound (cycle : LoadOrder.Cycle)
  | ordered (classes cycles : Nat)
  | hiddenParent (cls : String)
  | methodWithoutSource (cls method : String) (fault : SourceFault)
  | classWithoutSource (cls : String) (fault : SourceFault)
  | accessorFailed (cls property routine : String) (fault : AccessorFault)
  | rendered (types methods names : Nat)
  | generated (package : String) (types methods skipped files : Nat)
deriving DecidableEq

/-- An event as it is written: its level, its message and its fields. -/
structure Record where
  level : Level
  message : String
  fields : List (String × String)
deriving DecidableEq

/-- A number as the text of a field. -/
def count (n : Nat) : String := toString n

/-- The written form of an event; a missing index literal is not reported. -/
def Event.record? : Event → Option Record
  | groupedGlobals enums constants =>
    some ⟨.debug, "populated global constants", [("enums", count enums), ("constants", count constants)]⟩
  | globalEnumRefused error => some ⟨.warn, error.message, []⟩
  | excluded cls why => some ⟨.debug, why.message, [("class", cls)]⟩
  | dropped why => some ⟨if why.isPolicy then .debug else .warn, why.message, []⟩
  | skippedEmptyEnum cls enum => some ⟨.debug, "skipping empty enum", [("class", cls), ("enum_name", enum)]⟩
  | enumRefused cls error => some ⟨.warn, error.message, [("class", cls)]⟩
  | describedClass cls properties enums constants =>
    some ⟨.debug, "populated class",
      [("class", cls), ("properties", count properties), ("enums", count enums), ("constants", count constants)]⟩
  | boundMethod cls method => some ⟨.trace, "bound method", [("class", cls), ("method", method)]⟩
  | boundMethods cls methods => some ⟨.debug, "populated methods", [("class", cls), ("methods", count methods)]⟩
  | classRefused cls error => some ⟨.warn, error.message, [("class", cls)]⟩
  | catalogued classes enums skipped =>
    some ⟨.info, "populated class database",
      [("classes", count classes), ("enums", count enums), ("skipped", count skipped)]⟩
  | cycleFound cycle =>
    let fields := [("classes", Text.bracketed (cycle.classes.map Text.quoted))]
    if cycle.forwardArguments then
      some ⟨.warn, "argument types form a dependency cycle; some files refer to classes loaded later", fields⟩
    else some ⟨.debug, "dependency cycle broken at return types", fields⟩
  | ordered classes cycles =>
    some ⟨.debug, "ordered classes", [("classes", count classes), ("cycles", count cycles)]⟩
  | hiddenParent cls => some ⟨.warn, "not emitted: parent has no file", [("class", cls)]⟩
  | methodWithoutSource cls method fault => some ⟨.warn, fault.message, [("class", cls), ("method", method)]⟩
  | classWithoutSource cls fault => some ⟨.warn, fault.message, [("class", cls)]⟩
  | accessorFailed cls property routine fault =>
    let fields := [("class", cls), ("property", property), ("routine", routine)]
    match fault with
    | .unbound => some ⟨.debug, "accessor was not bound", fields⟩
    | .arity => some ⟨.debug, "accessor arity mismatch", fields⟩
    | .noIndexLiteral => none
  | rendered types methods names =>
    some ⟨.debug, "rendered sources", [("types", count types), ("methods", count methods), ("names", count names)]⟩
  | generated package types methods skipped files =>
    some ⟨.info, "the Julia package was successfully generated",
      [("package", package), ("types", count types), ("methods", count methods), ("skipped", count skipped),
        ("files", count files)]⟩

end JuliaStubs.Report
