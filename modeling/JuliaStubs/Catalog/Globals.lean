import JuliaStubs.Catalog.Members

/-!
# Global enums and constants

The constants of the global scope are grouped by the enum they name, in the order in which the enums are first named. Those that name
none are loose.
-/

namespace JuliaStubs.Catalog

open Dump

/-- The constant made of a reported global one. -/
def globalConstantOf (doc : Option ClassDoc) (info : GlobalConstantInfo) : Constant :=
  ⟨info.name, info.value, memberDoc doc ClassDoc.constants info.name⟩

/-- The reported global constants of an enum. -/
def globalMembers (host : Host) (enum : String) : List GlobalConstantInfo :=
  host.globalConstants.filter fun info => info.enumName == some enum

/-- The names of the global enums in the order of their first mention. -/
def globalEnumNames (host : Host) : List String :=
  (host.globalConstants.filterMap GlobalConstantInfo.enumName).eraseDups

/-- The global enum of a name; its first member tells whether it is a bit field. -/
def globalEnumOf (host : Host) (doc : Option ClassDoc) (name : String) : Enum :=
  let members := globalMembers host name
  { name
    juliaName := Naming.globalEnum name
    qualified := Naming.globalEnum name
    isFlags := members.head?.any GlobalConstantInfo.isBitfield
    members := members.map (globalConstantOf doc) }

/-- The global enums. -/
def globalEnumsOf (host : Host) (doc : Option ClassDoc) : List Enum := (globalEnumNames host).map (globalEnumOf host doc)

/-- The global constants without an enum. -/
def looseGlobalsOf (host : Host) (doc : Option ClassDoc) : List Constant :=
  (host.globalConstants.filter fun info => info.enumName.isNone).map (globalConstantOf doc)

end JuliaStubs.Catalog
