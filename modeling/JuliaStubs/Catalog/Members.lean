import JuliaStubs.Catalog.Class
import JuliaStubs.Dump.Basic
import JuliaStubs.Dump.Docs
import JuliaStubs.DocText
import JuliaStubs.Report.Logged

/-!
# Properties, enums and constants of a class

What the dump reports about the members of a class other than its methods becomes entries of the catalog. A member without a value
or a valid index is dropped alone; a constant that an enum mentions is a member of that enum and no loose constant.
-/

namespace JuliaStubs.Catalog

open Dump Report

/-- The cleaned description of a member in the documentation of its class. -/
def memberDoc (doc : Option ClassDoc) (members : ClassDoc → List MemberDoc) (name : String) : Option String :=
  doc.bind fun doc => (describe? (members doc) name).bind DocText.clean?

/-- The cleaned documentation of a class. -/
def classDoc (doc : ClassDoc) : Doc := ⟨DocText.clean doc.brief, DocText.clean doc.description⟩

/-! ### Properties -/

/-- Whether an entry of a property list is a property that code can name: headings of the editor are not, nor are names with a
slash, which only the editor shows. -/
def isNameable (slot : Slot) : Bool :=
  !(slot.usage.isGrouping || (slot.kind == .nil && slot.usage.isArray) || slot.name.toList.contains '/')

/-- The property of a name, or why it is dropped. -/
def propertyOf (host : Host) (doc : Option ClassDoc) (cls name : String) : Except Drop Property :=
  match host.propertyIndex? cls name with
  | none => .error (.invalidPropertyIndex cls name)
  | some index =>
    .ok
      { name
        index
        getter := host.getter? cls name
        setter := host.setter? cls name
        doc := memberDoc doc ClassDoc.properties name }

/-- What becomes of the properties of a class. -/
def propertiesOf (host : Host) (doc : Option ClassDoc) (cls : String) : List (Except Drop Property) :=
  ((host.properties cls).filter isNameable).map fun slot => propertyOf host doc cls slot.name

/-! ### Enums and constants -/

/-- The constant of a name, or why it is dropped. -/
def constantOf (host : Host) (doc : Option ClassDoc) (cls name : String) : Except Drop Constant :=
  match host.constant? cls name with
  | none => .error (.missingConstantValue cls name)
  | some value => .ok ⟨name, value, memberDoc doc ClassDoc.constants name⟩

/-- What becomes of constants, given their names. -/
def constantsOf (host : Host) (doc : Option ClassDoc) (cls : String) (names : List String) : List (Except Drop Constant) :=
  names.map (constantOf host doc cls)

/-- The enum made of a reported one: its members are those with a value. -/
def enumOf (host : Host) (doc : Option ClassDoc) (cls : String) (info : EnumInfo) : Enum :=
  { name := info.name
    juliaName := info.name
    qualified := Naming.enumKey (Naming.infoModule cls) info.name
    isFlags := info.isBitfield
    members := kept (constantsOf host doc cls info.members) }

/-- The enums of a class that have a member. -/
def enumsOf (host : Host) (doc : Option ClassDoc) (cls : String) : List Enum :=
  ((host.enums cls).map (enumOf host doc cls)).filter fun e => !e.isEmpty

/-- The names of the constants that no enum of the class mentions. -/
def looseNames (host : Host) (cls : String) : List String :=
  (host.constantNames cls).filter fun name => !(host.enums cls).any fun info => info.members.contains name

/-- What becomes of the loose constants of a class. -/
def looseConstantsOf (host : Host) (doc : Option ClassDoc) (cls : String) : List (Except Drop Constant) :=
  constantsOf host doc cls (looseNames host cls)

end JuliaStubs.Catalog
