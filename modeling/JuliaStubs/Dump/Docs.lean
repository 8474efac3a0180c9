/-!
# Documentation

The documentation of the classes of a host, by documented name. The last entry of a name answers for it.
-/

namespace JuliaStubs.Dump

/-- The documentation of a member of a class. -/
structure MemberDoc where
  name : String
  description : String
deriving DecidableEq

/-- The documentation of a class. -/
structure ClassDoc where
  name : String
  brief : String
  description : String
  methods : List MemberDoc
  properties : List MemberDoc
  constants : List MemberDoc
deriving DecidableEq

/-- The description of the first member of a name. -/
def describe? (members : List MemberDoc) (name : String) : Option String :=
  (members.find? fun member => member.name == name).map MemberDoc.description

/-- The documentation of a host; the empty one knows no class. -/
structure Docs where
  classes : List ClassDoc
deriving DecidableEq

namespace Docs

/-- No documentation. -/
def empty : Docs := ⟨[]⟩

/-- The documentation under a documented name. -/
def class? (docs : Docs) (name : String) : Option ClassDoc :=
  docs.classes.reverse.find? fun doc => doc.name == name

/-- The name a class is documented under: without one leading underscore. -/
def documentedName (cls : String) : String :=
  match cls.toList with
  | '_' :: rest => String.ofList rest
  | _ => cls

/-- The documentation of a host class. -/
def ofClass? (docs : Docs) (cls : String) : Option ClassDoc := docs.class? (documentedName cls)

/-- The documentation of the global constants. -/
def globalScope? (docs : Docs) : Option ClassDoc := docs.class? "@GlobalScope"

end Docs

end JuliaStubs.Dump
