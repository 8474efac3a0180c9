import JuliaStubs.Catalog.Registry

/-!
# Dependencies between classes

A class depends on its parent and on the classes that declare the types of its method signatures. A parent or an argument type is
named in a declaration and must exist when the file is loaded; a result type is needed at call time only.
-/

namespace JuliaStubs.LoadOrder

open Catalog

/-- Why a class depends on another one, strongest first. -/
inductive Strength where
  | parent
  | argument
  | result
deriving DecidableEq

namespace Strength

/-- The place among the strengths, the strongest first. -/
def rank : Strength → Nat
  | parent => 0
  | argument => 1
  | result => 2

/-- The stronger of two. -/
def stronger (a b : Strength) : Strength := if a.rank ≤ b.rank then a else b

/-- The strongest of a list. -/
def strongest (strengths : List Strength) : Strength := strengths.foldl stronger result

end Strength

/-- A class that another one refers to, and why. -/
structure Dependency where
  name : String
  strength : Strength
deriving DecidableEq

/-- The class that must be loaded for a type reference to make sense. -/
def declaringClass? (r : Registry) (ref : TypeRef) : Option String := (r.resolve ref).bind ResolvedType.declaringClass?

/-- The classes that a signature mentions, the result first. -/
def signatureMentions (r : Registry) (method : Method) : List Dependency :=
  let places := (method.result, Strength.result) :: method.arguments.map fun argument => (argument.type, .argument)
  places.filterMap fun (ref, strength) => (declaringClass? r ref).map (⟨·, strength⟩)

/-- Every mention of another class: the parent and those of the signatures, in order. -/
def mentions (r : Registry) (cls : ClassDecl) : List Dependency :=
  let all := (cls.parent.map (⟨·, .parent⟩)).toList ++ cls.methods.flatMap (signatureMentions r)
  all.filter fun mention => mention.name != cls.name

/-- The dependencies of a class in the order of their first mention, each as strong as its strongest mention. -/
def dependencies (r : Registry) (cls : ClassDecl) : List Dependency :=
  let all := mentions r cls
  (all.map Dependency.name).eraseDups.map fun name =>
    ⟨name, .strongest ((all.filter fun mention => mention.name == name).map Dependency.strength)⟩

end JuliaStubs.LoadOrder
