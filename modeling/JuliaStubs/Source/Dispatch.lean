import JuliaStubs.Source.Literal
import JuliaStubs.Source.Stub

/-!
# Property dispatch

The properties of an object are read and assigned through two functions per class that call the accessors by property name. The
declarations of a class come before those of its ancestors, and of the declarations of one name the first decides: when its accessor
cannot be called, there is no branch for the name.
-/

namespace JuliaStubs.Source

open Catalog Report

/-- A branch of a dispatch: the call of an accessor for a property. -/
structure Accessor where
  /-- The Julia name of the property. -/
  property : String
  /-- The Julia name of the accessor. -/
  routine : String
  /-- The literal of the index that the accessor takes first. -/
  index : Option String
deriving DecidableEq

/-- The dispatch of a class. -/
structure Dispatch where
  tag : String
  getters : List Accessor
  setters : List Accessor
deriving DecidableEq

/-! ### Declarations -/

/-- The declared properties that an object of a class has, nearest class first; those of the root are left out. -/
def declarations (r : Registry) (cls : ClassDecl) : List Property :=
  ((r.lineage cls.name).filter fun level => !level.isRoot).flatMap ClassDecl.properties

/-- The first of the properties of each name that are not among those seen. -/
def firstOfName (seen : List String) : List Property → List Property
  | [] => []
  | property :: rest =>
    if seen.contains property.name then firstOfName seen rest
    else property :: firstOfName (property.name :: seen) rest

/-- The properties with the getters that decide over reading: those of the first declaration of each name, if it has one. -/
def readable (r : Registry) (cls : ClassDecl) : List (Property × String) :=
  (firstOfName [] (declarations r cls)).filterMap fun property => property.getter.map (property, ·)

/-- The properties with the setters that decide over assigning: those of the first declaration of each name that has one. -/
def writable (r : Registry) (cls : ClassDecl) : List (Property × String) :=
  (firstOfName [] ((declarations r cls).filter fun property => property.setter.isSome)).filterMap fun property =>
    property.setter.map (property, ·)

/-! ### Accessors -/

/-- The nearest class of a lineage that has a method of a name, with the method. -/
def findMethod (name : String) : List ClassDecl → Option (ClassDecl × Method)
  | [] => none
  | cls :: ancestors =>
    match cls.method? name with
    | some method => some (cls, method)
    | none => findMethod name ancestors

/-- What the index of a property is written for, given the type of the argument. -/
def indexDestination? : ResolvedType → Option Destination
  | .builtin b => some (.builtin b.kind)
  | .enumeration e => some (.enumeration e.qualified e.isFlags)
  | .object _ => none

/-- The literal of an index for the first argument of an accessor. -/
def indexLiteral? (scope : Scope) (owner : ClassDecl) (method : Method) (index : Int32) : Option String := do
  let argument ← method.arguments.head?
  let type ← (scope.resolve owner method.name argument.type).toOption
  synthesize (.int index.toInt64) (← indexDestination? type) scope.realIsDouble

/-- The accessor of a property on a class that takes the index of the property, if it has one, and then a number of values. Its
routine must have a stub for objects, in the class or an ancestor, and take exactly those arguments. -/
def accessorOf (scope : Scope) (cls : ClassDecl) (property : Property) (routine : String) (values : Nat) :
    Except AccessorFault Accessor :=
  match findMethod routine (scope.registry.lineage cls.name) with
  | none => .error .unbound
  | some (owner, method) =>
    if owner.isSingleton || (stubOf scope owner method).toOption.isNone then .error .unbound
    else if !method.accepts (values + if property.isIndexed then 1 else 0) then .error .arity
    else if !property.isIndexed then .ok ⟨property.juliaName, method.juliaName, none⟩
    else
      match indexLiteral? scope owner method property.index with
      | some literal => .ok ⟨property.juliaName, method.juliaName, some literal⟩
      | none => .error .noIndexLiteral

/-- What becomes of the accessors of properties on a class. -/
def bindAccessors (scope : Scope) (cls : ClassDecl) (values : Nat) (properties : List (Property × String)) :
    Logged (List Accessor) :=
  let outcomes := properties.map fun (property, routine) =>
    (accessorOf scope cls property routine values).mapError (Event.accessorFailed cls.name property.name routine)
  { result := outcomes.filterMap Except.toOption
    log := outcomes.filterMap fun | .ok _ => none | .error event => some event }

/-- The dispatch of a class. -/
def dispatchOf (scope : Scope) (cls : ClassDecl) : Logged Dispatch :=
  let getters := bindAccessors scope cls 0 (readable scope.registry cls)
  let setters := bindAccessors scope cls 1 (writable scope.registry cls)
  ⟨⟨cls.tag, getters.result, setters.result⟩, getters.log ++ setters.log⟩

/-! ### Text -/

/-- The arguments of an accessor's call before the value. -/
def Accessor.callArguments (accessor : Accessor) : List String := "object" :: accessor.index.toList

/-- The call of a getter. -/
def Accessor.read (accessor : Accessor) : String :=
  "return " ++ accessor.routine ++ "(" ++ ", ".intercalate accessor.callArguments ++ ")"

/-- The call of a setter. -/
def Accessor.assign (accessor : Accessor) : String :=
  accessor.routine ++ "(" ++ ", ".intercalate (accessor.callArguments ++ ["value"]) ++ ")"

/-- The branches of a dispatch after the first one opened with `keyword`. -/
def branchLines (keyword : String) (call : Accessor → String) : List Accessor → List String
  | [] => []
  | accessor :: rest =>
    (keyword ++ " property == :" ++ accessor.property) :: indented (call accessor) :: branchLines "elseif" call rest

/-- The body of a dispatch function: its branches and what is done for other properties. -/
def dispatchBody (call : Accessor → String) (otherwise : String) (accessors : List Accessor) : List String :=
  if accessors.isEmpty then [otherwise]
  else branchLines "if" call accessors ++ ["else", indented otherwise, "end"]

/-- The lines of the dispatch. -/
def Dispatch.lines (d : Dispatch) : List String :=
  ["function Base.getproperty(object::" ++ d.tag ++ ", property::Symbol)"] ++
    (dispatchBody Accessor.read "return getfield(object, property)" d.getters).map indented ++ ["end", ""] ++
    ["function Base.setproperty!(object::" ++ d.tag ++ ", property::Symbol, value)"] ++
    (dispatchBody Accessor.assign "setfield!(object, property, value)" d.setters).map indented ++ ["end", ""]

end JuliaStubs.Source
