import JuliaStubs.Catalog.Globals
import JuliaStubs.Catalog.Signature
import JuliaStubs.Catalog.Traversal
import JuliaStubs.Package.Settings

/-!
# The catalog of a dump

A dump becomes a catalog in stages: the enums of the global scope, the classes in the order of their visits with the companion types
of their enums, then the methods of every class, whose defaults may be of any of those types, and last the registration of the
classes. What cannot be bound is dropped by itself, reported and counted.
-/

namespace JuliaStubs

open Dump Report

/-- The types and constants made of a dump. -/
structure Catalog where
  registry : Catalog.Registry
  globalEnums : List Catalog.Enum
  globalConstants : List Catalog.Constant
  /-- The number of members and classes that were dropped. -/
  skipped : Nat
deriving DecidableEq

namespace Catalog

/-- Registers the companion type of a global enum. -/
def registerGlobalEnum (r : Registry) (e : Enum) : Logged Registry :=
  match (Registry.putEnum (.companion e.name none e)).run r with
  | .ok _ r => .silent r
  | .error error r => ⟨r, [.globalEnumRefused error]⟩

/-- Registers the companion type of an enum of a class, if the enum has a member. -/
def registerClassEnum (cls : String) (r : Registry) (e : Enum) : Logged Registry :=
  if e.isEmpty then ⟨r, [.skippedEmptyEnum cls e.name]⟩
  else
    match (Registry.putEnum (.companion (Naming.enumKey cls e.name) (some cls) e)).run r with
    | .ok _ r => .silent r
    | .error error r => ⟨r, [.enumRefused cls error]⟩

/-- Goes through a reported enum of a class: the members without a value are dropped, and the rest is registered. -/
def enterEnum (host : Host) (doc : Option ClassDoc) (cls : String) (r : Registry) (info : EnumInfo) : Logged Registry :=
  let missing := drops (constantsOf host doc cls info.members)
  Logged.andThen ⟨r, missing.map .dropped⟩ fun r => registerClassEnum cls r (enumOf host doc cls info)

/-- The class of a name without its methods. -/
def classOf (settings : Settings) (host : Host) (docs : Docs) (name : String) (parent : Option String) : ClassDecl :=
  let doc := docs.ofClass? name
  let isSingleton := host.flag name ClassInfo.isSingleton
  { name
    parent
    partition := host.partition name
    isSingleton
    isInstantiable := host.flag name ClassInfo.isInstantiable && !isSingleton
    isRefCounted := host.inherits name settings.refCountedClass
    doc := doc.map classDoc
    enums := enumsOf host doc name
    constants := kept (looseConstantsOf host doc name)
    methods := []
    properties := kept (propertiesOf host doc name) }

/-- The types found so far: the registry with the companion types of the enums, and the classes without their methods. -/
structure Survey where
  registry : Registry
  classes : List ClassDecl

/-- Adds an admitted class to a survey. -/
def Survey.enter (settings : Settings) (host : Host) (docs : Docs) (survey : Survey) (name : String)
    (parent : Option String) : Logged Survey :=
  let doc := docs.ofClass? name
  let cls := classOf settings host docs name parent
  let enums := Logged.foldSteps (enterEnum host doc name) survey.registry (host.enums name)
  { result := ⟨enums.result, survey.classes ++ [cls]⟩
    log := (drops (propertiesOf host doc name)).map .dropped ++ enums.log ++
      (drops (looseConstantsOf host doc name)).map .dropped ++
      [.describedClass name cls.properties.length cls.enums.length cls.constants.length] }

/-- Adds a visited class to a survey, if it is admitted. -/
def Survey.visit (settings : Settings) (host : Host) (docs : Docs) (survey : Survey) (visit : Visit) : Logged Survey :=
  match visit.verdict with
  | .excluded why => ⟨survey, [.excluded visit.name why]⟩
  | .orphan parent => ⟨survey, [.dropped (.unknownParent visit.name parent)]⟩
  | .admitted parent => survey.enter settings host docs visit.name parent

/-- What becomes of the methods of a class, by name. -/
def methodsOf (settings : Settings) (host : Host) (docs : Docs) (r : Registry) (cls : String) : List (Except Drop Method) :=
  (sortedMethods host cls).map (methodOf r settings.realIsDouble host (docs.ofClass? cls) cls)

/-- The event for a method that was bound or dropped. -/
def methodEvent (cls : String) : Except Drop Method → Event
  | .ok method => .boundMethod cls method.name
  | .error why => .dropped why

/-- The class with its methods. -/
def withMethods (settings : Settings) (host : Host) (docs : Docs) (r : Registry) (cls : ClassDecl) : ClassDecl :=
  { cls with methods := kept (methodsOf settings host docs r cls.name) }

/-- The events of binding the methods of a class. -/
def methodEvents (settings : Settings) (host : Host) (docs : Docs) (r : Registry) (cls : ClassDecl) : List Event :=
  let outcomes := methodsOf settings host docs r cls.name
  outcomes.map (methodEvent cls.name) ++ [.boundMethods cls.name (kept outcomes).length]

/-- Registers a class; a refused one is reported. -/
def registerClass (r : Registry) (cls : ClassDecl) : Logged Registry :=
  match (Registry.putClass cls).run r with
  | .ok _ r => .silent r
  | .error error r => ⟨r, [.classRefused cls.name error]⟩

/-- Whether an event tells of something that was dropped. -/
def isLoss : Event → Bool
  | .dropped _ | .classRefused .. => true
  | _ => false

/-- The catalog of a dump, and the events of making it. -/
def ofDump (settings : Settings) (host : Host) (docs : Docs) : Logged Catalog :=
  let scope := docs.globalScope?
  let enums := globalEnumsOf host scope
  let constants := looseGlobalsOf host scope
  let globals := Logged.foldSteps registerGlobalEnum .standard enums
  let survey := Logged.foldSteps (Survey.visit settings host docs) ⟨globals.result, []⟩ (visits host settings.rootClass)
  let types := survey.result.registry
  let classes := survey.result.classes
  let registered := Logged.foldSteps registerClass types (classes.map (withMethods settings host docs types))
  let log := globals.log ++ [.groupedGlobals enums.length constants.length] ++ survey.log ++
    classes.flatMap (methodEvents settings host docs types) ++ registered.log
  let skipped := (log.filter isLoss).length
  { result := ⟨registered.result, enums, constants, skipped⟩
    log := log ++ [.catalogued registered.result.newestFirst.length registered.result.enums.length skipped] }

end Catalog

end JuliaStubs
