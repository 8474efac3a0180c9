import JuliaStubs.Proofs.Catalog.Reclassed
import JuliaStubs.Proofs.Catalog.Reports
import JuliaStubs.Proofs.Report.Outcomes

/-!
# Catalogs without documentation

What the stages of `ofDump` make of the documentation of a host: texts attached to the entries of a catalog, and nothing else. An entry
with its texts taken away is the one made without documentation, and no text is a reason to drop an entry, to refuse it or to report
something. So the catalog with the texts taken away is the one made without documentation, and so is its log (`ofDump_undocumented`).
-/

namespace JuliaStubs

open Dump Report

namespace Catalog

/-! ## Entries -/

/-- The constant without its documentation. -/
def Constant.undocumented (constant : Constant) : Constant := { constant with doc := none }

/-- The enum without the documentation of its members. -/
def Enum.undocumented (e : Enum) : Enum := { e with members := e.members.map Constant.undocumented }

/-- The split members of an enum without their documentation. -/
def EnumPartition.undocumented (split : EnumPartition) : EnumPartition :=
  ⟨split.canonical.map Constant.undocumented, split.aliases.map (Prod.map Constant.undocumented Constant.undocumented)⟩

/-- The method without its documentation. -/
def Method.undocumented (method : Method) : Method := { method with doc := none }

/-- The property without its documentation. -/
def Property.undocumented (property : Property) : Property := { property with doc := none }

/-- The class without its documentation and that of its members. -/
def ClassDecl.undocumented (cls : ClassDecl) : ClassDecl :=
  { cls with
    doc := none
    enums := cls.enums.map Enum.undocumented
    constants := cls.constants.map Constant.undocumented
    methods := cls.methods.map Method.undocumented
    properties := cls.properties.map Property.undocumented }

theorem headsKept_undocumented : HeadsKept ClassDecl.undocumented := ⟨fun _ => rfl, fun _ => rfl, fun _ => rfl, fun _ => rfl⟩

theorem Enum.isEmpty_undocumented (e : Enum) : e.undocumented.isEmpty = e.isEmpty := List.isEmpty_map

theorem Enum.isNarrow_undocumented (e : Enum) : e.undocumented.isNarrow = e.isNarrow := List.all_map

/-- The members are split by their values. -/
theorem Enum.partitionFrom_undocumented (found members : List Constant) :
    partitionFrom (found.map Constant.undocumented) (members.map Constant.undocumented) =
      (partitionFrom found members).undocumented := by
  induction members generalizing found with
  | nil => rfl
  | cons member rest ih =>
    have hfind : (found.map Constant.undocumented).find? (fun first => first.value == member.undocumented.value) =
        (found.find? fun first => first.value == member.value).map Constant.undocumented := List.find?_map
    rw [List.map_cons, partitionFrom, hfind, partitionFrom]
    cases found.find? fun first => first.value == member.value with
    | some first =>
      dsimp only [Option.map_some]
      rw [ih found]
      rfl
    | none =>
      dsimp only [Option.map_none]
      rw [← List.map_cons, ih (member :: found)]
      rfl

theorem Enum.partition_undocumented (e : Enum) : e.undocumented.partition = e.partition.undocumented :=
  partitionFrom_undocumented [] e.members

end Catalog

/-- The catalog without the documentation of its entries. -/
def Catalog.undocumented (catalog : Catalog) : Catalog :=
  { catalog with
    registry := catalog.registry.mapClasses ClassDecl.undocumented
    globalEnums := catalog.globalEnums.map Enum.undocumented
    globalConstants := catalog.globalConstants.map Constant.undocumented }

namespace Catalog

/-! ## Members -/

section Members

variable (host : Host) (doc : Option ClassDoc) (cls : String)

theorem constantOf_undocumented (name : String) :
    (constantOf host doc cls name).map Constant.undocumented = constantOf host none cls name := by
  rw [constantOf, constantOf]
  cases host.constant? cls name <;> rfl

theorem constantsOf_undocumented (names : List String) :
    (constantsOf host doc cls names).map (Except.map Constant.undocumented) = constantsOf host none cls names := by
  rw [constantsOf, List.map_map, constantsOf]
  exact List.map_congr_left fun name _ => constantOf_undocumented host doc cls name

theorem drops_constantsOf (names : List String) :
    drops (constantsOf host doc cls names) = drops (constantsOf host none cls names) := by
  rw [← constantsOf_undocumented host doc, drops_map]

theorem kept_constantsOf (names : List String) :
    (kept (constantsOf host doc cls names)).map Constant.undocumented = kept (constantsOf host none cls names) := by
  rw [← constantsOf_undocumented host doc, kept_map]

theorem propertiesOf_undocumented :
    (propertiesOf host doc cls).map (Except.map Property.undocumented) = propertiesOf host none cls := by
  rw [propertiesOf, List.map_map, propertiesOf]
  refine List.map_congr_left fun slot _ => ?_
  rw [Function.comp, propertyOf, propertyOf]
  cases host.propertyIndex? cls slot.name <;> rfl

theorem drops_propertiesOf : drops (propertiesOf host doc cls) = drops (propertiesOf host none cls) := by
  rw [← propertiesOf_undocumented host doc, drops_map]

theorem kept_propertiesOf : (kept (propertiesOf host doc cls)).map Property.undocumented = kept (propertiesOf host none cls) := by
  rw [← propertiesOf_undocumented host doc, kept_map]

theorem enumOf_undocumented (info : EnumInfo) : (enumOf host doc cls info).undocumented = enumOf host none cls info := by
  rw [Enum.undocumented, enumOf, kept_constantsOf, enumOf]

theorem enumsOf_undocumented : (enumsOf host doc cls).map Enum.undocumented = enumsOf host none cls := by
  have hof : Enum.undocumented ∘ enumOf host doc cls = enumOf host none cls := funext (enumOf_undocumented host doc cls)
  have hempty : (fun e : Enum => !e.isEmpty) = (fun e : Enum => !e.isEmpty) ∘ Enum.undocumented :=
    funext fun e => by rw [Function.comp, e.isEmpty_undocumented]
  rw [enumsOf, hempty, ← List.filter_map, List.map_map, hof, enumsOf]

/-- What is reported of an enum, and the type that is registered for it, do not depend on its documentation. -/
theorem enterEnum_undocumented : enterEnum host doc cls = enterEnum host none cls := by
  funext r info
  have hregister : registerClassEnum cls r (enumOf host none cls info) = registerClassEnum cls r (enumOf host doc cls info) := by
    rw [← enumOf_undocumented host doc, registerClassEnum, Enum.isEmpty_undocumented, registerClassEnum]
    rfl
  rw [enterEnum, drops_constantsOf, enterEnum, Logged.andThen, Logged.andThen, hregister]

end Members

/-! ## The global scope -/

section Globals

variable (host : Host) (doc : Option ClassDoc)

theorem globalEnumsOf_undocumented : (globalEnumsOf host doc).map Enum.undocumented = globalEnumsOf host none := by
  rw [globalEnumsOf, List.map_map, globalEnumsOf]
  refine List.map_congr_left fun name _ => ?_
  rw [Function.comp, Enum.undocumented, globalEnumOf, List.map_map, globalEnumOf]
  rfl

theorem looseGlobalsOf_undocumented : (looseGlobalsOf host doc).map Constant.undocumented = looseGlobalsOf host none := by
  rw [looseGlobalsOf, List.map_map, looseGlobalsOf]
  rfl

theorem registerGlobals_undocumented (r : Registry) :
    Logged.foldSteps registerGlobalEnum r (globalEnumsOf host doc) =
      Logged.foldSteps registerGlobalEnum r (globalEnumsOf host none) := by
  rw [← globalEnumsOf_undocumented host doc, Logged.foldSteps_map_items]
  rfl

end Globals

/-! ## The survey -/

/-- The survey without the documentation of its classes. -/
def Survey.undocumented (survey : Survey) : Survey := { survey with classes := survey.classes.map ClassDecl.undocumented }

section Stages

variable (settings : Settings) (host : Host) (docs : Docs)

theorem classOf_undocumented (name : String) (parent : Option String) :
    (classOf settings host docs name parent).undocumented = classOf settings host .empty name parent := by
  rw [ClassDecl.undocumented, classOf]
  dsimp only
  rw [enumsOf_undocumented, looseConstantsOf, kept_constantsOf, kept_propertiesOf]
  rfl

/-- A visit enters the same types and reports the same. -/
theorem visit_undocumented (survey : Survey) (visit : Visit) :
    survey.undocumented.visit settings host .empty visit = (survey.visit settings host docs visit).map Survey.undocumented := by
  rw [Survey.visit, Survey.visit]
  cases visit.verdict with
  | excluded why => rfl
  | orphan parent => rfl
  | admitted parent =>
    have hcls := classOf_undocumented settings host docs visit.name parent
    have hdoc : Docs.empty.ofClass? visit.name = none := rfl
    dsimp only
    rw [Survey.enter, Survey.enter, hdoc, looseConstantsOf, looseConstantsOf, enterEnum_undocumented host (docs.ofClass? visit.name),
      drops_propertiesOf host (docs.ofClass? visit.name), drops_constantsOf host (docs.ofClass? visit.name), ← hcls]
    simp only [Logged.map, Survey.undocumented, List.map_append, List.map_cons, List.map_nil, ClassDecl.undocumented, List.length_map]

theorem surveyLogged_undocumented :
    (surveyLogged settings host docs).map Survey.undocumented = surveyLogged settings host .empty := by
  rw [surveyLogged, registerGlobals_undocumented, ← Logged.foldSteps_map _ (visit_undocumented settings host docs), surveyLogged]
  rfl

/-! ## Methods -/

theorem methodOf_undocumented (r : Registry) (doc : Option ClassDoc) (cls : String) (info : MethodInfo) :
    (methodOf r settings.realIsDouble host doc cls info).map Method.undocumented =
      methodOf r settings.realIsDouble host none cls info := by
  rw [methodOf, methodOf]
  cases refusal? cls info (host.binding? cls info.name) with
  | some why => rfl
  | none =>
    dsimp only
    generalize (info.arguments.zipIdx.mapM _ : Except Drop (List Argument)) = arguments
    cases arguments <;> rfl

theorem methodsOf_undocumented (r : Registry) (cls : String) :
    (methodsOf settings host docs r cls).map (Except.map Method.undocumented) = methodsOf settings host .empty r cls := by
  rw [methodsOf, List.map_map, methodsOf]
  exact List.map_congr_left fun info _ => methodOf_undocumented settings host r _ cls info

theorem withMethods_undocumented (r : Registry) (cls : ClassDecl) :
    (withMethods settings host docs r cls).undocumented = withMethods settings host .empty r cls.undocumented := by
  rw [withMethods, ClassDecl.undocumented]
  dsimp only
  rw [← kept_map, methodsOf_undocumented]
  rfl

theorem methodEvents_undocumented (r : Registry) (cls : ClassDecl) :
    methodEvents settings host docs r cls = methodEvents settings host .empty r cls.undocumented := by
  have hevent : methodEvent cls.name ∘ Except.map Method.undocumented = methodEvent cls.name := by
    funext outcome
    cases outcome <;> rfl
  have hname : cls.undocumented.name = cls.name := rfl
  rw [methodEvents, methodEvents, hname, ← methodsOf_undocumented settings host docs, List.map_map, hevent, kept_map, List.length_map]

/-! ## The catalog -/

theorem HeadsKept.registerClass_mapClasses {change : ClassDecl → ClassDecl} (h : HeadsKept change) (r : Registry) (cls : ClassDecl) :
    registerClass (r.mapClasses change) (change cls) = (registerClass r cls).map (Registry.mapClasses · change) := by
  rw [registerClass, h.putClass_mapClasses, h.name, registerClass]
  cases (Registry.putClass cls).run r <;> rfl

/-- Classes are registered alike without their documentation. -/
theorem registerClasses_undocumented (r : Registry) (classes : List ClassDecl) :
    Logged.foldSteps registerClass (r.mapClasses ClassDecl.undocumented) (classes.map ClassDecl.undocumented) =
      (Logged.foldSteps registerClass r classes).map (Registry.mapClasses · ClassDecl.undocumented) := by
  rw [Logged.foldSteps_map_items]
  exact Logged.foldSteps_map (Registry.mapClasses · ClassDecl.undocumented) headsKept_undocumented.registerClass_mapClasses r classes

/-- Documentation leaves no trace in a catalog but texts, and none in its log. -/
theorem ofDump_undocumented : (ofDump settings host docs).map Catalog.undocumented = ofDump settings host .empty := by
  let types := (surveyLogged settings host docs).result.registry
  let classes := (surveyLogged settings host docs).result.classes
  have hglobals := registerGlobals_undocumented host docs.globalScope? .standard
  have henums : globalEnumsOf host none = (globalEnumsOf host docs.globalScope?).map Enum.undocumented :=
    (globalEnumsOf_undocumented host docs.globalScope?).symm
  have hconstants : looseGlobalsOf host none = (looseGlobalsOf host docs.globalScope?).map Constant.undocumented :=
    (looseGlobalsOf_undocumented host docs.globalScope?).symm
  -- no class is registered before the survey is complete
  have htypes : types.mapClasses ClassDecl.undocumented = types := by
    have hnewest : types.newestFirst = [] := (sound_surveyOf settings host docs).newestFirst
    rw [Registry.mapClasses, hnewest, List.map_nil, ← hnewest]
  have hwith : (classes.map ClassDecl.undocumented).map (withMethods settings host .empty types) =
      (classes.map (withMethods settings host docs types)).map ClassDecl.undocumented := by
    rw [List.map_map, List.map_map]
    exact List.map_congr_left fun cls _ => (withMethods_undocumented settings host docs types cls).symm
  have hregistered := registerClasses_undocumented types (classes.map (withMethods settings host docs types))
  rw [htypes, ← hwith] at hregistered
  have hevents : (classes.map ClassDecl.undocumented).flatMap (methodEvents settings host .empty types) =
      classes.flatMap (methodEvents settings host docs types) := by
    rw [List.flatMap_map]
    exact List.flatMap_congr fun cls _ => (methodEvents_undocumented settings host docs types cls).symm
  have hscope : Docs.empty.globalScope? = none := rfl
  unfold ofDump
  dsimp only
  rw [← surveyLogged, ← surveyLogged, ← surveyLogged_undocumented settings host docs, hscope, ← hglobals]
  dsimp only [Logged.map, Survey.undocumented]
  rw [hregistered, hevents, henums, hconstants]
  simp only [Logged.map, Registry.mapClasses, List.length_map]
  rfl

end Stages

end Catalog

end JuliaStubs
