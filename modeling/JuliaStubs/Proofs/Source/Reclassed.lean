import JuliaStubs.Proofs.Catalog.Removal
import JuliaStubs.Proofs.Package.Files

/-!
# Source of changed classes

What becomes of stubs and dispatches when the classes of a registry are changed and keep their heads. The types of signatures are then
the changed ones (`stubOf_mapClasses`), which read the same in source (`lines_mapClass`). An accessor is the same when the routines of
its name are changed into ones that are called alike (`accessorOf_mapClasses`), and the declarations that decide over a name are the
changed ones when each class changes its properties one by one (`readable_mapClasses`).
-/

namespace JuliaStubs

open Catalog Report Source

/-- A change of classes that concerns their methods alone. -/
def MethodsOnly (change : ClassDecl → ClassDecl) : Prop := ∀ cls, ∃ methods, change cls = { cls with methods }

theorem methodsOnly_without (owner method : String) : MethodsOnly fun cls => cls.without owner method := by
  intro cls
  by_cases h : cls.name = owner
  · subst h
    exact ⟨_, cls.without_self method⟩
  · exact ⟨cls.methods, ClassDecl.without_of_ne h method⟩

/-- The parameter with the class of its type changed. -/
def Source.Parameter.mapClass (change : ClassDecl → ClassDecl) (parameter : Parameter) : Parameter :=
  { parameter with type := parameter.type.mapClass change }

/-- The stub with the classes of its types changed. -/
def Source.Stub.mapClass (change : ClassDecl → ClassDecl) (stub : Stub) : Stub :=
  { stub with parameters := stub.parameters.map (Parameter.mapClass change), result := stub.result.mapClass change }

/-- The scope with the classes of its registry changed. -/
def Source.Scope.mapClasses (scope : Scope) (change : ClassDecl → ClassDecl) : Scope :=
  { scope with registry := scope.registry.mapClasses change }

/-! ## Text -/

namespace Source

/-- Two parameters that read the same in source. -/
structure Parameter.ShowsAs (other parameter : Parameter) : Prop where
  name : other.name = parameter.name
  annotation : other.type.annotation = parameter.type.annotation
  marshaling : other.type.marshaling = parameter.type.marshaling
  default : other.default = parameter.default

theorem Parameter.ShowsAs.symm {other parameter : Parameter} (h : other.ShowsAs parameter) : parameter.ShowsAs other :=
  ⟨h.name.symm, Eq.symm h.annotation, h.marshaling.symm, h.default.symm⟩

theorem Parameter.ShowsAs.trans {first second third : Parameter} (h : first.ShowsAs second) (h' : second.ShowsAs third) :
    first.ShowsAs third :=
  ⟨h.name.trans h'.name, Eq.trans h.annotation h'.annotation, h.marshaling.trans h'.marshaling, h.default.trans h'.default⟩

/-- Stubs that differ in nothing that is shown have the same text. -/
theorem Stub.lines_eq {other stub : Stub} (hcls : other.cls = stub.cls) (hmethod : other.method = stub.method)
    (hreceiver : other.receiver = stub.receiver) (hparameters : List.Forall₂ Parameter.ShowsAs other.parameters stub.parameters)
    (hresult : other.result.marshaling = stub.result.marshaling) (hvoid : other.isVoid = stub.isVoid) (hdoc : other.doc = stub.doc) :
    other.lines = stub.lines := by
  have hdeclarations := map_eq_of_forall₂ hparameters fun p q hp =>
    show p.declaration = q.declaration by rw [Parameter.declaration, hp.name, hp.annotation, hp.default, Parameter.declaration]
  have hconversions := map_eq_of_forall₂ hparameters fun p q hp =>
    show p.conversion = q.conversion by rw [Parameter.conversion, hp.name, hp.marshaling, Parameter.conversion]
  have hannotations := map_eq_of_forall₂ hparameters fun p q hp =>
    show "::" ++ p.type.annotation = "::" ++ q.type.annotation by rw [hp.annotation]
  have hempty : other.parameters.isEmpty = stub.parameters.isEmpty := by
    rw [← List.isEmpty_map (f := Parameter.conversion), hconversions, List.isEmpty_map]
  have hroutine : other.routine = stub.routine := by rw [routine, hmethod, routine]
  have hheader : other.header = stub.header := by rw [header, hroutine, hreceiver, hdeclarations, header]
  have hlookUp : other.lookUp = stub.lookUp := by
    unfold lookUp
    rw [hcls, hmethod]
  have hinstance : other.instanceLines = stub.instanceLines := by
    unfold instanceLines
    rw [hreceiver, hcls]
  have hholder : other.holderLines = stub.holderLines := by rw [holderLines, hvoid, hresult, holderLines]
  have harguments : other.argumentLines = stub.argumentLines := by rw [argumentLines, hempty, hconversions, argumentLines]
  have hcall : other.call = stub.call := by
    unfold call
    rw [hempty, hvoid, hresult, hreceiver]
  have hreturn : other.returnLines = stub.returnLines := by rw [returnLines, hvoid, hresult, returnLines]
  have hsignature : other.signature = stub.signature := by rw [signature, hroutine, hreceiver, hannotations, signature]
  have hdocLines : other.docLines = stub.docLines := by rw [docLines, hdoc, hsignature, docLines]
  rw [lines, hroutine, hheader, bodyLines, hlookUp, hinstance, hholder, harguments, hcall, hreturn, hdocLines, lines, bodyLines]

end Source

/-! ## Scopes -/

namespace Catalog.HeadsKept

variable {change : ClassDecl → ClassDecl} (h : HeadsKept change)

include h

/-- The same classes get a file, and the same are reported to get none. -/
theorem ofRegistry_mapClasses (settings : Settings) (r : Registry) :
    Scope.ofRegistry settings (r.mapClasses change) = (Scope.ofRegistry settings r).map (Scope.mapClasses · change) := by
  have hstep : (fun files cls => admitFile settings.includeEditorApi files (change cls)) = admitFile settings.includeEditorApi := by
    funext files cls
    rw [admitFile, h.parent, h.partition, h.name, admitFile]
  have hclasses : (r.mapClasses change).classes = r.classes.map change := List.map_reverse.symm
  rw [Scope.ofRegistry, hclasses, Logged.foldSteps_map_items, hstep]
  rfl

theorem scopeOf_mapClasses (settings : Settings) (r : Registry) :
    scopeOf settings (r.mapClasses change) = (scopeOf settings r).mapClasses change :=
  congrArg Logged.result (h.ofRegistry_mapClasses settings r)

theorem canName_mapClasses (scope : Scope) (type : ResolvedType) :
    (scope.mapClasses change).canName (type.mapClass change) = scope.canName type := by
  rw [Scope.canName, h.declaringClass?_mapClass, Scope.canName]
  cases type.declaringClass? with
  | none => rfl
  | some name =>
    have hclass : (scope.mapClasses change).registry.class? name = (scope.registry.class? name).map change :=
      h.class?_mapClasses scope.registry name
    rw [Option.bind_some, Option.bind_some, hclass]
    cases scope.registry.class? name with
    | none => rfl
    | some cls => exact congrArg scope.hasFile (h.name cls)

theorem resolveIn_mapClasses (scope : Scope) (owner : ClassDecl) (member : String) (ref : TypeRef) :
    (scope.mapClasses change).resolve (change owner) member ref =
      (scope.resolve owner member ref).map (ResolvedType.mapClass change) := by
  have hresolve : (scope.mapClasses change).registry.resolve ref = (scope.registry.resolve ref).map (ResolvedType.mapClass change) :=
    h.resolve_mapClasses scope.registry ref
  rw [Scope.resolve, Scope.resolve, hresolve, h.name]
  cases scope.registry.resolve ref with
  | none => rfl
  | some type =>
    rw [Option.map_some, Option.filter_some, Option.filter_some, h.canName_mapClasses]
    by_cases hname : scope.canName type = true
    · rw [if_pos hname, if_pos hname]
      rfl
    · rw [if_neg hname, if_neg hname]
      rfl

/-! ## Stubs -/

theorem parameterOf_mapClasses (scope : Scope) (cls : ClassDecl) (method : Method) (argument : Argument) :
    parameterOf (scope.mapClasses change) (change cls) method argument =
      (parameterOf scope cls method argument).map (Parameter.mapClass change) := by
  rw [parameterOf, h.resolveIn_mapClasses, parameterOf]
  cases scope.resolve cls method.name argument.type <;> rfl

theorem receiverOf (cls : ClassDecl) : receiverOf (change cls) = receiverOf cls := by
  rw [Source.receiverOf, h.isSingleton, h.name, h.tag, Source.receiverOf]

/-- The stub of a method, with the classes changed. -/
theorem stubOf_mapClasses (scope : Scope) (cls : ClassDecl) (method : Method) :
    stubOf (scope.mapClasses change) (change cls) method = (stubOf scope cls method).map (Stub.mapClass change) := by
  have hparameters : method.arguments.mapM (parameterOf (scope.mapClasses change) (change cls) method) =
      (method.arguments.mapM (parameterOf scope cls method)).map (List.map (Parameter.mapClass change)) := by
    rw [funext (h.parameterOf_mapClasses scope cls method)]
    exact mapM_map
  rw [stubOf, h.resolveIn_mapClasses, hparameters, h.name, h.receiverOf, stubOf]
  cases scope.resolve cls method.name method.result with
  | error fault => rfl
  | ok result => cases method.arguments.mapM (parameterOf scope cls method) <;> rfl

theorem showsAs_mapClass (parameter : Parameter) : (parameter.mapClass change).ShowsAs parameter where
  name := rfl
  annotation := h.annotation_mapClass parameter.type
  marshaling := h.marshaling_mapClass parameter.type
  default := rfl

/-- The text of a stub tells nothing but the heads of classes. -/
theorem lines_mapClass (stub : Stub) : (stub.mapClass change).lines = stub.lines := by
  have hparameters : List.Forall₂ Parameter.ShowsAs (stub.mapClass change).parameters stub.parameters := by
    rw [Stub.mapClass, List.forall₂_map_left_iff, List.forall₂_same]
    exact fun parameter _ => h.showsAs_mapClass parameter
  exact Stub.lines_eq rfl rfl rfl hparameters (h.marshaling_mapClass _) (ResolvedType.isVoid_mapClass _ _) rfl

end Catalog.HeadsKept

/-! ## Dispatches -/

namespace Source

/-- A change of properties that keeps what accessors are made of. -/
structure AccessKept (alter : Property → Property) : Prop where
  name : ∀ property, (alter property).name = property.name
  index : ∀ property, (alter property).index = property.index
  getter : ∀ property, (alter property).getter = property.getter
  setter : ∀ property, (alter property).setter = property.setter

theorem accessKept_id : AccessKept id := ⟨fun _ => rfl, fun _ => rfl, fun _ => rfl, fun _ => rfl⟩

theorem AccessKept.firstOfName {alter : Property → Property} (h : AccessKept alter) (seen : List String) (properties : List Property) :
    firstOfName seen (properties.map alter) = (Source.firstOfName seen properties).map alter := by
  induction properties generalizing seen with
  | nil => rfl
  | cons property rest ih =>
    rw [List.map_cons, Source.firstOfName, Source.firstOfName, h.name]
    split
    · exact ih seen
    · rw [ih, List.map_cons]

/-- A change of methods that keeps what calls of a method see. -/
structure SignatureKept (alter : Method → Method) : Prop where
  name : ∀ method, (alter method).name = method.name
  result : ∀ method, (alter method).result = method.result
  arguments : ∀ method, (alter method).arguments = method.arguments

theorem signatureKept_id : SignatureKept id := ⟨fun _ => rfl, fun _ => rfl, fun _ => rfl⟩

namespace SignatureKept

variable {alter : Method → Method} (h : SignatureKept alter)

include h

/-- The stub of a method of another documentation. -/
theorem stubOf (scope : Scope) (cls : ClassDecl) (method : Method) :
    stubOf scope cls (alter method) = (Source.stubOf scope cls method).map fun stub => { stub with doc := (alter method).doc } := by
  have hparameter : parameterOf scope cls (alter method) = parameterOf scope cls method := by
    funext argument
    rw [parameterOf, h.name, parameterOf]
  rw [Source.stubOf, h.name, h.result, h.arguments, hparameter, Source.stubOf]
  cases scope.resolve cls method.name method.result with
  | error fault => rfl
  | ok result => cases method.arguments.mapM (parameterOf scope cls method) <;> rfl

theorem accepts (method : Method) (provided : Nat) : (alter method).accepts provided = method.accepts provided := by
  rw [Method.accepts, Method.required, h.arguments, Method.accepts, Method.required]

theorem indexLiteral? (scope : Scope) (owner : ClassDecl) (method : Method) (index : Int32) :
    indexLiteral? scope owner (alter method) index = Source.indexLiteral? scope owner method index := by
  rw [Source.indexLiteral?, h.arguments, h.name, Source.indexLiteral?]

end SignatureKept

/-- The routine of an accessor is found in the same class, changed. -/
theorem findMethod_map {routine : String} {change : ClassDecl → ClassDecl} {alter : Method → Method}
    (hroutine : ∀ cls, (change cls).method? routine = (cls.method? routine).map alter) (classes : List ClassDecl) :
    findMethod routine (classes.map change) = (findMethod routine classes).map (Prod.map change alter) := by
  induction classes with
  | nil => rfl
  | cons level rest ih =>
    rw [List.map_cons, findMethod, findMethod, hroutine]
    cases level.method? routine with
    | none => exact ih
    | some method => rfl

end Source

namespace Catalog.HeadsKept

variable {change : ClassDecl → ClassDecl} (h : HeadsKept change)

include h

section Properties

variable {alter : Property → Property} (hproperties : ∀ cls, (change cls).properties = cls.properties.map alter)

include hproperties

theorem declarations_mapClasses (r : Registry) (cls : ClassDecl) :
    declarations (r.mapClasses change) (change cls) = (declarations r cls).map alter := by
  have hroot : ∀ level : ClassDecl, (change level).isRoot = level.isRoot := fun level => by
    rw [ClassDecl.isRoot, h.parent, ClassDecl.isRoot]
  rw [declarations, h.name, h.lineage_mapClasses, List.filter_map, List.flatMap_map, declarations, List.map_flatMap]
  simp only [Function.comp_def, hroot, hproperties]

theorem readable_mapClasses (halter : AccessKept alter) (r : Registry) (cls : ClassDecl) :
    readable (r.mapClasses change) (change cls) = (readable r cls).map (Prod.map alter id) := by
  rw [readable, h.declarations_mapClasses hproperties, halter.firstOfName, List.filterMap_map, readable, List.map_filterMap]
  refine List.filterMap_congr fun property _ => ?_
  rw [Function.comp, halter.getter]
  cases property.getter <;> rfl

theorem writable_mapClasses (halter : AccessKept alter) (r : Registry) (cls : ClassDecl) :
    writable (r.mapClasses change) (change cls) = (writable r cls).map (Prod.map alter id) := by
  have hwritable : ∀ property, (alter property).setter.isSome = property.setter.isSome := fun property => by rw [halter.setter]
  rw [writable, h.declarations_mapClasses hproperties, List.filter_map, Function.comp_def, funext hwritable, halter.firstOfName,
    List.filterMap_map, writable, List.map_filterMap]
  refine List.filterMap_congr fun property _ => ?_
  rw [Function.comp, halter.setter]
  cases property.setter <;> rfl

end Properties

theorem indexLiteral?_mapClasses (scope : Scope) (owner : ClassDecl) (method : Method) (index : Int32) :
    indexLiteral? (scope.mapClasses change) (change owner) method index = indexLiteral? scope owner method index := by
  have hdestination : ∀ type : ResolvedType, indexDestination? (type.mapClass change) = indexDestination? type := by
    intro type
    cases type <;> rfl
  unfold indexLiteral?
  cases method.arguments.head? with
  | none => rfl
  | some argument =>
    simp only [Option.bind_eq_bind, Option.bind_some, h.resolveIn_mapClasses]
    cases scope.resolve owner method.name argument.type with
    | error fault => rfl
    | ok type =>
      simp only [Except.map, Except.toOption, Option.bind_some, hdestination]
      rfl

/-- An accessor whose routine is called alike in all changed classes is the same. -/
theorem accessorOf_mapClasses {routine : String} {alter : Method → Method} (halter : SignatureKept alter)
    (hroutine : ∀ cls, (change cls).method? routine = (cls.method? routine).map alter) (scope : Scope) (cls : ClassDecl)
    {property other : Property} (hname : other.name = property.name) (hindex : other.index = property.index) (values : Nat) :
    accessorOf (scope.mapClasses change) (change cls) other routine values = accessorOf scope cls property routine values := by
  have hlineage : (scope.mapClasses change).registry.lineage (change cls).name = (scope.registry.lineage cls.name).map change :=
    (congrArg _ (h.name cls)).trans (h.lineage_mapClasses scope.registry cls.name)
  rw [accessorOf, hlineage, findMethod_map hroutine, accessorOf]
  cases findMethod routine (scope.registry.lineage cls.name) with
  | none => rfl
  | some found =>
    obtain ⟨owner, method⟩ := found
    have hstub : (stubOf (scope.mapClasses change) (change owner) (alter method)).toOption.isNone =
        (stubOf scope owner method).toOption.isNone := by
      rw [h.stubOf_mapClasses, halter.stubOf]
      cases stubOf scope owner method <;> rfl
    have hliteral : indexLiteral? (scope.mapClasses change) (change owner) (alter method) property.index =
        indexLiteral? scope owner method property.index := by
      rw [h.indexLiteral?_mapClasses, halter.indexLiteral?]
    have hjuliaName : (alter method).juliaName = method.juliaName := congrArg Naming.identifier (halter.name method)
    simp only [Option.map_some, Prod.map, h.isSingleton, hstub, halter.accepts, hliteral, hjuliaName, Property.isIndexed, hindex,
      Property.juliaName, hname]
    rfl

/-- The accessors of properties are bound alike, and the same are reported to be left out. -/
theorem bindAccessors_mapClasses {alterProperty : Property → Property} (hproperty : AccessKept alterProperty)
    {alterMethod : Method → Method} (hmethod : SignatureKept alterMethod)
    (hroutine : ∀ routine cls, (change cls).method? routine = (cls.method? routine).map alterMethod) (scope : Scope) (cls : ClassDecl)
    (values : Nat) (pairs : List (Property × String)) :
    bindAccessors (scope.mapClasses change) (change cls) values (pairs.map (Prod.map alterProperty id)) =
      bindAccessors scope cls values pairs := by
  have houtcome : ∀ pair : Property × String,
      (accessorOf (scope.mapClasses change) (change cls) (alterProperty pair.1) pair.2 values).mapError
          (Event.accessorFailed (change cls).name (alterProperty pair.1).name pair.2) =
        (accessorOf scope cls pair.1 pair.2 values).mapError (Event.accessorFailed cls.name pair.1.name pair.2) := by
    intro pair
    rw [h.accessorOf_mapClasses hmethod (hroutine pair.2) scope cls (hproperty.name pair.1) (hproperty.index pair.1), h.name,
      hproperty.name]
  rw [bindAccessors, List.map_map, bindAccessors]
  simp only [Function.comp_def, Prod.map, id, houtcome]

/-! ## Files -/

/-- The parent of a class keeps its tag and its file. -/
theorem parentTagOf_mapClasses (scope : Scope) (cls : ClassDecl) :
    ClassFile.parentTagOf (scope.mapClasses change) (change cls) = ClassFile.parentTagOf scope cls := by
  have hclass : ∀ name, (scope.mapClasses change).registry.class? name = (scope.registry.class? name).map change :=
    h.class?_mapClasses scope.registry
  have hfile : ∀ name, (scope.mapClasses change).hasFile name = scope.hasFile name := fun _ => rfl
  rw [ClassFile.parentTagOf, h.parent, h.name, ClassFile.parentTagOf]
  cases cls.parent with
  | none => rfl
  | some name =>
    dsimp only
    rw [hclass]
    cases scope.registry.class? name with
    | none => rfl
    | some parent =>
      rw [Option.map_some, Option.filter_some, Option.filter_some, h.name, hfile]
      by_cases hf : scope.hasFile parent.name = true
      · rw [if_pos hf, if_pos hf]
        exact congrArg (fun tag => Except.ok (some tag)) (h.tag parent)
      · rw [if_neg hf, if_neg hf]

end Catalog.HeadsKept

/-! ## Other methods -/

namespace MethodsOnly

variable {change : ClassDecl → ClassDecl} (h : MethodsOnly change)

include h

theorem heads : HeadsKept change where
  name := fun cls => by
    obtain ⟨_, hc⟩ := h cls
    rw [hc]
  parent := fun cls => by
    obtain ⟨_, hc⟩ := h cls
    rw [hc]
  partition := fun cls => by
    obtain ⟨_, hc⟩ := h cls
    rw [hc]
  isSingleton := fun cls => by
    obtain ⟨_, hc⟩ := h cls
    rw [hc]

theorem properties (cls : ClassDecl) : (change cls).properties = cls.properties.map id := by
  obtain ⟨_, hc⟩ := h cls
  rw [hc, List.map_id]

theorem readable_mapClasses (r : Registry) (cls : ClassDecl) : readable (r.mapClasses change) (change cls) = readable r cls := by
  rw [h.heads.readable_mapClasses h.properties accessKept_id, Prod.map_id, List.map_id]

theorem writable_mapClasses (r : Registry) (cls : ClassDecl) : writable (r.mapClasses change) (change cls) = writable r cls := by
  rw [h.heads.writable_mapClasses h.properties accessKept_id, Prod.map_id, List.map_id]

theorem typeLines_fileOf (scope other : Scope) (cls : ClassDecl) :
    (fileOf other (change cls)).typeLines = (fileOf scope cls).typeLines := by
  obtain ⟨_, hc⟩ := h cls
  rw [hc]
  rfl

theorem infoLines_fileOf (scope other : Scope) (cls : ClassDecl) :
    (fileOf other (change cls)).infoLines = (fileOf scope cls).infoLines := by
  obtain ⟨_, hc⟩ := h cls
  rw [hc]
  rfl

end MethodsOnly

end JuliaStubs
