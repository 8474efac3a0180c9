import JuliaStubs.Proofs.Catalog.Defaults
import JuliaStubs.Proofs.Catalog.Losses
import JuliaStubs.Proofs.Package.Files
import JuliaStubs.Proofs.Source.Stub

/-!
# Optional parameters

Which parameters of a stub may be left out of a call. A dump gives default values without saying for which arguments; they are those of
the last ones, by a count that the binding of the method keeps. So the parameters with a default stand behind the others in each stub,
with the values in their order (`defaults_trail`). A value without a literal leaves no gap in the middle: it drops the method.
-/

namespace JuliaStubs

open Catalog Dump Report Source

/-- The defaults of a method of the catalog, given what the dump reports about the method. -/
structure Catalog.Method.TakesDefaults (info : MethodInfo) (method : Method) : Prop where
  length : method.arguments.length = info.arguments.length
  /-- Of no more values than arguments each goes to one of the last arguments, in their order. -/
  few : info.defaults.length ≤ info.arguments.length →
    ∀ (index : Nat) (argument : Argument), method.arguments[index]? = some argument →
      (argument.default.isSome = true ↔ info.arguments.length - info.defaults.length ≤ index) ∧
        ∀ default : Default, argument.default = some default →
          info.defaults[index - (info.arguments.length - info.defaults.length)]? = some default.value
  /-- Of more values than arguments the first ones are taken. -/
  many : info.arguments.length < info.defaults.length →
    ∀ (index : Nat) (argument : Argument), method.arguments[index]? = some argument →
      ∃ default : Default, argument.default = some default ∧ info.defaults[index]? = some default.value

/-- The parameters of a stub, first those that each call passes and then those that a call may leave out. -/
structure Source.Stub.Splits (stub : Stub) (required optional : List Parameter) : Prop where
  parameters : stub.parameters = required ++ optional
  withoutDefault : ∀ parameter ∈ required, parameter.default = none
  withDefault : ∀ parameter ∈ optional, parameter.default.isSome = true
  /-- So they stand in the signature, behind the receiver. -/
  header : stub.header = "function " ++ stub.routine ++ "(" ++
    ", ".intercalate (stub.receiver.parameter ::
      (required.map fun parameter => parameter.name ++ "::" ++ parameter.type.annotation) ++
      optional.map fun parameter =>
        parameter.name ++ "::" ++ parameter.type.annotation ++ " = " ++ parameter.default.getD "") ++ ")"

namespace Catalog

variable {r : Registry} {realIsDouble : Bool} {host : Host} {doc : Option ClassDoc} {cls : String} {info : MethodInfo} {method : Method}

theorem takesDefaults_methodOf (hbinding : host.binding? cls info.name = info.binding?)
    (h : methodOf r realIsDouble host doc cls info = .ok method) : method.TakesDefaults info := by
  have hvalue : ∀ index argument, method.arguments[index]? = some argument →
      info.arguments.length - info.defaults.length ≤ index → argument.default.map Default.value =
        info.defaults[index - (info.arguments.length - info.defaults.length)]? := by
    intro index argument ha hle
    rw [default_methodOf hbinding h ha, if_pos hle]
  refine { length := length_arguments_methodOf h
           few := fun _ index argument ha => ⟨isSome_default_methodOf hbinding h ha, fun default hd => ?_⟩
           many := fun hlt index argument ha => ?_ }
  · have hle := (isSome_default_methodOf hbinding h ha).mp (by rw [hd, Option.isSome_some])
    rw [← hvalue index argument ha hle, hd, Option.map_some]
  · have hzero : info.arguments.length - info.defaults.length = 0 := by omega
    have hle : info.arguments.length - info.defaults.length ≤ index := by omega
    obtain ⟨default, hd⟩ := Option.isSome_iff_exists.mp ((isSome_default_methodOf hbinding h ha).mpr hle)
    have hvalue := hvalue index argument ha hle
    rw [hd, Option.map_some, hzero, Nat.sub_zero] at hvalue
    exact ⟨default, hd, hvalue.symm⟩

end Catalog

namespace Source

variable {scope : Scope} {cls : ClassDecl} {method : Method} {stub : Stub}

theorem exists_argument_of_parameter (h : stubOf scope cls method = .ok stub) {index : Nat} {parameter : Parameter}
    (hp : stub.parameters[index]? = some parameter) :
    ∃ argument, method.arguments[index]? = some argument ∧ parameter.default = argument.default.map Default.literal := by
  obtain ⟨_, hparameters, _⟩ := stubOf_ok_iff.mp h
  obtain ⟨hi, rfl⟩ := List.getElem?_eq_some_iff.mp hp
  have hlt : index < method.arguments.length := by rwa [hparameters.length_eq]
  exact ⟨_, List.getElem?_eq_getElem hlt, (parameterOf_ok_iff.mp (hparameters.get hlt hi)).2.2⟩

/-- Where the arguments from a place on are those with a default, the parameters of the stub split at that place. -/
theorem splits_stubOf (h : stubOf scope cls method = .ok stub) {place : Nat}
    (hplace : ∀ index argument, method.arguments[index]? = some argument → (argument.default.isSome = true ↔ place ≤ index)) :
    stub.Splits (stub.parameters.take place) (stub.parameters.drop place) := by
  have hrequired : ∀ parameter ∈ stub.parameters.take place, parameter.default = none := by
    intro parameter hp
    obtain ⟨index, hi⟩ := List.mem_iff_getElem?.mp hp
    rw [List.getElem?_take] at hi
    split at hi
    case isFalse => nomatch hi
    rename_i hlt
    obtain ⟨argument, ha, hd⟩ := exists_argument_of_parameter h hi
    have hnot : ¬argument.default.isSome = true := fun hs => Nat.not_le_of_lt hlt ((hplace index argument ha).mp hs)
    rw [hd, Option.not_isSome_iff_eq_none.mp hnot, Option.map_none]
  have hoptional : ∀ parameter ∈ stub.parameters.drop place, parameter.default.isSome = true := by
    intro parameter hp
    obtain ⟨index, hi⟩ := List.mem_iff_getElem?.mp hp
    rw [List.getElem?_drop] at hi
    obtain ⟨argument, ha, hd⟩ := exists_argument_of_parameter h hi
    rw [hd, Option.isSome_map]
    exact (hplace _ argument ha).mpr (Nat.le_add_right _ _)
  refine { parameters := (List.take_append_drop _ _).symm, withoutDefault := hrequired, withDefault := hoptional, header := ?_ }
  have hdeclared : stub.parameters.map Parameter.declaration =
      ((stub.parameters.take place).map fun p => p.name ++ "::" ++ p.type.annotation) ++
        (stub.parameters.drop place).map fun p => p.name ++ "::" ++ p.type.annotation ++ " = " ++ p.default.getD "" := by
    conv_lhs => rw [← List.take_append_drop place stub.parameters, List.map_append]
    congr 1
    · refine List.map_congr_left fun parameter hp => ?_
      rw [Parameter.declaration, hrequired parameter hp]
      exact String.append_empty
    · refine List.map_congr_left fun parameter hp => ?_
      obtain ⟨literal, hl⟩ := Option.isSome_iff_exists.mp (hoptional parameter hp)
      rw [Parameter.declaration, hl, Option.map_some, Option.getD_some, Option.getD_some]
      exact String.append_assoc.symm
  rw [Stub.header, hdeclared]
  rfl

end Source

section Loaded

variable {settings : Settings} {host : Host} {docs : Docs} (hdistinct : host.DistinctMethods) {cls : ClassDecl}
  (hc : cls ∈ (ofDump settings host docs).result.registry.newestFirst)
include hdistinct hc

theorem Catalog.exists_takesDefaults {method : Method} (hm : method ∈ cls.methods) :
    ∃ info ∈ host.methods cls.name, info.name = method.name ∧ method.TakesDefaults info := by
  obtain ⟨info, hi, hok⟩ := exists_outcomeOf_of_mem hc hm
  exact ⟨info, hi, (methodOf_ok hok).1.symm, takesDefaults_methodOf (hdistinct.binding?_of_mem hi) hok⟩

/-- A default value without a literal drops its method. -/
theorem Catalog.not_mem_of_unwritten {info : MethodInfo} (hi : info ∈ host.methods cls.name) {index : Nat} {slot : Slot} {value : Value}
    (hs : info.arguments[index]? = some slot) (hv : info.default? index = some value)
    (hnone : synthesize value (destination (ofDump settings host docs).result.registry (argumentType slot (info.width index)))
      settings.realIsDouble = none) : ∀ method ∈ cls.methods, method.name ≠ info.name := by
  intro method hm hname
  obtain ⟨other, ho, hok⟩ := exists_outcomeOf_of_mem hc hm
  obtain rfl : other = info :=
    List.inj_on_of_nodup_map (hdistinct.nodup_methods cls.name) ho hi ((methodOf_ok hok).1.symm.trans hname)
  have hadmitted := (exists_methodOf_iff (hdistinct.binding?_of_mem ho)).mp ⟨method, hok⟩
  obtain ⟨literal, hl⟩ := hadmitted.defaults index slot value hs hv
  rw [hnone] at hl
  nomatch hl

/-- The parameters that may be left out are as many as there are values, if there are as many arguments. -/
theorem Source.exists_splits {scope : Scope} {stub : Stub} (hs : stub ∈ (ClassFile.stubsOf scope cls).result) :
    ∃ info ∈ host.methods cls.name, stub.method = info.name ∧ ∃ required optional, stub.Splits required optional ∧
      optional.length = min info.defaults.length info.arguments.length := by
  obtain ⟨method, hm, _, hstub⟩ := mem_stubsOf.mp hs
  obtain ⟨info, hi, hok⟩ := exists_outcomeOf_of_mem hc hm
  obtain ⟨_, hparameters, _, hname, _⟩ := stubOf_ok_iff.mp hstub
  refine ⟨info, hi, hname.trans (methodOf_ok hok).1, _, _, splits_stubOf hstub fun index argument ha =>
    isSome_default_methodOf (hdistinct.binding?_of_mem hi) hok ha, ?_⟩
  rw [List.length_drop, ← hparameters.length_eq, length_arguments_methodOf hok]
  omega

end Loaded

/-- Where the names of the methods of a class do not repeat, the default values that a method of the catalog was reported with are those
of its last arguments, and of more values than arguments each argument has one. A method of which one value has no literal is not in
the catalog. So the parameters of each stub that may be left out follow all others, and each value is read at a place that exists. -/
theorem defaults_trail (g : Generator) (host : Host) (docs : Docs) (hdistinct : host.DistinctMethods) :
    ∃ catalog rendered, (g.load host docs).result.catalog = some catalog ∧ (g.load host docs).result.render = .ok rendered ∧
      (∀ cls ∈ catalog.registry.classes, ∀ method ∈ cls.methods,
        ∃ info ∈ host.methods cls.name, info.name = method.name ∧ method.TakesDefaults info) ∧
      (∀ cls ∈ catalog.registry.classes, ∀ info ∈ host.methods cls.name, ∀ index slot value,
        info.arguments[index]? = some slot → info.default? index = some value →
        synthesize value (destination catalog.registry (argumentType slot (info.width index))) g.settings.realIsDouble = none →
        ∀ method ∈ cls.methods, method.name ≠ info.name) ∧
      (∀ file ∈ rendered.result.classFiles, ∀ stub ∈ file.stubs, ∃ info ∈ host.methods file.cls.name,
        stub.method = info.name ∧ ∃ required optional, stub.Splits required optional ∧
          optional.length = min info.defaults.length info.arguments.length) ∧
      ∀ (binding : Binding) (index : Nat), binding.hasDefault index = true →
        binding.firstDefaulted ≤ index ∧ index - binding.firstDefaulted < binding.defaults.length := by
  have hr := reachable_ofDump g.settings host docs
  refine ⟨_, _, rfl, rfl, fun cls hc method hm => ?_, fun cls hc info hi index slot value hs hv hnone => ?_,
    fun file hf stub hs => ?_, fun binding index => Binding.place_of_hasDefault⟩
  · exact exists_takesDefaults hdistinct (Registry.mem_classes.mp hc) hm
  · exact not_mem_of_unwritten hdistinct (Registry.mem_classes.mp hc) hi hs hv hnone
  · obtain ⟨cls, hc, _, rfl⟩ := (mem_classFiles hr).mp hf
    exact exists_splits hdistinct hc hs

namespace OptionalParametersAux

/-- A parameter of an integer type. -/
def count (name : String) : Slot := ⟨name, .int, "", .none⟩

/-- A method without a result. -/
def taking (name : String) (arguments : List Slot) (defaults : List Value) : MethodInfo :=
  ⟨name, .none, .blank, arguments, .unspecified, [], defaults⟩

/-- A class with a method of which one of three arguments has no default, one of more values than arguments, and one of which the
second value has no literal. -/
def host : Host :=
  { classes := [⟨"Object", none, .core, true, true, false, false, [],
        [taking "resize" [count "columns", count "rows", ⟨"keep", .bool, "", .none⟩] [.int 4, .bool true],
          taking "scroll" [count "by"] [.int 1, .int 2],
          taking "tint" [count "row", count "hue"] [.int 0, .unsupported "Color"]], [], []⟩]
    globalConstants := [] }

end OptionalParametersAux

theorem defaults_trail_resize : OptionalParametersAux.host.DistinctMethods ∧
    ((Generator.new .standard).load OptionalParametersAux.host .empty).result.render.map
      (fun rendered => rendered.result.classFiles.flatMap fun file => file.stubs.map Stub.header) =
      .ok ["function resize(self::GodotObject, columns::Int64, rows::Int64 = 4, keep::Bool = true)",
        "function scroll(self::GodotObject, by::Int64 = 1)"] ∧
    ∃ catalog rendered,
      ((Generator.new .standard).load OptionalParametersAux.host .empty).result.catalog = some catalog ∧
      ((Generator.new .standard).load OptionalParametersAux.host .empty).result.render = .ok rendered ∧
      (∀ cls ∈ catalog.registry.classes, ∀ method ∈ cls.methods,
        ∃ info ∈ OptionalParametersAux.host.methods cls.name, info.name = method.name ∧ method.TakesDefaults info) ∧
      (∀ cls ∈ catalog.registry.classes, ∀ info ∈ OptionalParametersAux.host.methods cls.name, ∀ index slot value,
        info.arguments[index]? = some slot → info.default? index = some value →
        synthesize value (destination catalog.registry (argumentType slot (info.width index)))
          (Generator.new .standard).settings.realIsDouble = none →
        ∀ method ∈ cls.methods, method.name ≠ info.name) ∧
      (∀ file ∈ rendered.result.classFiles, ∀ stub ∈ file.stubs, ∃ info ∈ OptionalParametersAux.host.methods file.cls.name,
        stub.method = info.name ∧ ∃ required optional, stub.Splits required optional ∧
          optional.length = min info.defaults.length info.arguments.length) ∧
      ∀ (binding : Binding) (index : Nat), binding.hasDefault index = true →
        binding.firstDefaulted ≤ index ∧ index - binding.firstDefaulted < binding.defaults.length :=
  ⟨by decide, by cbv, defaults_trail (.new .standard) OptionalParametersAux.host .empty (by decide)⟩

end JuliaStubs
