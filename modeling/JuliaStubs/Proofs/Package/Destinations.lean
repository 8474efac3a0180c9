import JuliaStubs.Proofs.Catalog.Losses
import JuliaStubs.Proofs.Package.Declared
import JuliaStubs.Proofs.Source.Resolution

/-!
# What defaults are written for

A default gets its literal before the first class is registered, by a look-up of its own: an enum is sought among the enum types only,
and any other name that is not builtin is taken for a class. The parameter that the literal stands at is resolved when all types are
known, builtin types and classes first. The two agree on what the parameter is (`defaults_agree`), unless an enum is spelled like a
builtin type or a class.
-/

namespace JuliaStubs

open Catalog Dump Report Source

/-! ## The two look-ups -/

/-- What a default of a parameter of a type is written for. -/
def Catalog.ResolvedType.destination : ResolvedType → Destination
  | .builtin b => .builtin b.kind
  | .enumeration e => .enumeration e.qualified e.isFlags
  | .object cls => .object (ResolvedType.object cls).juliaName

/-- Whether a reference to an enum is spelled like a builtin type or a registered class, which are found in its place. -/
def Catalog.Registry.Shadowed (r : Registry) (ref : TypeRef) : Prop :=
  ref.isEnum = true ∧ (IsBuiltin ref.name ∨ r.hasClass ref.name = true)

namespace Catalog

/-- No two builtin types share a host name. -/
theorem BuiltinKind.ofHostName?_hostName (kind : BuiltinKind) : ofHostName? kind.hostName = some kind := by
  cases kind <;> decide

theorem BuiltinKind.ofHostName?_eq_none {name : String} (h : ¬IsBuiltin name) : ofHostName? name = none :=
  List.find?_eq_none.mpr fun kind hk heq => h ⟨kind, hk, eq_of_beq heq⟩

theorem Registry.hostName_of_builtinNamed? {r : Registry} {name : String} {b : Builtin} (h : r.builtinNamed? name = some b) :
    b.kind.hostName = name := by
  have hname := List.find?_some h
  exact eq_of_beq hname

theorem Registry.kind_of_builtin? {r : Registry} {kind : BuiltinKind} {b : Builtin} (h : r.builtin? kind = some b) :
    b.kind = kind := by
  have hname := congrArg BuiltinKind.ofHostName? (hostName_of_builtinNamed? h)
  rw [BuiltinKind.ofHostName?_hostName, BuiltinKind.ofHostName?_hostName] at hname
  exact Option.some.inj hname

variable {r : Registry} {ref : TypeRef} {type : ResolvedType}

theorem destination_builtin {kind : BuiltinKind} (he : ref.isEnum = false) (hk : kind.hostName = ref.name) :
    destination r ref = .builtin kind := by
  rw [destination, he, ← hk, BuiltinKind.ofHostName?_hostName]
  rfl

theorem destination_object (he : ref.isEnum = false) (hother : ¬IsBuiltin ref.name) : destination r ref = .object ref.name := by
  rw [destination, he, BuiltinKind.ofHostName?_eq_none hother]
  rfl

theorem destination_unknown (he : ref.isEnum = true) (hnone : r.enum? ref.name = none) :
    destination r ref = .builtin .int32 := by
  rw [destination, if_pos he, hnone]

/-- What a reference resolves to is what a default of that reference is written for. -/
theorem destination_of_resolve (hb : r.builtins = Registry.standard.builtins) (hs : ¬r.Shadowed ref)
    (h : r.resolve ref = some type) : destination r ref = type.destination := by
  have hplain : IsBuiltin ref.name ∨ r.hasClass ref.name = true → ref.isEnum = false :=
    fun hname => Bool.eq_false_iff.mpr fun he => hs ⟨he, hname⟩
  simp only [Registry.resolve, Option.or_eq_some_iff, Option.map_eq_some_iff, Option.map_eq_none_iff] at h
  rcases h with ⟨b, hfound, rfl⟩ | ⟨hnone, h⟩
  · have hname := Registry.hostName_of_builtinNamed? hfound
    have hbuiltin : IsBuiltin ref.name := ⟨b.kind, b.kind.mem_all, hname⟩
    exact destination_builtin (hplain (.inl hbuiltin)) hname
  · rcases h with ⟨cls, hfound, rfl⟩ | ⟨-, h⟩
    · have hclass : r.hasClass ref.name = true := Option.isSome_iff_exists.mpr ⟨cls, hfound⟩
      have hother : ¬IsBuiltin ref.name := by
        rw [← isSome_builtinNamed?_iff hb, hnone]
        exact Bool.false_ne_true
      rw [destination_object (hplain (.inr hclass)) hother, ← (Registry.mem_of_class? hfound).2]
      rfl
    · -- neither builtin nor a class: an enum, or an integer in the place of an unknown one
      split at h
      · rename_i he
        simp only [Option.or_eq_some_iff, Option.map_eq_some_iff, Option.map_eq_none_iff] at h
        rcases h with ⟨e, hfound, rfl⟩ | ⟨hunknown, b, hfound, rfl⟩
        · rw [destination, if_pos he, hfound]
          rfl
        · rw [destination_unknown he hunknown, ← Registry.kind_of_builtin? hfound]
          rfl
      · cases h

/-- An enum that is spelled like a builtin type is taken for that type at its parameter, but not by its default. -/
example : Registry.standard.resolve (.enumeration "long") = some (.builtin (.standard .int64)) ∧
    destination .standard (.enumeration "long") = .builtin .int32 := by decide

/-- A 32-bit integer stands in for an unknown enum. -/
theorem resolve_unknown (hb : r.builtins = Registry.standard.builtins) (hs : ¬r.Shadowed ref) (he : ref.isEnum = true)
    (hnone : r.enum? ref.name = none) (h : r.resolve ref = some type) : ∃ b, type = .builtin b ∧ b.kind = .int32 := by
  have hdest := destination_of_resolve hb hs h
  rw [destination_unknown he hnone] at hdest
  cases type with
  | builtin b => exact ⟨b, rfl, (Destination.builtin.inj hdest).symm⟩
  | enumeration e => nomatch hdest
  | object cls => nomatch hdest

end Catalog

/-- The literals of 32-bit integers are those of the integers that fit. -/
theorem Source.synthesize_int32 {value : Value} {realIsDouble : Bool} {literal : String}
    (h : synthesize value (.builtin .int32) realIsDouble = some literal) :
    ∃ n : Int64, value = .int n ∧ Enum.fitsInt32 n = true ∧ literal = "Int32(" ++ toString n.toInt ++ ")" := by
  obtain ⟨made, hmade, rfl⟩ := Option.map_eq_some_iff.mp h
  cases value with
  | int n =>
    have hint : Literal.integer? .int32 n = some made := hmade
    simp only [Literal.integer?, BuiltinKind.range?, Option.ite_none_right_eq_some, Option.some.injEq] at hint
    obtain ⟨hrange, rfl⟩ := hint
    exact ⟨n, rfl, by simpa [Enum.fitsInt32] using hrange, by simp [Literal.render, Literal.renderAll, BuiltinKind.juliaName]⟩
  | _ => cases hmade

/-! ## Defaults and the parameters they stand at -/

/-- What the literal of a default has to be, given the reference of its argument and all types of a run. -/
structure Catalog.Default.Suits (r : Registry) (realIsDouble : Bool) (ref : TypeRef) (default : Default) : Prop where
  /-- It is the literal of the value for what the reference resolves to. -/
  resolved : ∀ type, r.resolve ref = some type → ¬r.Shadowed ref →
    synthesize default.value type.destination realIsDouble = some default.literal
  /-- For an enum that is not registered it is that of a 32-bit integer. -/
  unknown : ref.isEnum = true → r.enum? ref.name = none →
    ∃ n : Int64, default.value = .int n ∧ Enum.fitsInt32 n = true ∧ default.literal = "Int32(" ++ toString n.toInt ++ ")"

/-- What the parameter for an argument has to be. -/
structure Source.Parameter.Carries (r : Registry) (argument : Argument) (parameter : Parameter) : Prop where
  type : r.resolve argument.type = some parameter.type
  default : parameter.default = argument.default.map Default.literal
  /-- A default for an enum that is not registered stands at a parameter that is annotated as a 32-bit integer. -/
  unknown : argument.type.isEnum = true → r.enum? argument.type.name = none → ¬r.Shadowed argument.type →
    ∀ default, argument.default = some default →
      parameter.declaration = argument.juliaName ++ "::Int32 = " ++ default.literal

section OfDump

variable {settings : Settings} {host : Host} {docs : Docs}

theorem suits_ofDump {cls : ClassDecl} (hc : cls ∈ (ofDump settings host docs).result.registry.newestFirst) {method : Method}
    (hm : method ∈ cls.methods) {argument : Argument} (ha : argument ∈ method.arguments) {default : Default}
    (hd : argument.default = some default) :
    default.Suits (ofDump settings host docs).result.registry settings.realIsDouble argument.type := by
  obtain ⟨info, _, hok⟩ := exists_outcomeOf_of_mem hc hm
  have hliteral := synthesize_of_methodOf hok ha hd
  refine { resolved := fun type hr hs => ?_, unknown := fun he hnone => ?_ }
  · rw [← destination_of_resolve (builtins_ofDump settings host docs) hs hr]
    exact hliteral
  · rw [destination_unknown he hnone] at hliteral
    exact synthesize_int32 hliteral

theorem carries_of_parameterOf {scope : Scope} (hb : scope.registry.builtins = Registry.standard.builtins) {cls : ClassDecl}
    {method : Method} {argument : Argument} {parameter : Parameter} (h : parameterOf scope cls method argument = .ok parameter) :
    parameter.Carries scope.registry argument := by
  obtain ⟨htype, hname, hdefault⟩ := parameterOf_ok_iff.mp h
  obtain ⟨hr, _⟩ := resolve_ok_iff.mp htype
  refine { type := hr, default := hdefault, unknown := fun he hnone hs default hd => ?_ }
  obtain ⟨b, hb, hkind⟩ := resolve_unknown hb hs he hnone hr
  have hannotation : parameter.type.annotation = "Int32" := by
    rw [hb]
    exact congrArg BuiltinKind.juliaName hkind
  rw [Parameter.declaration, hname, hannotation, hdefault, hd]
  simp [← String.toList_inj]

end OfDump

/-- Whatever the dump and the settings, the literal of each default is the one for the type that its argument resolves to among all
types of the run, provided that no enum is taken for a builtin type or a class of its name. So it is at each parameter that the files
splice it into. An enum without a registered type is a 32-bit integer on both sides. -/
theorem defaults_agree (g : Generator) (host : Host) (docs : Docs) :
    ∃ catalog rendered, (g.load host docs).result.catalog = some catalog ∧ (g.load host docs).result.render = .ok rendered ∧
      (∀ cls ∈ catalog.registry.classes, ∀ method ∈ cls.methods, ∀ argument ∈ method.arguments, ∀ default,
        argument.default = some default → default.Suits catalog.registry g.settings.realIsDouble argument.type) ∧
      ∀ file ∈ rendered.result.classFiles, ∀ stub ∈ file.stubs, ∃ method ∈ file.cls.methods, stub.method = method.name ∧
        List.Forall₂ (fun argument parameter => parameter.Carries catalog.registry argument) method.arguments stub.parameters := by
  have hr := reachable_ofDump g.settings host docs
  refine ⟨_, _, rfl, rfl, fun cls hc method hm argument ha default hd => ?_, fun file hf stub hs => ?_⟩
  · exact suits_ofDump (Registry.mem_classes.mp hc) hm ha hd
  · obtain ⟨cls, _, _, rfl⟩ := (mem_classFiles hr).mp hf
    obtain ⟨method, hm, _, hstub⟩ := mem_stubsOf.mp hs
    obtain ⟨_, hparameters, _, hname, _⟩ := stubOf_ok_iff.mp hstub
    exact ⟨method, hm, hname, hparameters.imp fun _ _ h => carries_of_parameterOf (builtins_ofDump g.settings host docs) h⟩

end JuliaStubs
