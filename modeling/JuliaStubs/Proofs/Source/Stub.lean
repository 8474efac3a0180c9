import JuliaStubs.Proofs.Catalog.Registration
import JuliaStubs.Proofs.Report.Outcomes
import JuliaStubs.Source.ClassFile

/-!
# Types of stubs

Where the types of a stub come from: each of them is what the registry makes of a reference in the signature of the method, and a file
can name it (`stubOf_ok_iff`).
-/

namespace JuliaStubs.Source

open Catalog Report

/-- What a registry makes of a reference is one of its types. -/
theorem mem_of_resolve {r : Registry} {ref : TypeRef} {type : ResolvedType} (h : r.resolve ref = some type) :
    match type with
    | .builtin b => b ∈ r.builtins
    | .enumeration e => e ∈ r.enums
    | .object cls => cls ∈ r.newestFirst := by
  simp only [Registry.resolve, Option.or_eq_some_iff, Option.map_eq_some_iff] at h
  rcases h with ⟨b, hb, rfl⟩ | ⟨-, ⟨cls, hc, rfl⟩ | ⟨-, h⟩⟩
  · exact List.mem_of_find?_eq_some hb
  · exact (Registry.mem_of_class? hc).1
  · split at h
    · simp only [Option.or_eq_some_iff, Option.map_eq_some_iff] at h
      rcases h with ⟨e, he, rfl⟩ | ⟨-, b, hb, rfl⟩
      · exact List.mem_of_find?_eq_some he
      · exact List.mem_of_find?_eq_some hb
    · nomatch h

variable {scope : Scope} {cls : ClassDecl}

/-- A reference of a member is resolved to what the registry makes of it, if a file can name that. -/
theorem resolve_ok_iff {member : String} {ref : TypeRef} {type : ResolvedType} :
    scope.resolve cls member ref = .ok type ↔ scope.registry.resolve ref = some type ∧ scope.canName type = true := by
  unfold Scope.resolve
  cases hr : scope.registry.resolve ref with
  | none => simp
  | some found =>
    rw [Option.filter_some]
    by_cases hn : scope.canName found = true
    · simp only [hn, if_true, Except.ok.injEq, Option.some.injEq]
      exact ⟨fun h => ⟨h, h ▸ hn⟩, And.left⟩
    · simp only [hn, Bool.false_eq_true, if_false, reduceCtorEq, Option.some.injEq, false_iff, not_and]
      rintro rfl
      exact hn

theorem parameterOf_ok_iff {method : Method} {argument : Argument} {parameter : Parameter} :
    parameterOf scope cls method argument = .ok parameter ↔
      scope.resolve cls method.name argument.type = .ok parameter.type ∧ parameter.name = argument.juliaName ∧
        parameter.default = argument.default.map Default.literal := by
  obtain ⟨name, type, default⟩ := parameter
  rw [parameterOf, bind_ok_iff]
  constructor
  · rintro ⟨found, hf, heq⟩
    obtain ⟨rfl, rfl, rfl⟩ := Parameter.mk.inj (Except.ok.inj heq)
    exact ⟨hf, rfl, rfl⟩
  · rintro ⟨ht, rfl, rfl⟩
    exact ⟨type, ht, rfl⟩

/-- A method has a stub when every type of its signature can be named; the stub takes these types in their order. -/
theorem stubOf_ok_iff {method : Method} {stub : Stub} :
    stubOf scope cls method = .ok stub ↔
      scope.resolve cls method.name method.result = .ok stub.result ∧
        List.Forall₂ (fun argument parameter => parameterOf scope cls method argument = .ok parameter) method.arguments
          stub.parameters ∧
        stub.cls = cls.name ∧ stub.method = method.name ∧ stub.receiver = receiverOf cls ∧ stub.doc = method.doc := by
  obtain ⟨owner, name, receiver, parameters, result, doc⟩ := stub
  rw [← mapM_ok_iff]
  simp only [stubOf, bind_ok_iff]
  constructor
  · rintro ⟨found, hf, taken, ht, heq⟩
    obtain ⟨rfl, rfl, rfl, rfl, rfl, rfl⟩ := Stub.mk.inj (Except.ok.inj heq)
    exact ⟨hf, ht, rfl, rfl, rfl, rfl⟩
  · rintro ⟨hf, ht, rfl, rfl, rfl, rfl⟩
    exact ⟨result, hf, parameters, ht, rfl⟩

theorem result_stubsOf : (ClassFile.stubsOf scope cls).result =
    (cls.methods.filter Method.isBindable).filterMap fun method => (stubOf scope cls method).toOption := by
  rw [ClassFile.stubsOf, List.filterMap_map]
  exact List.filterMap_congr fun _ _ => toOption_mapError _ _

/-- The stubs of a class are those of its methods that can be called on an object. -/
theorem mem_stubsOf {stub : Stub} :
    stub ∈ (ClassFile.stubsOf scope cls).result ↔
      ∃ method ∈ cls.methods, method.isBindable = true ∧ stubOf scope cls method = .ok stub := by
  simp only [result_stubsOf, List.mem_filterMap, List.mem_filter, toOption_eq_some_iff, and_assoc]

/-- The report that a method has no stub. -/
def omission? (scope : Scope) (cls : ClassDecl) (method : Method) : Option Event :=
  match stubOf scope cls method with
  | .ok _ => none
  | .error fault => some (.methodWithoutSource cls.name method.name fault)

theorem log_stubsOf : (ClassFile.stubsOf scope cls).log = (cls.methods.filter Method.isBindable).filterMap (omission? scope cls) := by
  unfold ClassFile.stubsOf
  dsimp only
  rw [List.filterMap_map]
  refine List.filterMap_congr fun method _ => ?_
  rw [omission?, Function.comp_apply]
  cases stubOf scope cls method <;> rfl

/-- Every type that a stub takes or returns comes from the signature of a method of its class. -/
theorem resolve_of_mem_stubsOf {stub : Stub} (h : stub ∈ (ClassFile.stubsOf scope cls).result) {type : ResolvedType}
    (ht : type ∈ stub.result :: stub.parameters.map Parameter.type) :
    ∃ method ∈ cls.methods, ∃ ref, (ref = method.result ∨ ∃ argument ∈ method.arguments, ref = argument.type) ∧
      scope.registry.resolve ref = some type ∧ scope.canName type = true := by
  obtain ⟨method, hm, _, hs⟩ := mem_stubsOf.mp h
  obtain ⟨hresult, hparameters, _⟩ := stubOf_ok_iff.mp hs
  refine ⟨method, hm, ?_⟩
  rcases List.mem_cons.mp ht with rfl | ht
  · exact ⟨method.result, Or.inl rfl, resolve_ok_iff.mp hresult⟩
  · obtain ⟨parameter, hp, rfl⟩ := List.mem_map.mp ht
    obtain ⟨argument, ha, hok⟩ := exists_of_forall₂ hparameters hp
    exact ⟨argument.type, Or.inr ⟨argument, ha, rfl⟩, resolve_ok_iff.mp (parameterOf_ok_iff.mp hok).1⟩

end JuliaStubs.Source
