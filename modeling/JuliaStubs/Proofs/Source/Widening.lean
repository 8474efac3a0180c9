import JuliaStubs.Proofs.Source.Accessors
import JuliaStubs.Proofs.Source.Stub

/-!
# Wider scopes

What becomes of stubs and dispatches when more classes of the same registry have a file. A reference that could be named means the same
type as before, so a method keeps its stub (`Widens.stubOf`) and a property its accessor (`Widens.accessorOf`). A search for an
accessor ends at the first routine of a name, whether it has a stub or not; that is why a stub that is new can add an accessor but not
take the place of another one.
-/

namespace JuliaStubs.Source

open Catalog Report

/-- Where every result of the first kind is one of the second, the results of the second kind are those of the first and more. -/
theorem filterMap_sublist_filterMap {α β : Type} {few many : α → Option β} {items : List α}
    (h : ∀ item result, few item = some result → many item = some result) : (items.filterMap few).Sublist (items.filterMap many) := by
  induction items with
  | nil => exact .slnil
  | cons item rest ih =>
    cases hf : few item with
    | some result =>
      rw [List.filterMap_cons_some hf, List.filterMap_cons_some (h item result hf)]
      exact ih.cons_cons result
    | none =>
      rw [List.filterMap_cons_none hf]
      cases hm : many item with
      | some result =>
        rw [List.filterMap_cons_some hm]
        exact ih.cons result
      | none =>
        rw [List.filterMap_cons_none hm]
        exact ih

/-- A scope of the same registry in which the classes of another one have a file, and maybe more. -/
structure Scope.Widens (wide scope : Scope) : Prop where
  registry : wide.registry = scope.registry
  realIsDouble : wide.realIsDouble = scope.realIsDouble
  hasFile : ∀ name, scope.hasFile name = true → wide.hasFile name = true

namespace Scope.Widens

variable {wide scope : Scope} (h : wide.Widens scope) {cls : ClassDecl}

include h

theorem canName {type : ResolvedType} (hn : scope.canName type = true) : wide.canName type = true := by
  unfold Scope.canName at hn ⊢
  rw [h.registry]
  split at hn
  · exact h.hasFile _ hn
  · rfl

/-- What could be named can be named, and is the same type. -/
theorem resolve {member : String} {ref : TypeRef} {type : ResolvedType} (ht : scope.resolve cls member ref = .ok type) :
    wide.resolve cls member ref = .ok type := by
  obtain ⟨hr, hn⟩ := resolve_ok_iff.mp ht
  exact resolve_ok_iff.mpr ⟨h.registry ▸ hr, h.canName hn⟩

theorem parameterOf {method : Method} {argument : Argument} {parameter : Parameter}
    (hp : parameterOf scope cls method argument = .ok parameter) : parameterOf wide cls method argument = .ok parameter := by
  obtain ⟨ht, hrest⟩ := parameterOf_ok_iff.mp hp
  exact parameterOf_ok_iff.mpr ⟨h.resolve ht, hrest⟩

/-- A method keeps its stub. -/
theorem stubOf {method : Method} {stub : Stub} (hs : stubOf scope cls method = .ok stub) : stubOf wide cls method = .ok stub := by
  obtain ⟨hresult, hparameters, hrest⟩ := stubOf_ok_iff.mp hs
  exact stubOf_ok_iff.mpr ⟨h.resolve hresult, hparameters.imp fun _ _ => h.parameterOf, hrest⟩

theorem stubsOf : (ClassFile.stubsOf scope cls).result.Sublist (ClassFile.stubsOf wide cls).result := by
  rw [result_stubsOf, result_stubsOf]
  refine filterMap_sublist_filterMap fun method stub hs => ?_
  exact toOption_eq_some_iff.mpr (h.stubOf (toOption_eq_some_iff.mp hs))

theorem indexLiteral? {method : Method} {index : Int32} {literal : String}
    (hl : indexLiteral? scope cls method index = some literal) : indexLiteral? wide cls method index = some literal := by
  simp only [Source.indexLiteral?, Option.bind_eq_bind, Option.bind_eq_some_iff, toOption_eq_some_iff] at hl ⊢
  obtain ⟨argument, ha, type, ht, destination, hd, hl⟩ := hl
  exact ⟨argument, ha, type, h.resolve ht, destination, hd, h.realIsDouble ▸ hl⟩

/-- A property keeps its accessor. -/
theorem accessorOf {property : Property} {routine : String} {values : Nat} {accessor : Accessor}
    (ha : accessorOf scope cls property routine values = .ok accessor) :
    accessorOf wide cls property routine values = .ok accessor := by
  obtain ⟨owner, method, hcalls⟩ := accessorOf_ok_iff.mp ha
  obtain ⟨stub, hstub⟩ := hcalls.stub
  have hindexed := hcalls.indexed
  refine accessorOf_ok_iff.mpr ⟨owner, method,
    { hcalls with
      nearest := h.registry ▸ hcalls.nearest, stub := ⟨stub, h.stubOf hstub⟩, index := ?_ }⟩
  rw [hcalls.index] at hindexed ⊢
  split
  · rename_i hi
    rw [if_pos hi, hi, Option.isSome_iff_exists] at hindexed
    obtain ⟨literal, hliteral⟩ := hindexed
    rw [hliteral, h.indexLiteral? hliteral]
  · rfl

theorem accessor? {values : Nat} {pair : Property × String} {accessor : Accessor}
    (ha : accessor? scope cls values pair = some accessor) : Source.accessor? wide cls values pair = some accessor :=
  toOption_eq_some_iff.mpr (h.accessorOf (toOption_eq_some_iff.mp ha))

/-- The branches of a dispatch stay in their order. -/
theorem dispatchOf : (dispatchOf wide cls).result.tag = (dispatchOf scope cls).result.tag ∧
    (dispatchOf scope cls).result.getters.Sublist (Source.dispatchOf wide cls).result.getters ∧
    (dispatchOf scope cls).result.setters.Sublist (Source.dispatchOf wide cls).result.setters := by
  rw [result_dispatchOf, result_dispatchOf, h.registry]
  exact ⟨rfl, filterMap_sublist_filterMap fun _ _ => h.accessor?, filterMap_sublist_filterMap fun _ _ => h.accessor?⟩

end Scope.Widens

end JuliaStubs.Source
