import JuliaStubs.Proofs.Report.Outcomes
import JuliaStubs.Source.Dispatch
import Mathlib.Data.List.Basic

/-!
# Accessors of properties

The accessors of a dispatch, each with the property and the host name of the routine that it is made for (`accessor?`): what it takes
that there is one (`accessor?_eq_some_iff`), where the routine is looked up to (`findMethod_eq_some_iff`), and that both can be read off
it as Julia names (`names_of_accessor?`).
-/

namespace JuliaStubs.Source

open Catalog Report

/-- The accessor for a property and its routine on a class, if it can be called. -/
def accessor? (scope : Scope) (cls : ClassDecl) (values : Nat) (pair : Property × String) : Option Accessor :=
  (accessorOf scope cls pair.1 pair.2 values).toOption

variable {scope : Scope} {cls : ClassDecl} {values : Nat}

theorem result_bindAccessors (pairs : List (Property × String)) :
    (bindAccessors scope cls values pairs).result = pairs.filterMap (accessor? scope cls values) := by
  rw [bindAccessors, List.filterMap_map]
  exact List.filterMap_congr fun _ _ => toOption_mapError _ _

theorem result_dispatchOf : (dispatchOf scope cls).result =
    { tag := cls.tag
      getters := (readable scope.registry cls).filterMap (accessor? scope cls 0)
      setters := (writable scope.registry cls).filterMap (accessor? scope cls 1) } := by
  rw [dispatchOf, result_bindAccessors, result_bindAccessors]

/-- Making a dispatch reports accessors that are left out, and nothing else. -/
theorem mem_log_dispatchOf {event : Event} (h : event ∈ (dispatchOf scope cls).log) :
    ∃ property routine fault, event = .accessorFailed cls.name property routine fault := by
  have hbind : ∀ values pairs, event ∈ (bindAccessors scope cls values pairs).log →
      ∃ property routine fault, event = .accessorFailed cls.name property routine fault := by
    intro values pairs hm
    simp only [bindAccessors, List.mem_filterMap, List.mem_map] at hm
    obtain ⟨_, ⟨⟨property, routine⟩, _, rfl⟩, heq⟩ := hm
    cases ha : accessorOf scope cls property routine values with
    | ok accessor => simp [ha, Except.mapError] at heq
    | error fault =>
      simp only [ha, Except.mapError, Option.some.injEq] at heq
      exact ⟨_, _, _, heq.symm⟩
  exact (List.mem_append.mp h).elim (hbind 0 _) (hbind 1 _)

theorem findMethod_eq_findSome? (name : String) (classes : List ClassDecl) :
    findMethod name classes = classes.findSome? fun level => (level.method? name).map (level, ·) := by
  induction classes with
  | nil => rfl
  | cons level rest ih =>
    rw [findMethod, List.findSome?_cons, ih]
    cases level.method? name <;> rfl

/-- The look-up finds the first method of the name of the first class that has one. -/
theorem findMethod_eq_some_iff {name : String} {classes : List ClassDecl} {owner : ClassDecl} {method : Method} :
    findMethod name classes = some (owner, method) ↔
      (∃ nearer farther, classes = nearer ++ owner :: farther ∧ ∀ level ∈ nearer, ∀ other ∈ level.methods, other.name ≠ name) ∧
        owner.methods.find? (fun other => other.name == name) = some method := by
  have hnone : ∀ level : ClassDecl, (level.method? name).map (level, ·) = none ↔ ∀ other ∈ level.methods, other.name ≠ name := by
    intro level
    rw [Option.map_eq_none_iff, ClassDecl.method?, List.find?_eq_none]
    simp only [beq_iff_eq, ne_eq]
  have hsome : ∀ level : ClassDecl, (level.method? name).map (level, ·) = some (owner, method) ↔
      level = owner ∧ owner.methods.find? (fun other => other.name == name) = some method := by
    intro level
    rw [Option.map_eq_some_iff]
    constructor
    · rintro ⟨_, hm, heq⟩
      obtain ⟨rfl, rfl⟩ := Prod.mk.inj heq
      exact ⟨rfl, hm⟩
    · rintro ⟨rfl, hm⟩
      exact ⟨method, hm, rfl⟩
  rw [findMethod_eq_findSome?, List.findSome?_eq_some_iff]
  simp only [hnone, hsome]
  constructor
  · rintro ⟨nearer, level, farther, hclasses, ⟨rfl, hm⟩, hnearer⟩
    exact ⟨⟨nearer, farther, hclasses, hnearer⟩, hm⟩
  · rintro ⟨⟨nearer, farther, hclasses, hnearer⟩, hm⟩
    exact ⟨nearer, owner, farther, hclasses, ⟨rfl, hm⟩, hnearer⟩

theorem juliaName_of_find? {methods : List Method} {name : String} {method : Method}
    (h : methods.find? (fun other => other.name == name) = some method) : method.juliaName = Naming.identifier name := by
  have hname : method.name = name := by simpa using List.find?_some h
  rw [Method.juliaName, hname]

/-- What makes an accessor that of a property and its routine on a class: the first class of the lineage with the routine is no
singleton, the routine has a stub there that accepts the arguments of the call, and an index is written as a literal. -/
structure Accessor.Calls (accessor : Accessor) (scope : Scope) (cls : ClassDecl) (source : Property) (name : String) (values : Nat)
    (owner : ClassDecl) (method : Method) : Prop where
  /-- No class of the lineage before the owner has a method of the name. -/
  nearest : ∃ nearer farther, scope.registry.lineage cls.name = nearer ++ owner :: farther ∧
    ∀ level ∈ nearer, ∀ other ∈ level.methods, other.name ≠ name
  declared : owner.methods.find? (fun other => other.name == name) = some method
  object : owner.isSingleton = false
  stub : ∃ stub, stubOf scope owner method = .ok stub
  accepts : method.accepts (values + if source.isIndexed then 1 else 0) = true
  property : accessor.property = source.juliaName
  /-- What is called is the declared routine, by its Julia name. -/
  routine : accessor.routine = Naming.identifier name
  index : accessor.index = if source.isIndexed then indexLiteral? scope owner method source.index else none
  indexed : accessor.index.isSome = source.isIndexed

namespace Accessor.Calls

variable {accessor : Accessor} {source : Property} {name : String} {owner : ClassDecl} {method : Method}
  (h : accessor.Calls scope cls source name values owner method)

include h

theorem owner_mem_lineage : owner ∈ scope.registry.lineage cls.name := by
  obtain ⟨nearer, farther, hlineage, _⟩ := h.nearest
  rw [hlineage]
  exact List.mem_append_right _ List.mem_cons_self

theorem method_mem : method ∈ owner.methods := List.mem_of_find?_eq_some h.declared

theorem routine_eq_juliaName : accessor.routine = method.juliaName := h.routine.trans (juliaName_of_find? h.declared).symm

end Accessor.Calls

theorem accessorOf_ok_iff {property : Property} {routine : String} {accessor : Accessor} :
    accessorOf scope cls property routine values = .ok accessor ↔
      ∃ owner method, accessor.Calls scope cls property routine values owner method := by
  have hstub : ∀ owner method, (stubOf scope owner method).toOption.isNone = false ↔ ∃ stub, stubOf scope owner method = .ok stub := by
    intro owner method
    simp only [Option.isNone_eq_false_iff, Option.isSome_iff_exists, toOption_eq_some_iff]
  constructor
  · intro h
    unfold accessorOf at h
    split at h
    · nomatch h
    rename_i owner method hfound
    split at h
    · nomatch h
    rename_i hbound
    simp only [Bool.or_eq_true, not_or, Bool.not_eq_true, hstub] at hbound
    have haccepts : method.accepts (values + if property.isIndexed then 1 else 0) = true := by
      by_contra hno
      rw [Bool.not_eq_true] at hno
      rw [hno, Bool.not_false, if_pos rfl] at h
      nomatch h
    rw [haccepts, Bool.not_true, if_neg Bool.false_ne_true] at h
    obtain ⟨hnearest, hdeclared⟩ := findMethod_eq_some_iff.mp hfound
    have hroutine := juliaName_of_find? hdeclared
    refine ⟨owner, method, ?_⟩
    cases hi : property.isIndexed with
    | false =>
      simp only [hi, Bool.not_false, if_true] at h
      obtain rfl := Except.ok.inj h
      exact ⟨hnearest, hdeclared, hbound.1, hbound.2, haccepts, rfl, hroutine, by rw [hi, if_neg Bool.false_ne_true], hi.symm⟩
    | true =>
      simp only [hi, Bool.not_true, Bool.false_eq_true, if_false] at h
      split at h
      · rename_i literal hliteral
        obtain rfl := Except.ok.inj h
        exact ⟨hnearest, hdeclared, hbound.1, hbound.2, haccepts, rfl, hroutine, by rw [hi, if_pos rfl, hliteral], hi.symm⟩
      · nomatch h
  · rintro ⟨owner, method, hnearest, hdeclared, hobject, hs, haccepts, hproperty, hroutine, hindex, hindexed⟩
    have hfound := findMethod_eq_some_iff.mpr ⟨hnearest, hdeclared⟩
    rw [← juliaName_of_find? hdeclared] at hroutine
    obtain ⟨name, julia, index⟩ := accessor
    obtain rfl : name = _ := hproperty
    obtain rfl : julia = _ := hroutine
    simp only [accessorOf, hfound, hobject, (hstub owner method).mpr hs, haccepts, Bool.or_self, Bool.not_true, Bool.false_eq_true,
      if_false]
    cases hi : property.isIndexed with
    | false =>
      rw [hi, if_neg Bool.false_ne_true] at hindex
      rw [Bool.not_false, if_pos rfl, ← hindex]
    | true =>
      rw [hi, Option.isSome_iff_exists] at hindexed
      obtain ⟨literal, rfl⟩ := hindexed
      rw [hi, if_pos rfl] at hindex
      simp only [Bool.not_true, Bool.false_eq_true, if_false, ← hindex]

theorem accessor?_eq_some_iff {pair : Property × String} {accessor : Accessor} :
    accessor? scope cls values pair = some accessor ↔
      ∃ owner method, accessor.Calls scope cls pair.1 pair.2 values owner method :=
  toOption_eq_some_iff.trans accessorOf_ok_iff

/-- An accessor names its property and its routine. -/
theorem names_of_accessor? {pair : Property × String} {accessor : Accessor} (h : accessor? scope cls values pair = some accessor) :
    accessor.property = pair.1.juliaName ∧ accessor.routine = Naming.identifier pair.2 := by
  obtain ⟨owner, method, hcalls⟩ := accessor?_eq_some_iff.mp h
  exact ⟨hcalls.property, hcalls.routine⟩

end JuliaStubs.Source
