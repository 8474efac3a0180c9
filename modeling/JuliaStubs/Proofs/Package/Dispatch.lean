import JuliaStubs.Proofs.Catalog.Defaults
import JuliaStubs.Proofs.Catalog.Session
import JuliaStubs.Proofs.Package.Loading
import JuliaStubs.Proofs.Package.Stubs

/-!
# Calls of property accessors

Every branch of a dispatch calls a function that is there and that takes the arguments of the call (`accessors_served`). The search for
an accessor looks at methods of the catalog, and the stubs are written elsewhere, class by class. The two agree since the ancestors of
a class with a file have files that are loaded before (`precedes_of_mem_lineage`), since a method that is asked whether it has a stub
is one whose stub is in the file of its class, and since the arguments with a default come last (`accepts_stubOf`).
-/

namespace JuliaStubs

open Catalog Dump LoadOrder Report Source

/-- Whether a stub can be called with a number of arguments after its receiver: it has that many parameters, and each one behind them
has a default. -/
def Source.Stub.Accepts (stub : Stub) (passed : Nat) : Prop :=
  passed ≤ stub.parameters.length ∧ ∀ parameter ∈ stub.parameters.drop passed, parameter.default.isSome = true

/-- An accessor that is made for a property and a host routine. It has an index literal when the property has an index. -/
structure Source.Accessor.For (accessor : Accessor) (pair : Property × String) : Prop where
  property : accessor.property = pair.1.juliaName
  routine : accessor.routine = Naming.identifier pair.2
  index : accessor.index.isSome = true ↔ 0 ≤ pair.1.index.toInt

/-- What serves the call of an accessor in the file of a class: a class of its lineage that has objects, of which the file is the same
or is loaded before, with a stub for objects that has the name of the routine and accepts the arguments. -/
def Package.Serves (package : Package) (r : Registry) (file : ClassFile) (accessor : Accessor) (values : List String) : Prop :=
  ∃ owner ∈ package.classFiles, owner.cls ∈ r.lineage file.cls.name ∧ owner.cls.isSingleton = false ∧
    (owner = file ∨ Precedes package.includeLines (includeLine package.settings.classesDir owner.cls.name)
      (includeLine package.settings.classesDir file.cls.name)) ∧
    ∃ stub ∈ owner.stubs, stub.receiver = .object owner.cls.tag ∧ stub.routine = accessor.routine ∧
      stub.Accepts (accessor.passed values).length

/-! ## Lineages -/

section Lineages

variable {settings : Settings} {r : Registry} {ancestor : ClassDecl}

/-- The ancestors of a class with a file have one. -/
theorem hasFile_of_mem_lineage (hr : ParentsFirst r.newestFirst) :
    ∀ cls ∈ r.newestFirst, (scopeOf settings r).hasFile cls.name = true → ancestor ∈ r.lineage cls.name →
      (scopeOf settings r).hasFile ancestor.name = true := by
  refine hr.descend fun cls hc ih hf ha => ?_
  rcases Registry.mem_lineage_cases hr hc ha with rfl | ⟨parent, hm, hp, ha⟩
  · exact hf
  · exact ih parent hm hp (hasFile_parent hr hc hp hf) ha

/-- An ancestor stands before a class in the load order, by induction from a parent to its children. -/
theorem precedes_of_mem_lineage (hr : r.Reachable) :
    ∀ cls ∈ r.newestFirst, ancestor ∈ r.lineage cls.name →
      ancestor = cls ∨ Precedes (order r r.classes).names ancestor.name cls.name := by
  have h := hr.parentsFirst
  refine h.descend fun cls hc ih ha => ?_
  rcases Registry.mem_lineage_cases h hc ha with rfl | ⟨parent, hm, hp, ha⟩
  · exact Or.inl rfl
  · have hparent : Precedes (order r r.classes).names parent.name cls.name :=
      precedes_of_parent (listing_classes hr) (Registry.mem_classes.mpr hc)
        (List.mem_map_of_mem (Registry.mem_classes.mpr hm)) hp
    rcases ih parent hm hp ha with rfl | hprec
    · exact Or.inr hparent
    · exact Or.inr (hprec.trans (nodup_order (listing_classes hr)) hparent)

end Lineages

/-! ## Calls -/

section Calls

variable {scope : Scope} {cls : ClassDecl} {method : Method}

/-- A stub accepts the calls that its method accepts, when the optional arguments come last. -/
theorem accepts_stubOf {stub : Stub} (hs : stubOf scope cls method = .ok stub) (h : Trailing method.arguments) {passed : Nat} :
    stub.Accepts passed ↔ method.accepts passed = true := by
  obtain ⟨_, hparameters, _⟩ := stubOf_ok_iff.mp hs
  have hdefaults : (∀ parameter ∈ stub.parameters.drop passed, parameter.default.isSome = true) ↔
      ∀ argument ∈ method.arguments.drop passed, argument.default.isSome = true := by
    refine forall_mem_iff_of_forall₂ (List.forall₂_drop passed hparameters) fun argument _ parameter hp => ?_
    rw [(parameterOf_ok_iff.mp hp).2.2, Option.isSome_map]
  rw [Method.accepts_iff h, Stub.Accepts, hparameters.length_eq, hdefaults]

theorem for_of_accessor? {values : Nat} {pair : Property × String} {accessor : Accessor}
    (h : accessor? scope cls values pair = some accessor) : accessor.For pair := by
  obtain ⟨hproperty, hroutine⟩ := names_of_accessor? h
  obtain ⟨_, _, hcalls⟩ := accessor?_eq_some_iff.mp h
  refine ⟨hproperty, hroutine, ?_⟩
  rw [hcalls.indexed, Property.isIndexed, decide_eq_true_eq]

variable {settings : Settings} {host : Host} {docs : Docs}

/-- The methods of a registered class have their defaults at the end, where no name of a method repeats. -/
theorem trailing_of_mem (hdistinct : host.DistinctMethods) (hc : cls ∈ (ofDump settings host docs).result.registry.newestFirst)
    (hm : method ∈ cls.methods) : Trailing method.arguments := by
  obtain ⟨info, hi, hok⟩ := exists_outcomeOf_of_mem hc hm
  exact trailing_methodOf (hdistinct.binding?_of_mem hi) hok

/-- The call of an accessor is served. -/
theorem serves_of_accessor? (hdistinct : host.DistinctMethods) (hc : cls ∈ (ofDump settings host docs).result.registry.newestFirst)
    (hf : (scopeOf settings (ofDump settings host docs).result.registry).hasFile cls.name = true) {values : List String}
    {pair : Property × String} {accessor : Accessor}
    (h : accessor? (scopeOf settings (ofDump settings host docs).result.registry) cls values.length pair = some accessor) :
    (Package.ofCatalog settings (ofDump settings host docs).result).result.Serves (ofDump settings host docs).result.registry
      (fileOf (scopeOf settings (ofDump settings host docs).result.registry) cls) accessor values := by
  have hr := reachable_ofDump settings host docs
  obtain ⟨owner, method, hcalls⟩ := accessor?_eq_some_iff.mp h
  have howner := hcalls.owner_mem_lineage
  have hm := hcalls.method_mem
  obtain ⟨stub, hs⟩ := hcalls.stub
  obtain ⟨_, _, _, hmethod, hreceiver, _⟩ := stubOf_ok_iff.mp hs
  have hoc := Registry.mem_of_mem_lineage howner
  have hof := hasFile_of_mem_lineage hr.parentsFirst cls hc hf howner
  have hbindable : method.isBindable = true := by
    have hm := hm
    rw [← filter_isBindable hoc] at hm
    exact (List.mem_filter.mp hm).2
  have hpassed : (accessor.passed values).length = values.length + if pair.1.isIndexed then 1 else 0 := by
    rw [← hcalls.indexed, Accessor.passed, List.length_append]
    cases accessor.index <;> simp [Nat.add_comm]
  refine ⟨_, (mem_classFiles hr).mpr ⟨owner, hoc, hof, rfl⟩, howner, hcalls.object, ?_, stub, ?_, ?_, ?_, ?_⟩
  · rcases precedes_of_mem_lineage hr cls hc howner with rfl | hprec
    · exact Or.inl rfl
    · exact Or.inr (precedes_includeLines hr hf hof hprec)
  · exact mem_stubsOf.mpr ⟨method, hm, hbindable, hs⟩
  · rw [hreceiver, receiverOf, hcalls.object, if_neg Bool.false_ne_true]
    rfl
  · rw [hcalls.routine_eq_juliaName, Stub.routine, hmethod, Method.juliaName]
  · rw [hpassed]
    exact (accepts_stubOf hs (trailing_of_mem hdistinct hoc hm)).mpr hcalls.accepts

end Calls

/-- Where the names of the methods of a class do not repeat, each branch of a dispatch, as it is written in the file of the class, is
for a property that decides over reading or assigning, with an index literal exactly when the property has an index, and its call is
served: the class or an ancestor, with a file that is not loaded later, has a stub for objects under that name which accepts the index
and the value that are passed. -/
theorem accessors_served (g : Generator) (host : Host) (docs : Docs) (hdistinct : host.DistinctMethods) :
    ∃ catalog rendered, (g.load host docs).result.catalog = some catalog ∧ (g.load host docs).result.render = .ok rendered ∧
      ∀ file ∈ rendered.result.classFiles, file.cls.isSingleton = false → ∃ dispatch, file.dispatch = some dispatch ∧
        rendered.result.Writes file dispatch ∧
        (∀ accessor ∈ dispatch.getters, (∃ pair ∈ readable catalog.registry file.cls, accessor.For pair) ∧
          rendered.result.Serves catalog.registry file accessor []) ∧
        ∀ accessor ∈ dispatch.setters, (∃ pair ∈ writable catalog.registry file.cls, accessor.For pair) ∧
          rendered.result.Serves catalog.registry file accessor ["value"] := by
  have hr := reachable_ofDump g.settings host docs
  refine ⟨_, _, rfl, rfl, fun file hfile hobject => ?_⟩
  obtain ⟨cls, hc, hf, rfl⟩ := (mem_classFiles hr).mp hfile
  have hobject : cls.isSingleton = false := hobject
  have hdispatch := dispatch_fileOf_of_object (scopeOf g.settings (ofDump g.settings host docs).result.registry) hobject
  rw [result_dispatchOf] at hdispatch
  refine ⟨_, hdispatch, Package.writes_of_mem hfile hdispatch rfl, ?_, ?_⟩
  · intro accessor ha
    obtain ⟨pair, hp, ha⟩ := List.mem_filterMap.mp ha
    exact ⟨⟨pair, hp, for_of_accessor? ha⟩, serves_of_accessor? hdistinct hc hf ha⟩
  · intro accessor ha
    obtain ⟨pair, hp, ha⟩ := List.mem_filterMap.mp ha
    exact ⟨⟨pair, hp, for_of_accessor? ha⟩, serves_of_accessor? hdistinct hc hf ha⟩

namespace DispatchAux

/-- A place for a value of some kind. -/
def slot (name : String) (kind : ValueKind) : Slot := ⟨name, kind, "", .none⟩

/-- A class without flags and constants. -/
def member (name : String) (parent : Option String) (properties : List PropertyInfo) (methods : List MethodInfo) : ClassInfo :=
  ⟨name, parent, .core, true, true, false, false, properties, methods, [], []⟩

/-- A getter for the sides of an object that has an optional argument too, and a class below with one side as a property. -/
def host : Host :=
  { classes :=
      [member "Object" none []
          [⟨"get_side", .none, slot "" .int, [slot "side" .int, slot "exact" .bool], .unspecified, [], [.bool false]⟩],
        member "Card" (some "Object") [⟨slot "right" .int, some "get_side", none, 1, false⟩] []]
    globalConstants := [] }

/-- The registry of that dump. -/
def registry : Registry := (ofDump .standard host .empty).result.registry

theorem dispatch_card : (registry.class? "Card").map (fun cls => (dispatchOf (scopeOf .standard registry) cls).result) =
    some ⟨"GodotCard", [⟨"right", "get_side", some "1"⟩], []⟩ := by
  cbv

end DispatchAux

theorem accessors_served_inherited : DispatchAux.host.DistinctMethods ∧
    (DispatchAux.registry.class? "Card").map (fun cls => (dispatchOf (scopeOf .standard DispatchAux.registry) cls).result) =
      some ⟨"GodotCard", [⟨"right", "get_side", some "1"⟩], []⟩ ∧
    ∃ catalog rendered, ((Generator.new .standard).load DispatchAux.host .empty).result.catalog = some catalog ∧
      ((Generator.new .standard).load DispatchAux.host .empty).result.render = .ok rendered ∧
      ∀ file ∈ rendered.result.classFiles, file.cls.isSingleton = false → ∃ dispatch, file.dispatch = some dispatch ∧
        rendered.result.Writes file dispatch ∧
        (∀ accessor ∈ dispatch.getters, (∃ pair ∈ readable catalog.registry file.cls, accessor.For pair) ∧
          rendered.result.Serves catalog.registry file accessor []) ∧
        ∀ accessor ∈ dispatch.setters, (∃ pair ∈ writable catalog.registry file.cls, accessor.For pair) ∧
          rendered.result.Serves catalog.registry file accessor ["value"] :=
  ⟨by decide, DispatchAux.dispatch_card, accessors_served (.new .standard) DispatchAux.host .empty (by decide)⟩

end JuliaStubs
