import JuliaStubs.Proofs.Catalog.Losses
import JuliaStubs.Proofs.Package.Rendering
import JuliaStubs.Proofs.Source.Shadowing

/-!
# Inherited properties

The dispatch of a class resolves the properties of its objects as they are inherited (`properties_inherited`): the declarations of the
class come first, then those of its ancestors up to the root, whose own are left out. A routine of a deciding declaration that cannot
be called is reported, and counted among the skipped members, once.
-/

namespace JuliaStubs

open Catalog Report Source

/-! ## Declarations -/

/-- The declarations of a class stand before those that it inherits. -/
theorem declarations_child {r : Registry} (h : ParentsFirst r.newestFirst) {cls : ClassDecl} (hc : cls ∈ r.newestFirst)
    {parent : ClassDecl} (hp : cls.parent = some parent.name) :
    declarations r cls = cls.properties ++ declarations r parent := by
  have hroot : cls.isRoot = false := by rw [ClassDecl.isRoot, hp]; rfl
  rw [declarations, Registry.lineage_of_mem h hc, hp, Option.map_some, Option.getD_some, List.filter_cons_of_pos (by rw [hroot]; rfl),
    List.flatMap_cons, declarations]

theorem declarations_root {r : Registry} (h : ParentsFirst r.newestFirst) {cls : ClassDecl} (hc : cls ∈ r.newestFirst)
    (hp : cls.parent = none) : declarations r cls = [] := by
  have hroot : cls.isRoot = true := by rw [ClassDecl.isRoot, hp]; rfl
  rw [declarations, Registry.lineage_of_mem h hc, hp, Option.map_none, Option.getD_none,
    List.filter_cons_of_neg (by rw [hroot]; exact Bool.false_ne_true), List.filter_nil, List.flatMap_nil]

/-! ## Reports -/

/-- The property and the routine of which an event tells that a class has no branch for them. -/
def Report.Event.failedAccessor? (cls : String) : Event → Option (String × String)
  | .accessorFailed owner property routine _ => if owner = cls then some (property, routine) else none
  | _ => none

/-- The properties and the routines for which a log tells that a class has no branch. -/
def Report.failedAccessors (log : List Event) (cls : String) : List (String × String) := log.filterMap (Event.failedAccessor? cls)

section Reports

variable {scope : Scope} {cls : ClassDecl} {values : Nat}

theorem failedAccessors_append (left right : List Event) (name : String) :
    failedAccessors (left ++ right) name = failedAccessors left name ++ failedAccessors right name :=
  List.filterMap_append

/-- The failed accessors are among the omissions of a package. -/
theorem failedAccessors_filter (log : List Event) (name : String) :
    failedAccessors (log.filter Package.isOmission) name = failedAccessors log name := by
  rw [failedAccessors, List.filterMap_filter, failedAccessors]
  refine List.filterMap_congr fun event _ => ?_
  cases event <;> rfl

/-- Binding accessors reports each pair for which there is none. -/
theorem failedAccessors_bindAccessors (pairs : List (Property × String)) :
    failedAccessors (bindAccessors scope cls values pairs).log cls.name = pairs.filterMap fun pair =>
      if (accessor? scope cls values pair).isSome then none else some (pair.1.name, pair.2) := by
  rw [failedAccessors, bindAccessors]
  dsimp only
  rw [List.filterMap_filterMap, List.filterMap_map]
  refine List.filterMap_congr fun pair _ => ?_
  rw [accessor?, Function.comp_apply]
  cases accessorOf scope cls pair.1 pair.2 values with
  | ok accessor => rfl
  | error fault => exact if_pos rfl

theorem failedAccessors_stubsOf (name : String) : failedAccessors (ClassFile.stubsOf scope cls).log name = [] := by
  refine List.filterMap_eq_nil_iff.mpr fun event hm => ?_
  rw [log_stubsOf] at hm
  obtain ⟨method, _, heq⟩ := List.mem_filterMap.mp hm
  unfold omission? at heq
  split at heq
  · nomatch heq
  · rw [← Option.some.inj heq]
    rfl

/-- Making the file of a class reports no accessors of another one. -/
theorem failedAccessors_fileEvents_other {name : String} (hne : cls.name ≠ name) :
    failedAccessors (fileEvents scope cls) name = [] := by
  refine List.filterMap_eq_nil_iff.mpr fun event hm => ?_
  rcases mem_fileEvents hm with ⟨_, _, rfl⟩ | ⟨_, _, _, rfl⟩
  · rfl
  · exact if_neg hne

/-- Among the events of classes with distinct names those of one class tell of its accessors. -/
theorem failedAccessors_flatMap {classes : List ClassDecl} (hnodup : (classes.map ClassDecl.name).Nodup) (hc : cls ∈ classes) :
    failedAccessors (classes.flatMap (fileEvents scope)) cls.name = failedAccessors (fileEvents scope cls) cls.name := by
  induction classes with
  | nil => nomatch hc
  | cons first rest ih =>
    obtain ⟨hfresh, hrest⟩ := List.nodup_cons.mp hnodup
    rw [List.flatMap_cons, failedAccessors_append]
    rcases List.mem_cons.mp hc with rfl | hc
    · have hothers : failedAccessors (rest.flatMap (fileEvents scope)) cls.name = [] := by
        rw [failedAccessors, List.filterMap_flatMap]
        refine List.flatMap_eq_nil_iff.mpr fun other ho => failedAccessors_fileEvents_other fun heq => hfresh ?_
        exact heq ▸ List.mem_map_of_mem ho
      rw [hothers, List.append_nil]
    · have hne : first.name ≠ cls.name := fun heq => hfresh (heq ▸ List.mem_map_of_mem hc)
      rw [failedAccessors_fileEvents_other hne, List.nil_append, ih hrest hc]

/-- Each event of making the file of a class tells of a method or of an accessor. -/
theorem length_of_fileEvents {events : List Event} (hin : ∀ event ∈ events, event ∈ fileEvents scope cls) :
    events.length = (lostMethods events).length + (failedAccessors events cls.name).length := by
  induction events with
  | nil => rfl
  | cons event rest ih =>
    have ih := ih fun other ho => hin other (List.mem_cons_of_mem _ ho)
    rcases mem_fileEvents (hin event List.mem_cons_self) with ⟨method, fault, rfl⟩ | ⟨property, routine, fault, rfl⟩
    · have hlost : lostMethods (.methodWithoutSource cls.name method fault :: rest) = (cls.name, method) :: lostMethods rest := rfl
      have hfailed : failedAccessors (.methodWithoutSource cls.name method fault :: rest) cls.name =
          failedAccessors rest cls.name := rfl
      rw [hlost, hfailed, List.length_cons, List.length_cons, ih]
      omega
    · have hlost : lostMethods (.accessorFailed cls.name property routine fault :: rest) = lostMethods rest := rfl
      have hfailed : failedAccessors (.accessorFailed cls.name property routine fault :: rest) cls.name =
          (property, routine) :: failedAccessors rest cls.name := List.filterMap_cons_some (if_pos rfl)
      rw [hlost, hfailed, List.length_cons, List.length_cons, ih]
      omega

theorem length_flatMap_fileEvents (classes : List ClassDecl) : (classes.flatMap (fileEvents scope)).length =
    (lostMethods (classes.flatMap (fileEvents scope))).length +
      (classes.map fun cls => (failedAccessors (fileEvents scope cls) cls.name).length).sum := by
  induction classes with
  | nil => rfl
  | cons cls rest ih =>
    have hfirst := @length_of_fileEvents scope cls (fileEvents scope cls) fun _ he => he
    have hlost : lostMethods (fileEvents scope cls ++ rest.flatMap (fileEvents scope)) =
        lostMethods (fileEvents scope cls) ++ lostMethods (rest.flatMap (fileEvents scope)) := List.filterMap_append
    rw [List.flatMap_cons, hlost, List.length_append, List.length_append, List.map_cons, List.sum_cons, ih, hfirst]
    omega

end Reports

/-! ## Dispatches -/

section Dispatches

variable {scope : Scope} {cls : ClassDecl}

/-- What `branchOf?` and `failureOf?` make of the first declarations is what binding makes of the pairs that they give. -/
theorem bindAccessors_firstOfName {candidates : List Property} {routine? : Property → Option String} {values : Nat} :
    let pairs := (firstOfName [] candidates).filterMap fun declaration => (routine? declaration).map (declaration, ·)
    pairs.filterMap (accessor? scope cls values) =
        ((firstOfName [] candidates).filterMap (branchOf? scope cls routine? values)).map Prod.snd ∧
      (pairs.filterMap fun pair => if (accessor? scope cls values pair).isSome then none else some (pair.1.name, pair.2)) =
        (firstOfName [] candidates).filterMap (failureOf? scope cls routine? values) := by
  dsimp only
  rw [List.filterMap_filterMap, List.filterMap_filterMap, List.map_filterMap]
  constructor
  · refine List.filterMap_congr fun declaration _ => ?_
    rw [branchOf?]
    cases routine? declaration with
    | none => rfl
    | some routine => simp [Function.comp_def]
  · refine List.filterMap_congr fun declaration _ => ?_
    rw [failureOf?]
    cases routine? declaration <;> rfl

theorem failedAccessors_fileEvents (hobject : cls.isSingleton = false) : failedAccessors (fileEvents scope cls) cls.name =
    (firstOfName [] (declarations scope.registry cls)).filterMap (failureOf? scope cls Property.getter 0) ++
      (firstOfName [] ((declarations scope.registry cls).filter fun declaration => declaration.setter.isSome)).filterMap
        (failureOf? scope cls Property.setter 1) := by
  rw [fileEvents, hobject, if_neg Bool.false_ne_true, failedAccessors_append, failedAccessors_stubsOf, List.nil_append, dispatchOf,
    failedAccessors_append, failedAccessors_bindAccessors, failedAccessors_bindAccessors]
  exact congrArg₂ _ bindAccessors_firstOfName.2 bindAccessors_firstOfName.2

theorem dispatch_fileOf (hobject : cls.isSingleton = false) : (fileOf scope cls).dispatch = some
    { tag := cls.tag
      getters := ((firstOfName [] (declarations scope.registry cls)).filterMap
        (branchOf? scope cls Property.getter 0)).map Prod.snd
      setters := ((firstOfName [] ((declarations scope.registry cls).filter fun declaration => declaration.setter.isSome)).filterMap
        (branchOf? scope cls Property.setter 1)).map Prod.snd } := by
  rw [dispatch_fileOf_of_object scope hobject, result_dispatchOf]
  exact congrArg some (congrArg₂ _ bindAccessors_firstOfName.1 bindAccessors_firstOfName.1)

/-- The accessors that a package reports for a class with a file are those that making the file reports. -/
theorem failedAccessors_ofCatalog {settings : Settings} {catalog : Catalog} (hr : catalog.registry.Reachable)
    (hc : cls ∈ catalog.registry.newestFirst) (hf : (scopeOf settings catalog.registry).hasFile cls.name = true) :
    failedAccessors (Package.ofCatalog settings catalog).log cls.name =
      failedAccessors (fileEvents (scopeOf settings catalog.registry) cls) cls.name := by
  rw [← failedAccessors_filter, omissions_ofCatalog hr]
  exact failedAccessors_flatMap (nodup_classesToWrite hr) ((mem_classesToWrite hr).mpr ⟨hc, hf⟩)

/-- Each omission of a package is that of a method or of an accessor. -/
theorem length_omissions {settings : Settings} {catalog : Catalog} (hr : catalog.registry.Reachable) :
    let package := Package.ofCatalog settings catalog
    (package.log.filter Package.isOmission).length = (lostMethods (package.log.filter Package.isOmission)).length +
      (package.result.classFiles.map fun file => (failedAccessors package.log file.cls.name).length).sum := by
  intro package
  have hfiles : (package.result.classFiles.map fun file => (failedAccessors package.log file.cls.name).length) =
      (Package.classesToWrite (scopeOf settings catalog.registry)
        (LoadOrder.order catalog.registry catalog.registry.classes).names).map fun cls =>
          (failedAccessors (fileEvents (scopeOf settings catalog.registry) cls) cls.name).length := by
    rw [classFiles_ofCatalog hr, List.map_map]
    refine List.map_congr_left fun cls hc => ?_
    obtain ⟨hm, hf⟩ := (mem_classesToWrite hr).mp hc
    exact congrArg List.length (failedAccessors_ofCatalog hr hm hf)
  rw [hfiles, omissions_ofCatalog hr]
  exact length_flatMap_fileEvents _

end Dispatches

/-- Whatever the dump and the settings, reading and assigning a property of an object resolve as its class inherits properties. A name
has one branch when the first declaration of it, for assigning the first one with a setter, names an accessor that can be called, and
the branch, as it is written in the file of the class, calls that accessor. It has none when the accessor cannot be called, even if a
farther declaration has one that can; the accessor is then reported once, and each report is one skipped member. The lineage is looked
at up to the root and without it, so the root itself has no branches. -/
theorem properties_inherited (g : Generator) (host : Dump.Host) (docs : Dump.Docs) :
    ∃ catalog rendered, (g.load host docs).result.catalog = some catalog ∧ (g.load host docs).result.render = .ok rendered ∧
      (∀ cls ∈ catalog.registry.classes, cls.parent = none → declarations catalog.registry cls = []) ∧
      (∀ cls ∈ catalog.registry.classes, ∀ parent, cls.parent = some parent.name →
        declarations catalog.registry cls = cls.properties ++ declarations catalog.registry parent) ∧
      rendered.result.skipped = catalog.skipped + (lostMethods (rendered.log.filter Package.isOmission)).length +
        (rendered.result.classFiles.map fun file => (failedAccessors rendered.log file.cls.name).length).sum ∧
      ∀ file ∈ rendered.result.classFiles, file.cls.isSingleton = false →
        ∃ dispatch getters setters failedGetters failedSetters, file.dispatch = some dispatch ∧
          rendered.result.Writes file dispatch ∧ dispatch.getters = getters.map Prod.snd ∧ dispatch.setters = setters.map Prod.snd ∧
          failedAccessors rendered.log file.cls.name = failedGetters ++ failedSetters ∧
          Resolves (scopeOf g.settings catalog.registry) file.cls (declarations catalog.registry file.cls) Property.getter 0
            getters failedGetters ∧
          Resolves (scopeOf g.settings catalog.registry) file.cls
            ((declarations catalog.registry file.cls).filter fun declaration => declaration.setter.isSome) Property.setter 1
            setters failedSetters := by
  let catalog := (ofDump g.settings host docs).result
  let package := Package.ofCatalog g.settings catalog
  have hr : catalog.registry.Reachable := reachable_ofDump g.settings host docs
  have hlast : ∀ name, failedAccessors (package.log ++ [package.result.renderedEvent]) name = failedAccessors package.log name :=
    fun name => (failedAccessors_append _ _ name).trans (List.append_nil _)
  refine ⟨catalog, ⟨package.result, package.log ++ [package.result.renderedEvent]⟩, rfl, rfl, fun cls hc hp => ?_,
    fun cls hc parent hp => ?_, ?_, fun file hfile hobject => ?_⟩
  · exact declarations_root hr.parentsFirst (Registry.mem_classes.mp hc) hp
  · exact declarations_child hr.parentsFirst (Registry.mem_classes.mp hc) hp
  · have homissions : (package.log ++ [package.result.renderedEvent]).filter Package.isOmission =
        package.log.filter Package.isOmission := by
      rw [List.filter_append]
      exact List.append_nil _
    dsimp only
    rw [homissions, funext fun file : ClassFile => congrArg List.length (hlast file.cls.name), Nat.add_assoc,
      ← length_omissions hr]
    exact skipped_ofCatalog hr
  · obtain ⟨cls, hc, hf, rfl⟩ := (mem_classFiles hr).mp hfile
    exact ⟨_, _, _, _, _, dispatch_fileOf hobject, Package.writes_of_mem hfile (dispatch_fileOf hobject) rfl, rfl, rfl,
      (hlast _).trans ((failedAccessors_ofCatalog hr hc hf).trans (failedAccessors_fileEvents hobject)),
      resolves_firstOfName, resolves_firstOfName⟩

end JuliaStubs
