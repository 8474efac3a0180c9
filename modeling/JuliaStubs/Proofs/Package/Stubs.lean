import JuliaStubs.Proofs.Catalog.Losses
import JuliaStubs.Proofs.Package.Rendering
import JuliaStubs.Proofs.Source.Resolution

/-!
# Methods with a stub

Which reported methods get a stub. Whether a method gets one is decided in two places: the catalog takes the methods that are admitted,
and the files have stubs for those of which source can name all types. A method without a stub is lost in one of the two, and counted
there once (`stubs_exact`).
-/

namespace JuliaStubs

open Catalog Dump Report Source

/-- Whether source can name the types in the signature of a reported method, given which classes have a file. -/
def Dump.MethodInfo.Nameable (r : Registry) (written : String → Prop) (info : MethodInfo) : Prop :=
  ∀ slot ∈ info.arguments ++ [info.result], slot.Nameable r written

/-- What becomes of the reported methods of a class with a file, given which classes have one and which methods are counted as dropped
from the catalog and as omitted from the files. -/
structure Source.ClassFile.Accounts (r : Registry) (realIsDouble : Bool) (written : String → Prop)
    (drops omissions : List (String × String)) (methods : List MethodInfo) (file : ClassFile) : Prop where
  /-- The stubs are sorted by the names of their methods, and no method has two. -/
  ascending : (file.stubs.map Stub.method).Pairwise (· < ·)
  /-- Each stub is that of a reported method that is admitted and of which source can name the types. -/
  reported : ∀ stub ∈ file.stubs, ∃ info ∈ methods, stub.method = info.name ∧
    stub.parameters.map Parameter.name = info.arguments.map (fun slot => Naming.identifier slot.name) ∧
    info.Admitted r realIsDouble ∧ info.Nameable r written
  /-- Each such method has a stub and is not counted. -/
  stubbed : ∀ info ∈ methods, info.Admitted r realIsDouble → info.Nameable r written →
    (∃ stub ∈ file.stubs, stub.method = info.name) ∧
      drops.count (file.cls.name, info.name) = 0 ∧ omissions.count (file.cls.name, info.name) = 0
  /-- A method that is not admitted is counted once as dropped. -/
  dropped : ∀ info ∈ methods, ¬info.Admitted r realIsDouble →
    drops.count (file.cls.name, info.name) = 1 ∧ omissions.count (file.cls.name, info.name) = 0
  /-- An admitted method with a type that source cannot name is counted once as omitted. -/
  omitted : ∀ info ∈ methods, info.Admitted r realIsDouble → ¬info.Nameable r written →
    drops.count (file.cls.name, info.name) = 0 ∧ omissions.count (file.cls.name, info.name) = 1

section Methods

variable {settings : Settings} {host : Host} {docs : Docs}

/-- The stub of a reported method. -/
def stub? (settings : Settings) (host : Host) (docs : Docs) (scope : Scope) (cls : ClassDecl) (info : MethodInfo) : Option Stub :=
  (outcomeOf settings host docs cls.name info).toOption.bind fun method => (stubOf scope cls method).toOption

/-- The class and the name of a reported method that is registered but has no stub. -/
def omittedAs? (settings : Settings) (host : Host) (docs : Docs) (scope : Scope) (cls : ClassDecl) (info : MethodInfo) :
    Option (String × String) :=
  (outcomeOf settings host docs cls.name info).toOption.bind fun method => (omission? scope cls method).bind Event.lostMethod?

variable {scope : Scope} {cls : ClassDecl} {info : MethodInfo}

/-- A reported method has a stub when it is registered and the registered one has. -/
theorem stub?_eq_some_iff {stub : Stub} : stub? settings host docs scope cls info = some stub ↔
    ∃ method, outcomeOf settings host docs cls.name info = .ok method ∧ stubOf scope cls method = .ok stub := by
  simp only [stub?, Option.bind_eq_some_iff, toOption_eq_some_iff]

theorem lostMethod?_of_omission? {method : Method} : (omission? scope cls method).bind Event.lostMethod? =
    if (stubOf scope cls method).toOption.isSome then none else some (cls.name, method.name) := by
  unfold omission?
  cases stubOf scope cls method <;> rfl

theorem eq_of_omittedAs? {entry : String × String} (h : omittedAs? settings host docs scope cls info = some entry) :
    entry = (cls.name, info.name) := by
  obtain ⟨method, hm, hentry⟩ := Option.bind_eq_some_iff.mp h
  rw [lostMethod?_of_omission?] at hentry
  split at hentry
  · nomatch hentry
  · rw [← Option.some.inj hentry, (methodOf_ok (toOption_eq_some_iff.mp hm)).1]

/-- The stubs of a registered class, method by method in the order of their names. -/
theorem result_stubsOf_registered (h : cls ∈ (ofDump settings host docs).result.registry.newestFirst) :
    (ClassFile.stubsOf scope cls).result = (sortedMethods host cls.name).filterMap (stub? settings host docs scope cls) := by
  rw [result_stubsOf, filter_isBindable h, methods_of_mem h, List.filterMap_filterMap]
  rfl

/-- The methods that making the file of a registered class omits. -/
theorem lostMethods_fileEvents (h : cls ∈ (ofDump settings host docs).result.registry.newestFirst) :
    lostMethods (fileEvents scope cls) =
      (sortedMethods host cls.name).filterMap (omittedAs? settings host docs scope cls) := by
  -- what a dispatch reports names routines that it does not call, which are not lost by that
  have hdispatch : lostMethods (if cls.isSingleton then [] else (dispatchOf scope cls).log) = [] := by
    refine List.filterMap_eq_nil_iff.mpr fun event hm => ?_
    split at hm
    · nomatch hm
    · obtain ⟨_, _, _, rfl⟩ := mem_log_dispatchOf hm
      rfl
  rw [fileEvents, lostMethods, List.filterMap_append, ← lostMethods, ← lostMethods, hdispatch, List.append_nil, lostMethods,
    log_stubsOf, filter_isBindable h, methods_of_mem h, List.filterMap_filterMap, List.filterMap_filterMap]
  rfl

/-- A stub names its method and the arguments. -/
theorem names_of_stub? {stub : Stub} (h : stub? settings host docs scope cls info = some stub) :
    stub.method = info.name ∧
      stub.parameters.map Parameter.name = info.arguments.map fun slot => Naming.identifier slot.name := by
  obtain ⟨method, hm, hs⟩ := stub?_eq_some_iff.mp h
  obtain ⟨hname, _, _, harguments⟩ := methodOf_ok hm
  obtain ⟨_, hparameters, _, hmethod, _⟩ := stubOf_ok_iff.mp hs
  have hparameter : method.arguments.map Argument.juliaName = stub.parameters.map Parameter.name :=
    map_eq_of_forall₂ hparameters fun _ _ hp => (parameterOf_ok_iff.mp hp).2.1.symm
  have hargument : (info.arguments.zipIdx.map fun entry => Naming.identifier entry.1.name) =
      method.arguments.map Argument.juliaName :=
    map_eq_of_forall₂ harguments fun _ _ ha => congrArg Naming.identifier ha.1.symm
  have hslot : (info.arguments.zipIdx.map Prod.fst).map (fun slot => Naming.identifier slot.name) =
      info.arguments.map fun slot => Naming.identifier slot.name := by rw [List.zipIdx_map_fst]
  rw [List.map_map] at hslot
  exact ⟨hmethod.trans hname, hparameter.symm.trans (hargument.symm.trans hslot)⟩

/-- A reported method is omitted when it is registered but has no stub. -/
theorem isSome_omittedAs?_iff : (omittedAs? settings host docs scope cls info).isSome = true ↔
    (∃ method, outcomeOf settings host docs cls.name info = .ok method) ∧
      ¬∃ stub, stub? settings host docs scope cls info = some stub := by
  unfold omittedAs? stub?
  cases hm : outcomeOf settings host docs cls.name info with
  | error why => exact iff_of_false Bool.false_ne_true fun h => nomatch h.1
  | ok method =>
    simp only [Except.toOption, Option.bind_some, lostMethod?_of_omission?]
    cases stubOf scope cls method <;> simp

end Methods

section Accounts

variable {settings : Settings} {host : Host} {docs : Docs} (hdistinct : host.DistinctMethods)

/-- The omissions of a package that tell of methods, class by class. -/
theorem lostMethods_ofCatalog (settings : Settings) (host : Host) (docs : Docs) :
    let catalog := (ofDump settings host docs).result
    let scope := scopeOf settings catalog.registry
    lostMethods ((Package.ofCatalog settings catalog).log.filter Package.isOmission) =
      (Package.classesToWrite scope (LoadOrder.order catalog.registry catalog.registry.classes).names).flatMap fun cls =>
        (sortedMethods host cls.name).filterMap (omittedAs? settings host docs scope cls) := by
  have hr := reachable_ofDump settings host docs
  dsimp only
  rw [omissions_ofCatalog hr, lostMethods, List.filterMap_flatMap]
  exact List.flatMap_congr fun cls hc => lostMethods_fileEvents ((mem_classesToWrite hr).mp hc).1

include hdistinct

/-- A reported method of a class with a file is omitted once when it is registered but has no stub, and otherwise not at all. -/
theorem count_omitted {cls : ClassDecl} (hc : cls ∈ (ofDump settings host docs).result.registry.newestFirst)
    (hf : (scopeOf settings (ofDump settings host docs).result.registry).hasFile cls.name = true)
    {info : MethodInfo} (hi : info ∈ host.methods cls.name) :
    (lostMethods ((Package.ofCatalog settings (ofDump settings host docs).result).log.filter Package.isOmission)).count
      (cls.name, info.name) =
      if (omittedAs? settings host docs (scopeOf settings (ofDump settings host docs).result.registry) cls info).isSome
      then 1 else 0 := by
  have hr := reachable_ofDump settings host docs
  rw [lostMethods_ofCatalog]
  exact count_lost (nodup_classesToWrite hr) (fun cls _ => nodup_sortedMethods (hdistinct.nodup_methods cls.name))
    (fun _ _ _ _ _ => eq_of_omittedAs?) ((mem_classesToWrite hr).mpr ⟨hc, hf⟩) ((sortedMethods_perm host cls.name).mem_iff.mpr hi)

theorem exists_outcomeOf_iff {cls : ClassDecl} {info : MethodInfo} (hi : info ∈ host.methods cls.name) :
    (∃ method, outcomeOf settings host docs cls.name info = .ok method) ↔
      info.Admitted (ofDump settings host docs).result.registry settings.realIsDouble :=
  exists_methodOf_iff (hdistinct.binding?_of_mem hi)

/-- A reported method of a class has a stub when it is admitted and source can name its types. -/
theorem exists_stub?_iff {cls : ClassDecl} {info : MethodInfo} (hi : info ∈ host.methods cls.name) :
    (∃ stub, stub? settings host docs (scopeOf settings (ofDump settings host docs).result.registry) cls info = some stub) ↔
      info.Admitted (ofDump settings host docs).result.registry settings.realIsDouble ∧
        info.Nameable (ofDump settings host docs).result.registry fun name =>
          (scopeOf settings (ofDump settings host docs).result.registry).hasFile name = true := by
  have hproper := proper_scopeOf settings host docs
  simp only [stub?_eq_some_iff]
  constructor
  · rintro ⟨stub, method, hm, hs⟩
    have hadmitted := (exists_outcomeOf_iff hdistinct hi).mp ⟨method, hm⟩
    exact ⟨hadmitted, (exists_stubOf_iff hproper hm hadmitted.types).mp ⟨stub, hs⟩⟩
  · rintro ⟨hadmitted, hnameable⟩
    obtain ⟨method, hm⟩ := (exists_outcomeOf_iff hdistinct hi).mpr hadmitted
    obtain ⟨stub, hs⟩ := (exists_stubOf_iff hproper hm hadmitted.types).mpr hnameable
    exact ⟨stub, method, hm, hs⟩

/-- The methods of a class with a file are accounted for. -/
theorem accounts_fileOf {cls : ClassDecl} (hc : cls ∈ (ofDump settings host docs).result.registry.newestFirst)
    (hf : (scopeOf settings (ofDump settings host docs).result.registry).hasFile cls.name = true) :
    let catalog := ofDump settings host docs
    let scope := scopeOf settings catalog.result.registry
    (fileOf scope cls).Accounts catalog.result.registry settings.realIsDouble (fun name => scope.hasFile name = true)
      (lostMethods (catalog.log.filter isLoss))
      (lostMethods ((Package.ofCatalog settings catalog.result).log.filter Package.isOmission)) (host.methods cls.name) := by
  intro catalog scope
  have hmem : ∀ stub, stub ∈ (fileOf scope cls).stubs ↔
      ∃ info ∈ host.methods cls.name, stub? settings host docs scope cls info = some stub := by
    intro stub
    rw [fileOf, result_stubsOf_registered hc, List.mem_filterMap]
    simp only [(sortedMethods_perm host cls.name).mem_iff]
  have hrefused : ∀ info ∈ host.methods cls.name, (refusedAs? settings host docs cls.name info).isSome = true ↔
      ¬info.Admitted catalog.result.registry settings.realIsDouble :=
    fun info hi => isSome_refusedAs?_iff.trans (not_congr (exists_outcomeOf_iff hdistinct hi))
  have homitted : ∀ info ∈ host.methods cls.name, (omittedAs? settings host docs scope cls info).isSome = true ↔
      info.Admitted catalog.result.registry settings.realIsDouble ∧
        ¬info.Nameable catalog.result.registry fun name => scope.hasFile name = true := by
    intro info hi
    rw [isSome_omittedAs?_iff, exists_outcomeOf_iff hdistinct hi, exists_stub?_iff hdistinct hi]
    exact and_congr_right fun ha => not_congr (and_iff_right ha)
  have hdrops := fun info (hi : info ∈ host.methods cls.name) => count_dropped hdistinct hc hi
  have homissions := fun info (hi : info ∈ host.methods cls.name) => count_omitted hdistinct hc hf hi
  refine
    { ascending := ?_
      reported := fun stub hs => ?_
      stubbed := fun info hi ha hn => ?_
      dropped := fun info hi ha => ?_
      omitted := fun info hi ha hn => ?_ }
  · rw [fileOf, result_stubsOf_registered hc, List.pairwise_map, List.pairwise_filterMap]
    refine (ascending_sortedMethods (hdistinct.nodup_methods cls.name)).imp fun hlt stub hs stub' hs' => ?_
    rw [(names_of_stub? hs).1, (names_of_stub? hs').1]
    exact hlt
  · obtain ⟨info, hi, hs⟩ := (hmem stub).mp hs
    obtain ⟨ha, hn⟩ := (exists_stub?_iff hdistinct hi).mp ⟨stub, hs⟩
    exact ⟨info, hi, (names_of_stub? hs).1, (names_of_stub? hs).2, ha, hn⟩
  · obtain ⟨stub, hs⟩ := (exists_stub?_iff hdistinct hi).mpr ⟨ha, hn⟩
    refine ⟨⟨stub, (hmem stub).mpr ⟨info, hi, hs⟩, (names_of_stub? hs).1⟩, ?_, ?_⟩
    · exact (hdrops info hi).trans (if_neg fun h => (hrefused info hi).mp h ha)
    · exact (homissions info hi).trans (if_neg fun h => ((homitted info hi).mp h).2 hn)
  · refine ⟨(hdrops info hi).trans (if_pos ((hrefused info hi).mpr ha)), ?_⟩
    exact (homissions info hi).trans (if_neg fun h => ha ((homitted info hi).mp h).1)
  · refine ⟨(hdrops info hi).trans (if_neg fun h => (hrefused info hi).mp h ha), ?_⟩
    exact (homissions info hi).trans (if_pos ((homitted info hi).mpr ⟨ha, hn⟩))

end Accounts

/-- Where the names of the methods of a class do not repeat, the stubs of each class file are those of the reported methods that are
admitted and of which source can name the types. Each other method is either dropped from the catalog, or admitted and left out of the
files: it is one of the members that are counted there as skipped, and none of those that are counted in the other place. -/
theorem stubs_exact (g : Generator) (host : Host) (docs : Docs) (hdistinct : host.DistinctMethods) :
    ∃ catalog rendered, (g.load host docs).result.catalog = some catalog ∧ (g.load host docs).result.render = .ok rendered ∧
      catalog.skipped = ((g.load host docs).log.filter isLoss).length ∧
      rendered.result.skipped = catalog.skipped + (rendered.log.filter Package.isOmission).length ∧
      ∀ file ∈ rendered.result.classFiles, file.Accounts catalog.registry g.settings.realIsDouble
        (fun name => ∃ other ∈ rendered.result.classFiles, other.cls.name = name)
        (lostMethods ((g.load host docs).log.filter isLoss)) (lostMethods (rendered.log.filter Package.isOmission))
        (host.methods file.cls.name) := by
  let catalog := (ofDump g.settings host docs).result
  let package := Package.ofCatalog g.settings catalog
  have hr : catalog.registry.Reachable := reachable_ofDump g.settings host docs
  have hlog : (package.log ++ [package.result.renderedEvent]).filter Package.isOmission = package.log.filter Package.isOmission := by
    rw [List.filter_append]
    exact List.append_nil _
  have hwritten : (fun name => ∃ other ∈ package.result.classFiles, other.cls.name = name) =
      fun name => (scopeOf g.settings catalog.registry).hasFile name = true :=
    funext fun _ => propext (exists_classFile_iff hr)
  refine ⟨catalog, ⟨package.result, package.log ++ [package.result.renderedEvent]⟩, rfl, rfl, skipped_ofDump, ?_, ?_⟩
  · rw [hlog]
    exact skipped_ofCatalog hr
  · intro file hfile
    obtain ⟨cls, hc, hf, rfl⟩ := (mem_classFiles hr).mp hfile
    rw [hlog, hwritten]
    exact accounts_fileOf hdistinct hc hf

namespace StubsAux

/-- A class below the root. -/
def member (name : String) (partition : Partition) (methods : List MethodInfo) : ClassInfo :=
  ⟨name, some "Object", partition, true, true, false, false, [], methods, [], []⟩

/-- A method with a result of some kind. -/
def giving (name : String) (kind : ValueKind) (className : String) : MethodInfo :=
  ⟨name, .none, ⟨"", kind, className, .none⟩, [], .unspecified, [], []⟩

/-- A class with a method that has a stub, one of an unsupported type and one that gives an object of an editor class. -/
def host : Host :=
  { classes := [⟨"Object", none, .core, true, true, false, false, [], [], [], []⟩,
      member "Alpha" .core [giving "count" .int "", giving "hue" .color "", giving "panel" .object "Panel"],
      member "Panel" .editor []]
    globalConstants := [] }

end StubsAux

theorem stubs_exact_panel : StubsAux.host.DistinctMethods ∧
    lostMethods (((Generator.new .standard).load StubsAux.host .empty).log.filter isLoss) = [("Alpha", "hue")] ∧
    ((Generator.new .standard).load StubsAux.host .empty).result.render.map
      (fun rendered => lostMethods (rendered.log.filter Package.isOmission)) = .ok [("Alpha", "panel")] ∧
    ∃ catalog rendered, ((Generator.new .standard).load StubsAux.host .empty).result.catalog = some catalog ∧
      ((Generator.new .standard).load StubsAux.host .empty).result.render = .ok rendered ∧
      catalog.skipped = (((Generator.new .standard).load StubsAux.host .empty).log.filter isLoss).length ∧
      rendered.result.skipped = catalog.skipped + (rendered.log.filter Package.isOmission).length ∧
      ∀ file ∈ rendered.result.classFiles, file.Accounts catalog.registry (Generator.new .standard).settings.realIsDouble
        (fun name => ∃ other ∈ rendered.result.classFiles, other.cls.name = name)
        (lostMethods (((Generator.new .standard).load StubsAux.host .empty).log.filter isLoss))
        (lostMethods (rendered.log.filter Package.isOmission)) (StubsAux.host.methods file.cls.name) :=
  ⟨by decide, by cbv, by cbv, stubs_exact (.new .standard) StubsAux.host .empty (by decide)⟩

end JuliaStubs
