import JuliaStubs.Catalog.OfDump
import JuliaStubs.Proofs.Catalog.Registration
import JuliaStubs.Proofs.Catalog.Traversal
import JuliaStubs.Proofs.Report.Logged

/-!
# The registry of a dump

What the stages of `ofDump` leave in the registry. Its classes are the admitted ones in the order of their visits, with their methods,
none refused (`registered_ofDump`), so that a session leads to it (`reachable_ofDump`); its enum types are companions of global enums
and of enums of its classes. What later stages rely on is kept together in `Sound`.
-/

namespace JuliaStubs.Catalog

open Dump Report

section Stages

variable (settings : Settings) (host : Host) (docs : Docs)

/-- The class that a visit adds to the survey. -/
def admittedClass? (visit : Visit) : Option ClassDecl :=
  match visit.verdict with
  | .admitted parent => some (classOf settings host docs visit.name parent)
  | _ => none

/-- The admitted classes without their methods, in the order of their visits. -/
def surveyed : List ClassDecl := (visits host settings.rootClass).filterMap (admittedClass? settings host docs)

/-- The survey of a dump after the last visit. -/
def surveyOf : Survey :=
  let globals := Logged.foldSteps registerGlobalEnum .standard (globalEnumsOf host docs.globalScope?)
  (Logged.foldSteps (Survey.visit settings host docs) ⟨globals.result, []⟩ (visits host settings.rootClass)).result

/-- The classes of a dump as they are registered. -/
def populated : List ClassDecl :=
  (surveyed settings host docs).map (withMethods settings host docs (surveyOf settings host docs).registry)

end Stages

variable {settings : Settings} {host : Host} {docs : Docs}

/-! ## Classes -/

theorem classes_visit (survey : Survey) (visit : Visit) :
    (survey.visit settings host docs visit).result.classes =
      survey.classes ++ (admittedClass? settings host docs visit).toList := by
  unfold Survey.visit admittedClass?
  split <;> simp [Survey.enter, *]

theorem classes_foldSteps_visit (survey : Survey) (visits : List Visit) :
    (Logged.foldSteps (Survey.visit settings host docs) survey visits).result.classes =
      survey.classes ++ visits.filterMap (admittedClass? settings host docs) := by
  induction visits generalizing survey with
  | nil => simp [Logged.foldSteps, Logged.silent]
  | cons visit rest ih =>
    rw [Logged.foldSteps, Logged.andThen, ih, classes_visit, List.append_assoc]
    congr 1
    rw [List.filterMap_cons]
    cases admittedClass? settings host docs visit <;> rfl

theorem classes_surveyOf : (surveyOf settings host docs).classes = surveyed settings host docs := by
  rw [surveyOf, classes_foldSteps_visit]
  rfl

theorem name_of_admittedClass? {visit : Visit} {cls : ClassDecl} (h : admittedClass? settings host docs visit = some cls) :
    visit.verdict = .admitted cls.parent ∧ cls = classOf settings host docs visit.name cls.parent := by
  unfold admittedClass? at h
  split at h
  · rename_i parent hv
    obtain rfl := Option.some.inj h
    exact ⟨hv, rfl⟩
  · nomatch h

/-- Visits that are in order add classes in order. -/
theorem Grounded.parentsFirst {admitted : List String} {visits : List Visit} (h : Grounded admitted visits)
    {older : List ClassDecl} (holder : ParentsFirst older) (hnames : older.map ClassDecl.name = admitted) :
    ParentsFirst ((visits.filterMap (admittedClass? settings host docs)).reverse ++ older) := by
  induction h generalizing older with
  | nil => exact holder
  | @cons admitted visit rest hvisit _ ih =>
    cases hc : admittedClass? settings host docs visit with
    | none =>
      rw [List.filterMap_cons_none hc]
      refine ih holder (hnames.trans ?_)
      rw [Traversal.admittedAfter]
      cases hv : visit.verdict with
      | excluded why => rfl
      | orphan parent => rfl
      | admitted parent =>
        rw [admittedClass?, hv] at hc
        cases hc
    | some cls =>
      rw [List.filterMap_cons_some hc, List.reverse_cons, List.append_assoc, List.singleton_append]
      obtain ⟨hv, hcls⟩ := name_of_admittedClass? hc
      have hname : cls.name = visit.name := congrArg ClassDecl.name hcls
      obtain ⟨hnew, hparent⟩ := hvisit cls.parent hv
      refine ih (.cons ?_ ?_ holder) ?_
      · rw [hnames, hname]
        exact hnew
      · rw [hnames]
        exact hparent
      · rw [Traversal.admittedAfter, hv, List.map_cons, hnames, hname]

theorem parentsFirst_populated (settings : Settings) (host : Host) (docs : Docs) :
    ParentsFirst (populated settings host docs).reverse := by
  rw [populated, ← List.map_reverse]
  refine ParentsFirst.map ?_ (fun _ => rfl) fun _ => rfl
  rw [← List.append_nil (surveyed settings host docs).reverse]
  exact (visits_grounded host settings.rootClass).parentsFirst .nil rfl

/-- Classes in order are registered one after another, and none of them is refused. -/
theorem foldSteps_registerClass {r : Registry} {classes : List ClassDecl}
    (h : ParentsFirst (classes.reverse ++ r.newestFirst)) :
    Logged.foldSteps registerClass r classes = .silent { r with newestFirst := classes.reverse ++ r.newestFirst } := by
  induction classes generalizing r with
  | nil => rfl
  | cons cls rest ih =>
    rw [List.reverse_cons, List.append_assoc, List.singleton_append] at h ⊢
    have hstep : registerClass r cls = .silent { r with newestFirst := cls :: r.newestFirst } := by
      cases h.of_append with
      | cons hname hparent _ => rw [registerClass, Registry.putClass_of_fresh hname hparent]
    rw [Logged.foldSteps, hstep]
    simp only [Logged.silent, Logged.andThen]
    rw [ih h]
    rfl

/-! ## Enum types -/

theorem qualified_of_mem_globalEnumsOf {doc : Option ClassDoc} {e : Enum} (h : e ∈ globalEnumsOf host doc) :
    e.qualified = e.juliaName := by
  obtain ⟨name, _, rfl⟩ := List.mem_map.mp h
  rfl

theorem mem_enumsOf {doc : Option ClassDoc} {cls : String} {e : Enum} :
    e ∈ enumsOf host doc cls ↔ (∃ info ∈ host.enums cls, enumOf host doc cls info = e) ∧ e.isEmpty = false := by
  simp only [enumsOf, List.mem_filter, List.mem_map, Bool.not_eq_eq_eq_not, Bool.not_true]

/-- The companion types of global enums and of the enums of classes. -/
inductive IsCompanion (globals : List Enum) (classes : List ClassDecl) : EnumType → Prop where
  | ofGlobal {e : Enum} : e ∈ globals → IsCompanion globals classes (.companion e.name none e)
  | ofClass {cls : ClassDecl} {e : Enum} : cls ∈ classes → e ∈ cls.enums →
      IsCompanion globals classes (.companion (Naming.enumKey cls.name e.name) (some cls.name) e)

/-- What holds of a survey after any number of visits. -/
structure Survey.Sound (globals : List Enum) (survey : Survey) : Prop where
  reachable : survey.registry.Reachable
  newestFirst : survey.registry.newestFirst = []
  companion : ∀ type ∈ survey.registry.enums, IsCompanion globals survey.classes type

/-- Offering an enum type to a registry: what was there stays, and nothing but the type is new. -/
theorem Registry.after_enumeration (r : Registry) (e : EnumType) :
    (r.after (.enumeration e)).newestFirst = r.newestFirst ∧
      ∀ type ∈ (r.after (.enumeration e)).enums, type = e ∨ type ∈ r.enums := by
  cases hr : (putEnum e).run r with
  | ok _ r' =>
    rw [after_of_ok (.enumeration e) hr, putEnum_ok hr]
    refine ⟨rfl, fun type ht => ?_⟩
    rcases List.mem_append.mp ht with ht | ht
    · exact Or.inr ht
    · exact Or.inl (List.mem_singleton.mp ht)
  | error error r' =>
    rw [after_of_error (.enumeration e) hr]
    exact ⟨rfl, fun _ ht => Or.inr ht⟩

theorem result_registerGlobalEnum (r : Registry) (e : Enum) :
    (registerGlobalEnum r e).result = r.after (.enumeration (.companion e.name none e)) := by
  rw [registerGlobalEnum, Registry.after, Registry.register]
  cases (Registry.putEnum _).run r <;> rfl

theorem result_registerClassEnum (cls : String) (r : Registry) (e : Enum) :
    (registerClassEnum cls r e).result =
      if e.isEmpty then r else r.after (.enumeration (.companion (Naming.enumKey cls e.name) (some cls) e)) := by
  unfold registerClassEnum
  split
  · rfl
  · rw [Registry.after, Registry.register]
    cases (Registry.putEnum _).run r <;> rfl

theorem result_registerClass (r : Registry) (cls : ClassDecl) : (registerClass r cls).result = r.after (.object cls) := by
  rw [registerClass, Registry.after, Registry.register]
  cases (Registry.putClass cls).run r <;> rfl

/-- The registry of the global enums is sound. -/
theorem sound_globals (globals : List Enum) :
    Survey.Sound globals ⟨(Logged.foldSteps registerGlobalEnum .standard globals).result, []⟩ := by
  refine Logged.foldSteps_induction (P := fun r => Survey.Sound globals ⟨r, []⟩) ?_ fun r e he h => ?_
  · refine ⟨Registry.reachable_standard, Registry.newestFirst_addStandardBuiltins _, fun type ht => ?_⟩
    have hnone : Registry.standard.enums = [] := by decide
    rw [hnone] at ht
    nomatch ht
  · obtain ⟨hnewest, hmem⟩ := Registry.after_enumeration r (.companion e.name none e)
    rw [result_registerGlobalEnum]
    refine ⟨h.reachable.after _, hnewest.trans h.newestFirst, fun type ht => ?_⟩
    rcases hmem type ht with rfl | ht
    · exact .ofGlobal he
    · exact h.companion type ht

/-- A visit keeps a survey sound: the enums it registers are those of the class it adds. -/
theorem Survey.Sound.visit {globals : List Enum} {survey : Survey} (h : survey.Sound globals) (visit : Visit) :
    (survey.visit settings host docs visit).result.Sound globals := by
  unfold Survey.visit
  split
  · exact h
  · exact h
  · rename_i parent _
    let cls := classOf settings host docs visit.name parent
    have hadded : Survey.Sound globals ⟨survey.registry, survey.classes ++ [cls]⟩ := by
      refine ⟨h.reachable, h.newestFirst, fun type ht => ?_⟩
      cases h.companion type ht with
      | ofGlobal he => exact .ofGlobal he
      | ofClass hc he => exact .ofClass (List.mem_append_left _ hc) he
    refine Logged.foldSteps_induction (P := fun r => Survey.Sound globals ⟨r, survey.classes ++ [cls]⟩) hadded ?_
    intro r info hinfo hr
    rw [enterEnum, Logged.andThen, result_registerClassEnum]
    split
    · exact hr
    · rename_i hne
      let e := enumOf host (docs.ofClass? visit.name) visit.name info
      have he : e ∈ cls.enums := mem_enumsOf.mpr ⟨⟨info, hinfo, rfl⟩, Bool.eq_false_iff.mpr hne⟩
      obtain ⟨hnewest, hmem⟩ := Registry.after_enumeration r (.companion (Naming.enumKey visit.name e.name) (some visit.name) e)
      refine ⟨hr.reachable.after _, hnewest.trans hr.newestFirst, fun type ht => ?_⟩
      rcases hmem type ht with rfl | ht
      · exact .ofClass (List.mem_append_right _ (List.mem_singleton.mpr rfl)) he
      · exact hr.companion type ht

theorem sound_surveyOf (settings : Settings) (host : Host) (docs : Docs) :
    (surveyOf settings host docs).Sound (globalEnumsOf host docs.globalScope?) :=
  Logged.foldSteps_induction (sound_globals _) fun _ visit _ h => h.visit visit

/-! ## The finished catalog -/

theorem registered_ofDump (settings : Settings) (host : Host) (docs : Docs) :
    Logged.foldSteps registerClass (surveyOf settings host docs).registry (populated settings host docs) =
    .silent { (surveyOf settings host docs).registry with newestFirst := (populated settings host docs).reverse } := by
  have h := parentsFirst_populated settings host docs
  have hnewest := (sound_surveyOf settings host docs).newestFirst
  rw [foldSteps_registerClass (by rw [hnewest, List.append_nil]; exact h), hnewest, List.append_nil]

/-- The registry of a dump: the types of the survey and the admitted classes with their methods. -/
theorem registry_ofDump : (ofDump settings host docs).result.registry =
    { (surveyOf settings host docs).registry with newestFirst := (populated settings host docs).reverse } := by
  have h := congrArg Logged.result (registered_ofDump settings host docs)
  rw [populated, ← classes_surveyOf] at h ⊢
  exact h

theorem classes_ofDump : (ofDump settings host docs).result.registry.classes = populated settings host docs := by
  rw [Registry.classes, registry_ofDump, List.reverse_reverse]

/-- A session leads to the registry of a dump. -/
theorem reachable_ofDump (settings : Settings) (host : Host) (docs : Docs) :
    (ofDump settings host docs).result.registry.Reachable := by
  have h : (Logged.foldSteps registerClass (surveyOf settings host docs).registry
      (populated settings host docs)).result.Reachable := by
    refine Logged.foldSteps_induction (sound_surveyOf settings host docs).reachable fun r cls _ hr => ?_
    rw [result_registerClass]
    exact hr.after _
  rw [registered_ofDump] at h
  rw [registry_ofDump]
  exact h

/-- The surveyed classes have distinct names. -/
theorem nodup_surveyed (settings : Settings) (host : Host) (docs : Docs) :
    ((surveyed settings host docs).map ClassDecl.name).Nodup := by
  have h := (parentsFirst_populated settings host docs).nodup_names
  rw [List.map_reverse, List.nodup_reverse, populated, List.map_map] at h
  exact h

/-- A surveyed class is found under its name, with its methods. -/
theorem class?_ofDump {cls : ClassDecl} (h : cls ∈ surveyed settings host docs) :
    (ofDump settings host docs).result.registry.class? cls.name =
      some (withMethods settings host docs (surveyOf settings host docs).registry cls) := by
  have hp : withMethods settings host docs (surveyOf settings host docs).registry cls ∈
      (ofDump settings host docs).result.registry.newestFirst := by
    rw [← Registry.mem_classes, classes_ofDump]
    exact List.mem_map_of_mem h
  exact Registry.class?_of_mem (reachable_ofDump settings host docs).parentsFirst hp

/-- A registered class is a surveyed one with its methods. -/
theorem exists_surveyed {found : ClassDecl} (h : found ∈ (ofDump settings host docs).result.registry.newestFirst) :
    ∃ cls ∈ surveyed settings host docs,
      withMethods settings host docs (surveyOf settings host docs).registry cls = found := by
  rw [← Registry.mem_classes, classes_ofDump] at h
  exact List.mem_map.mp h

/-- What the making of files relies on in a catalog: a session leads to its registry, the enum types are companions of its global
enums and of the enums of its classes, and these enums are named by the place of their declaration. -/
structure Sound (catalog : Catalog) : Prop where
  reachable : catalog.registry.Reachable
  companion : ∀ type ∈ catalog.registry.enums, IsCompanion catalog.globalEnums catalog.registry.classes type
  qualified : ∀ cls ∈ catalog.registry.classes, ∀ e ∈ cls.enums,
    e.qualified = Naming.enumKey (Naming.infoModule cls.name) e.juliaName
  qualifiedGlobal : ∀ e ∈ catalog.globalEnums, e.qualified = e.juliaName

theorem companion_ofDump {type : EnumType} (h : type ∈ (ofDump settings host docs).result.registry.enums) :
    IsCompanion (globalEnumsOf host docs.globalScope?) (populated settings host docs) type := by
  rw [registry_ofDump] at h
  cases (sound_surveyOf settings host docs).companion type h with
  | ofGlobal he => exact .ofGlobal he
  | @ofClass cls e hc he =>
    rw [classes_surveyOf] at hc
    let full := withMethods settings host docs (surveyOf settings host docs).registry cls
    have hfull : full ∈ populated settings host docs := List.mem_map_of_mem hc
    show IsCompanion _ _ (.companion (Naming.enumKey full.name e.name) (some full.name) e)
    exact .ofClass hfull he

theorem qualified_of_mem_enums {cls : ClassDecl} (hc : cls ∈ populated settings host docs) {e : Enum} (he : e ∈ cls.enums) :
    e.qualified = Naming.enumKey (Naming.infoModule cls.name) e.juliaName := by
  obtain ⟨bare, hb, rfl⟩ := List.mem_map.mp hc
  obtain ⟨visit, _, hv⟩ := List.mem_filterMap.mp hb
  obtain ⟨_, hbare⟩ := name_of_admittedClass? hv
  rw [hbare] at he ⊢
  obtain ⟨⟨info, _, rfl⟩, _⟩ := mem_enumsOf.mp he
  rfl

/-- The catalog of a dump is sound, whatever the dump. -/
theorem sound_ofDump (settings : Settings) (host : Host) (docs : Docs) : (ofDump settings host docs).result.Sound where
  reachable := reachable_ofDump settings host docs
  companion := fun type ht => by
    rw [classes_ofDump]
    exact companion_ofDump ht
  qualified := fun cls hc e he => by
    rw [classes_ofDump] at hc
    exact qualified_of_mem_enums hc he
  qualifiedGlobal := fun _ he => qualified_of_mem_globalEnumsOf he

/-- The owner of an enum type is a registered class. -/
theorem Sound.hasClass_owner {catalog : Catalog} (h : catalog.Sound) {e : EnumType} (he : e ∈ catalog.registry.enums)
    {owner : String} (ho : e.owner = some owner) : catalog.registry.hasClass owner = true := by
  rw [Registry.hasClass_iff]
  cases h.companion e he with
  | ofGlobal _ => nomatch ho
  | ofClass hc _ =>
    obtain rfl := Option.some.inj ho
    exact List.mem_map_of_mem (Registry.mem_classes.mp hc)

end JuliaStubs.Catalog
