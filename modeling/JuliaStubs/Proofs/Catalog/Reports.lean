import JuliaStubs.Proofs.Catalog.Population
import JuliaStubs.Proofs.Catalog.Signature

/-!
# Reports of a population

What the stages of `ofDump` report: the visits (`VisitEvent`), the binding of methods, and beside them nothing of weight, since no class
is refused (`log_ofDump`). Of these events the ones that say that a class finds no place in the tree are those of the orphans of the
traversal (`mem_log_ofDump_iff`).
-/

namespace JuliaStubs.Catalog

open Dump Report

/-- What a visit can report. -/
inductive VisitEvent (visit : Visit) : Event → Prop where
  | excluded {why : Exclusion} : visit.verdict = .excluded why → VisitEvent visit (.excluded visit.name why)
  | orphan {parent : String} : visit.verdict = .orphan parent → VisitEvent visit (.dropped (.unknownParent visit.name parent))
  | property (name : String) : VisitEvent visit (.dropped (.invalidPropertyIndex visit.name name))
  | constant (name : String) : VisitEvent visit (.dropped (.missingConstantValue visit.name name))
  | emptyEnum (name : String) : VisitEvent visit (.skippedEmptyEnum visit.name name)
  | enumRefused (error : RegistrationError) : VisitEvent visit (.enumRefused visit.name error)
  | described (properties enums constants : Nat) : VisitEvent visit (.describedClass visit.name properties enums constants)

/-- The survey of a dump, with the events of all visits. -/
def surveyLogged (settings : Settings) (host : Host) (docs : Docs) : Logged Survey :=
  Logged.foldSteps (Survey.visit settings host docs)
    ⟨(Logged.foldSteps registerGlobalEnum .standard (globalEnumsOf host docs.globalScope?)).result, []⟩
    (visits host settings.rootClass)

section Steps

variable {settings : Settings} {host : Host} {docs : Docs} {event : Event}

/-- Registering the global enums reports those that are refused, and nothing else. -/
theorem mem_log_globals {r : Registry} {enums : List Enum} (hm : event ∈ (Logged.foldSteps registerGlobalEnum r enums).log) :
    ∃ error, event = .globalEnumRefused error := by
  refine Logged.forall_mem_log_foldSteps (P := fun event => ∃ error, event = .globalEnumRefused error) ?_ event hm
  intro r e event hm
  unfold registerGlobalEnum at hm
  split at hm
  · nomatch hm
  · exact ⟨_, List.mem_singleton.mp hm⟩

theorem mem_drops_propertiesOf {doc : Option ClassDoc} {cls : String} {why : Drop} (h : why ∈ drops (propertiesOf host doc cls)) :
    ∃ name, why = .invalidPropertyIndex cls name := by
  obtain ⟨outcome, ho, hreason⟩ := List.mem_filterMap.mp h
  obtain ⟨slot, _, rfl⟩ := List.mem_map.mp ho
  unfold propertyOf at hreason
  split at hreason
  · exact ⟨slot.name, (Option.some.inj hreason).symm⟩
  · nomatch hreason

theorem mem_drops_constantsOf {doc : Option ClassDoc} {cls : String} {names : List String} {why : Drop}
    (h : why ∈ drops (constantsOf host doc cls names)) : ∃ name, why = .missingConstantValue cls name := by
  obtain ⟨outcome, ho, hreason⟩ := List.mem_filterMap.mp h
  obtain ⟨name, _, rfl⟩ := List.mem_map.mp ho
  unfold constantOf at hreason
  split at hreason
  · exact ⟨name, (Option.some.inj hreason).symm⟩
  · nomatch hreason

/-- A visit reports its verdict, or what it leaves out of the class. -/
theorem visitEvent_of_mem {survey : Survey} {visit : Visit} (hm : event ∈ (survey.visit settings host docs visit).log) :
    VisitEvent visit event := by
  have hconstants : ∀ names, ∀ event ∈ (drops (constantsOf host (docs.ofClass? visit.name) visit.name names)).map .dropped,
      VisitEvent visit event := by
    intro names event hm
    obtain ⟨why, hw, rfl⟩ := List.mem_map.mp hm
    obtain ⟨name, rfl⟩ := mem_drops_constantsOf hw
    exact .constant name
  have henum : ∀ (r : Registry) (e : Enum), ∀ event ∈ (registerClassEnum visit.name r e).log, VisitEvent visit event := by
    intro r e event hm
    unfold registerClassEnum at hm
    split at hm
    · exact List.mem_singleton.mp hm ▸ .emptyEnum _
    · split at hm
      · nomatch hm
      · exact List.mem_singleton.mp hm ▸ .enumRefused _
  unfold Survey.visit at hm
  split at hm
  · exact List.mem_singleton.mp hm ▸ .excluded ‹_›
  · exact List.mem_singleton.mp hm ▸ .orphan ‹_›
  · simp only [Survey.enter, List.mem_append, List.mem_singleton] at hm
    rcases hm with ((hm | hm) | hm) | rfl
    · obtain ⟨why, hw, rfl⟩ := List.mem_map.mp hm
      obtain ⟨name, rfl⟩ := mem_drops_propertiesOf hw
      exact .property name
    · refine Logged.forall_mem_log_foldSteps (P := VisitEvent visit) ?_ event hm
      intro r info event hm
      rw [enterEnum, Logged.andThen, List.mem_append] at hm
      exact hm.elim (hconstants _ event) (henum _ _ event)
    · exact hconstants _ event hm
    · exact .described ..

theorem visitEvent_of_mem_survey (hm : event ∈ (surveyLogged settings host docs).log) : ∃ visit, VisitEvent visit event :=
  Logged.forall_mem_log_foldSteps (P := fun event => ∃ visit, VisitEvent visit event)
    (fun _ visit _ hm => ⟨visit, visitEvent_of_mem hm⟩) event hm

end Steps

variable {settings : Settings} {host : Host} {docs : Docs} {event : Event}

/-- The events of a population, stage by stage. Registering the classes reports nothing. -/
theorem log_ofDump : (ofDump settings host docs).log =
    (Logged.foldSteps registerGlobalEnum .standard (globalEnumsOf host docs.globalScope?)).log ++
      [.groupedGlobals (globalEnumsOf host docs.globalScope?).length (looseGlobalsOf host docs.globalScope?).length] ++
      (surveyLogged settings host docs).log ++
      (surveyed settings host docs).flatMap (methodEvents settings host docs (surveyOf settings host docs).registry) ++
      [.catalogued (ofDump settings host docs).result.registry.newestFirst.length
        (ofDump settings host docs).result.registry.enums.length (ofDump settings host docs).result.skipped] := by
  have hregistered : (Logged.foldSteps registerClass (surveyLogged settings host docs).result.registry
      ((surveyLogged settings host docs).result.classes.map
        (withMethods settings host docs (surveyLogged settings host docs).result.registry))).log = [] := by
    have h := registered_ofDump settings host docs
    rw [populated, ← classes_surveyOf] at h
    exact congrArg Logged.log h
  rw [← classes_surveyOf]
  unfold ofDump
  dsimp only
  rw [← surveyLogged, hregistered, List.append_nil]
  rfl

/-! ## Classes without a place -/

/-- The events that tell of a class without a place in the tree. -/
def isMisplacement : Event → Bool
  | .dropped (.unknownParent ..) | .classRefused .. => true
  | _ => false

/-- A visit reports such an event when its class is an orphan. -/
theorem mem_log_visit (h : isMisplacement event = true) (survey : Survey) (visit : Visit) :
    event ∈ (survey.visit settings host docs visit).log ↔
      ∃ parent, visit.verdict = .orphan parent ∧ event = .dropped (.unknownParent visit.name parent) := by
  constructor
  · intro hm
    cases visitEvent_of_mem hm with
    | orphan hv => exact ⟨_, hv, rfl⟩
    | _ => nomatch h
  · rintro ⟨parent, hv, rfl⟩
    unfold Survey.visit
    simp only [hv, List.mem_singleton]

theorem not_mem_methodEvents (h : isMisplacement event = true) (r : Registry) (cls : ClassDecl) :
    event ∉ methodEvents settings host docs r cls := by
  intro hm
  rw [methodEvents] at hm
  rcases List.mem_append.mp hm with hm | hm
  · obtain ⟨outcome, ho, rfl⟩ := List.mem_map.mp hm
    obtain ⟨info, _, rfl⟩ := List.mem_map.mp ho
    cases hmethod : methodOf r settings.realIsDouble host (docs.ofClass? cls.name) cls.name info with
    | ok method =>
      rw [hmethod] at h
      nomatch h
    | error why =>
      rw [hmethod] at h
      cases why with
      | unknownParent => nomatch method?_of_methodOf hmethod
      | _ => nomatch h
  · rw [List.mem_singleton.mp hm] at h
    nomatch h

/-- The classes that find no place are the orphans of the traversal; none is refused when it is registered. -/
theorem mem_log_ofDump_iff (h : isMisplacement event = true) : event ∈ (ofDump settings host docs).log ↔
    ∃ visit ∈ visits host settings.rootClass, ∃ parent, visit.verdict = .orphan parent ∧
      event = .dropped (.unknownParent visit.name parent) := by
  have hglobals : event ∉ (Logged.foldSteps registerGlobalEnum .standard (globalEnumsOf host docs.globalScope?)).log := by
    intro hm
    obtain ⟨error, rfl⟩ := mem_log_globals hm
    nomatch h
  have hsurvey : event ∈ (surveyLogged settings host docs).log ↔ _ := Logged.mem_log_foldSteps (mem_log_visit h)
  rw [← hsurvey, log_ofDump]
  simp only [List.mem_append, List.mem_flatMap, List.mem_singleton]
  constructor
  · rintro ((((hm | rfl) | hm) | ⟨cls, _, hm⟩) | rfl)
    · exact absurd hm hglobals
    · nomatch h
    · exact hm
    · exact absurd hm (not_mem_methodEvents h _ cls)
    · nomatch h
  · exact fun hm => Or.inl (Or.inl (Or.inr hm))

end JuliaStubs.Catalog
