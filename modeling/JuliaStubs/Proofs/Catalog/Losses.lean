import JuliaStubs.Proofs.Catalog.Methods
import JuliaStubs.Proofs.Catalog.Reports
import JuliaStubs.Proofs.Dump.Lookups

/-!
# Losses of a population

What `ofDump` drops and counts. The losses are those of the visits and then, class by class, the methods that are refused
(`losses_ofDump`), and the count of skipped members is their number (`skipped_ofDump`). A reported method is among the losses once when
it is refused, and otherwise not at all (`count_dropped`).
-/

namespace JuliaStubs

open Catalog Dump Report

/-- The class and the name of the method that an event tells of as lost: it is dropped from the catalog, or left out of the files. -/
def Report.Event.lostMethod? : Event → Option (String × String)
  | .dropped why => why.method?
  | .methodWithoutSource cls method _ => some (cls, method)
  | _ => none

/-- The methods that a log tells of as lost. -/
def Report.lostMethods (log : List Event) : List (String × String) := log.filterMap Event.lostMethod?

/-- Where names do not repeat, an item of a group is counted under the two names once when it is lost, and otherwise not at all. -/
theorem Report.count_lost {α β : Type} {groups : List α} {group : α → String} {items : α → List β} {name : β → String}
    {lost? : α → β → Option (String × String)} (hgroups : (groups.map group).Nodup)
    (hnames : ∀ g ∈ groups, ((items g).map name).Nodup)
    (hlost : ∀ g ∈ groups, ∀ item ∈ items g, ∀ entry, lost? g item = some entry → entry = (group g, name item))
    {g : α} (hg : g ∈ groups) {item : β} (hi : item ∈ items g) :
    (groups.flatMap fun g => (items g).filterMap (lost? g)).count (group g, name item) =
      if (lost? g item).isSome then 1 else 0 := by
  have hmem : ∀ g ∈ groups, ∀ entry, entry ∈ (items g).filterMap (lost? g) →
      ∃ item ∈ items g, lost? g item = some entry ∧ entry = (group g, name item) := by
    intro g hg entry he
    obtain ⟨item, hi, heq⟩ := List.mem_filterMap.mp he
    exact ⟨item, hi, heq, hlost g hg item hi entry heq⟩
  cases hl : lost? g item with
  | none =>
    refine List.count_eq_zero.mpr fun hm => ?_
    obtain ⟨other, ho, hm⟩ := List.mem_flatMap.mp hm
    obtain ⟨found, hf, heq, hentry⟩ := hmem other ho _ hm
    obtain ⟨hgroup, hname⟩ := Prod.mk.inj hentry
    obtain rfl := List.inj_on_of_nodup_map hgroups hg ho hgroup
    obtain rfl := List.inj_on_of_nodup_map (hnames g hg) hi hf hname
    nomatch hl.symm.trans heq
  | some entry =>
    -- entries of one group differ in the second name, those of two groups in the first
    have hnodup : (groups.flatMap fun g => (items g).filterMap (lost? g)).Nodup := by
      refine List.nodup_flatMap.mpr ⟨fun g hg => ?_, ?_⟩
      · refine List.pairwise_filterMap.mpr ((List.pairwise_map.mp (hnames g hg)).imp_of_mem ?_)
        rintro a b ha hb hne entry he _ he' rfl
        exact hne (Prod.mk.inj ((hlost g hg a ha _ he).symm.trans (hlost g hg b hb _ he'))).2
      · refine (List.pairwise_map.mp hgroups).imp_of_mem fun {a b} ha hb hne entry he he' => hne ?_
        obtain ⟨_, _, _, heq⟩ := hmem a ha entry he
        obtain ⟨_, _, _, heq'⟩ := hmem b hb entry he'
        exact (Prod.mk.inj (heq.symm.trans heq')).1
    refine List.count_eq_one_of_mem hnodup (List.mem_flatMap.mpr ⟨g, hg, List.mem_filterMap.mpr ⟨item, hi, ?_⟩⟩)
    rw [hl, hlost g hg item hi entry hl]

namespace Catalog

variable {settings : Settings} {host : Host} {docs : Docs}

/-- Of the events of binding methods the losses are those of the methods that are dropped. -/
theorem filter_methodEvents (r : Registry) (cls : ClassDecl) :
    (methodEvents settings host docs r cls).filter isLoss =
      (drops (methodsOf settings host docs r cls.name)).map .dropped := by
  have houtcomes : ∀ outcomes : List (Except Drop Method),
      (outcomes.map (methodEvent cls.name)).filter isLoss = (drops outcomes).map .dropped := by
    intro outcomes
    induction outcomes with
    | nil => rfl
    | cons outcome rest ih =>
      cases outcome with
      | ok method => exact ih
      | error why => exact congrArg (Event.dropped why :: ·) ih
  rw [methodEvents, List.filter_append, houtcomes]
  exact List.append_nil _

/-- Registering the global enums loses none. -/
theorem filter_registerGlobalEnum (r : Registry) (enums : List Enum) :
    (Logged.foldSteps registerGlobalEnum r enums).log.filter isLoss = [] := by
  refine List.filter_eq_nil_iff.mpr fun event hm => ?_
  obtain ⟨error, rfl⟩ := mem_log_globals hm
  exact Bool.false_ne_true

/-- The losses of a dump: those of its visits, then those of the methods of each registered class. -/
theorem losses_ofDump : (ofDump settings host docs).log.filter isLoss =
    (surveyLogged settings host docs).log.filter isLoss ++
      (surveyed settings host docs).flatMap fun cls =>
        (drops (methodsOf settings host docs (surveyOf settings host docs).registry cls.name)).map .dropped := by
  rw [log_ofDump]
  simp only [List.filter_append, filter_registerGlobalEnum, List.filter_flatMap, filter_methodEvents]
  simp [isLoss]

/-- Each loss counts as one skipped member. -/
theorem skipped_ofDump : (ofDump settings host docs).result.skipped = ((ofDump settings host docs).log.filter isLoss).length := by
  have hlast : ∀ (log : List Event) (classes enums skipped : Nat),
      (log ++ [Event.catalogued classes enums skipped]).filter isLoss = log.filter isLoss := by
    intro log classes enums skipped
    rw [List.filter_append]
    exact List.append_nil _
  exact congrArg List.length (hlast _ _ _ _).symm

/-! ## Methods -/

/-- Methods are bound before the classes are registered; the classes make no difference to them. -/
theorem methodOf_ofDump : methodOf (ofDump settings host docs).result.registry = methodOf (surveyOf settings host docs).registry := by
  rw [registry_ofDump]
  rfl

/-- What becomes of a reported method of a class. -/
def outcomeOf (settings : Settings) (host : Host) (docs : Docs) (cls : String) (info : MethodInfo) : Except Drop Method :=
  methodOf (ofDump settings host docs).result.registry settings.realIsDouble host (docs.ofClass? cls) cls info

theorem methodsOf_surveyOf (cls : String) : methodsOf settings host docs (surveyOf settings host docs).registry cls =
    (sortedMethods host cls).map (outcomeOf settings host docs cls) := by
  unfold outcomeOf
  rw [methodOf_ofDump]
  rfl

/-- The methods of a registered class are those that are made of its reported ones. -/
theorem methods_of_mem {cls : ClassDecl} (h : cls ∈ (ofDump settings host docs).result.registry.newestFirst) :
    cls.methods = (sortedMethods host cls.name).filterMap fun info => (outcomeOf settings host docs cls.name info).toOption := by
  obtain ⟨bare, _, rfl⟩ := exists_surveyed h
  show kept (methodsOf settings host docs _ bare.name) = _
  rw [methodsOf_surveyOf, kept, List.filterMap_map]
  rfl

theorem exists_outcomeOf_of_mem {cls : ClassDecl} (h : cls ∈ (ofDump settings host docs).result.registry.newestFirst)
    {method : Method} (hm : method ∈ cls.methods) :
    ∃ info ∈ host.methods cls.name, outcomeOf settings host docs cls.name info = .ok method := by
  rw [methods_of_mem h] at hm
  obtain ⟨info, hi, hok⟩ := List.mem_filterMap.mp hm
  exact ⟨info, (sortedMethods_perm host cls.name).mem_iff.mp hi, toOption_eq_some_iff.mp hok⟩

/-- All methods of a registered class can be called on an object. -/
theorem filter_isBindable {cls : ClassDecl} (h : cls ∈ (ofDump settings host docs).result.registry.newestFirst) :
    cls.methods.filter Method.isBindable = cls.methods := by
  refine List.filter_eq_self.mpr fun method hm => ?_
  obtain ⟨info, _, hok⟩ := exists_outcomeOf_of_mem h hm
  exact (methodOf_ok hok).2.1

/-- The class and the name of a reported method that is refused. -/
def refusedAs? (settings : Settings) (host : Host) (docs : Docs) (cls : String) (info : MethodInfo) : Option (String × String) :=
  (dropReason? (outcomeOf settings host docs cls info)).bind Drop.method?

theorem eq_of_refusedAs? {cls : String} {info : MethodInfo} {entry : String × String}
    (h : refusedAs? settings host docs cls info = some entry) : entry = (cls, info.name) := by
  unfold refusedAs? at h
  cases hm : outcomeOf settings host docs cls info with
  | ok method =>
    rw [hm] at h
    nomatch h
  | error why =>
    rw [hm] at h
    exact Option.some.inj (h.symm.trans (method?_of_methodOf hm))

/-- A method is refused when nothing is made of it. -/
theorem isSome_refusedAs?_iff {cls : String} {info : MethodInfo} :
    (refusedAs? settings host docs cls info).isSome = true ↔ ¬∃ method, outcomeOf settings host docs cls info = .ok method := by
  unfold refusedAs?
  cases hm : outcomeOf settings host docs cls info with
  | ok method => exact iff_of_false Bool.false_ne_true fun h => h ⟨method, rfl⟩
  | error why =>
    refine iff_of_true ?_ fun ⟨_, h⟩ => nomatch h
    exact Option.isSome_iff_exists.mpr ⟨_, method?_of_methodOf hm⟩

/-- The methods among the losses are those that are refused: the visits lose other members. -/
theorem lostMethods_ofDump : lostMethods ((ofDump settings host docs).log.filter isLoss) =
    (surveyed settings host docs).flatMap fun cls =>
      (sortedMethods host cls.name).filterMap (refusedAs? settings host docs cls.name) := by
  have hvisits : lostMethods ((surveyLogged settings host docs).log.filter isLoss) = [] := by
    refine List.filterMap_eq_nil_iff.mpr fun event hm => ?_
    obtain ⟨visit, hv⟩ := visitEvent_of_mem_survey (List.mem_filter.mp hm).1
    cases hv <;> rfl
  rw [losses_ofDump, lostMethods, List.filterMap_append, ← lostMethods, hvisits, List.nil_append, List.filterMap_flatMap]
  refine List.flatMap_congr fun cls _ => ?_
  rw [List.filterMap_map, drops, List.filterMap_filterMap, methodsOf_surveyOf, List.filterMap_map]
  rfl

/-- A reported method of a registered class is lost once when it is refused, and otherwise not at all. -/
theorem count_dropped (hdistinct : host.DistinctMethods) {cls : ClassDecl}
    (hc : cls ∈ (ofDump settings host docs).result.registry.newestFirst) {info : MethodInfo} (hi : info ∈ host.methods cls.name) :
    (lostMethods ((ofDump settings host docs).log.filter isLoss)).count (cls.name, info.name) =
      if (refusedAs? settings host docs cls.name info).isSome then 1 else 0 := by
  obtain ⟨bare, hb, rfl⟩ := exists_surveyed hc
  rw [lostMethods_ofDump]
  exact count_lost (nodup_surveyed settings host docs) (fun cls _ => nodup_sortedMethods (hdistinct.nodup_methods cls.name))
    (fun _ _ _ _ _ => eq_of_refusedAs?) hb ((sortedMethods_perm host bare.name).mem_iff.mpr hi)

end Catalog

end JuliaStubs
