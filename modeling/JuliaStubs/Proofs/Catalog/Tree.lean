import JuliaStubs.Proofs.Catalog.Reports
import JuliaStubs.Proofs.Catalog.Worklist

/-!
# The class tree of a dump

Names of a dump may repeat, parents may be missing or form cycles through the root or elsewhere, and the root may be missing. Still the
registry is a tree below the root (`registry_is_tree`). Nothing of this rests on the shape of the dump: a class is admitted once, under
a class that was admitted before it.
-/

namespace JuliaStubs.Catalog

open Dump Report

variable {settings : Settings} {host : Host} {docs : Docs}

/-- Visits admit the classes that they add. -/
theorem mem_names_admitted (settings : Settings) (host : Host) (docs : Docs) {visits : List Visit} {name : String} :
    name ∈ (visits.filterMap (admittedClass? settings host docs)).map ClassDecl.name ↔
      name ∈ visits.foldl Traversal.admittedAfter [] := by
  rw [Traversal.mem_foldl_admittedAfter, List.mem_map]
  simp only [List.mem_filterMap, List.not_mem_nil, false_or]
  constructor
  · rintro ⟨cls, ⟨visit, hv, hc⟩, rfl⟩
    obtain ⟨hverdict, hcls⟩ := name_of_admittedClass? hc
    exact ⟨visit, hv, (congrArg ClassDecl.name hcls).symm, _, hverdict⟩
  · rintro ⟨visit, hv, rfl, parent, hverdict⟩
    exact ⟨classOf settings host docs visit.name parent, ⟨visit, hv, by rw [admittedClass?, hverdict]⟩, rfl⟩

/-- The names of the registered classes are those of the admitted ones, in the order of their visits. -/
theorem classNames_ofDump : (ofDump settings host docs).result.registry.classNames =
    ((visits host settings.rootClass).filterMap (admittedClass? settings host docs)).map ClassDecl.name := by
  rw [Registry.classNames, classes_ofDump, populated, List.map_map]
  rfl

/-- A registered class was admitted under its parent. -/
theorem exists_visit_of_populated {cls : ClassDecl} (h : cls ∈ populated settings host docs) :
    ∃ visit ∈ visits host settings.rootClass, visit.name = cls.name ∧ visit.verdict = .admitted cls.parent := by
  obtain ⟨bare, hbare, rfl⟩ := List.mem_map.mp h
  obtain ⟨visit, hvisit, hadmitted⟩ := List.mem_filterMap.mp hbare
  obtain ⟨hverdict, hcls⟩ := name_of_admittedClass? hadmitted
  exact ⟨visit, hvisit, (congrArg ClassDecl.name hcls).symm, hverdict⟩

/-- A class is registered for the verdict of its visit, given the classes that are registered before it. -/
theorem verdict_of_populated {before after : List ClassDecl} {cls : ClassDecl}
    (h : populated settings host docs = before ++ cls :: after) :
    ∃ admitted, (∀ name, name ∈ admitted ↔ name ∈ before.map ClassDecl.name) ∧
      Traversal.verdict host settings.rootClass admitted cls.name = .admitted cls.parent := by
  obtain ⟨bareBefore, bareRest, hbare, rfl, hrest⟩ := List.map_eq_append_iff.mp h
  obtain ⟨bare, bareAfter, rfl, rfl, rfl⟩ := List.map_eq_cons_iff.mp hrest
  obtain ⟨front, rest, hvisits, rfl, hrest⟩ := List.filterMap_eq_append_iff.mp hbare
  obtain ⟨skipped, visit, back, rfl, hskipped, hadmitted, -⟩ := List.filterMap_eq_cons_iff.mp hrest
  obtain ⟨hverdict, hname⟩ := name_of_admittedClass? hadmitted
  have htraced := visits_traced host settings.rootClass
  rw [hvisits, ← List.append_assoc] at htraced
  refine ⟨(front ++ skipped).foldl Traversal.admittedAfter [], fun name => ?_, ?_⟩
  · have hnone : skipped.filterMap (admittedClass? settings host docs) = [] := List.filterMap_eq_nil_iff.mpr hskipped
    rw [← mem_names_admitted settings host docs, List.filterMap_append, hnone, List.append_nil, List.map_map]
    exact Iff.rfl
  · have hbare : bare.name = visit.name := congrArg ClassDecl.name hname
    cases htraced.of_append with
    | cons _ _ hjudged _ =>
      rw [hverdict, ← hbare] at hjudged
      exact hjudged.symm

/-- The root alone is registered without a parent. -/
theorem parent_eq_none_iff {cls : ClassDecl} (h : cls ∈ populated settings host docs) :
    cls.parent = none ↔ cls.name = settings.rootClass := by
  obtain ⟨before, after, hsplit⟩ := List.append_of_mem h
  obtain ⟨_, _, hverdict⟩ := verdict_of_populated hsplit
  exact Traversal.root_iff_of_verdict hverdict

/-- The parent of a class is the nearest name above it under which a class is registered before. -/
theorem nearest_of_populated {before after : List ClassDecl} {cls : ClassDecl} {p : String}
    (h : populated settings host docs = before ++ cls :: after) (hp : cls.parent = some p) :
    ∃ n, NearestAbove host (· ∈ before.map ClassDecl.name) n cls.name p := by
  obtain ⟨admitted, hmem, hverdict⟩ := verdict_of_populated h
  rw [hp] at hverdict
  have hadmitted : (· ∈ admitted) = (· ∈ before.map ClassDecl.name) := funext fun name => propext (hmem name)
  rw [← hadmitted]
  exact Traversal.nearest_of_verdict hverdict

/-- The first class that is registered is the root: no other class has an ancestor by then. -/
theorem name_of_head?_populated {first : ClassDecl} (h : (populated settings host docs).head? = some first) :
    first.name = settings.rootClass := by
  obtain ⟨rest, hrest⟩ := List.head?_eq_some_iff.mp h
  have hsplit : populated settings host docs = [] ++ first :: rest := hrest
  refine (parent_eq_none_iff (hrest ▸ List.mem_cons_self)).mp ?_
  cases hp : first.parent with
  | none => rfl
  | some p =>
    obtain ⟨_, hnearest⟩ := nearest_of_populated hsplit hp
    nomatch hnearest.wanted_of

/-- Each class is accepted by the registry of those before it. -/
theorem addClass_populated {before after : List ClassDecl} {cls : ClassDecl}
    (h : populated settings host docs = before ++ cls :: after) :
    ∃ r', (Logged.foldSteps registerClass (surveyOf settings host docs).registry before).result.addClass cls = .ok r' := by
  have hnone := (sound_surveyOf settings host docs).newestFirst
  have hfirst := parentsFirst_populated settings host docs
  rw [h, List.reverse_append, List.reverse_cons, List.append_assoc, List.singleton_append] at hfirst
  cases hfirst.of_append with
  | cons hname hparent hbefore =>
    rw [← List.append_nil before.reverse, ← hnone] at hname hparent hbefore
    rw [foldSteps_registerClass hbefore]
    rw [Registry.addClass, Registry.outcome, Registry.putClass_of_fresh hname hparent]
    exact ⟨_, rfl⟩

/-- Whatever the dump, its registry is a tree. The loop that visits the classes ends, no later than one turn after as many as the dump
has classes. The names of the registered classes are distinct, the first of them is the root, the root alone has no parent, and the
parent of any other class is registered before it: of the names above the class in the dump, the nearest under which a class is
registered by then, which is found in no more steps than the dump has classes. Each class that was admitted is accepted when it is
registered, so none is refused and none is lost. -/
theorem registry_is_tree (settings : Settings) (host : Host) (docs : Docs) :
    let root := settings.rootClass
    let r := (ofDump settings host docs).result.registry
    (∃ turns ≤ host.classes.length + 1, ((Worklist.turn host root)^[turns] (.start root)).queue = [] ∧
        ((Worklist.turn host root)^[turns] (.start root)).visits = visits host root) ∧
      r.classNames.Nodup ∧
      (∀ first, r.classes.head? = some first → first.name = root) ∧
      (∀ cls ∈ r.classes, cls.parent = none ↔ cls.name = root) ∧
      (∀ before cls after p, r.classes = before ++ cls :: after → cls.parent = some p →
        p ∈ before.map ClassDecl.name ∧
          ∃ n ≤ host.classes.length, NearestAbove host (· ∈ before.map ClassDecl.name) n cls.name p) ∧
      (∀ before cls after, populated settings host docs = before ++ cls :: after →
        ∃ r', (Logged.foldSteps registerClass (surveyOf settings host docs).registry before).result.addClass cls = .ok r') ∧
      (∀ cls error, Event.classRefused cls error ∉ (ofDump settings host docs).log) ∧
      r.classNames = ((visits host root).filterMap (admittedClass? settings host docs)).map ClassDecl.name := by
  intro root r
  have hclasses : r.classes = populated settings host docs := classes_ofDump
  refine ⟨⟨_, Nat.le_refl _, Worklist.iterate_turn_start host root⟩, ?_, ?_, ?_, fun before cls after p hsplit hp => ?_,
    fun before cls after => addClass_populated, fun cls error hm => ?_, classNames_ofDump⟩
  · rw [Registry.classNames, hclasses, ← List.nodup_reverse, ← List.map_reverse]
    exact (parentsFirst_populated settings host docs).nodup_names
  · rw [hclasses]
    exact fun first => name_of_head?_populated
  · rw [hclasses]
    exact fun cls => parent_eq_none_iff
  · rw [hclasses] at hsplit
    obtain ⟨n, hnearest⟩ := nearest_of_populated hsplit hp
    exact ⟨hnearest.wanted_of, n, hnearest.le_length, hnearest⟩
  · obtain ⟨_, _, _, _, heq⟩ := (mem_log_ofDump_iff rfl).mp hm
    nomatch heq

end JuliaStubs.Catalog
