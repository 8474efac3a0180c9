import JuliaStubs.Proofs.Catalog.Losses

/-!
# Constants and enums of a class

Which of the constants that a dump lists for a class are loose, and which are members of its enums. One loop sorts them out
(`sortConstants`): an enum takes the names that it mentions from the loose ones before it is known whether they have a value, and
whether any of its members is left. Since a listed constant has a value, no listed constant is lost on the way and none is taken twice
(`constants_sorted`).
-/

namespace JuliaStubs

open Catalog Dump Report

/-- The class and the name of the constant that an event tells of as dropped. -/
def Report.Event.lostConstant? : Event → Option (String × String)
  | .dropped (.missingConstantValue cls constant) => some (cls, constant)
  | _ => none

namespace Catalog

/-! ## The loop -/

/-- Adds an outcome to the results so far. -/
def collect {α : Type} (found : List α) : Except Drop α → Logged (List α)
  | .ok result => .silent (found ++ [result])
  | .error why => ⟨found, [.dropped why]⟩

/-- The constants of a class in the middle of the loop over its enums. -/
structure Sorting where
  /-- The listed names that no enum has taken so far. -/
  loose : List String
  enums : List Enum
  registry : Registry

section Loop

variable (host : Host) (doc : Option ClassDoc) (cls : String)

/-- An enum takes a name. The name is loose no longer, whether it has a value or not. -/
def takeMember (state : List String × List Constant) (name : String) : Logged (List String × List Constant) :=
  (collect state.2 (constantOf host doc cls name)).andThen fun members => .silent (state.1.filter (· != name), members)

/-- A reported enum takes its members. It is kept, and its type is registered, when one of them has a value. -/
def Sorting.takeEnum (sorting : Sorting) (info : EnumInfo) : Logged Sorting :=
  (Logged.foldSteps (takeMember host doc cls) (sorting.loose, []) info.members).andThen fun (loose, members) =>
    let e : Enum :=
      { name := info.name
        juliaName := info.name
        qualified := Naming.enumKey (Naming.infoModule cls) info.name
        isFlags := info.isBitfield
        members }
    (registerClassEnum cls sorting.registry e).andThen fun registry =>
      .silent ⟨loose, if e.isEmpty then sorting.enums else sorting.enums ++ [e], registry⟩

/-- Goes through the enums of a class, and then through the names that are still loose. -/
def sortConstants (r : Registry) : Logged (Sorting × List Constant) :=
  (Logged.foldSteps (Sorting.takeEnum host doc cls) ⟨host.constantNames cls, [], r⟩ (host.enums cls)).andThen fun sorting =>
    (Logged.foldSteps (fun found name => collect found (constantOf host doc cls name)) [] sorting.loose).andThen fun constants =>
      .silent (sorting, constants)

variable {host doc cls}

theorem foldSteps_collect {α β : Type} (outcome : α → Except Drop β) (found : List β) (items : List α) :
    Logged.foldSteps (fun found item => collect found (outcome item)) found items =
      ⟨found ++ kept (items.map outcome), (drops (items.map outcome)).map .dropped⟩ := by
  induction items generalizing found with
  | nil => simp [Logged.foldSteps, Logged.silent, kept, drops]
  | cons item rest ih =>
    rw [Logged.foldSteps, Logged.andThen, ih, List.map_cons]
    cases outcome item with
    | ok result =>
      show (⟨found ++ [result] ++ kept _, [] ++ _⟩ : Logged (List β)) = ⟨found ++ result :: kept _, _⟩
      rw [List.append_assoc, List.singleton_append, List.nil_append]
      rfl
    | error why => rfl

theorem foldl_filter_ne (loose names : List String) :
    names.foldl (fun loose name => loose.filter (· != name)) loose = loose.filter fun name => !names.contains name := by
  induction names generalizing loose with
  | nil => simp
  | cons name rest ih =>
    rw [List.foldl_cons, ih, List.filter_filter]
    refine List.filter_congr fun other _ => ?_
    rw [List.contains_cons, Bool.not_or, Bool.and_comm]
    rfl

/-- The members of an enum are found as if nothing were removed, and the names are removed as if nothing were found. -/
theorem foldSteps_takeMember (state : List String × List Constant) (names : List String) :
    Logged.foldSteps (takeMember host doc cls) state names =
      ⟨(state.1.filter fun name => !names.contains name, state.2 ++ kept (constantsOf host doc cls names)),
        (drops (constantsOf host doc cls names)).map .dropped⟩ := by
  have hsplit : Logged.foldSteps (takeMember host doc cls) state names =
      (Logged.foldSteps (fun found name => collect found (constantOf host doc cls name)) state.2 names).map
        (names.foldl (fun loose name => loose.filter (· != name)) state.1, ·) := by
    induction names generalizing state with
    | nil => rfl
    | cons name rest ih =>
      rw [Logged.foldSteps, Logged.andThen, ih, Logged.foldSteps, Logged.andThen]
      simp only [takeMember, Logged.andThen, Logged.silent, Logged.map, List.append_nil, List.foldl_cons]
  rw [hsplit, foldSteps_collect, foldl_filter_ne]
  rfl

theorem takeEnum_eq (sorting : Sorting) (info : EnumInfo) :
    sorting.takeEnum host doc cls info =
      ⟨⟨sorting.loose.filter fun name => !info.members.contains name,
          sorting.enums ++ [enumOf host doc cls info].filter fun e => !e.isEmpty,
          (enterEnum host doc cls sorting.registry info).result⟩,
        (enterEnum host doc cls sorting.registry info).log⟩ := by
  rw [Sorting.takeEnum, foldSteps_takeMember, enterEnum]
  simp only [Logged.andThen, Logged.silent, List.nil_append, List.append_nil]
  have henum : sorting.enums ++ [enumOf host doc cls info].filter (fun e => !e.isEmpty) =
      if (enumOf host doc cls info).isEmpty then sorting.enums else sorting.enums ++ [enumOf host doc cls info] := by
    cases he : (enumOf host doc cls info).isEmpty <;> simp [he]
  rw [henum]
  rfl

/-- What the enums take is what any of them mentions, in whatever order they come. -/
theorem foldSteps_takeEnum (sorting : Sorting) (infos : List EnumInfo) :
    Logged.foldSteps (Sorting.takeEnum host doc cls) sorting infos =
      ⟨⟨sorting.loose.filter fun name => !infos.any fun info => info.members.contains name,
          sorting.enums ++ (infos.map (enumOf host doc cls)).filter fun e => !e.isEmpty,
          (Logged.foldSteps (enterEnum host doc cls) sorting.registry infos).result⟩,
        (Logged.foldSteps (enterEnum host doc cls) sorting.registry infos).log⟩ := by
  induction infos generalizing sorting with
  | nil => simp [Logged.foldSteps, Logged.silent]
  | cons info rest ih =>
    rw [Logged.foldSteps, Logged.andThen, ih, takeEnum_eq, Logged.foldSteps, Logged.andThen]
    have hloose : ∀ name : String, (!(info :: rest).any fun info => info.members.contains name) =
        (!(rest.any fun info => info.members.contains name) && !info.members.contains name) := by
      intro name
      rw [List.any_cons, Bool.not_or, Bool.and_comm]
    simp only [List.filter_filter, hloose, List.append_assoc, ← List.filter_append, List.map_cons, List.singleton_append]

/-- The loop leaves the loose constants and the enums of the class, and reports what entering the enums does: a loose name always has
a value. -/
theorem sortConstants_eq (r : Registry) :
    sortConstants host doc cls r =
      ⟨(⟨looseNames host cls, enumsOf host doc cls, (Logged.foldSteps (enterEnum host doc cls) r (host.enums cls)).result⟩,
          kept (looseConstantsOf host doc cls)),
        (Logged.foldSteps (enterEnum host doc cls) r (host.enums cls)).log ++
          (drops (looseConstantsOf host doc cls)).map .dropped⟩ := by
  rw [sortConstants, foldSteps_takeEnum]
  simp only [Logged.andThen, Logged.silent, foldSteps_collect, List.nil_append, List.append_nil]
  rfl

end Loop

/-- An admitted class enters a survey with what the loop leaves. -/
theorem enter_eq_sortConstants (settings : Settings) (host : Host) (docs : Docs) (survey : Survey) (name : String)
    (parent : Option String) :
    let doc := docs.ofClass? name
    let sorted := sortConstants host doc name survey.registry
    let cls : ClassDecl :=
      { classOf settings host docs name parent with enums := sorted.result.1.enums, constants := sorted.result.2 }
    survey.enter settings host docs name parent =
      ⟨⟨sorted.result.1.registry, survey.classes ++ [cls]⟩,
        (drops (propertiesOf host doc name)).map .dropped ++ sorted.log ++
          [.describedClass name cls.properties.length cls.enums.length cls.constants.length]⟩ := by
  intro doc sorted cls
  have hsorted : sorted = _ := sortConstants_eq survey.registry
  have hcls : cls = classOf settings host docs name parent := by
    dsimp only [cls]
    rw [hsorted]
    rfl
  rw [hcls, hsorted, Survey.enter]
  simp only [doc, List.append_assoc]

/-! ## Values -/

section Values

variable {host : Host} {doc : Option ClassDoc} {cls : String}

/-- A listed constant has a value. -/
theorem exists_constant?_of_mem {name : String} (h : name ∈ host.constantNames cls) :
    ∃ value, host.constant? cls name = some value := by
  unfold Host.constantNames at h
  unfold Host.constant?
  cases hc : host.class? cls with
  | none =>
    rw [hc] at h
    nomatch h
  | some info =>
    rw [hc] at h
    obtain ⟨constant, hin, rfl⟩ := List.mem_map.mp h
    have hfound : (info.constants.find? fun other => other.name == constant.name).isSome = true :=
      List.find?_isSome.mpr ⟨constant, hin, beq_self_eq_true _⟩
    obtain ⟨first, hfirst⟩ := Option.isSome_iff_exists.mp hfound
    exact ⟨first.value, by simp [ClassInfo.constant?, hfirst]⟩

/-- The constants that are kept are those with a value, which is the reported one. -/
theorem view_kept_constantsOf (names : List String) :
    (kept (constantsOf host doc cls names)).map (fun constant => (constant.name, constant.value)) =
      names.filterMap fun name => (host.constant? cls name).map (name, ·) := by
  rw [kept, constantsOf, List.filterMap_map, List.map_filterMap]
  refine List.filterMap_congr fun name _ => ?_
  rw [Function.comp, constantOf]
  cases host.constant? cls name <;> rfl

theorem names_kept_constantsOf (names : List String) :
    (kept (constantsOf host doc cls names)).map Constant.name = names.filter fun name => (host.constant? cls name).isSome := by
  have hview : ((kept (constantsOf host doc cls names)).map fun constant => (constant.name, constant.value)).map Prod.fst =
      (names.filterMap fun name => (host.constant? cls name).map (name, ·)).map Prod.fst :=
    congrArg (List.map Prod.fst) (view_kept_constantsOf names)
  rw [List.map_map] at hview
  refine hview.trans ?_
  rw [List.map_filterMap, ← List.filterMap_eq_filter]
  refine List.filterMap_congr fun name _ => ?_
  cases hv : host.constant? cls name <;> simp [Option.guard, hv]

theorem value_of_mem_kept {names : List String} {constant : Constant} (h : constant ∈ kept (constantsOf host doc cls names)) :
    host.constant? cls constant.name = some constant.value := by
  have hview := List.mem_map_of_mem (f := fun constant : Constant => (constant.name, constant.value)) h
  rw [view_kept_constantsOf] at hview
  obtain ⟨name, _, hname⟩ := List.mem_filterMap.mp hview
  obtain ⟨value, hvalue, heq⟩ := Option.map_eq_some_iff.mp hname
  obtain ⟨rfl, rfl⟩ := Prod.mk.inj heq
  exact hvalue

theorem drops_constantsOf_eq (names : List String) :
    drops (constantsOf host doc cls names) =
      (names.filter fun name => (host.constant? cls name).isNone).map (.missingConstantValue cls) := by
  rw [drops, constantsOf, List.filterMap_map, ← List.filterMap_eq_filter, List.map_filterMap]
  refine List.filterMap_congr fun name _ => ?_
  rw [Function.comp, constantOf]
  cases hv : host.constant? cls name <;> simp [dropReason?, Option.guard, hv]

/-- No loose constant is dropped. -/
theorem drops_looseConstantsOf : drops (looseConstantsOf host doc cls) = [] := by
  rw [looseConstantsOf, drops_constantsOf_eq]
  refine List.map_eq_nil_iff.mpr (List.filter_eq_nil_iff.mpr fun name hn => ?_)
  obtain ⟨value, hv⟩ := exists_constant?_of_mem (List.mem_filter.mp hn).1
  simp [hv]

theorem isEmpty_enumOf (info : EnumInfo) :
    (enumOf host doc cls info).isEmpty = !(info.members.any fun name => (host.constant? cls name).isSome) := by
  have hnames : (kept (constantsOf host doc cls info.members)).map Constant.name =
      info.members.filter fun name => (host.constant? cls name).isSome := names_kept_constantsOf info.members
  rw [Bool.eq_iff_iff, Enum.isEmpty, List.isEmpty_iff, ← List.map_eq_nil_iff (f := Constant.name), enumOf, hnames,
    List.filter_eq_nil_iff]
  simp

/-- The members of the enums of a class that have no value, each as often as an enum mentions it. -/
def missingMembers (host : Host) (cls : String) : List String :=
  (host.enums cls).flatMap fun info => info.members.filter fun name => (host.constant? cls name).isNone

end Values

/-- How the constants of a class are divided between its enums and the loose ones, given what the dump reports about the class. -/
structure ClassDecl.Divides (host : Host) (cls : ClassDecl) : Prop where
  /-- Loose are the listed constants that no enum mentions, in the order of the list. -/
  loose : cls.constants.map Constant.name =
    (host.constantNames cls.name).filter fun name => !(host.enums cls.name).any fun info => info.members.contains name
  looseValue : ∀ constant ∈ cls.constants, host.constant? cls.name constant.name = some constant.value
  /-- The enums are the reported ones of which a member has a value. Such an enum has the members with a value, in its own order. -/
  enums : List.Forall₂
    (fun info e => e.name = info.name ∧ e.isFlags = info.isBitfield ∧
      e.members.map (fun member => (member.name, member.value)) =
        info.members.filterMap fun name => (host.constant? cls.name name).map (name, ·))
    ((host.enums cls.name).filter fun info => info.members.any fun name => (host.constant? cls.name name).isSome) cls.enums
  /-- An enum that is left out mentions no listed constant. -/
  leftOut : ∀ info ∈ host.enums cls.name, (∀ name ∈ info.members, host.constant? cls.name name = none) →
    ∀ name ∈ info.members, name ∉ host.constantNames cls.name
  /-- A listed constant is in the class. -/
  placed : ∀ name ∈ host.constantNames cls.name,
    name ∈ cls.constants.map Constant.name ∨ ∃ e ∈ cls.enums, name ∈ e.members.map Constant.name
  /-- No constant is both loose and a member. -/
  apart : ∀ name ∈ cls.constants.map Constant.name, ∀ e ∈ cls.enums, name ∉ e.members.map Constant.name

section Class

variable {host : Host} {doc : Option ClassDoc} {cls : ClassDecl}

theorem divides_of_eq (henums : cls.enums = enumsOf host doc cls.name)
    (hconstants : cls.constants = kept (looseConstantsOf host doc cls.name)) : cls.Divides host := by
  have hloose : cls.constants.map Constant.name = looseNames host cls.name := by
    rw [hconstants, looseConstantsOf, names_kept_constantsOf]
    refine List.filter_eq_self.mpr fun name hn => ?_
    obtain ⟨value, hv⟩ := exists_constant?_of_mem (List.mem_filter.mp hn).1
    rw [hv, Option.isSome_some]
  refine
    { loose := hloose
      looseValue := fun constant hc => value_of_mem_kept (hconstants ▸ hc)
      enums := ?_
      leftOut := fun info _ hnone name hm hlisted => ?_
      placed := fun name hlisted => ?_
      apart := fun name hl e he hm => ?_ }
  · have hkept : cls.enums =
        ((host.enums cls.name).filter fun info => info.members.any fun name => (host.constant? cls.name name).isSome).map
          (enumOf host doc cls.name) := by
      rw [henums, enumsOf, List.filter_map]
      congr 1
      refine List.filter_congr fun info _ => ?_
      rw [Function.comp, isEmpty_enumOf, Bool.not_not]
    rw [hkept, List.forall₂_map_right_iff, List.forall₂_same]
    exact fun info _ => ⟨rfl, rfl, view_kept_constantsOf info.members⟩
  · obtain ⟨value, hv⟩ := exists_constant?_of_mem hlisted
    exact Option.some_ne_none value (hv.symm.trans (hnone name hm))
  · -- an enum that mentions a listed constant is kept, since the constant has a value
    by_cases hmentioned : ∃ info ∈ host.enums cls.name, name ∈ info.members
    · obtain ⟨info, hi, hm⟩ := hmentioned
      obtain ⟨value, hv⟩ := exists_constant?_of_mem hlisted
      have hvalue : (host.constant? cls.name name).isSome = true := by rw [hv, Option.isSome_some]
      have hne : (enumOf host doc cls.name info).isEmpty = false := by
        rw [isEmpty_enumOf, Bool.not_eq_false']
        exact List.any_eq_true.mpr ⟨name, hm, hvalue⟩
      refine Or.inr ⟨enumOf host doc cls.name info, henums ▸ mem_enumsOf.mpr ⟨⟨info, hi, rfl⟩, hne⟩, ?_⟩
      rw [enumOf, names_kept_constantsOf]
      exact List.mem_filter.mpr ⟨hm, hvalue⟩
    · refine Or.inl ?_
      rw [hloose]
      exact List.mem_filter.mpr ⟨hlisted, by simpa using hmentioned⟩
  · rw [hloose] at hl
    obtain ⟨⟨info, hi, rfl⟩, _⟩ := mem_enumsOf.mp (henums ▸ he)
    rw [enumOf, names_kept_constantsOf] at hm
    have hnot := (List.mem_filter.mp hl).2
    rw [Bool.not_eq_true', List.any_eq_false] at hnot
    exact hnot info hi (List.contains_iff_mem.mpr (List.mem_filter.mp hm).1)

end Class

/-! ## What is skipped -/

section Skipped

variable {settings : Settings} {host : Host} {docs : Docs}

theorem isLoss_of_lostConstant? {event : Event} {entry : String × String} (h : event.lostConstant? = some entry) :
    isLoss event = true := by
  unfold Event.lostConstant? at h
  split at h
  · rfl
  · nomatch h

/-- The dropped constants are found among the losses. -/
theorem filterMap_losses (log : List Event) :
    (log.filter isLoss).filterMap Event.lostConstant? = log.filterMap Event.lostConstant? := by
  rw [List.filterMap_filter]
  refine List.filterMap_congr fun event _ => ?_
  split
  · rfl
  · rename_i hnot
    cases hl : event.lostConstant? with
    | none => rfl
    | some entry => exact absurd (isLoss_of_lostConstant? hl) hnot

/-- The losses of a log are the dropped constants and the others. -/
theorem length_losses (log : List Event) : (log.filter isLoss).length =
    (log.filterMap Event.lostConstant?).length + (log.filter fun event => isLoss event && event.lostConstant?.isNone).length := by
  induction log with
  | nil => rfl
  | cons event rest ih =>
    rw [List.filter_cons, List.filterMap_cons, List.filter_cons]
    cases hl : event.lostConstant? with
    | none =>
      by_cases hloss : isLoss event = true
      · simp only [hloss, if_true, Option.isNone_none, Bool.and_true, List.length_cons]
        omega
      · simpa [hloss] using ih
    | some entry =>
      have hloss := isLoss_of_lostConstant? hl
      simp only [hloss, if_true, Option.isNone_some, Bool.and_false, Bool.false_eq_true, if_false, List.length_cons]
      omega

/-- Entering the enums of a class loses their members without a value, and nothing else. -/
theorem losses_enums (doc : Option ClassDoc) (cls : String) (r : Registry) :
    (Logged.foldSteps (enterEnum host doc cls) r (host.enums cls)).log.filter isLoss =
      (missingMembers host cls).map fun name => .dropped (.missingConstantValue cls name) := by
  have hregister : ∀ (r : Registry) (e : Enum), (registerClassEnum cls r e).log.filter isLoss = [] := by
    intro r e
    unfold registerClassEnum
    split
    · rfl
    · split <;> rfl
  have hdropped : ∀ whys : List Drop, (whys.map Event.dropped).filter isLoss = whys.map Event.dropped := by
    intro whys
    refine List.filter_eq_self.mpr fun event hm => ?_
    obtain ⟨why, _, rfl⟩ := List.mem_map.mp hm
    rfl
  rw [missingMembers, List.map_flatMap, ← List.filterMap_eq_filter]
  refine Logged.filterMap_log_foldSteps (fun r info => ?_) r (host.enums cls)
  rw [List.filterMap_eq_filter, enterEnum, Logged.andThen, List.filter_append, hregister, List.append_nil, hdropped,
    drops_constantsOf_eq, List.map_map]
  rfl

theorem lostConstants_visit (survey : Survey) (visit : Visit) :
    (survey.visit settings host docs visit).log.filterMap Event.lostConstant? =
      (admittedClass? settings host docs visit).toList.flatMap fun cls => (missingMembers host cls.name).map (cls.name, ·) := by
  have hproperties : ∀ doc, ((drops (propertiesOf host doc visit.name)).map Event.dropped).filterMap Event.lostConstant? = [] := by
    intro doc
    refine List.filterMap_eq_nil_iff.mpr fun event hm => ?_
    obtain ⟨why, hw, rfl⟩ := List.mem_map.mp hm
    obtain ⟨name, rfl⟩ := mem_drops_propertiesOf hw
    rfl
  have henums : ∀ doc r, (Logged.foldSteps (enterEnum host doc visit.name) r (host.enums visit.name)).log.filterMap
      Event.lostConstant? = (missingMembers host visit.name).map (visit.name, ·) := by
    intro doc r
    rw [← filterMap_losses, losses_enums, List.filterMap_map]
    exact congrFun List.filterMap_eq_map _
  unfold Survey.visit admittedClass?
  cases visit.verdict with
  | excluded why => rfl
  | orphan parent => rfl
  | admitted parent =>
    simp only [Survey.enter, List.filterMap_append, hproperties, henums, drops_looseConstantsOf]
    simp [Event.lostConstant?, classOf]

/-- No constant is dropped but members of enums of registered classes that have no value, each as often as an enum mentions it. -/
theorem lostConstants_ofDump : (ofDump settings host docs).log.filterMap Event.lostConstant? =
    (ofDump settings host docs).result.registry.classes.flatMap fun cls => (missingMembers host cls.name).map (cls.name, ·) := by
  have hmethods : ((surveyed settings host docs).flatMap fun cls =>
      (drops (methodsOf settings host docs (surveyOf settings host docs).registry cls.name)).map Event.dropped).filterMap
        Event.lostConstant? = [] := by
    refine List.filterMap_eq_nil_iff.mpr fun event hm => ?_
    obtain ⟨cls, _, hm⟩ := List.mem_flatMap.mp hm
    obtain ⟨why, hw, rfl⟩ := List.mem_map.mp hm
    obtain ⟨outcome, ho, hreason⟩ := List.mem_filterMap.mp hw
    obtain ⟨info, _, rfl⟩ := List.mem_map.mp ho
    cases hmethod : methodOf (surveyOf settings host docs).registry settings.realIsDouble host (docs.ofClass? cls.name) cls.name
        info with
    | ok method =>
      rw [hmethod] at hreason
      nomatch hreason
    | error reason =>
      rw [hmethod] at hreason
      obtain rfl := Option.some.inj hreason
      -- the reason for which a method is dropped names the method
      have hname := method?_of_methodOf hmethod
      cases reason with
      | missingConstantValue => nomatch hname
      | _ => rfl
  rw [← filterMap_losses, losses_ofDump, List.filterMap_append, hmethods, List.append_nil, filterMap_losses, surveyLogged,
    Logged.filterMap_log_foldSteps lostConstants_visit, classes_ofDump, populated, List.flatMap_map, surveyed,
    List.filterMap_eq_flatMap_toList, List.flatMap_assoc]
  rfl

/-- A registered class has the enums and the constants of its name. -/
theorem parts_of_mem {cls : ClassDecl} (h : cls ∈ (ofDump settings host docs).result.registry.classes) :
    cls.enums = enumsOf host (docs.ofClass? cls.name) cls.name ∧
      cls.constants = kept (looseConstantsOf host (docs.ofClass? cls.name) cls.name) := by
  rw [classes_ofDump] at h
  obtain ⟨bare, hbare, rfl⟩ := List.mem_map.mp h
  obtain ⟨visit, _, hadmitted⟩ := List.mem_filterMap.mp hbare
  obtain ⟨_, hcls⟩ := name_of_admittedClass? hadmitted
  rw [hcls]
  exact ⟨rfl, rfl⟩

end Skipped

/-- Whatever a dump lists, each registered class has its constants divided between its enums and the loose ones, and none is lost or
taken twice. That is what the loop leaves which removes names while the enums are built, whatever types are registered before, so that
it does not matter whether the type of an enum is refused. The loop loses the members of enums without a value, as often as enums
mention them, and nothing else. These are all the constants that a population drops, and each counts as one skipped member. -/
theorem constants_sorted (settings : Settings) (host : Host) (docs : Docs) :
    let outcome := ofDump settings host docs
    let classes := outcome.result.registry.classes
    (∀ cls ∈ classes, cls.Divides host ∧ ∀ r : Registry,
        let sorted := sortConstants host (docs.ofClass? cls.name) cls.name r
        sorted.result.1.enums = cls.enums ∧ sorted.result.2 = cls.constants ∧
          (sorted.log.filter isLoss).length = (missingMembers host cls.name).length) ∧
      outcome.log.filterMap Event.lostConstant? =
        classes.flatMap (fun cls => (missingMembers host cls.name).map (cls.name, ·)) ∧
      outcome.result.skipped = (classes.flatMap fun cls => missingMembers host cls.name).length +
        (outcome.log.filter fun event => isLoss event && event.lostConstant?.isNone).length := by
  intro outcome classes
  have hlost : outcome.log.filterMap Event.lostConstant? =
      classes.flatMap fun cls => (missingMembers host cls.name).map (cls.name, ·) := lostConstants_ofDump
  refine ⟨fun cls hcls => ?_, hlost, ?_⟩
  · obtain ⟨henums, hconstants⟩ := parts_of_mem hcls
    refine ⟨divides_of_eq henums hconstants, fun r => ?_⟩
    dsimp only
    rw [sortConstants_eq, drops_looseConstantsOf, List.map_nil, List.append_nil, losses_enums, List.length_map]
    exact ⟨henums.symm, hconstants.symm, rfl⟩
  · have hcount : (outcome.log.filterMap Event.lostConstant?).length =
        (classes.flatMap fun cls => missingMembers host cls.name).length := by
      rw [hlost]
      simp only [List.length_flatMap, List.length_map]
    rw [← hcount]
    exact skipped_ofDump.trans (length_losses outcome.log)

/-- Two enums share a constant, and a third one is left without members. -/
example :
    let enums : List EnumInfo := [⟨"Mode", ["B", "X", "B"], false⟩, ⟨"Flags", ["B"], true⟩, ⟨"Gone", ["X"], false⟩]
    let foo : ClassInfo :=
      ⟨"Foo", none, .core, true, true, false, true, [], [], [⟨"A", 1⟩, ⟨"B", 2⟩, ⟨"A", 3⟩, ⟨"B", 4⟩], enums⟩
    (enumsOf ⟨[foo], []⟩ none "Foo").map (fun e => (e.name, e.members.map Constant.value)) = [("Mode", [2, 2]), ("Flags", [2])] ∧
      (kept (looseConstantsOf ⟨[foo], []⟩ none "Foo")).map (fun constant => (constant.name, constant.value)) =
        [("A", 1), ("A", 1)] := by decide

end Catalog

end JuliaStubs
