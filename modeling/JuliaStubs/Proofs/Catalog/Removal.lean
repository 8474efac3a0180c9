import JuliaStubs.Proofs.Catalog.Agreement
import JuliaStubs.Proofs.Catalog.Methods
import JuliaStubs.Proofs.Catalog.Reclassed
import JuliaStubs.Proofs.Catalog.Signature
import JuliaStubs.Proofs.Dump.MethodPlace

/-!
# Catalogs with one method less

What another entry in the place of a method does to the catalog, when the method is rejected with it: the method is missing and
counted as skipped, and nothing else changes (`ofDump_hostWith`).
-/

namespace JuliaStubs

open Dump Report

/-- The class without a method, if it is the class of a name. -/
def Catalog.ClassDecl.without (cls : ClassDecl) (owner method : String) : ClassDecl :=
  if cls.name = owner then { cls with methods := cls.methods.filter fun other => other.name != method } else cls

theorem Catalog.ClassDecl.without_self (cls : ClassDecl) (method : String) :
    cls.without cls.name method = { cls with methods := cls.methods.filter fun other => other.name != method } := if_pos rfl

theorem Catalog.ClassDecl.without_of_ne {cls : ClassDecl} {owner : String} (h : cls.name ≠ owner) (method : String) :
    cls.without owner method = cls := if_neg h

theorem Catalog.ClassDecl.methods_without (cls : ClassDecl) (owner method : String) : (cls.without owner method).methods =
    cls.methods.filter fun other => !(cls.name == owner && other.name == method) := by
  by_cases h : cls.name = owner
  · subst h
    rw [without_self]
    simp only [BEq.rfl, Bool.true_and]
    rfl
  · rw [without_of_ne h, beq_eq_false_iff_ne.mpr h]
    simp only [Bool.false_and, Bool.not_false, List.filter_true]

namespace Catalog

/-- The method of a name in a class of a catalog. -/
def method? (catalog : Catalog) (owner method : String) : Option Method :=
  (catalog.registry.class? owner).bind fun cls => cls.method? method

/-- The catalog without a method of a class. -/
def without (catalog : Catalog) (owner method : String) : Catalog :=
  { catalog with registry := catalog.registry.mapClasses fun cls => cls.without owner method }

theorem eq_of_parts {catalog other : Catalog} (hregistry : catalog.registry = other.registry)
    (henums : catalog.globalEnums = other.globalEnums) (hconstants : catalog.globalConstants = other.globalConstants)
    (hskipped : catalog.skipped = other.skipped) : catalog = other := by
  cases catalog
  cases other
  simp_all

/-! ## Outcomes for the methods of a class -/

variable {settings : Settings} {docs : Docs} {r : Registry}

theorem filter_of_ne {methods : List Method} {name : String} (h : ∀ method ∈ methods, method.name ≠ name) :
    methods.filter (fun other => other.name != name) = methods ∧ (methods.any fun other => other.name == name) = false :=
  ⟨List.filter_eq_self.mpr fun method hm => bne_iff_ne.mpr (h method hm),
    List.any_eq_false.mpr fun method hm => by simpa using h method hm⟩

/-- A drop in place of the outcome for a method: the method is missing, if it was there, and counted. -/
theorem kept_replaced {left right : List (Except Drop Method)} {outcome : Except Drop Method} {why : Drop} {name : String}
    (hothers : ∀ method ∈ kept (left ++ right), method.name ≠ name) (houtcome : ∀ method, outcome = .ok method → method.name = name) :
    kept (left ++ .error why :: right) = (kept (left ++ outcome :: right)).filter (fun other => other.name != name) ∧
      (drops (left ++ .error why :: right)).length = (drops (left ++ outcome :: right)).length +
        if (kept (left ++ outcome :: right)).any fun other => other.name == name then 1 else 0 := by
  obtain ⟨hfilter, hany⟩ := filter_of_ne hothers
  rw [kept_append] at hfilter hany
  cases outcome with
  | error reason =>
    have hkept : kept (left ++ .error reason :: right) = kept left ++ kept right := kept_append left _
    rw [hkept, hfilter, hany, drops_append, drops_append, List.length_append, List.length_append]
    exact ⟨kept_append left _, rfl⟩
  | ok method =>
    have hkept : kept (left ++ .ok method :: right) = kept left ++ method :: kept right := kept_append left _
    have hmethod : method.name = name := houtcome method rfl
    have hfound : ((kept left ++ method :: kept right).any fun other => other.name == name) = true :=
      List.any_eq_true.mpr ⟨method, List.mem_append_right _ List.mem_cons_self, beq_iff_eq.mpr hmethod⟩
    rw [hkept, List.filter_append, List.filter_cons_of_neg (by simp [hmethod]), ← List.filter_append, hfilter, hfound, if_pos rfl,
      drops_append, drops_append, List.length_append, List.length_append]
    exact ⟨kept_append left _, rfl⟩

section Place

variable {place : MethodPlace} {entry entry' : MethodInfo}

theorem methodsOf_hostWith_of_ne (entry : MethodInfo) {cls : String} (h : cls ≠ place.cls.name) :
    methodsOf settings (place.hostWith entry') docs r cls = methodsOf settings (place.hostWith entry) docs r cls :=
  methodsOf_of_class? ((place.class?_hostWith entry entry' cls).resolve_right fun hplace => h hplace.1)

variable (hname : entry'.name = entry.name) (hdistinct : ((place.methodsWith entry).map MethodInfo.name).Nodup)

include hname in
theorem names_methodsWith : (place.methodsWith entry').map MethodInfo.name = (place.methodsWith entry).map MethodInfo.name := by
  simp only [MethodPlace.methodsWith, List.map_append, List.map_cons, hname]

include hdistinct in
theorem name_ne_of_mem {info : MethodInfo} (h : info ∈ place.preceding ++ place.following) : info.name ≠ entry.name := by
  intro heq
  have hnew := (List.nodup_cons.mp ((List.perm_middle.map MethodInfo.name).nodup_iff.mp hdistinct)).1
  exact hnew (heq ▸ List.mem_map_of_mem h)

include hname hdistinct

/-- Only the outcome for the entry itself can be another one, among outcomes for methods of other names. -/
theorem methodsOf_hostWith (settings : Settings) (docs : Docs) (r : Registry) :
    methodsOf settings (place.hostWith entry') docs r place.cls.name =
      methodsOf settings (place.hostWith entry) docs r place.cls.name ∨
    ∃ left right outcome outcome', methodsOf settings (place.hostWith entry) docs r place.cls.name = left ++ outcome :: right ∧
      methodsOf settings (place.hostWith entry') docs r place.cls.name = left ++ outcome' :: right ∧
      (∀ method ∈ kept (left ++ right), method.name ≠ entry.name) ∧ (∀ method, outcome = .ok method → method.name = entry.name) ∧
      ∀ method, outcome' = .ok method → method.name = entry.name := by
  rcases place.class?_hostWith entry entry' place.cls.name with hsame | ⟨-, hclass⟩
  · exact Or.inl (methodsOf_of_class? hsame)
  · have hmethods : ∀ e, (place.hostWith e).methods place.cls.name = place.methodsWith e := fun e => by
      rw [Host.methods, hclass]
      rfl
    obtain ⟨left, right, hsorted, hsorted', hperm⟩ := sortedMethods_split (hmethods entry) (hmethods entry') hname hdistinct
    let outcomeOf := fun (e info : MethodInfo) =>
      methodOf r settings.realIsDouble (place.hostWith e) (docs.ofClass? place.cls.name) place.cls.name info
    have hbinding : ∀ e, ((place.methodsWith e).map MethodInfo.name).Nodup → ∀ info ∈ left ++ right,
        (place.hostWith e).binding? place.cls.name info.name = info.binding? := by
      intro e he info hi
      have hm : info ∈ (place.classWith e).methods :=
        List.perm_middle.mem_iff.mpr (List.mem_cons_of_mem _ (hperm.mem_iff.mp hi))
      rw [Host.binding?, hclass, Option.bind_some, ClassInfo.binding?_of_mem he hm]
    have hothers : ∀ info ∈ left ++ right, outcomeOf entry' info = outcomeOf entry info := by
      intro info hi
      have hdistinct' := (names_methodsWith hname).symm ▸ hdistinct
      simp only [outcomeOf, methodOf, hbinding entry hdistinct info hi, hbinding entry' hdistinct' info hi]
    refine Or.inr ⟨left.map (outcomeOf entry), right.map (outcomeOf entry), outcomeOf entry entry, outcomeOf entry' entry',
      ?_, ?_, fun method hm => ?_, fun method hok => (methodOf_ok hok).1, fun method hok => (methodOf_ok hok).1.trans hname⟩
    · rw [methodsOf, hsorted, List.map_append, List.map_cons]
    · rw [methodsOf, hsorted', List.map_append, List.map_cons,
        List.map_congr_left fun info hi => hothers info (List.mem_append_left right hi),
        List.map_congr_left fun info hi => hothers info (List.mem_append_right left hi)]
    · rw [← List.map_append] at hm
      obtain ⟨outcome, ho, hok⟩ := List.mem_filterMap.mp hm
      obtain ⟨info, hi, rfl⟩ := List.mem_map.mp ho
      rw [(methodOf_ok (toOption_eq_some_iff.mp hok)).1]
      exact name_ne_of_mem hdistinct (hperm.mem_iff.mp hi)

/-- When the method is rejected with the other entry, it is missing and counted, and nothing else changes. -/
theorem kept_hostWith
    (hrejected : ∀ method ∈ kept (methodsOf settings (place.hostWith entry') docs r place.cls.name), method.name ≠ entry.name) :
    kept (methodsOf settings (place.hostWith entry') docs r place.cls.name) =
        (kept (methodsOf settings (place.hostWith entry) docs r place.cls.name)).filter (fun other => other.name != entry.name) ∧
      (drops (methodsOf settings (place.hostWith entry') docs r place.cls.name)).length =
        (drops (methodsOf settings (place.hostWith entry) docs r place.cls.name)).length +
          if (kept (methodsOf settings (place.hostWith entry) docs r place.cls.name)).any fun other => other.name == entry.name
          then 1 else 0 := by
  rcases methodsOf_hostWith hname hdistinct settings docs r with
    hsame | ⟨left, right, outcome, outcome', hsplit, hsplit', hothers, hentry, hentry'⟩
  · rw [hsame] at hrejected ⊢
    obtain ⟨hfilter, hany⟩ := filter_of_ne hrejected
    rw [hfilter, hany]
    exact ⟨rfl, rfl⟩
  · cases outcome' with
    | error why =>
      rw [hsplit, hsplit']
      exact kept_replaced hothers hentry
    | ok method =>
      refine absurd (hentry' method rfl) (hrejected method ?_)
      rw [hsplit', kept_append]
      exact List.mem_append_right _ List.mem_cons_self

end Place

/-! ## The catalog -/

section OfDump

variable {place : MethodPlace} {entry entry' : MethodInfo} (hname : entry'.name = entry.name)
  (hdistinct : ((place.methodsWith entry).map MethodInfo.name).Nodup)

theorem method?_ofDump {host : Host} {cls : ClassDecl} (h : cls ∈ surveyed settings host docs) (method : String) :
    (ofDump settings host docs).result.method? cls.name method =
      (kept (methodsOf settings host docs (surveyOf settings host docs).registry cls.name)).find? fun other =>
        other.name == method := by
  rw [Catalog.method?, class?_ofDump h, Option.bind_some]
  rfl

variable (hrejected : (ofDump settings (place.hostWith entry') docs).result.method? place.cls.name entry.name = none)

include hrejected in
/-- What it means for the methods of the class that the catalog does not have the method. -/
theorem name_ne_of_rejected {cls : ClassDecl} (hc : cls ∈ surveyed settings (place.hostWith entry) docs)
    (howner : cls.name = place.cls.name) : ∀ method ∈ kept (methodsOf settings (place.hostWith entry') docs
      (surveyOf settings (place.hostWith entry) docs).registry place.cls.name), method.name ≠ entry.name := by
  have hagree := (place.agree entry' entry).agreeFrom settings.rootClass
  rw [← hagree.surveyed] at hc
  rw [← howner, method?_ofDump hc, howner, hagree.surveyOf, List.find?_eq_none] at hrejected
  exact fun method hm heq => hrejected method hm (beq_iff_eq.mpr heq)

include hname hdistinct hrejected

/-- With the other entry a class has the same methods but for the rejected one. -/
theorem withMethods_hostWith {cls : ClassDecl} (hc : cls ∈ surveyed settings (place.hostWith entry) docs) :
    withMethods settings (place.hostWith entry') docs (surveyOf settings (place.hostWith entry) docs).registry cls =
      (withMethods settings (place.hostWith entry) docs (surveyOf settings (place.hostWith entry) docs).registry cls).without
        place.cls.name entry.name := by
  let full := withMethods settings (place.hostWith entry) docs (surveyOf settings (place.hostWith entry) docs).registry cls
  by_cases howner : cls.name = place.cls.name
  · have hkept := (kept_hostWith hname hdistinct (name_ne_of_rejected hrejected hc howner)).1
    rw [← howner] at hkept ⊢
    exact (congrArg (fun methods => { cls with methods }) hkept).trans (full.without_self _).symm
  · rw [withMethods, methodsOf_hostWith_of_ne entry howner]
    have hfull : full.name ≠ place.cls.name := howner
    exact (ClassDecl.without_of_ne hfull _).symm

/-- With the other entry one more method is dropped, if the method was bound before. -/
theorem length_drops_hostWith : ((surveyed settings (place.hostWith entry) docs).flatMap fun cls =>
      drops (methodsOf settings (place.hostWith entry') docs (surveyOf settings (place.hostWith entry) docs).registry cls.name)).length =
    ((surveyed settings (place.hostWith entry) docs).flatMap fun cls =>
      drops (methodsOf settings (place.hostWith entry) docs (surveyOf settings (place.hostWith entry) docs).registry cls.name)).length +
        if ((ofDump settings (place.hostWith entry) docs).result.method? place.cls.name entry.name).isSome then 1 else 0 := by
  let dropsOf := fun (e : MethodInfo) (cls : ClassDecl) =>
    drops (methodsOf settings (place.hostWith e) docs (surveyOf settings (place.hostWith entry) docs).registry cls.name)
  have hothers : ∀ classes : List ClassDecl, (∀ cls ∈ classes, cls.name ≠ place.cls.name) →
      classes.flatMap (dropsOf entry') = classes.flatMap (dropsOf entry) := fun classes hne =>
    List.flatMap_congr fun cls hc => congrArg drops (methodsOf_hostWith_of_ne entry (hne cls hc))
  by_cases howner : ∃ cls ∈ surveyed settings (place.hostWith entry) docs, cls.name = place.cls.name
  · obtain ⟨cls, hc, howner⟩ := howner
    have hcount := (kept_hostWith hname hdistinct (name_ne_of_rejected hrejected hc howner)).2
    have hfound := method?_ofDump hc entry.name
    rw [howner] at hfound
    rw [← List.isSome_find?, ← hfound] at hcount
    -- the classes before and after the one of the place drop the same methods with both entries
    obtain ⟨before, after, hsplit⟩ := List.append_of_mem hc
    have hdistinct' := nodup_surveyed settings (place.hostWith entry) docs
    rw [hsplit] at hdistinct'
    have hnew := (List.nodup_cons.mp ((List.perm_middle.map ClassDecl.name).nodup_iff.mp hdistinct')).1
    rw [howner] at hnew
    have hne : ∀ other ∈ before ++ after, other.name ≠ place.cls.name := fun other ho heq =>
      hnew (heq ▸ List.mem_map_of_mem ho)
    have hmiddle : ∀ e, dropsOf e cls = drops (methodsOf settings (place.hostWith e) docs
        (surveyOf settings (place.hostWith entry) docs).registry place.cls.name) := fun e => by rw [← howner]
    show ((surveyed settings (place.hostWith entry) docs).flatMap (dropsOf entry')).length =
      ((surveyed settings (place.hostWith entry) docs).flatMap (dropsOf entry)).length + _
    rw [hsplit, List.flatMap_append, List.flatMap_cons, List.flatMap_append, List.flatMap_cons,
      hothers before fun other ho => hne other (List.mem_append_left _ ho),
      hothers after fun other ho => hne other (List.mem_append_right _ ho), hmiddle, hmiddle]
    simp only [List.length_append, hcount]
    omega
  · have hnone : (ofDump settings (place.hostWith entry) docs).result.method? place.cls.name entry.name = none := by
      rw [Catalog.method?, Option.bind_eq_none_iff]
      intro found hf
      obtain ⟨hm, hn⟩ := Registry.mem_of_class? hf
      obtain ⟨cls, hc, rfl⟩ := exists_surveyed hm
      exact absurd ⟨cls, hc, hn⟩ howner
    rw [hnone]
    exact congrArg List.length (hothers _ fun cls hc heq => howner ⟨cls, hc, heq⟩)

/-- The catalog of a dump with another entry for a method, where the method is rejected: it is the catalog without this method, and
the method counts as skipped if it did not before. -/
theorem ofDump_hostWith : (ofDump settings (place.hostWith entry') docs).result =
    { (ofDump settings (place.hostWith entry) docs).result.without place.cls.name entry.name with
      skipped := (ofDump settings (place.hostWith entry) docs).result.skipped +
        if ((ofDump settings (place.hostWith entry) docs).result.method? place.cls.name entry.name).isSome then 1 else 0 } := by
  have hagree := (place.agree entry' entry).agreeFrom settings.rootClass
  have hregistry : (ofDump settings (place.hostWith entry') docs).result.registry =
      ((ofDump settings (place.hostWith entry) docs).result.without place.cls.name entry.name).registry := by
    rw [registry_ofDump, Catalog.without, registry_ofDump, Registry.mapClasses, populated, populated, hagree.surveyed,
      hagree.surveyOf, List.map_reverse, List.map_map,
      List.map_congr_left fun cls hc => withMethods_hostWith hname hdistinct hrejected hc]
    rfl
  have hskipped : (ofDump settings (place.hostWith entry') docs).result.skipped =
      (ofDump settings (place.hostWith entry) docs).result.skipped +
        if ((ofDump settings (place.hostWith entry) docs).result.method? place.cls.name entry.name).isSome then 1 else 0 := by
    have hlosses := length_drops_hostWith hname hdistinct hrejected
    simp only [List.length_flatMap] at hlosses
    simp only [skipped_ofDump, losses_ofDump, hagree.surveyLogged, hagree.surveyed, hagree.surveyOf, List.length_append,
      List.length_flatMap, List.length_map, hlosses]
    omega
  have henums := hagree.globalEnumsOf docs.globalScope?
  have hconstants := hagree.looseGlobalsOf docs.globalScope?
  exact eq_of_parts hregistry henums hconstants hskipped

end OfDump

end Catalog

end JuliaStubs
