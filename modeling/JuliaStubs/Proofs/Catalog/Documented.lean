import JuliaStubs.Proofs.Catalog.Losses

/-!
# Texts of a catalog

Where the documentation of a catalog comes from: every text of a class, of its enums, constants and methods, and of the global scope is
made of texts of the documentation by cleaning them (`isText_of_mem_texts`, `isText_of_mem_globalTexts`).
-/

namespace JuliaStubs

open Dump Report

namespace Catalog

/-- A text made of a documentation: the cleaned description of a member, or the cleaned texts of a class with an empty line between. -/
def IsText (docs : Docs) (s : String) : Prop :=
  (∃ doc ∈ docs.classes, ∃ member ∈ doc.methods ++ doc.constants, s = DocText.clean member.description) ∨
    ∃ doc ∈ docs.classes, s = DocText.clean doc.brief ++ "\n\n" ++ DocText.clean doc.description

/-- The texts of constants. -/
def constantTexts (enums : List Enum) (constants : List Constant) : List String :=
  (enums.flatMap Enum.members ++ constants).filterMap Constant.doc

/-- The text of a class itself. -/
def ClassDecl.text? (cls : ClassDecl) : Option String := cls.doc.map fun doc => doc.brief ++ "\n\n" ++ doc.description

/-- The texts of a class and its members. -/
def ClassDecl.texts (cls : ClassDecl) : List String :=
  cls.text?.toList ++ constantTexts cls.enums cls.constants ++ cls.methods.filterMap Method.doc

section Texts

variable {settings : Settings} {host : Host} {docs : Docs}

theorem mem_of_class? {name : String} {doc : ClassDoc} (h : docs.class? name = some doc) : doc ∈ docs.classes :=
  List.mem_reverse.mp (List.mem_of_find?_eq_some h)

theorem isText_of_memberDoc {lookUp : String} {members : ClassDoc → List MemberDoc} {name s : String}
    (hmembers : ∀ doc, members doc ⊆ doc.methods ++ doc.constants)
    (h : memberDoc (docs.class? lookUp) members name = some s) : IsText docs s := by
  obtain ⟨doc, hdoc, hs⟩ := Option.bind_eq_some_iff.mp h
  obtain ⟨description, hdescription, hs⟩ := Option.bind_eq_some_iff.mp hs
  obtain ⟨member, hmember, rfl⟩ := Option.map_eq_some_iff.mp hdescription
  refine Or.inl ⟨doc, mem_of_class? hdoc, member, hmembers doc (List.mem_of_find?_eq_some hmember), ?_⟩
  rw [DocText.clean?] at hs
  split at hs
  · nomatch hs
  · exact (Option.some.inj hs).symm

theorem isText_of_constantsOf {cls : String} {lookUp : String} {names : List String} {constant : Constant}
    (h : constant ∈ kept (constantsOf host (docs.class? lookUp) cls names)) {s : String} (hs : constant.doc = some s) :
    IsText docs s := by
  obtain ⟨outcome, ho, hok⟩ := List.mem_filterMap.mp h
  obtain ⟨name, _, rfl⟩ := List.mem_map.mp ho
  have hok := toOption_eq_some_iff.mp hok
  unfold constantOf at hok
  split at hok
  · nomatch hok
  · obtain rfl := Except.ok.inj hok
    exact isText_of_memberDoc (fun _ => List.subset_append_right _ _) hs

/-- The texts of a registered class. -/
theorem isText_of_mem_texts {cls : ClassDecl} (h : cls ∈ (ofDump settings host docs).result.registry.newestFirst) {s : String}
    (hs : s ∈ cls.texts) : IsText docs s := by
  have hmethods := fun method hm => @exists_outcomeOf_of_mem settings host docs cls h method hm
  obtain ⟨bare, hb, rfl⟩ := exists_surveyed h
  obtain ⟨visit, _, hv⟩ := List.mem_filterMap.mp hb
  obtain ⟨parent, rfl⟩ : ∃ parent, classOf settings host docs visit.name parent = bare := by
    unfold admittedClass? at hv
    split at hv
    · exact ⟨_, Option.some.inj hv⟩
    · nomatch hv
  rcases List.mem_append.mp hs with hs | hs
  · rcases List.mem_append.mp hs with hs | hs
    · obtain ⟨cleaned, hcleaned, rfl⟩ := Option.map_eq_some_iff.mp (Option.mem_toList.mp hs)
      obtain ⟨doc, hdoc, rfl⟩ : ∃ doc, docs.ofClass? visit.name = some doc ∧ classDoc doc = cleaned :=
        Option.map_eq_some_iff.mp hcleaned
      exact Or.inr ⟨doc, mem_of_class? hdoc, rfl⟩
    · obtain ⟨constant, hc, hs⟩ := List.mem_filterMap.mp hs
      rcases List.mem_append.mp hc with hc | hc
      · obtain ⟨e, he, hc⟩ := List.mem_flatMap.mp hc
        obtain ⟨info, _, rfl⟩ := List.mem_map.mp (List.mem_filter.mp he).1
        exact isText_of_constantsOf hc hs
      · exact isText_of_constantsOf hc hs
  · obtain ⟨method, hm, hs⟩ := List.mem_filterMap.mp hs
    obtain ⟨info, _, hok⟩ := hmethods method hm
    rw [doc_of_methodOf hok] at hs
    exact isText_of_memberDoc (fun _ => List.subset_append_left _ _) hs

/-- The texts of the global scope. -/
theorem isText_of_mem_globalTexts {s : String}
    (hs : s ∈ constantTexts (ofDump settings host docs).result.globalEnums (ofDump settings host docs).result.globalConstants) :
    IsText docs s := by
  have hconstant : ∀ info, (globalConstantOf docs.globalScope? info).doc = some s → IsText docs s := fun info h =>
    isText_of_memberDoc (fun _ => List.subset_append_right _ _) h
  obtain ⟨constant, hc, hs⟩ := List.mem_filterMap.mp hs
  rcases List.mem_append.mp hc with hc | hc
  · obtain ⟨e, he, hc⟩ := List.mem_flatMap.mp hc
    obtain ⟨name, _, rfl⟩ := List.mem_map.mp he
    obtain ⟨info, _, rfl⟩ := List.mem_map.mp hc
    exact hconstant info hs
  · obtain ⟨info, _, rfl⟩ := List.mem_map.mp hc
    exact hconstant info hs

end Texts

end Catalog

end JuliaStubs
