import JuliaStubs.Proofs.Catalog.Undocumented
import JuliaStubs.Proofs.Source.Reclassed
import JuliaStubs.Proofs.Source.Stub

/-!
# Source without documentation

What documentation does to the files of classes: it adds lines, and changes none. The file of a class without its documentation is the
file made without it (`ofClass_undocumented`), with the same dispatch (`dispatchOf_undocumented`). In the text of a stub the
documentation comes last (`Stub.lines_eq_append`), and in that of an enum or a constant it is a matter of statements that declare
nothing (`filter_enumStatements`).
-/

namespace JuliaStubs

open Catalog Report Source

namespace Source

/-! ## Stubs -/

/-- The stub without its documentation and that of the classes it refers to. -/
def Stub.undocumented (stub : Stub) : Stub := { stub.mapClass ClassDecl.undocumented with doc := none }

/-- The text of a stub is the one without its documentation, and then the documentation. -/
theorem Stub.lines_eq_append (stub : Stub) : stub.lines = stub.undocumented.lines ++ stub.docLines := by
  have hbare : stub.undocumented.lines = { stub with doc := none }.lines :=
    headsKept_undocumented.lines_mapClass { stub with doc := none }
  have hdoc : { stub with doc := none }.docLines = [] := rfl
  rw [hbare, lines, lines, hdoc, List.append_nil]
  rfl

variable (scope : Scope) (cls : ClassDecl)

theorem signatureKept_undocumented : SignatureKept Method.undocumented := ⟨fun _ => rfl, fun _ => rfl, fun _ => rfl⟩

theorem stubOf_undocumented (method : Method) : stubOf (scope.mapClasses ClassDecl.undocumented) cls.undocumented method.undocumented =
    (stubOf scope cls method).map Stub.undocumented := by
  rw [headsKept_undocumented.stubOf_mapClasses, signatureKept_undocumented.stubOf]
  cases stubOf scope cls method <;> rfl

/-- The stubs of a class, and what is reported of its methods, do not depend on documentation. -/
theorem stubsOf_undocumented : ClassFile.stubsOf (scope.mapClasses ClassDecl.undocumented) cls.undocumented =
    (ClassFile.stubsOf scope cls).map (List.map Stub.undocumented) := by
  have hmethods : cls.undocumented.methods.filter Method.isBindable = (cls.methods.filter Method.isBindable).map Method.undocumented :=
    List.filter_map
  have hresult : (ClassFile.stubsOf (scope.mapClasses ClassDecl.undocumented) cls.undocumented).result =
      (ClassFile.stubsOf scope cls).result.map Stub.undocumented := by
    rw [result_stubsOf, hmethods, List.filterMap_map, result_stubsOf, List.map_filterMap]
    refine List.filterMap_congr fun method _ => ?_
    rw [Function.comp, stubOf_undocumented]
    cases stubOf scope cls method <;> rfl
  have hlog : (ClassFile.stubsOf (scope.mapClasses ClassDecl.undocumented) cls.undocumented).log =
      (ClassFile.stubsOf scope cls).log := by
    rw [log_stubsOf, hmethods, List.filterMap_map, log_stubsOf]
    refine List.filterMap_congr fun method _ => ?_
    rw [Function.comp, omission?, stubOf_undocumented, omission?]
    cases stubOf scope cls method <;> rfl
  exact congr (congrArg Logged.mk hresult) hlog

/-! ## Dispatches -/

theorem accessKept_undocumented : AccessKept Property.undocumented := ⟨fun _ => rfl, fun _ => rfl, fun _ => rfl, fun _ => rfl⟩

theorem method?_undocumented (routine : String) (cls : ClassDecl) :
    cls.undocumented.method? routine = (cls.method? routine).map Method.undocumented := List.find?_map

/-- The dispatch of a class does not depend on documentation. -/
theorem dispatchOf_undocumented :
    dispatchOf (scope.mapClasses ClassDecl.undocumented) cls.undocumented = dispatchOf scope cls := by
  have hbind := headsKept_undocumented.bindAccessors_mapClasses accessKept_undocumented signatureKept_undocumented
    method?_undocumented scope cls
  have hreadable : readable (scope.mapClasses ClassDecl.undocumented).registry cls.undocumented = _ :=
    headsKept_undocumented.readable_mapClasses (fun _ => rfl) accessKept_undocumented scope.registry cls
  have hwritable : writable (scope.mapClasses ClassDecl.undocumented).registry cls.undocumented = _ :=
    headsKept_undocumented.writable_mapClasses (fun _ => rfl) accessKept_undocumented scope.registry cls
  rw [dispatchOf, hreadable, hwritable, hbind, hbind, dispatchOf]
  rfl

/-! ## Files -/

/-- The file of a class without documentation. -/
def ClassFile.undocumented (file : ClassFile) : ClassFile :=
  { file with cls := file.cls.undocumented, stubs := file.stubs.map Stub.undocumented }

/-- The file of a class without its documentation, or why it has none. -/
theorem ofClass_undocumented : ClassFile.ofClass (scope.mapClasses ClassDecl.undocumented) cls.undocumented =
    (ClassFile.ofClass scope cls).map (Logged.map ClassFile.undocumented) := by
  have hsingleton : cls.undocumented.isSingleton = cls.isSingleton := rfl
  rw [ClassFile.ofClass, headsKept_undocumented.parentTagOf_mapClasses, stubsOf_undocumented, dispatchOf_undocumented, hsingleton,
    ClassFile.ofClass]
  cases ClassFile.parentTagOf scope cls with
  | error fault => rfl
  | ok parentTag =>
    by_cases hs : cls.isSingleton = true
    · simp only [hs, if_true]
      rfl
    · simp only [hs]
      rfl

/-! ## Text -/

/-- Whether a statement declares something. -/
def Statement.declares : Statement → Bool
  | .declareEnum .. | .synonym .. | .assign .. => true
  | .document .. | .documentNext .. => false

theorem filter_declares_map {α : Type} {declaration : α → Statement} (h : ∀ item, (declaration item).declares = true)
    (items : List α) : (items.map declaration).filter Statement.declares = items.map declaration := by
  rw [List.filter_eq_self]
  intro statement hs
  obtain ⟨item, _, rfl⟩ := List.mem_map.mp hs
  exact h item

theorem filter_declares_document (members : List Constant) :
    (members.filterMap fun member => member.doc.map (Statement.document · member.name)).filter Statement.declares = [] := by
  rw [List.filter_eq_nil_iff]
  intro statement hs
  obtain ⟨member, _, hs⟩ := List.mem_filterMap.mp hs
  obtain ⟨doc, _, rfl⟩ := Option.map_eq_some_iff.mp hs
  exact Bool.false_ne_true

/-- The statements of an enum that declare something are those of the enum without documentation. -/
theorem filter_enumStatements (e : Enum) : (enumStatements e).filter Statement.declares = enumStatements e.undocumented := by
  have hdeclared : ∀ name isWide members, Statement.declares (.declareEnum name isWide members) = true := fun _ _ _ => rfl
  have hnone : (e.undocumented.members.filterMap fun member => member.doc.map (Statement.document · member.name)) = [] := by
    rw [Enum.undocumented, List.filterMap_map]
    exact List.filterMap_eq_nil_iff.mpr fun _ _ => rfl
  rw [enumStatements, enumStatements, e.partition_undocumented, e.isNarrow_undocumented, hnone]
  dsimp only [EnumPartition.undocumented]
  rw [List.cons_append, List.filter_cons_of_pos (hdeclared _ _ _), List.filter_append, filter_declares_map fun _ => rfl,
    filter_declares_document, List.map_map, List.map_map]
  rfl

/-- The statement of a constant that declares something is that of the constant without documentation. -/
theorem filter_constantStatements (isConst : Bool) (constant : Constant) :
    (constantStatements isConst constant).filter Statement.declares = constantStatements isConst constant.undocumented := by
  unfold constantStatements
  cases hdoc : constant.doc <;> rfl

end Source

end JuliaStubs
