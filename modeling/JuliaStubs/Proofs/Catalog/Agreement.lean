import JuliaStubs.Proofs.Catalog.Losses
import JuliaStubs.Proofs.Dump.Agreement

/-!
# Catalogs of dumps that agree

What the stages of `ofDump` before the methods make of two dumps that agree: the visits are the same when the trees are
(`Host.SameTree.visits`), and the survey is when the admitted classes are the same besides methods (`Host.AgreeFrom.surveyLogged`). The
methods come last and class by class, so the catalogs are the same when the methods of the admitted classes are
(`Host.AgreeFrom.ofDump_eq`).
-/

namespace JuliaStubs.Dump.Host

open Catalog Report

variable {host other : Host}

/-! ## Visits -/

namespace SameTree

variable (h : host.SameTree other)

include h

theorem exclusion? (name : String) : Traversal.exclusion? host name = Traversal.exclusion? other name := by
  rw [Traversal.exclusion?, h.partition, h.isExposed, h.isEnabled, Traversal.exclusion?]

theorem nearestFrom (admitted seen : List String) (current : Option String) :
    Traversal.nearestFrom host admitted seen current = Traversal.nearestFrom other admitted seen current := by
  fun_induction Traversal.nearestFrom host admitted seen current with
  | case1 => rw [Traversal.nearestFrom]
  | case2 seen name hin => rw [Traversal.nearestFrom, if_pos hin]
  | case3 seen name hnot hagain => rw [Traversal.nearestFrom, if_neg hnot, if_pos hagain]
  | case4 seen name hnot hnew ih => rw [Traversal.nearestFrom, if_neg hnot, if_neg hnew, ih, h.parent?]

theorem verdict (root : String) (admitted : List String) (name : String) :
    Traversal.verdict host root admitted name = Traversal.verdict other root admitted name := by
  rw [Traversal.verdict, Traversal.nearestAdmitted?, h.exclusion?, h.nearestFrom, h.parent?, Traversal.verdict,
    Traversal.nearestAdmitted?]

theorem visitFrom (root : String) (queue visited admitted : List String) :
    Traversal.visitFrom host root queue visited admitted = Traversal.visitFrom other root queue visited admitted := by
  fun_induction Traversal.visitFrom host root queue visited admitted with
  | case1 => rw [Traversal.visitFrom]
  | case2 visited admitted name rest hseen ih => rw [Traversal.visitFrom, if_pos hseen, ih]
  | case3 visited admitted name rest hnew visit ih =>
    have hverdict : visit = ⟨name, Traversal.verdict other root admitted name⟩ :=
      congrArg (Visit.mk name) (h.verdict root admitted name)
    rw [h.inheriters] at ih
    rw [Traversal.visitFrom, if_neg hnew, h.inheriters, ih, hverdict]

theorem visits (root : String) : Catalog.visits host root = Catalog.visits other root := h.visitFrom root _ _ _

end SameTree

/-! ## Members -/

namespace AgreeAt

variable {cls : String} (h : host.AgreeAt other cls) (doc : Option ClassDoc)

include h

theorem propertiesOf : Catalog.propertiesOf host doc cls = Catalog.propertiesOf other doc cls := by
  rw [Catalog.propertiesOf, h.properties, Catalog.propertiesOf]
  refine List.map_congr_left fun slot _ => ?_
  rw [propertyOf, h.propertyIndex?, h.getter?, h.setter?, propertyOf]

theorem constantsOf (names : List String) : Catalog.constantsOf host doc cls names = Catalog.constantsOf other doc cls names := by
  refine List.map_congr_left fun name _ => ?_
  rw [constantOf, h.constant?, constantOf]

theorem enumOf (info : EnumInfo) : Catalog.enumOf host doc cls info = Catalog.enumOf other doc cls info := by
  rw [Catalog.enumOf, h.constantsOf, Catalog.enumOf]

theorem enumsOf : Catalog.enumsOf host doc cls = Catalog.enumsOf other doc cls := by
  rw [Catalog.enumsOf, h.enums, funext (h.enumOf doc), Catalog.enumsOf]

theorem looseConstantsOf : Catalog.looseConstantsOf host doc cls = Catalog.looseConstantsOf other doc cls := by
  rw [Catalog.looseConstantsOf, looseNames, h.constantNames, h.enums, h.constantsOf, Catalog.looseConstantsOf, looseNames]

theorem enterEnum : Catalog.enterEnum host doc cls = Catalog.enterEnum other doc cls := by
  funext r info
  rw [Catalog.enterEnum, h.constantsOf, h.enumOf, Catalog.enterEnum]

omit doc in
theorem classOf (htree : host.SameTree other) (settings : Settings) (docs : Docs) (parent : Option String) :
    Catalog.classOf settings host docs cls parent = Catalog.classOf settings other docs cls parent := by
  rw [Catalog.classOf, htree.partition, h.isSingleton, h.isInstantiable, htree.inherits, h.enumsOf, h.looseConstantsOf,
    h.propertiesOf, Catalog.classOf]

end AgreeAt

theorem globalEnumsOf_congr (h : host.globalConstants = other.globalConstants) (doc : Option ClassDoc) :
    globalEnumsOf host doc = globalEnumsOf other doc := by
  have hof : globalEnumOf host doc = globalEnumOf other doc := by
    funext name
    rw [globalEnumOf, globalMembers, h, globalEnumOf, globalMembers]
  rw [globalEnumsOf, globalEnumNames, h, hof, globalEnumsOf, globalEnumNames]

theorem looseGlobalsOf_congr (h : host.globalConstants = other.globalConstants) (doc : Option ClassDoc) :
    looseGlobalsOf host doc = looseGlobalsOf other doc := by
  rw [looseGlobalsOf, h, looseGlobalsOf]

/-! ## The survey -/

/-- Two dumps that answer the questions alike that a run asks before it comes to the methods, when it starts at a root: about the tree,
the global scope, and the classes that are admitted. -/
structure AgreeFrom (host other : Host) (root : String) : Prop where
  sameTree : host.SameTree other
  globalConstants : host.globalConstants = other.globalConstants
  admitted : ∀ visit ∈ visits host root, ∀ parent, visit.verdict = .admitted parent → host.AgreeAt other visit.name

theorem Agree.agreeFrom (h : host.Agree other) (root : String) : host.AgreeFrom other root :=
  ⟨h.sameTree, h.globalConstants, fun visit _ _ _ => h.class? visit.name⟩

namespace AgreeFrom

variable {settings : Settings} (h : host.AgreeFrom other settings.rootClass) (docs : Docs)

include h

theorem globalEnumsOf (doc : Option ClassDoc) : Catalog.globalEnumsOf host doc = Catalog.globalEnumsOf other doc :=
  globalEnumsOf_congr h.globalConstants doc

theorem looseGlobalsOf (doc : Option ClassDoc) : Catalog.looseGlobalsOf host doc = Catalog.looseGlobalsOf other doc :=
  looseGlobalsOf_congr h.globalConstants doc

theorem surveyVisit {visit : Visit} (hv : visit ∈ visits host settings.rootClass) (survey : Survey) :
    survey.visit settings host docs visit = survey.visit settings other docs visit := by
  rw [Survey.visit, Survey.visit]
  cases hverdict : visit.verdict with
  | excluded why => rfl
  | orphan parent => rfl
  | admitted parent =>
    have hat := h.admitted visit hv parent hverdict
    dsimp only
    rw [Survey.enter, hat.classOf h.sameTree, hat.enterEnum, hat.enums, hat.propertiesOf, hat.looseConstantsOf, Survey.enter]

theorem foldSteps_visit (survey : Survey) :
    Logged.foldSteps (Survey.visit settings host docs) survey (visits host settings.rootClass) =
      Logged.foldSteps (Survey.visit settings other docs) survey (visits other settings.rootClass) := by
  rw [Logged.foldSteps_congr fun survey visit hv => h.surveyVisit docs hv survey, h.sameTree.visits]

theorem surveyLogged : Catalog.surveyLogged settings host docs = Catalog.surveyLogged settings other docs := by
  rw [Catalog.surveyLogged, h.globalEnumsOf, h.foldSteps_visit, Catalog.surveyLogged]

theorem surveyOf : Catalog.surveyOf settings host docs = Catalog.surveyOf settings other docs :=
  congrArg Logged.result (h.surveyLogged docs)

theorem surveyed : Catalog.surveyed settings host docs = Catalog.surveyed settings other docs := by
  rw [← classes_surveyOf, h.surveyOf, classes_surveyOf]

/-! ## Methods -/

/-- The catalogs are the same, and so are the events of making them, when the same methods of the registered classes are bound and
dropped. -/
theorem ofDump_eq (hmethods : ∀ r, ∀ cls ∈ Catalog.surveyed settings host docs,
      methodsOf settings host docs r cls.name = methodsOf settings other docs r cls.name) :
    ofDump settings host docs = ofDump settings other docs := by
  have hclasses : (Catalog.surveyLogged settings other docs).result.classes = Catalog.surveyed settings host docs := by
    rw [← h.surveyLogged docs]
    exact classes_surveyOf
  have hwith : ∀ r, (Catalog.surveyed settings host docs).map (withMethods settings host docs r) =
      (Catalog.surveyed settings host docs).map (withMethods settings other docs r) := fun r =>
    List.map_congr_left fun cls hc => by rw [withMethods, hmethods r cls hc, withMethods]
  have hevents : ∀ r, (Catalog.surveyed settings host docs).flatMap (methodEvents settings host docs r) =
      (Catalog.surveyed settings host docs).flatMap (methodEvents settings other docs r) := fun r =>
    List.flatMap_congr fun cls hc => by rw [methodEvents, hmethods r cls hc, methodEvents]
  unfold ofDump
  dsimp only
  rw [h.globalEnumsOf, h.looseGlobalsOf, h.foldSteps_visit, ← Catalog.surveyLogged, hclasses, hwith, hevents]

end AgreeFrom

/-- The catalogs of dumps that agree besides methods are the same when the same methods are bound and dropped. -/
theorem Agree.ofDump_eq (h : host.Agree other) {settings : Settings} {docs : Docs}
    (hmethods : ∀ r cls, methodsOf settings host docs r cls = methodsOf settings other docs r cls) :
    ofDump settings host docs = ofDump settings other docs :=
  (h.agreeFrom settings.rootClass).ofDump_eq docs fun r cls _ => hmethods r cls.name

end JuliaStubs.Dump.Host
