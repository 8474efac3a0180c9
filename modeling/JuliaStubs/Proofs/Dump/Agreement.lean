import JuliaStubs.Proofs.Dump.Lookups
import JuliaStubs.Proofs.Text.Sorted

/-!
# Dumps that agree

How much two dumps need to have in common to give the same answers. Questions about the place of classes in the tree of parents are
answered by the outlines of the classes (`Host.SameTree`), questions about the members of one class other than its methods by that
class without its methods (`Host.AgreeAt`). Two dumps agree besides methods when they do at every class and have the same tree, as
dumps do whose classes are the same besides methods and their order (`Host.Agree.of_perm`). The names of classes may repeat.
-/

namespace JuliaStubs.Dump

/-- The class without its methods. -/
def ClassInfo.bare (cls : ClassInfo) : ClassInfo := { cls with methods := [] }

/-- The class without its members, and without what tells how its objects come about. -/
def ClassInfo.outline (cls : ClassInfo) : ClassInfo :=
  { cls with isSingleton := false, isInstantiable := false, properties := [], methods := [], constants := [], enums := [] }

section Views

variable {α : Type} {view : ClassInfo → ClassInfo} {cls? cls?' : Option ClassInfo} (h : cls?.map view = cls?'.map view)

include h

/-- A question to a class that what is seen of the class answers. -/
theorem map_eq_of_view {question : ClassInfo → α} (hview : ∀ cls : ClassInfo, question (view cls) = question cls) :
    cls?.map question = cls?'.map question := by
  have hsee : ∀ cls? : Option ClassInfo, cls?.map question = (cls?.map view).map question := by
    intro cls?
    rw [Option.map_map]
    exact Option.map_congr fun cls _ => (hview cls).symm
  rw [hsee, h, ← hsee]

/-- A question to a class that it may have no answer to. -/
theorem bind_eq_of_view {question : ClassInfo → Option α} (hview : ∀ cls : ClassInfo, question (view cls) = question cls) :
    cls?.bind question = cls?'.bind question := by
  have hjoin : ∀ cls? : Option ClassInfo, cls?.bind question = (cls?.map question).join := by
    intro cls?
    cases cls? <;> rfl
  rw [hjoin, map_eq_of_view h hview, ← hjoin]

end Views

/-! ## The tree -/

/-- Two dumps with the same classes in the same places, whatever their members. -/
structure Host.SameTree (host other : Host) : Prop where
  class? : ∀ name, (host.class? name).map ClassInfo.outline = (other.class? name).map ClassInfo.outline
  inheriters : ∀ name, Text.sortNames (host.inheriters name) = Text.sortNames (other.inheriters name)
  length : host.classes.length = other.classes.length

namespace Host.SameTree

variable {host other : Host} (h : host.SameTree other)

include h

theorem partition (name : String) : host.partition name = other.partition name := by
  rw [Host.partition, map_eq_of_view (h.class? name) fun _ => rfl, Host.partition]

theorem isExposed (name : String) : host.flag name ClassInfo.isExposed = other.flag name ClassInfo.isExposed := by
  rw [Host.flag, map_eq_of_view (h.class? name) fun _ => rfl, Host.flag]

theorem isEnabled (name : String) : host.flag name ClassInfo.isEnabled = other.flag name ClassInfo.isEnabled := by
  rw [Host.flag, map_eq_of_view (h.class? name) fun _ => rfl, Host.flag]

theorem parent? (name : String) : host.parent? name = other.parent? name := bind_eq_of_view (h.class? name) fun _ => rfl

/-- The ways up from a class pass the same outlines. -/
theorem chain (steps : Nat) (name : String) :
    (host.chain steps name).map ClassInfo.outline = (other.chain steps name).map ClassInfo.outline := by
  induction steps generalizing name with
  | zero => rfl
  | succ steps ih =>
    have hclass := h.class? name
    rw [Host.chain, Host.chain]
    cases hc : host.class? name with
    | none =>
      rw [hc, Option.map_none] at hclass
      rw [Option.map_eq_none_iff.mp hclass.symm]
    | some cls =>
      rw [hc, Option.map_some] at hclass
      obtain ⟨cls', ho, houtline⟩ := Option.map_eq_some_iff.mp hclass.symm
      have hparent : cls'.outline.parent = cls.outline.parent := congrArg ClassInfo.parent houtline
      simp only [ho, show cls'.parent = cls.parent from hparent]
      cases cls.parent with
      | none => simp only [List.map_cons, List.map_nil, houtline]
      | some p => simp only [List.map_cons, houtline, ih p]

theorem lineage (name : String) : (host.lineage name).map ClassInfo.outline = (other.lineage name).map ClassInfo.outline := by
  rw [Host.lineage, h.length, h.chain, Host.lineage]

theorem inherits (name ancestor : String) : host.inherits name ancestor = other.inherits name ancestor := by
  have hany : ∀ classes : List ClassInfo, (classes.any fun cls => cls.name == ancestor) =
      (classes.map ClassInfo.outline).any fun cls => cls.name == ancestor := by
    intro classes
    rw [List.any_map]
    rfl
  rw [Host.inherits, hany, h.lineage, ← hany, Host.inherits]

end Host.SameTree

/-! ## The members of a class -/

/-- Two dumps that know the same class of a name, its methods apart. -/
def Host.AgreeAt (host other : Host) (name : String) : Prop :=
  (host.class? name).map ClassInfo.bare = (other.class? name).map ClassInfo.bare

namespace Host.AgreeAt

variable {host other : Host} {name : String} (h : host.AgreeAt other name)

include h

theorem isSingleton : host.flag name ClassInfo.isSingleton = other.flag name ClassInfo.isSingleton := by
  rw [Host.flag, map_eq_of_view h fun _ => rfl, Host.flag]

theorem isInstantiable : host.flag name ClassInfo.isInstantiable = other.flag name ClassInfo.isInstantiable := by
  rw [Host.flag, map_eq_of_view h fun _ => rfl, Host.flag]

theorem properties : host.properties name = other.properties name := by
  rw [Host.properties, map_eq_of_view h fun _ => rfl, Host.properties]

theorem property? (property : String) : host.property? name property = other.property? name property :=
  bind_eq_of_view h fun _ => rfl

theorem getter? (property : String) : host.getter? name property = other.getter? name property := by
  rw [Host.getter?, h.property?, Host.getter?]

theorem setter? (property : String) : host.setter? name property = other.setter? name property := by
  rw [Host.setter?, h.property?, Host.setter?]

theorem propertyIndex? (property : String) : host.propertyIndex? name property = other.propertyIndex? name property := by
  rw [Host.propertyIndex?, h.property?, Host.propertyIndex?]

theorem constantNames : host.constantNames name = other.constantNames name := by
  rw [Host.constantNames, map_eq_of_view h fun _ => rfl, Host.constantNames]

theorem constant? (constant : String) : host.constant? name constant = other.constant? name constant :=
  bind_eq_of_view h fun _ => rfl

theorem enums : host.enums name = other.enums name := by
  rw [Host.enums, map_eq_of_view h fun _ => rfl, Host.enums]

end Host.AgreeAt

/-! ## Which dumps agree -/

/-- Two dumps that answer the questions alike that are not about methods. -/
structure Host.Agree (host other : Host) : Prop where
  class? : ∀ name, (host.class? name).map ClassInfo.bare = (other.class? name).map ClassInfo.bare
  inheriters : ∀ name, Text.sortNames (host.inheriters name) = Text.sortNames (other.inheriters name)
  length : host.classes.length = other.classes.length
  globalConstants : host.globalConstants = other.globalConstants

theorem Host.Agree.sameTree {host other : Host} (h : host.Agree other) : host.SameTree other where
  class? name := map_eq_of_view (h.class? name) fun _ => rfl
  inheriters := h.inheriters
  length := h.length

/-- The class of a name as it is seen, found among the classes as they are seen. -/
theorem Host.map_class? (host : Host) (view : ClassInfo → ClassInfo) (hview : ∀ cls : ClassInfo, (view cls).name = cls.name)
    (name : String) : (host.class? name).map view = (host.classes.map view).reverse.find? fun cls => cls.name == name := by
  rw [← List.map_reverse, List.find?_map]
  simp only [Function.comp_def, hview]
  rfl

/-- Who inherits from a class can be seen in the outlines. -/
theorem Host.inheriters_eq (host : Host) (name : String) : host.inheriters name =
    ((host.classes.map ClassInfo.outline).filter fun cls => cls.parent == some name).map ClassInfo.name := by
  rw [List.filter_map, List.map_map]
  rfl

theorem map_outline_bare (classes : List ClassInfo) :
    (classes.map ClassInfo.bare).map ClassInfo.outline = classes.map ClassInfo.outline := List.map_map

theorem map_name_bare (classes : List ClassInfo) : (classes.map ClassInfo.bare).map ClassInfo.name = classes.map ClassInfo.name :=
  List.map_map

/-- Dumps with the same outlines have the same tree. -/
theorem Host.SameTree.of_eq {host other : Host} (hclasses : host.classes.map ClassInfo.outline = other.classes.map ClassInfo.outline) :
    host.SameTree other where
  class? name := by
    rw [host.map_class? .outline fun _ => rfl, hclasses, other.map_class? .outline fun _ => rfl]
  inheriters name := by rw [Host.inheriters_eq, hclasses, Host.inheriters_eq]
  length := by rw [← List.length_map ClassInfo.outline, hclasses, List.length_map]

/-- Dumps with the same classes besides methods agree. -/
theorem Host.Agree.of_eq {host other : Host} (hclasses : host.classes.map ClassInfo.bare = other.classes.map ClassInfo.bare)
    (hconstants : host.globalConstants = other.globalConstants) : host.Agree other := by
  have htree : host.SameTree other := .of_eq (by rw [← map_outline_bare, hclasses, map_outline_bare])
  refine ⟨fun name => ?_, htree.inheriters, htree.length, hconstants⟩
  rw [host.map_class? .bare fun _ => rfl, hclasses, other.map_class? .bare fun _ => rfl]

/-- Dumps with the same classes besides methods in another order agree, where no name repeats. -/
theorem Host.Agree.of_perm {host other : Host}
    (hclasses : (host.classes.map ClassInfo.bare).Perm (other.classes.map ClassInfo.bare))
    (hdistinct : (host.classes.map ClassInfo.name).Nodup) (hconstants : host.globalConstants = other.globalConstants) :
    host.Agree other where
  class? name := by
    rw [host.map_class? .bare fun _ => rfl, other.map_class? .bare fun _ => rfl]
    refine find?_name_perm ((List.reverse_perm _).trans (hclasses.trans (List.reverse_perm _).symm)) ?_ name
    rw [List.map_reverse, map_name_bare]
    exact List.nodup_reverse.mpr hdistinct
  inheriters name := by
    rw [Host.inheriters_eq, Host.inheriters_eq, ← map_outline_bare, ← map_outline_bare other.classes]
    exact Text.sortNames_eq_of_perm (((hclasses.map _).filter _).map _)
  length := by
    have h := hclasses.length_eq
    rwa [List.length_map, List.length_map] at h
  globalConstants := hconstants

end JuliaStubs.Dump
