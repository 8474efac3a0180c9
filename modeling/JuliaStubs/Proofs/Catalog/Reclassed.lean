import JuliaStubs.Proofs.Catalog.Registration

/-!
# Registries with changed classes

What a registry makes of its references when its classes are changed and keep their heads (`HeadsKept`): the same types, with the
classes among them changed (`resolve_mapClasses`), and the same lineages of changed classes (`lineage_mapClasses`).
-/

namespace JuliaStubs.Catalog

/-- The registry with its classes changed. -/
def Registry.mapClasses (r : Registry) (change : ClassDecl → ClassDecl) : Registry :=
  { r with newestFirst := r.newestFirst.map change }

/-- The type with its class changed. -/
def ResolvedType.mapClass (change : ClassDecl → ClassDecl) : ResolvedType → ResolvedType
  | .object cls => .object (change cls)
  | type => type

theorem ResolvedType.isVoid_mapClass (change : ClassDecl → ClassDecl) (type : ResolvedType) :
    (type.mapClass change).isVoid = type.isVoid := by
  cases type <;> rfl

/-- A change of classes that keeps what other classes see of a class. -/
structure HeadsKept (change : ClassDecl → ClassDecl) : Prop where
  name : ∀ cls, (change cls).name = cls.name
  parent : ∀ cls, (change cls).parent = cls.parent
  partition : ∀ cls, (change cls).partition = cls.partition
  isSingleton : ∀ cls, (change cls).isSingleton = cls.isSingleton

namespace HeadsKept

variable {change : ClassDecl → ClassDecl} (h : HeadsKept change)

include h

theorem tag (cls : ClassDecl) : (change cls).tag = cls.tag := congrArg Naming.tag (h.name cls)

theorem class?_mapClasses (r : Registry) (name : String) : (r.mapClasses change).class? name = (r.class? name).map change := by
  rw [Registry.class?, Registry.mapClasses, List.find?_map]
  simp only [Function.comp_def, h.name]
  rfl

/-- A class is registered or refused for its head. -/
theorem putClass_mapClasses (r : Registry) (cls : ClassDecl) :
    (Registry.putClass (change cls)).run (r.mapClasses change) =
      match (Registry.putClass cls).run r with
      | .ok _ r' => .ok () (r'.mapClasses change)
      | .error error r' => .error error (r'.mapClasses change) := by
  have hhas : ∀ name, (r.mapClasses change).hasClass name = r.hasClass name := fun name => by
    rw [Registry.hasClass, h.class?_mapClasses, Option.isSome_map, Registry.hasClass]
  rw [Registry.run_putClass, hhas, h.name, h.parent, Registry.run_putClass]
  by_cases hnew : r.hasClass cls.name = true
  · rw [if_pos hnew, if_pos hnew]
  · rw [if_neg hnew, if_neg hnew]
    cases cls.parent with
    | none => rfl
    | some parent =>
      dsimp only
      rw [hhas]
      split <;> rfl

theorem resolve_mapClasses (r : Registry) (ref : TypeRef) :
    (r.mapClasses change).resolve ref = (r.resolve ref).map (ResolvedType.mapClass change) := by
  rw [Registry.resolve, h.class?_mapClasses, Registry.resolve]
  show (Option.map ResolvedType.builtin (r.builtinNamed? ref.name)).or ((Option.map _ (Option.map _ (r.class? ref.name))).or
    (if ref.isEnum then (Option.map _ (r.enum? ref.name)).or (Option.map _ (r.builtin? .int32)) else none)) = _
  cases r.builtinNamed? ref.name with
  | some b => rfl
  | none =>
    cases r.class? ref.name with
    | some cls => rfl
    | none =>
      split
      · cases r.enum? ref.name with
        | some e => rfl
        | none => cases r.builtin? .int32 <;> rfl
      · rfl

theorem lineage_mapClasses (r : Registry) (name : String) : (r.mapClasses change).lineage name = (r.lineage name).map change := by
  have hin : ∀ (classes : List ClassDecl) (name : String),
      Registry.lineageIn (classes.map change) name = (Registry.lineageIn classes name).map change := by
    intro classes
    induction classes with
    | nil => exact fun _ => rfl
    | cons cls older ih =>
      intro name
      rw [List.map_cons, Registry.lineageIn, Registry.lineageIn, h.name, h.parent]
      split
      · cases cls.parent with
        | none => rfl
        | some p => simp only [ih p, List.map_cons]
      · exact ih name
  exact hin r.newestFirst name

theorem declaringClass?_mapClass (type : ResolvedType) : (type.mapClass change).declaringClass? = type.declaringClass? := by
  cases type with
  | object cls => exact congrArg some (h.name cls)
  | _ => rfl

theorem annotation_mapClass (type : ResolvedType) : ResolvedType.annotation (type.mapClass change) = type.annotation := by
  cases type with
  | object cls => exact h.tag cls
  | _ => rfl

theorem marshaling_mapClass (type : ResolvedType) : (type.mapClass change).marshaling = type.marshaling := by
  cases type with
  | object cls => exact congrArg Marshaling.object (h.name cls)
  | _ => rfl

end HeadsKept

end JuliaStubs.Catalog
