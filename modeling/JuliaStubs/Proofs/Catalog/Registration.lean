import JuliaStubs.Catalog.Registry
import JuliaStubs.Proofs.Dump.Lookups

/-!
# Sessions of a registry

Statements about every registry that calls of registration lead to from the empty one (`Registry.Reachable`), refused calls included.
Nothing in a registry says that inheritance has no cycle. It follows from the order of registration: among the classes, the newest in
front, no name repeats and each parent is older than its children (`ParentsFirst`).
-/

namespace JuliaStubs.Catalog

/-- A call that registers something. -/
inductive Registration where
  | standardBuiltins
  | builtin (b : Builtin)
  | enumeration (e : EnumType)
  | object (cls : ClassDecl)

namespace Registry

/-- Makes a call of registration. -/
def register : Registration → Registering Unit
  | .standardBuiltins => modify addStandardBuiltins
  | .builtin b => modify fun r => r.addBuiltin b
  | .enumeration e => putEnum e
  | .object cls => putClass cls

/-- The registry after a call, whether it is accepted or refused. -/
def after (r : Registry) (call : Registration) : Registry :=
  match (register call).run r with
  | .ok _ r' => r'
  | .error _ r' => r'

/-- The registries that sessions lead to, from the empty one. -/
inductive Reachable : Registry → Prop where
  | empty : Reachable .empty
  | after {r : Registry} (call : Registration) : Reachable r → Reachable (r.after call)

end Registry

/-- Among classes, the newest in front, no name repeats and each parent is older than its children. -/
inductive ParentsFirst : List ClassDecl → Prop where
  | nil : ParentsFirst []
  | cons {cls : ClassDecl} {older : List ClassDecl} :
      cls.name ∉ older.map ClassDecl.name → (∀ p, cls.parent = some p → p ∈ older.map ClassDecl.name) →
      ParentsFirst older → ParentsFirst (cls :: older)

namespace ParentsFirst

variable {classes : List ClassDecl} {cls : ClassDecl}

theorem nodup_names (h : ParentsFirst classes) : (classes.map ClassDecl.name).Nodup := by
  induction h with
  | nil => exact List.nodup_nil
  | cons hname _ _ ih => exact List.nodup_cons.mpr ⟨hname, ih⟩

theorem of_append {newer : List ClassDecl} (h : ParentsFirst (newer ++ classes)) : ParentsFirst classes := by
  induction newer with
  | nil => exact h
  | cons newest rest ih =>
    rw [List.cons_append] at h
    cases h with
    | cons _ _ h => exact ih h

/-- What is said of names and parents alone is kept by filling in the rest. -/
theorem map (h : ParentsFirst classes) {fill : ClassDecl → ClassDecl} (hname : ∀ cls, (fill cls).name = cls.name)
    (hparent : ∀ cls, (fill cls).parent = cls.parent) : ParentsFirst (classes.map fill) := by
  have hnames : ∀ l : List ClassDecl, (l.map fill).map ClassDecl.name = l.map ClassDecl.name := by
    intro l
    rw [List.map_map]
    exact List.map_congr_left fun cls _ => hname cls
  induction h with
  | nil => exact .nil
  | cons hnew hknown _ ih =>
    refine .cons ?_ ?_ ih
    · rw [hnames, hname]
      exact hnew
    · rw [hnames, hparent]
      exact hknown

/-- A name stands for one class. -/
theorem eq_of_name (h : ParentsFirst classes) {other : ClassDecl} (hc : cls ∈ classes) (ho : other ∈ classes)
    (hn : cls.name = other.name) : cls = other :=
  List.inj_on_of_nodup_map h.nodup_names hc ho hn

theorem parent_mem (h : ParentsFirst classes) (hc : cls ∈ classes) {p : String} (hp : cls.parent = some p) :
    p ∈ classes.map ClassDecl.name := by
  induction h with
  | nil => cases hc
  | cons _ hparent _ ih =>
    rcases List.mem_cons.mp hc with rfl | hc
    · exact List.mem_cons_of_mem _ (hparent p hp)
    · exact List.mem_cons_of_mem _ (ih hc)

/-- A parent is further from the front than its child. -/
theorem idxOf_lt (h : ParentsFirst classes) (hc : cls ∈ classes) {p : String} (hp : cls.parent = some p) :
    (classes.map ClassDecl.name).idxOf cls.name < (classes.map ClassDecl.name).idxOf p := by
  induction h with
  | nil => cases hc
  | @cons newest older hname hparent holder ih =>
    have hpo : p ∈ older.map ClassDecl.name := by
      rcases List.mem_cons.mp hc with rfl | hc
      · exact hparent p hp
      · exact holder.parent_mem hc hp
    have hnp : newest.name ≠ p := by
      rintro rfl
      exact hname hpo
    rw [List.map_cons, List.idxOf_cons_ne _ hnp]
    rcases List.mem_cons.mp hc with rfl | hc
    · rw [List.idxOf_cons_self]
      exact Nat.succ_pos _
    · have hnc : newest.name ≠ cls.name := fun he => hname (he ▸ List.mem_map_of_mem hc)
      rw [List.idxOf_cons_ne _ hnc]
      exact Nat.succ_lt_succ (ih hc)

end ParentsFirst

namespace Registry

variable {r : Registry} {cls : ClassDecl}

theorem hasClass_iff (r : Registry) (name : String) : r.hasClass name = true ↔ name ∈ r.newestFirst.map ClassDecl.name := by
  rw [hasClass, class?, List.find?_isSome, List.mem_map]
  simp only [beq_iff_eq]

theorem mem_of_class? {name : String} (h : r.class? name = some cls) : cls ∈ r.newestFirst ∧ cls.name = name :=
  ⟨List.mem_of_find?_eq_some h, by simpa using List.find?_some h⟩

/-- Looking a registered class up by its name finds it. -/
theorem class?_of_mem (h : ParentsFirst r.newestFirst) (hc : cls ∈ r.newestFirst) : r.class? cls.name = some cls :=
  (Dump.find?_name_iff h.nodup_names).mpr ⟨hc, rfl⟩

theorem mem_classes : cls ∈ r.classes ↔ cls ∈ r.newestFirst := List.mem_reverse

theorem run_putEnum (r : Registry) (e : EnumType) : (putEnum e).run r =
    if (r.enum? e.name).isSome then .error (.duplicate e.name) r else .ok () { r with enums := r.enums ++ [e] } := by
  simp only [putEnum, EStateM.run_bind, EStateM.run_get]
  split <;> rfl

/-- A registered enum type is behind the others, and nothing but it is new. -/
theorem putEnum_ok {e : EnumType} {r' : Registry} (h : (putEnum e).run r = .ok () r') :
    r' = { r with enums := r.enums ++ [e] } := by
  rw [run_putEnum] at h
  split at h
  · nomatch h
  · exact (EStateM.Result.ok.inj h).2.symm

theorem run_putClass (r : Registry) (cls : ClassDecl) : (putClass cls).run r =
    if r.hasClass cls.name then .error (.duplicate cls.name) r
    else
      match cls.parent with
      | none => .ok () { r with newestFirst := cls :: r.newestFirst }
      | some parent =>
        if r.hasClass parent then .ok () { r with newestFirst := cls :: r.newestFirst }
        else .error (.unknownParent cls.name parent) r := by
  simp only [putClass, EStateM.run_bind, EStateM.run_get]
  split
  · rfl
  · cases cls.parent with
    | none => rfl
    | some parent =>
      simp only [EStateM.run_bind, EStateM.run_get]
      cases r.hasClass parent <;> rfl

/-- A class is registered when its name is new and its parent is known. -/
theorem putClass_of_fresh (hname : cls.name ∉ r.newestFirst.map ClassDecl.name)
    (hparent : ∀ p, cls.parent = some p → p ∈ r.newestFirst.map ClassDecl.name) :
    (putClass cls).run r = .ok () { r with newestFirst := cls :: r.newestFirst } := by
  rw [← hasClass_iff] at hname
  rw [run_putClass, if_neg hname]
  cases hp : cls.parent with
  | none => rfl
  | some p => exact if_pos ((hasClass_iff r p).mpr (hparent p hp))

/-- A registered class had a new name and a known parent, and nothing but it is new. -/
theorem putClass_ok {r' : Registry} (h : (putClass cls).run r = .ok () r') :
    r' = { r with newestFirst := cls :: r.newestFirst } ∧ cls.name ∉ r.newestFirst.map ClassDecl.name ∧
      ∀ p, cls.parent = some p → p ∈ r.newestFirst.map ClassDecl.name := by
  rw [run_putClass] at h
  split at h
  · nomatch h
  · rename_i hname
    rw [hasClass_iff] at hname
    split at h
    · rename_i hp
      exact ⟨(EStateM.Result.ok.inj h).2.symm, hname, fun p hp' => by rw [hp] at hp'; nomatch hp'⟩
    · rename_i parent hp
      split at h
      · rename_i hk
        refine ⟨(EStateM.Result.ok.inj h).2.symm, hname, fun p hp' => ?_⟩
        rw [hp] at hp'
        exact Option.some.inj hp' ▸ (hasClass_iff r parent).mp hk
      · nomatch h

/-- A refused call has changed nothing: all checks come before the first change. -/
theorem register_error {call : Registration} {error : RegistrationError} {r' : Registry}
    (h : (register call).run r = .error error r') : r' = r := by
  cases call with
  | standardBuiltins | builtin b => nomatch h
  | enumeration e =>
    rw [register, run_putEnum] at h
    split at h
    · exact (EStateM.Result.error.inj h).2.symm
    · nomatch h
  | object cls =>
    rw [register, run_putClass] at h
    split at h
    · exact (EStateM.Result.error.inj h).2.symm
    · split at h
      · nomatch h
      · split at h
        · nomatch h
        · exact (EStateM.Result.error.inj h).2.symm

theorem newestFirst_addStandardBuiltins (r : Registry) : r.addStandardBuiltins.newestFirst = r.newestFirst := by
  unfold addStandardBuiltins
  induction BuiltinKind.all generalizing r with
  | nil => rfl
  | cons kind rest ih => exact ih (r.addBuiltin (.standard kind))

theorem after_of_ok {r' : Registry} (call : Registration) (h : (register call).run r = .ok () r') : r.after call = r' := by
  rw [after, h]

theorem after_of_error {error : RegistrationError} {r' : Registry} (call : Registration)
    (h : (register call).run r = .error error r') : r.after call = r := by
  rw [after, h]
  exact register_error h

/-- A call keeps parents before their children. -/
theorem parentsFirst_after (h : ParentsFirst r.newestFirst) (call : Registration) :
    ParentsFirst (r.after call).newestFirst := by
  cases hr : (register call).run r with
  | error error r' =>
    rw [after_of_error call hr]
    exact h
  | ok _ r' =>
    rw [after_of_ok call hr]
    cases call with
    | standardBuiltins =>
      obtain rfl := (EStateM.Result.ok.inj hr).2
      rw [newestFirst_addStandardBuiltins]
      exact h
    | builtin b =>
      obtain rfl := (EStateM.Result.ok.inj hr).2
      exact h
    | enumeration e =>
      obtain rfl := putEnum_ok hr
      exact h
    | object cls =>
      obtain ⟨rfl, hname, hparent⟩ := putClass_ok hr
      exact .cons hname hparent h

theorem Reachable.parentsFirst (h : r.Reachable) : ParentsFirst r.newestFirst := by
  induction h with
  | empty => exact .nil
  | after call _ ih => exact parentsFirst_after ih call

theorem reachable_standard : standard.Reachable := .after .standardBuiltins .empty

end Registry

/-! ## Lineages -/

theorem ParentsFirst.lineageIn {classes : List ClassDecl} {cls : ClassDecl} (h : ParentsFirst classes) (hc : cls ∈ classes) :
    Registry.lineageIn classes cls.name = cls :: (cls.parent.map (Registry.lineageIn classes)).getD [] := by
  induction h with
  | nil => cases hc
  | @cons newest older hname hparent holder ih =>
    have hskip : ∀ p ∈ older.map ClassDecl.name,
        Registry.lineageIn (newest :: older) p = Registry.lineageIn older p := by
      intro p hp
      have hne : newest.name ≠ p := by
        rintro rfl
        exact hname hp
      rw [Registry.lineageIn, if_neg hne]
    rcases List.mem_cons.mp hc with rfl | hc
    · rw [Registry.lineageIn, if_pos rfl]
      cases hp : cls.parent with
      | none => rfl
      | some p => simp [hskip p (hparent p hp)]
    · rw [hskip _ (List.mem_map_of_mem hc), ih hc]
      cases hp : cls.parent with
      | none => rfl
      | some p => simp [hskip p (holder.parent_mem hc hp)]

/-- A lineage is the class and then the lineage of its parent. -/
theorem Registry.lineage_of_mem {r : Registry} {cls : ClassDecl} (h : ParentsFirst r.newestFirst)
    (hc : cls ∈ r.newestFirst) : r.lineage cls.name = cls :: (cls.parent.map r.lineage).getD [] :=
  h.lineageIn hc

end JuliaStubs.Catalog
