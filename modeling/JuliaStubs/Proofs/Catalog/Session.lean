import JuliaStubs.Proofs.Catalog.Registration
import JuliaStubs.Proofs.LoadOrder.Relocation
import Mathlib.Logic.Function.Iterate
import Mathlib.Logic.Relation

/-!
# Laws of a registry

What holds of a registry after any session, whichever of its calls were refused (`session_lawful`): the classes are listed once and
after their parents, the walk from a class to its parent and on comes to a root, and inheritance is a partial order. None of this is
stored. All of it follows from `ParentsFirst`, by induction from the parents to their children.
-/

namespace JuliaStubs.Catalog

open LoadOrder Relation

/-- The class that a call is about. -/
def Registration.class? : Registration → Option ClassDecl
  | .object cls => some cls
  | _ => none

namespace ParentsFirst

variable {classes : List ClassDecl} {cls : ClassDecl}

/-- Induction from a parent to its children. -/
theorem descend {P : ClassDecl → Prop} (h : ParentsFirst classes)
    (hstep : ∀ cls ∈ classes, (∀ parent ∈ classes, cls.parent = some parent.name → P parent) → P cls) :
    ∀ cls ∈ classes, P cls := by
  suffices hold : ∀ newer older, classes = newer ++ older → ∀ cls ∈ older, P cls from hold [] classes rfl
  intro newer older hsplit
  induction older generalizing newer with
  | nil => exact fun _ hc => nomatch hc
  | cons newest older ih =>
    have hrest := ih (newer ++ [newest]) (by rw [hsplit, List.append_assoc, List.singleton_append])
    intro cls hc
    rcases List.mem_cons.mp hc with rfl | hc
    · refine hstep cls (hsplit ▸ List.mem_append_right _ List.mem_cons_self) fun parent hp hparent => ?_
      -- a class of that name stands among the older ones, and a name stands for one class
      cases (hsplit ▸ h).of_append with
      | cons _ hknown _ =>
        obtain ⟨other, ho, hname⟩ := List.mem_map.mp (hknown _ hparent)
        have hoc : other ∈ classes := hsplit ▸ List.mem_append_right _ (List.mem_cons_of_mem _ ho)
        exact h.eq_of_name hoc hp hname ▸ hrest other ho
    · exact hrest cls hc

/-- In the order of registration a parent stands before its children. -/
theorem precedes (h : ParentsFirst classes) (hc : cls ∈ classes) {p : String} (hp : cls.parent = some p) :
    Precedes (classes.reverse.map ClassDecl.name) p cls.name := by
  obtain ⟨newer, older, rfl⟩ := List.append_of_mem hc
  cases h.of_append with
  | cons _ hknown _ =>
    obtain ⟨parent, hm, rfl⟩ := List.mem_map.mp (hknown p hp)
    refine precedes_iff.mpr ⟨older.reverse.map ClassDecl.name, (cls :: newer.reverse).map ClassDecl.name, ?_, ?_, ?_⟩
    · simp
    · exact List.mem_map_of_mem (List.mem_reverse.mpr hm)
    · exact List.mem_cons_self

end ParentsFirst

namespace Registry

variable {r : Registry}

/-! ## Lineages -/

/-- The class that a class names as its parent. -/
def parentClass? (r : Registry) (cls : ClassDecl) : Option ClassDecl := cls.parent.bind r.class?

/-- Among the classes of a lineage each is older than the one before. -/
theorem lineageIn_sublist (classes : List ClassDecl) (name : String) : (lineageIn classes name).Sublist classes := by
  induction classes generalizing name with
  | nil => exact List.Sublist.refl _
  | cons cls older ih =>
    rw [lineageIn]
    split
    · split
      · exact List.Sublist.cons_cons _ (List.nil_sublist _)
      · exact List.Sublist.cons_cons _ (ih _)
    · exact List.Sublist.cons _ (ih name)

theorem mem_of_mem_lineage {name : String} {cls : ClassDecl} (h : cls ∈ r.lineage name) : cls ∈ r.newestFirst :=
  (lineageIn_sublist _ _).subset h

theorem nodup_lineage (h : ParentsFirst r.newestFirst) (name : String) : ((r.lineage name).map ClassDecl.name).Nodup :=
  h.nodup_names.sublist ((lineageIn_sublist _ _).map _)

theorem lineageIn_of_not_mem {classes : List ClassDecl} {name : String} (h : name ∉ classes.map ClassDecl.name) :
    lineageIn classes name = [] := by
  induction classes with
  | nil => rfl
  | cons cls older ih =>
    rw [List.map_cons, List.mem_cons, not_or] at h
    rw [lineageIn, if_neg (Ne.symm h.1), ih h.2]

theorem lineage_of_not_mem {name : String} (h : name ∉ r.newestFirst.map ClassDecl.name) : r.lineage name = [] :=
  lineageIn_of_not_mem h

/-- A lineage is the walk from a class to its parent, and on from there, until there is none. -/
theorem getElem?_lineage (h : ParentsFirst r.newestFirst) (name : String) (i : Nat) :
    (r.lineage name)[i]? = (fun cls? => cls?.bind r.parentClass?)^[i] (r.class? name) := by
  induction i generalizing name with
  | zero =>
    by_cases hm : name ∈ r.newestFirst.map ClassDecl.name
    · obtain ⟨cls, hc, rfl⟩ := List.mem_map.mp hm
      rw [lineage_of_mem h hc, Function.iterate_zero_apply, class?_of_mem h hc]
      rfl
    · rw [lineage_of_not_mem hm, Function.iterate_zero_apply]
      rw [← hasClass_iff, hasClass, Option.not_isSome_iff_eq_none] at hm
      rw [hm]
      rfl
  | succ i ih =>
    have hstop : (fun cls? : Option ClassDecl => cls?.bind r.parentClass?)^[i] none = none :=
      Function.iterate_fixed rfl i
    rw [Function.iterate_succ_apply]
    by_cases hm : name ∈ r.newestFirst.map ClassDecl.name
    · obtain ⟨cls, hc, rfl⟩ := List.mem_map.mp hm
      rw [lineage_of_mem h hc, class?_of_mem h hc, Option.bind_some, List.getElem?_cons_succ, parentClass?]
      cases hp : cls.parent with
      | none => exact hstop.symm
      | some p => exact ih p
    · rw [lineage_of_not_mem hm]
      rw [← hasClass_iff, hasClass, Option.not_isSome_iff_eq_none] at hm
      rw [hm, Option.bind_none, hstop]
      rfl

/-- A lineage ends at a class without parent. -/
theorem getLast?_lineage (h : ParentsFirst r.newestFirst) :
    ∀ cls ∈ r.newestFirst, ∃ top, (r.lineage cls.name).getLast? = some top ∧ top.parent = none := by
  refine h.descend fun cls hc ih => ?_
  rw [lineage_of_mem h hc]
  cases hp : cls.parent with
  | none => exact ⟨cls, rfl, hp⟩
  | some p =>
    obtain ⟨parent, hm, rfl⟩ := List.mem_map.mp (h.parent_mem hc hp)
    obtain ⟨top, htop, hnone⟩ := ih parent hm hp
    refine ⟨top, ?_, hnone⟩
    rw [Option.map_some, Option.getD_some, List.getLast?_cons, htop, Option.getD_some]

/-- A class of the lineage of a class is the class itself, or one of the lineage of its parent. -/
theorem mem_lineage_cases (h : ParentsFirst r.newestFirst) {cls ancestor : ClassDecl} (hc : cls ∈ r.newestFirst)
    (ha : ancestor ∈ r.lineage cls.name) :
    ancestor = cls ∨ ∃ parent ∈ r.newestFirst, cls.parent = some parent.name ∧ ancestor ∈ r.lineage parent.name := by
  rw [lineage_of_mem h hc] at ha
  rcases List.mem_cons.mp ha with rfl | ha
  · exact Or.inl rfl
  · cases hp : cls.parent with
    | none =>
      rw [hp] at ha
      nomatch ha
    | some p =>
      obtain ⟨parent, hm, rfl⟩ := List.mem_map.mp (h.parent_mem hc hp)
      rw [hp] at ha
      exact Or.inr ⟨parent, hm, rfl, ha⟩

/-- The lineage of an ancestor is the end of the lineage. -/
theorem lineage_suffix (h : ParentsFirst r.newestFirst) {ancestor : ClassDecl} :
    ∀ cls ∈ r.newestFirst, ancestor ∈ r.lineage cls.name → r.lineage ancestor.name <:+ r.lineage cls.name := by
  refine h.descend fun cls hc ih ha => ?_
  rcases mem_lineage_cases h hc ha with rfl | ⟨parent, hm, hp, ha⟩
  · exact List.suffix_refl _
  · rw [lineage_of_mem h hc, hp]
    exact (ih parent hm hp ha).trans (List.suffix_cons _ _)

/-! ## Inheritance -/

theorem inherits_iff {name ancestor : String} :
    r.inherits name ancestor = true ↔ ∃ cls ∈ r.lineage name, cls.name = ancestor := by
  simp only [inherits, List.any_eq_true, beq_iff_eq]

theorem mem_of_inherits {name ancestor : String} (h : r.inherits name ancestor = true) :
    name ∈ r.newestFirst.map ClassDecl.name := by
  by_contra hm
  obtain ⟨cls, hc, _⟩ := inherits_iff.mp h
  rw [lineage_of_not_mem hm] at hc
  nomatch hc

/-- To inherit from a class is to have its lineage as the end of one's own. -/
theorem inherits_iff_suffix (h : ParentsFirst r.newestFirst) {name ancestor : String}
    (hm : ancestor ∈ r.newestFirst.map ClassDecl.name) :
    r.inherits name ancestor = true ↔ r.lineage ancestor <:+ r.lineage name := by
  obtain ⟨cls, hc, rfl⟩ := List.mem_map.mp hm
  rw [inherits_iff]
  constructor
  · intro hin
    obtain ⟨heir, hh, rfl⟩ := List.mem_map.mp (mem_of_inherits (inherits_iff.mpr hin))
    obtain ⟨other, ho, hname⟩ := hin
    obtain rfl := h.eq_of_name (mem_of_mem_lineage ho) hc hname
    exact lineage_suffix h heir hh ho
  · intro hs
    refine ⟨cls, hs.subset ?_, rfl⟩
    rw [lineage_of_mem h hc]
    exact List.mem_cons_self

theorem inherits_refl (h : ParentsFirst r.newestFirst) {name : String} (hm : name ∈ r.newestFirst.map ClassDecl.name) :
    r.inherits name name = true :=
  (inherits_iff_suffix h hm).mpr (List.suffix_refl _)

/-- A class inherits from itself and from what its parent inherits from. -/
theorem inherits_iff_parent (h : ParentsFirst r.newestFirst) {cls : ClassDecl} (hc : cls ∈ r.newestFirst) {ancestor : String} :
    r.inherits cls.name ancestor = true ↔ cls.name = ancestor ∨
      ∃ parent ∈ r.newestFirst, cls.parent = some parent.name ∧ r.inherits parent.name ancestor = true := by
  rw [inherits_iff, lineage_of_mem h hc, List.exists_mem_cons_iff]
  refine or_congr_right ?_
  cases hp : cls.parent with
  | none => simp
  | some p =>
    rw [Option.map_some, Option.getD_some, ← inherits_iff]
    constructor
    · intro hin
      obtain ⟨parent, hm, rfl⟩ := List.mem_map.mp (h.parent_mem hc hp)
      exact ⟨parent, hm, rfl, hin⟩
    · rintro ⟨parent, _, heq, hin⟩
      exact Option.some.inj heq ▸ hin

theorem inherits_trans (h : ParentsFirst r.newestFirst) {a b c : String} (hab : r.inherits a b = true)
    (hbc : r.inherits b c = true) : r.inherits a c = true := by
  have hb := mem_of_inherits hbc
  obtain ⟨cls, hc, rfl⟩ := inherits_iff.mp hbc
  have hm := List.mem_map_of_mem (f := ClassDecl.name) (mem_of_mem_lineage hc)
  rw [inherits_iff_suffix h hm] at hbc ⊢
  exact hbc.trans ((inherits_iff_suffix h hb).mp hab)

theorem inherits_antisymm (h : ParentsFirst r.newestFirst) {a b : String} (hab : r.inherits a b = true)
    (hba : r.inherits b a = true) : a = b := by
  have ha := mem_of_inherits hab
  have hb := mem_of_inherits hba
  rw [inherits_iff_suffix h hb] at hab
  rw [inherits_iff_suffix h ha] at hba
  have heq := hab.eq_of_length_le hba.length_le
  obtain ⟨first, hf, rfl⟩ := List.mem_map.mp ha
  obtain ⟨second, hs, rfl⟩ := List.mem_map.mp hb
  rw [lineage_of_mem h hf, lineage_of_mem h hs] at heq
  rw [(List.cons.inj heq).1]

/-! ## Sessions -/

/-- The registry that a session starts from: without types, or with the standard builtin types. -/
def initial (builtins : Bool) : Registry := if builtins then standard else empty

/-- The registry after a session of calls. -/
def session (r : Registry) (calls : List Registration) : Registry := calls.foldl after r

theorem session_cons (r : Registry) (call : Registration) (rest : List Registration) :
    r.session (call :: rest) = (r.after call).session rest := rfl

/-- The calls of a session that are accepted, each by the registry that it is made to. -/
def acceptedIn (r : Registry) : List Registration → List Registration
  | [] => []
  | call :: rest =>
    match (register call).run r with
    | .ok _ r' => call :: r'.acceptedIn rest
    | .error _ r' => r'.acceptedIn rest

theorem reachable_initial (builtins : Bool) : (initial builtins).Reachable := by
  cases builtins with
  | false => exact .empty
  | true => exact reachable_standard

theorem Reachable.session (h : r.Reachable) (calls : List Registration) : (r.session calls).Reachable := by
  induction calls generalizing r with
  | nil => exact h
  | cons call rest ih => exact ih (h.after call)

/-- A session is that of its accepted calls: a refused call leaves no trace. -/
theorem session_acceptedIn (r : Registry) (calls : List Registration) : r.session (r.acceptedIn calls) = r.session calls := by
  induction calls generalizing r with
  | nil => rfl
  | cons call rest ih =>
    rw [acceptedIn, session_cons]
    cases hr : (register call).run r with
    | ok _ r' =>
      rw [session_cons, after_of_ok call hr]
      exact ih r'
    | error error r' =>
      obtain rfl := register_error hr
      rw [after_of_error call hr]
      exact ih _

/-- An accepted call adds its class behind the others. -/
theorem classes_of_register {call : Registration} {r' : Registry} (h : (register call).run r = .ok () r') :
    r'.classes = r.classes ++ call.class?.toList := by
  cases call with
  | standardBuiltins =>
    obtain rfl := (EStateM.Result.ok.inj h).2
    rw [classes, newestFirst_addStandardBuiltins]
    exact (List.append_nil _).symm
  | builtin b =>
    obtain rfl := (EStateM.Result.ok.inj h).2
    exact (List.append_nil _).symm
  | enumeration e =>
    obtain rfl := putEnum_ok h
    exact (List.append_nil _).symm
  | object cls =>
    obtain ⟨rfl, _, _⟩ := putClass_ok h
    exact List.reverse_cons

/-- The classes are those of the accepted calls, in their order. -/
theorem classes_session (r : Registry) (calls : List Registration) :
    (r.session calls).classes = r.classes ++ (r.acceptedIn calls).filterMap Registration.class? := by
  induction calls generalizing r with
  | nil => exact (List.append_nil _).symm
  | cons call rest ih =>
    rw [acceptedIn, session_cons]
    cases hr : (register call).run r with
    | ok _ r' =>
      rw [after_of_ok call hr, ih r', classes_of_register hr, List.append_assoc, List.filterMap_cons]
      cases call.class? <;> rfl
    | error error r' =>
      obtain rfl := register_error hr
      rw [after_of_error call hr]
      exact ih _

theorem classes_initial (builtins : Bool) : (initial builtins).classes = [] := by
  cases builtins <;> rfl

end Registry

/-- The laws of a registry. -/
structure Registry.Lawful (r : Registry) : Prop where
  /-- Each class is listed once. -/
  nodup : r.classNames.Nodup
  /-- The listed classes are those that are found by their names. -/
  listed : ∀ name cls, r.class? name = some cls ↔ cls ∈ r.classes ∧ cls.name = name
  /-- A parent is listed before its children. -/
  parents_first : ∀ cls ∈ r.classes, ∀ p, cls.parent = some p → Precedes r.classNames p cls.name
  /-- No class is among its own ancestors. -/
  acyclic : ∀ name, ¬TransGen (fun a b => ∃ cls ∈ r.classes, cls.name = a ∧ cls.parent = some b) name name
  /-- The lineage of a name is the walk from its class to the parent class, and on from there, until there is none. -/
  lineage_walks : ∀ name i, (r.lineage name)[i]? = (fun cls? => cls?.bind r.parentClass?)^[i] (r.class? name)
  /-- The walk comes to no class twice. -/
  lineage_nodup : ∀ name, ((r.lineage name).map ClassDecl.name).Nodup
  /-- The walk from a class ends at a class without parent. -/
  lineage_ends : ∀ name ∈ r.classNames, ∃ top, (r.lineage name).getLast? = some top ∧ top.parent = none
  inherits_refl : ∀ name ∈ r.classNames, r.inherits name name = true
  inherits_antisymm : ∀ a b, r.inherits a b = true → r.inherits b a = true → a = b
  inherits_trans : ∀ a b c, r.inherits a b = true → r.inherits b c = true → r.inherits a c = true

theorem Registry.mem_classNames {r : Registry} {name : String} :
    name ∈ r.classNames ↔ name ∈ r.newestFirst.map ClassDecl.name := by
  rw [classNames, classes, List.map_reverse, List.mem_reverse]

/-- The laws follow from the order of registration. -/
theorem ParentsFirst.lawful {r : Registry} (h : ParentsFirst r.newestFirst) : r.Lawful := by
  have hnodup : r.classNames.Nodup := by
    rw [Registry.classNames, Registry.classes, List.map_reverse, List.nodup_reverse]
    exact h.nodup_names
  have hfirst : ∀ cls ∈ r.classes, ∀ p, cls.parent = some p → Precedes r.classNames p cls.name :=
    fun cls hc p hp => h.precedes (Registry.mem_classes.mp hc) hp
  refine
    { nodup := hnodup
      listed := fun name cls => ⟨fun hf => ?_, ?_⟩
      parents_first := hfirst
      acyclic := fun name => Precedes.acyclic hnodup (fun a b hab => ?_) name
      lineage_walks := Registry.getElem?_lineage h
      lineage_nodup := Registry.nodup_lineage h
      lineage_ends := fun name hm => ?_
      inherits_refl := fun name hm => Registry.inherits_refl h (Registry.mem_classNames.mp hm)
      inherits_antisymm := fun a b => Registry.inherits_antisymm h
      inherits_trans := fun a b c => Registry.inherits_trans h }
  · obtain ⟨hc, hn⟩ := Registry.mem_of_class? hf
    exact ⟨Registry.mem_classes.mpr hc, hn⟩
  · rintro ⟨hc, rfl⟩
    exact Registry.class?_of_mem h (Registry.mem_classes.mp hc)
  · obtain ⟨cls, hc, rfl, hp⟩ := hab
    exact hfirst cls hc b hp
  · obtain ⟨cls, hc, rfl⟩ := List.mem_map.mp (Registry.mem_classNames.mp hm)
    exact Registry.getLast?_lineage h cls hc

/-- Whatever the calls of a session and whichever of them are refused, its registry is lawful, and its classes are those of the
accepted calls in their order. A refused call leaves the registry, and so every look-up in it, as it was; without the refused calls
the session leads to the same registry. -/
theorem session_lawful (builtins : Bool) (calls : List Registration) :
    let start := Registry.initial builtins
    let r := start.session calls
    r.Lawful ∧ r.classes = (start.acceptedIn calls).filterMap Registration.class? ∧
      (∀ call error r', (Registry.register call).run r = .error error r' →
        r' = r ∧ start.session (calls ++ [call]) = r) ∧
      start.session (start.acceptedIn calls) = r := by
  intro start r
  refine ⟨((Registry.reachable_initial builtins).session calls).parentsFirst.lawful, ?_,
    fun call error r' hr => ⟨Registry.register_error hr, ?_⟩, Registry.session_acceptedIn start calls⟩
  · rw [Registry.classes_session, Registry.classes_initial, List.nil_append]
  · rw [Registry.session, List.foldl_append, List.foldl_cons, List.foldl_nil]
    exact Registry.after_of_error call hr

end JuliaStubs.Catalog
