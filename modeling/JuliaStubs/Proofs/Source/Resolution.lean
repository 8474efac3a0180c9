import JuliaStubs.Proofs.Catalog.Signature
import JuliaStubs.Proofs.Package.Files
import JuliaStubs.Proofs.Source.Stub

/-!
# Types that source can name

Which references can be named in the files of a run: those to builtin types and to classes with a file, and those to enums that no
class without a file declares (`names_iff`). A method of the catalog has a stub when source can name what the slots of the reported
method refer to (`exists_stubOf_iff`).
-/

namespace JuliaStubs

open Catalog Dump Report Source

/-! ## Names of types -/

/-- Whether a name is that of a builtin type. -/
def Catalog.IsBuiltin (name : String) : Prop := ∃ kind ∈ BuiltinKind.all, kind.hostName = name

instance (name : String) : Decidable (IsBuiltin name) :=
  inferInstanceAs (Decidable (∃ kind ∈ BuiltinKind.all, kind.hostName = name))

/-- Whether source can name what a slot for an enum refers to, given which classes have a file: a builtin type, or else a class with a
file. Under a name without a class it is an enum that is global or declared by a class with a file; an unknown one is an integer. -/
def Catalog.EnumNameable (r : Registry) (written : String → Prop) (name : String) : Prop :=
  IsBuiltin name ∨
    if r.hasClass name then written name
    else ∀ e, r.enum? name = some e → ∀ owner, e.owner = some owner → written owner

/-- Whether source can name the type of a slot, given which classes have a file. What is neither an object nor an enum is builtin. -/
def Dump.Slot.Nameable (r : Registry) (written : String → Prop) (slot : Slot) : Prop :=
  match slot.kind with
  | .object => IsBuiltin slot.className ∨ written slot.className
  | .int => slot.usage.isEnumLike = true → EnumNameable r written slot.className
  | _ => True

namespace Catalog

theorem BuiltinKind.mem_all (kind : BuiltinKind) : kind ∈ BuiltinKind.all := by
  cases kind <;> decide

theorem exists_mem_standard : ∀ kind ∈ BuiltinKind.all, ∃ b ∈ Registry.standard.builtins, b.kind = kind := by
  decide

/-- The bindable kinds but four have a builtin type of the same name. -/
theorem isBuiltin_hostName {kind : ValueKind} (h : kind.isBindable = true) :
    kind ∈ [.nil, .int, .float, .object] ∨ IsBuiltin kind.hostName := by
  revert h
  cases kind <;> decide

/-- The builtin types of a registry with the standard table are found under their names. -/
theorem isSome_builtinNamed?_iff {r : Registry} (h : r.builtins = Registry.standard.builtins) {name : String} :
    (r.builtinNamed? name).isSome = true ↔ IsBuiltin name := by
  rw [Registry.builtinNamed?, List.find?_isSome, h]
  simp only [beq_iff_eq]
  constructor
  · rintro ⟨b, _, hb⟩
    exact ⟨b.kind, b.kind.mem_all, hb⟩
  · rintro ⟨kind, hk, rfl⟩
    obtain ⟨b, hb, rfl⟩ := exists_mem_standard kind hk
    exact ⟨b, hb, rfl⟩

theorem builtins_after_enumeration (r : Registry) (e : EnumType) : (r.after (.enumeration e)).builtins = r.builtins := by
  cases hr : (Registry.putEnum e).run r with
  | ok _ r' => rw [Registry.after_of_ok (.enumeration e) hr, Registry.putEnum_ok hr]
  | error error r' => rw [Registry.after_of_error (.enumeration e) hr]

variable {settings : Settings} {host : Host} {docs : Docs}

theorem builtins_visit (survey : Survey) (visit : Visit) :
    (survey.visit settings host docs visit).result.registry.builtins = survey.registry.builtins := by
  unfold Survey.visit
  split
  · rfl
  · rfl
  · refine Logged.foldSteps_induction (P := fun r : Registry => r.builtins = survey.registry.builtins) rfl fun r info _ hr => ?_
    rw [enterEnum, Logged.andThen, result_registerClassEnum]
    split
    · exact hr
    · exact (builtins_after_enumeration r _).trans hr

/-- A dump adds nothing to the builtin types. -/
theorem builtins_ofDump (settings : Settings) (host : Host) (docs : Docs) :
    (ofDump settings host docs).result.registry.builtins = Registry.standard.builtins := by
  rw [registry_ofDump]
  refine Logged.foldSteps_induction (P := fun survey : Survey => survey.registry.builtins = Registry.standard.builtins) ?_
    fun survey visit _ h => (builtins_visit survey visit).trans h
  refine Logged.foldSteps_induction (P := fun r : Registry => r.builtins = Registry.standard.builtins) rfl fun r e _ h => ?_
  rw [result_registerGlobalEnum]
  exact (builtins_after_enumeration r _).trans h

end Catalog

/-! ## References -/

/-- Whether source can name what a reference stands for. -/
def Source.Scope.Names (scope : Scope) (ref : TypeRef) : Prop :=
  ∃ type, scope.registry.resolve ref = some type ∧ scope.canName type = true

/-- A scope whose registry has the standard builtin types, and the classes that declare its enum types and those with a file. -/
structure Source.Scope.Proper (scope : Scope) : Prop where
  builtins : scope.registry.builtins = Registry.standard.builtins
  owners : ∀ e ∈ scope.registry.enums, ∀ owner, e.owner = some owner → scope.registry.hasClass owner = true
  files : ∀ name, scope.hasFile name = true → scope.registry.hasClass name = true

/-- The scope of the catalog of a dump is proper. -/
theorem proper_scopeOf (settings : Settings) (host : Host) (docs : Docs) :
    (scopeOf settings (ofDump settings host docs).result.registry).Proper where
  builtins := builtins_ofDump settings host docs
  owners := fun _ he _ ho => (sound_ofDump settings host docs).hasClass_owner he ho
  files := fun name hf => by
    rw [hasFile_iff (reachable_ofDump settings host docs).parentsFirst] at hf
    exact (Registry.hasClass_iff _ _).mpr hf.1

namespace Source

variable {scope : Scope}

theorem canName_object {name : String} {cls : ClassDecl} (h : scope.registry.class? name = some cls) :
    scope.canName (.object cls) = scope.hasFile name := by
  obtain rfl := (Registry.mem_of_class? h).2
  simp only [Scope.canName, ResolvedType.declaringClass?, Option.bind_some, h]

variable (h : scope.Proper)

include h

theorem canName_enumeration {e : EnumType} (he : e ∈ scope.registry.enums) :
    scope.canName (.enumeration e) = true ↔ ∀ owner, e.owner = some owner → scope.hasFile owner = true := by
  simp only [Scope.canName, ResolvedType.declaringClass?]
  cases ho : e.owner with
  | none => simp
  | some owner =>
    obtain ⟨cls, hc⟩ := Option.isSome_iff_exists.mp (h.owners e he owner ho)
    simp [hc, (Registry.mem_of_class? hc).2]

/-- A reference is looked up among the builtin types, the classes and the enum types; one to an unknown enum is an integer. -/
theorem names_iff {ref : TypeRef} : scope.Names ref ↔ IsBuiltin ref.name ∨
    if scope.registry.hasClass ref.name then scope.hasFile ref.name = true
    else ref.isEnum = true ∧
      ∀ e, scope.registry.enum? ref.name = some e → ∀ owner, e.owner = some owner → scope.hasFile owner = true := by
  rw [← isSome_builtinNamed?_iff h.builtins, Registry.hasClass]
  unfold Scope.Names Registry.resolve
  cases hb : scope.registry.builtinNamed? ref.name with
  | some b => simp [Scope.canName, ResolvedType.declaringClass?]
  | none =>
    cases hc : scope.registry.class? ref.name with
    | some cls => simp [canName_object hc]
    | none =>
      cases he : ref.isEnum with
      | false => simp
      | true =>
        cases hfound : scope.registry.enum? ref.name with
        | some e =>
          have hcan := canName_enumeration h (List.mem_of_find?_eq_some hfound)
          simp [hcan]
        | none =>
          have hint : (scope.registry.builtin? .int32).isSome = true := (isSome_builtinNamed?_iff h.builtins).mpr (by decide)
          obtain ⟨b, hb⟩ := Option.isSome_iff_exists.mp hint
          simp [hb, Scope.canName, ResolvedType.declaringClass?]

theorem names_builtin (kind : BuiltinKind) : scope.Names (.plain kind.hostName) :=
  (names_iff h).mpr (.inl ⟨kind, kind.mem_all, rfl⟩)

theorem names_plain_iff {name : String} : scope.Names (.plain name) ↔ IsBuiltin name ∨ scope.hasFile name = true := by
  rw [names_iff h]
  refine or_congr_right ?_
  cases hf : scope.hasFile name with
  | true => simp [TypeRef.plain, h.files name hf, hf]
  | false => simp [TypeRef.plain, hf]

/-! ## Signatures -/

theorem names_argumentType_iff {slot : Slot} (hslot : slot.kind.isBindable = true) (width : Width) :
    scope.Names (argumentType slot width) ↔ slot.Nameable scope.registry fun name => scope.hasFile name = true := by
  unfold argumentType Slot.Nameable
  cases hk : slot.kind with
  | object => exact names_plain_iff h
  | int =>
    cases hu : slot.usage.isEnumLike with
    | false => exact iff_of_true (names_builtin h _) fun hu => nomatch hu
    | true =>
      simp only [if_true, forall_const, names_iff h, TypeRef.enumeration, true_and]
      exact Iff.rfl
  | nil => exact iff_of_true (names_builtin h .variant) trivial
  | float => exact iff_of_true (names_builtin h _) trivial
  | _ =>
    rcases isBuiltin_hostName (hk ▸ hslot) with hother | hb
    · exact absurd hother (by decide)
    · exact iff_of_true ((names_iff h).mpr (.inl hb)) trivial

theorem names_resultType_iff {slot : Slot} (hslot : slot.kind.isBindable = true) (width : Width) :
    scope.Names (resultType slot width) ↔ slot.Nameable scope.registry fun name => scope.hasFile name = true := by
  unfold resultType
  split
  · rename_i hvoid
    refine ⟨fun _ => ?_, fun _ => names_builtin h .void⟩
    unfold Slot.Nameable
    rw [hvoid.1]
    trivial
  · exact names_argumentType_iff h hslot width

omit h in
/-- A method of the catalog has a stub when source can name the types of its signature. -/
theorem exists_stubOf {cls : ClassDecl} {method : Method} : (∃ stub, stubOf scope cls method = .ok stub) ↔
    scope.Names method.result ∧ ∀ argument ∈ method.arguments, scope.Names argument.type := by
  have hparameter : ∀ argument : Argument, (∃ parameter, parameterOf scope cls method argument = .ok parameter) ↔
      scope.Names argument.type := by
    intro argument
    simp only [parameterOf_ok_iff, resolve_ok_iff]
    exact ⟨fun ⟨_, hnames, _⟩ => ⟨_, hnames⟩, fun ⟨type, hnames⟩ => ⟨⟨_, type, _⟩, hnames, rfl, rfl⟩⟩
  simp only [← hparameter, ← exists_mapM_iff]
  constructor
  · rintro ⟨stub, hs⟩
    obtain ⟨hresult, hparameters, _⟩ := stubOf_ok_iff.mp hs
    exact ⟨⟨_, resolve_ok_iff.mp hresult⟩, _, mapM_ok_iff.mpr hparameters⟩
  · rintro ⟨⟨type, hnames⟩, parameters, hp⟩
    exact ⟨⟨_, _, _, parameters, type, _⟩,
      stubOf_ok_iff.mpr ⟨resolve_ok_iff.mpr hnames, mapM_ok_iff.mp hp, rfl, rfl, rfl, rfl⟩⟩

/-- A method made of a reported one has a stub when source can name the types of the reported slots. -/
theorem exists_stubOf_iff {r : Registry} {realIsDouble : Bool} {host : Host} {doc : Option ClassDoc} {name : String}
    {info : MethodInfo} {cls : ClassDecl} {method : Method} (hm : methodOf r realIsDouble host doc name info = .ok method)
    (htypes : ∀ slot ∈ info.arguments ++ [info.result], slot.kind.isBindable = true) :
    (∃ stub, stubOf scope cls method = .ok stub) ↔
      ∀ slot ∈ info.arguments ++ [info.result], slot.Nameable scope.registry fun name => scope.hasFile name = true := by
  obtain ⟨_, _, hresult, harguments⟩ := methodOf_ok hm
  have hslot : ∀ slot ∈ info.arguments, slot.kind.isBindable = true := fun slot hs => htypes slot (List.mem_append_left _ hs)
  have hlast : info.result.kind.isBindable = true := htypes _ (List.mem_append_right _ List.mem_cons_self)
  have hnames : (∀ argument ∈ method.arguments, scope.Names argument.type) ↔
      ∀ slot ∈ info.arguments, slot.Nameable scope.registry fun name => scope.hasFile name = true := by
    rw [forall_mem_iff_of_forall₂ harguments fun entry he argument hentry => by
      rw [hentry.2.1, names_argumentType_iff h (hslot entry.1 (List.fst_mem_of_mem_zipIdx he))],
      ← List.forall_mem_map (f := Prod.fst), List.zipIdx_map_fst]
  rw [exists_stubOf, hresult, names_resultType_iff h hlast, hnames, List.forall_mem_append, List.forall_mem_singleton]
  exact and_comm

end Source

end JuliaStubs
