import JuliaStubs.Proofs.Source.Accessors

/-!
# Shadowed declarations

Of the declarations of one name the first decides, and it hides the others whether or not its accessor can be called. So a dispatch is
a look-up by name (`resolves_firstOfName`): reading looks in all declarations, assigning in those that have a setter.
-/

namespace JuliaStubs.Source

open Catalog Report

/-! ## First declarations -/

/-- The declaration that decides over a name. -/
def deciding? (candidates : List Property) (name : String) : Option Property :=
  candidates.find? fun declaration => declaration.name == name

/-- Whether the first declaration of a name comes before that of another one. -/
def DecidedBefore (candidates : List Property) (a b : String) : Prop :=
  (candidates.map Property.name).idxOf a < (candidates.map Property.name).idxOf b

section First

variable {seen : List String} {candidates : List Property} {declaration : Property}

theorem name_of_deciding? {name : String} (h : deciding? candidates name = some declaration) : declaration.name = name := by
  have hname := List.find?_some h
  exact eq_of_beq hname

theorem mem_firstOfName_iff : declaration ∈ firstOfName seen candidates ↔
    declaration.name ∉ seen ∧ deciding? candidates declaration.name = some declaration := by
  unfold deciding?
  fun_induction firstOfName seen candidates with
  | case1 seen => simp
  | case2 seen first rest hseen ih =>
    rw [ih]
    refine and_congr_right fun hnew => ?_
    have hne : first.name ≠ declaration.name := fun heq => hnew (heq ▸ List.contains_iff_mem.mp hseen)
    rw [List.find?_cons_of_neg (by simpa using hne)]
  | case3 seen first rest hseen ih =>
    have hfresh : first.name ∉ seen := fun hm => hseen (List.contains_iff_mem.mpr hm)
    rw [List.mem_cons, ih, List.mem_cons, not_or]
    by_cases heq : first.name = declaration.name
    · rw [List.find?_cons_of_pos (by simpa using heq), Option.some.injEq]
      constructor
      · rintro (rfl | ⟨⟨hne, _⟩, _⟩)
        · exact ⟨hfresh, rfl⟩
        · exact absurd heq.symm hne
      · rintro ⟨_, rfl⟩
        exact Or.inl rfl
    · rw [List.find?_cons_of_neg (by simpa using heq)]
      constructor
      · rintro (rfl | ⟨⟨_, hnew⟩, hfound⟩)
        · exact absurd rfl heq
        · exact ⟨hnew, hfound⟩
      · rintro ⟨hnew, hfound⟩
        exact Or.inr ⟨⟨fun h => heq h.symm, hnew⟩, hfound⟩

/-- A further declaration in front of others leaves the order of the other names. -/
theorem decidedBefore_cons {a b : String} (ha : declaration.name ≠ a) (hb : declaration.name ≠ b) :
    DecidedBefore (declaration :: candidates) a b ↔ DecidedBefore candidates a b := by
  rw [DecidedBefore, List.map_cons, List.idxOf_cons_ne _ ha, List.idxOf_cons_ne _ hb, Nat.succ_lt_succ_iff, DecidedBefore]

theorem pairwise_firstOfName (seen : List String) (candidates : List Property) :
    (firstOfName seen candidates).Pairwise fun a b => DecidedBefore candidates a.name b.name := by
  fun_induction firstOfName seen candidates with
  | case1 seen => exact .nil
  | case2 seen first rest hseen ih =>
    have hne : ∀ other ∈ firstOfName seen rest, first.name ≠ other.name := fun other ho heq =>
      (mem_firstOfName_iff.mp ho).1 (heq ▸ List.contains_iff_mem.mp hseen)
    exact ih.imp_of_mem fun ha hb h => (decidedBefore_cons (hne _ ha) (hne _ hb)).mpr h
  | case3 seen first rest hseen ih =>
    have hne : ∀ other ∈ firstOfName (first.name :: seen) rest, first.name ≠ other.name := fun other ho heq =>
      (mem_firstOfName_iff.mp ho).1 (heq ▸ List.mem_cons_self)
    refine List.pairwise_cons.mpr ⟨fun other ho => ?_, ih.imp_of_mem fun ha hb h => (decidedBefore_cons (hne _ ha) (hne _ hb)).mpr h⟩
    rw [DecidedBefore, List.map_cons, List.idxOf_cons_self, List.idxOf_cons_ne _ (hne other ho)]
    exact Nat.succ_pos _

end First

/-! ## Branches -/

/-- What a dispatch has for a name: one branch when the routine of the deciding declaration can be called, which then is the one that
is called, and otherwise one report when there is a routine. Farther declarations of the name make no difference. -/
structure Resolves (scope : Scope) (cls : ClassDecl) (candidates : List Property) (routine? : Property → Option String) (values : Nat)
    (branches : List (String × Accessor)) (failures : List (String × String)) : Prop where
  branch : ∀ name accessor, (name, accessor) ∈ branches ↔ ∃ declaration routine owner method,
    deciding? candidates name = some declaration ∧ routine? declaration = some routine ∧
      accessor.Calls scope cls declaration routine values owner method
  failure : ∀ name routine, (name, routine) ∈ failures ↔ ∃ declaration,
    deciding? candidates name = some declaration ∧ routine? declaration = some routine ∧
      ∀ accessor owner method, ¬Accessor.Calls accessor scope cls declaration routine values owner method
  /-- No name has two branches. -/
  branchOnce : (branches.map Prod.fst).Nodup
  failureOnce : (failures.map Prod.fst).Nodup
  /-- The branches stand in the order of the deciding declarations. -/
  ordered : (branches.map Prod.fst).Pairwise (DecidedBefore candidates)

/-- The branch for a declaration, with the host name of the property. -/
def branchOf? (scope : Scope) (cls : ClassDecl) (routine? : Property → Option String) (values : Nat) (declaration : Property) :
    Option (String × Accessor) :=
  (routine? declaration).bind fun routine => (accessor? scope cls values (declaration, routine)).map (declaration.name, ·)

/-- The property and the routine for which a declaration has no branch, though it names a routine. -/
def failureOf? (scope : Scope) (cls : ClassDecl) (routine? : Property → Option String) (values : Nat) (declaration : Property) :
    Option (String × String) :=
  (routine? declaration).bind fun routine =>
    if (accessor? scope cls values (declaration, routine)).isSome then none else some (declaration.name, routine)

section Branches

variable {scope : Scope} {cls : ClassDecl} {routine? : Property → Option String} {values : Nat} {candidates : List Property}

theorem branchOf?_eq_some_iff {declaration : Property} {entry : String × Accessor} :
    branchOf? scope cls routine? values declaration = some entry ↔ declaration.name = entry.1 ∧ ∃ routine owner method,
      routine? declaration = some routine ∧ entry.2.Calls scope cls declaration routine values owner method := by
  simp only [branchOf?, Option.bind_eq_some_iff, Option.map_eq_some_iff, accessor?_eq_some_iff]
  constructor
  · rintro ⟨routine, hr, accessor, ⟨owner, method, hcalls⟩, rfl⟩
    exact ⟨rfl, routine, owner, method, hr, hcalls⟩
  · rintro ⟨hname, routine, owner, method, hr, hcalls⟩
    exact ⟨routine, hr, entry.2, ⟨owner, method, hcalls⟩, Prod.ext hname rfl⟩

theorem failureOf?_eq_some_iff {declaration : Property} {entry : String × String} :
    failureOf? scope cls routine? values declaration = some entry ↔ declaration.name = entry.1 ∧
      routine? declaration = some entry.2 ∧
        ∀ accessor owner method, ¬Accessor.Calls accessor scope cls declaration entry.2 values owner method := by
  have hnone : ∀ routine, (accessor? scope cls values (declaration, routine)).isSome = true ↔
      ∃ accessor owner method, Accessor.Calls accessor scope cls declaration routine values owner method := by
    simp only [Option.isSome_iff_exists, accessor?_eq_some_iff, implies_true]
  simp only [failureOf?, Option.bind_eq_some_iff, hnone, Option.ite_none_left_eq_some, Option.some.injEq, not_exists]
  constructor
  · rintro ⟨routine, hr, hfails, rfl⟩
    exact ⟨rfl, hr, hfails⟩
  · rintro ⟨hname, hr, hfails⟩
    exact ⟨entry.2, hr, hfails, Prod.ext hname rfl⟩

section Made

variable {β : Type} {make : Property → Option (String × β)}
  (h : ∀ declaration entry, make declaration = some entry → declaration.name = entry.1)

include h

theorem mem_filterMap_firstOfName {entry : String × β} : entry ∈ (firstOfName [] candidates).filterMap make ↔
    ∃ declaration, deciding? candidates entry.1 = some declaration ∧ make declaration = some entry := by
  rw [List.mem_filterMap]
  refine exists_congr fun declaration => and_congr_left fun hmade => ?_
  rw [mem_firstOfName_iff, h _ _ hmade]
  exact and_iff_right List.not_mem_nil

/-- What is made of the first declarations, each under its name, stands in their order. -/
theorem pairwise_filterMap_firstOfName :
    (((firstOfName [] candidates).filterMap make).map Prod.fst).Pairwise (DecidedBefore candidates) := by
  rw [List.pairwise_map, List.pairwise_filterMap]
  refine (pairwise_firstOfName [] candidates).imp fun hab entry he entry' he' => ?_
  rw [← h _ _ he, ← h _ _ he']
  exact hab

theorem nodup_filterMap_firstOfName : (((firstOfName [] candidates).filterMap make).map Prod.fst).Nodup :=
  (pairwise_filterMap_firstOfName h).imp fun hlt heq => by
    rw [heq] at hlt
    exact Nat.lt_irrefl _ hlt

end Made

/-- Branches and failures of the first declarations resolve names as a look-up does. -/
theorem resolves_firstOfName : Resolves scope cls candidates routine? values
    ((firstOfName [] candidates).filterMap (branchOf? scope cls routine? values))
    ((firstOfName [] candidates).filterMap (failureOf? scope cls routine? values)) := by
  have hbranch : ∀ declaration entry, branchOf? scope cls routine? values declaration = some entry →
      declaration.name = entry.1 := fun _ _ h => (branchOf?_eq_some_iff.mp h).1
  have hfailure : ∀ declaration entry, failureOf? scope cls routine? values declaration = some entry →
      declaration.name = entry.1 := fun _ _ h => (failureOf?_eq_some_iff.mp h).1
  refine
    { branch := fun name accessor => ?_
      failure := fun name routine => ?_
      branchOnce := nodup_filterMap_firstOfName hbranch
      failureOnce := nodup_filterMap_firstOfName hfailure
      ordered := pairwise_filterMap_firstOfName hbranch }
  · rw [mem_filterMap_firstOfName hbranch]
    refine exists_congr fun declaration => ?_
    rw [branchOf?_eq_some_iff]
    constructor
    · rintro ⟨hfound, _, routine, owner, method, hr, hcalls⟩
      exact ⟨routine, owner, method, hfound, hr, hcalls⟩
    · rintro ⟨routine, owner, method, hfound, hr, hcalls⟩
      exact ⟨hfound, name_of_deciding? hfound, routine, owner, method, hr, hcalls⟩
  · rw [mem_filterMap_firstOfName hfailure]
    refine exists_congr fun declaration => and_congr_right fun hfound => ?_
    rw [failureOf?_eq_some_iff]
    exact and_iff_right (name_of_deciding? hfound)

/-- A declaration without a setter hides the getter of a farther one, but not its setter. -/
example :
    let near : Property := ⟨"side", -1, some "get_near", none, none⟩
    let far : Property := ⟨"side", -1, some "get_far", some "set_far", none⟩
    (deciding? [near, far] "side").bind Property.getter = some "get_near" ∧
      (deciding? ([near, far].filter fun declaration => declaration.setter.isSome) "side").bind Property.setter =
        some "set_far" := by decide

end Branches

end JuliaStubs.Source
