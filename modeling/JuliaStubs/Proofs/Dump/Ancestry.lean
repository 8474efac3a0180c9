import JuliaStubs.Proofs.Dump.Lookups
import Mathlib.Data.List.Perm.Subperm
import Mathlib.Logic.Relation

/-!
# Ancestors in a dump

What lies above a class when its parent, the parent of that, and so on are followed. A dump may hold cycles of parents, parents that
it does not list and names that repeat, so the walk that tells inheritance is given as many steps as the dump has classes. That cuts no
walk short (`inherits_iff`): what is found at all is found before a name comes again (`NearestAbove.le_length`).
-/

namespace JuliaStubs.Dump

/-- The class of a name names a parent. -/
def Host.ParentLink (host : Host) (name parent : String) : Prop := host.parent? name = some parent

/-- The first wanted name above a name, with the number of parents that lead to it. -/
inductive NearestAbove (host : Host) (wanted : String → Prop) : Nat → String → String → Prop where
  | parent {name p : String} : host.ParentLink name p → wanted p → NearestAbove host wanted 1 name p
  | skip {n : Nat} {name q p : String} : host.ParentLink name q → ¬wanted q → NearestAbove host wanted n q p →
      NearestAbove host wanted (n + 1) name p

namespace NearestAbove

variable {host : Host} {wanted : String → Prop} {m n : Nat} {name p q : String}

theorem pos (h : NearestAbove host wanted n name p) : 0 < n := by
  cases h <;> exact Nat.succ_pos _

theorem wanted_of (h : NearestAbove host wanted n name p) : wanted p := by
  induction h with
  | parent _ hp => exact hp
  | skip _ _ _ ih => exact ih

/-- Only one name is the first. -/
theorem unique (h : NearestAbove host wanted m name p) (h' : NearestAbove host wanted n name q) : m = n ∧ p = q := by
  induction h generalizing n with
  | parent hlink hp =>
    cases h' with
    | parent hlink' _ => exact ⟨rfl, Option.some.inj (hlink.symm.trans hlink')⟩
    | skip hlink' hq _ => exact absurd (Option.some.inj (hlink.symm.trans hlink') ▸ hp) hq
  | skip hlink hnot _ ih =>
    cases h' with
    | parent hlink' hq => exact absurd hq (Option.some.inj (hlink.symm.trans hlink') ▸ hnot)
    | skip hlink' _ hrest =>
      obtain ⟨rfl, rfl⟩ := ih (Option.some.inj (hlink'.symm.trans hlink) ▸ hrest)
      exact ⟨rfl, rfl⟩

/-- Parents lead to what is found. -/
theorem reaches (h : NearestAbove host wanted n name p) : Relation.ReflTransGen host.ParentLink name p := by
  induction h with
  | parent hlink _ => exact .single hlink
  | skip hlink _ _ ih => exact .head hlink ih

/-- The first wanted name stands on the way to each wanted name that is further up. -/
theorem between (h : NearestAbove host wanted n name p) {top : String} (htop : wanted top)
    (hreaches : Relation.ReflTransGen host.ParentLink name top) : name = top ∨ Relation.ReflTransGen host.ParentLink p top := by
  induction h with
  | parent hlink _ =>
    rcases hreaches.cases_head with heq | ⟨q, hq, hrest⟩
    · exact Or.inl heq
    · exact Or.inr (Option.some.inj (hlink.symm.trans hq) ▸ hrest)
  | skip hlink hnot _ ih =>
    rcases hreaches.cases_head with heq | ⟨q, hq, hrest⟩
    · exact Or.inl heq
    · obtain rfl := Option.some.inj (hlink.symm.trans hq)
      exact Or.inr ((ih hrest).resolve_left fun heq => hnot (heq ▸ htop))

end NearestAbove

/-- What is found above a name is its parent, if that is wanted, and otherwise what is found above the parent. -/
theorem exists_nearestAbove_iff {host : Host} {wanted : String → Prop} {name p : String} :
    (∃ n, NearestAbove host wanted n name p) ↔ ∃ q, host.parent? name = some q ∧
      (wanted q ∧ p = q ∨ ¬wanted q ∧ ∃ n, NearestAbove host wanted n q p) := by
  constructor
  · rintro ⟨_, habove⟩
    cases habove with
    | parent hlink hp => exact ⟨p, hlink, .inl ⟨hp, rfl⟩⟩
    | skip hlink hnot hrest => exact ⟨_, hlink, .inr ⟨hnot, _, hrest⟩⟩
  · rintro ⟨q, hlink, ⟨hq, rfl⟩ | ⟨hnot, n, hrest⟩⟩
    · exact ⟨1, .parent hlink hq⟩
    · exact ⟨n + 1, .skip hlink hnot hrest⟩

namespace Host

variable {host : Host} {name p : String}

/-- Only listed classes have parents. -/
theorem mem_names_of_parentLink (h : host.ParentLink name p) : name ∈ host.classes.map ClassInfo.name := by
  obtain ⟨cls, hc, _⟩ := Option.bind_eq_some_iff.mp h
  exact List.mem_map.mpr ⟨cls, mem_of_class? hc⟩

/-- The names on the way up are listed and distinct: on the way no two are the same number of parents below the end. None above the
first of them is wanted. -/
theorem exists_trail {wanted : String → Prop} {n : Nat} (h : NearestAbove host wanted n name p) :
    ∃ trail : List String, trail.length = n ∧ trail.Nodup ∧ (∀ x ∈ trail, x ∈ host.classes.map ClassInfo.name) ∧
      (∀ x ∈ trail, x = name ∨ ¬wanted x) ∧ ∀ x ∈ trail, ∃ m ≤ n, NearestAbove host wanted m x p := by
  induction h with
  | @parent name p hlink hp =>
    refine ⟨[name], rfl, List.nodup_singleton name, fun x hx => ?_, fun x hx => Or.inl (List.mem_singleton.mp hx), fun x hx => ?_⟩
    · rw [List.mem_singleton.mp hx]
      exact mem_names_of_parentLink hlink
    · rw [List.mem_singleton.mp hx]
      exact ⟨1, Nat.le_refl 1, .parent hlink hp⟩
  | @skip n name q p hlink hnot hrest ih =>
    obtain ⟨trail, hlength, hnodup, hlisted, hunwanted, habove⟩ := ih
    have hself : NearestAbove host wanted (n + 1) name p := .skip hlink hnot hrest
    have hnew : name ∉ trail := by
      intro hm
      obtain ⟨m, hle, hagain⟩ := habove name hm
      have := (hself.unique hagain).1
      omega
    refine ⟨name :: trail, by rw [List.length_cons, hlength], List.nodup_cons.mpr ⟨hnew, hnodup⟩, fun x hx => ?_,
      fun x hx => ?_, fun x hx => ?_⟩
    · rcases List.mem_cons.mp hx with rfl | hx
      · exact mem_names_of_parentLink hlink
      · exact hlisted x hx
    · rcases List.mem_cons.mp hx with rfl | hx
      · exact Or.inl rfl
      · rcases hunwanted x hx with rfl | hx
        · exact Or.inr hnot
        · exact Or.inr hx
    · rcases List.mem_cons.mp hx with rfl | hx
      · exact ⟨n + 1, Nat.le_refl _, hself⟩
      · obtain ⟨m, hle, hm⟩ := habove x hx
        exact ⟨m, Nat.le_succ_of_le hle, hm⟩

end Host

/-- The way up is no longer than the dump. -/
theorem NearestAbove.le_length {host : Host} {wanted : String → Prop} {n : Nat} {name p : String}
    (h : NearestAbove host wanted n name p) : n ≤ host.classes.length := by
  obtain ⟨trail, rfl, hnodup, hlisted, _⟩ := Host.exists_trail h
  have hle := (List.subperm_of_subset hnodup hlisted).length_le
  rwa [List.length_map] at hle

/-- The way up to another name that is listed is shorter than the dump: it does not go through that name. -/
theorem NearestAbove.lt_length {host : Host} {n : Nat} {name top : String} (h : NearestAbove host (· = top) n name top)
    (hne : name ≠ top) (htop : top ∈ host.classes.map ClassInfo.name) : n < host.classes.length := by
  obtain ⟨trail, rfl, hnodup, hlisted, hunwanted, _⟩ := Host.exists_trail h
  have hnew : top ∉ trail := fun hm => (hunwanted top hm).elim (fun heq => hne heq.symm) fun hnot => hnot rfl
  have hle := (List.subperm_of_subset (List.nodup_cons.mpr ⟨hnew, hnodup⟩) (List.forall_mem_cons.mpr ⟨htop, hlisted⟩)).length_le
  rwa [List.length_map, List.length_cons] at hle

namespace Host

variable {host : Host}

/-- The names above a class, within a number of steps. -/
def namesAbove (host : Host) (steps : Nat) (name : String) : List String := (host.chain steps name).filterMap ClassInfo.parent

theorem namesAbove_succ (steps : Nat) (name : String) :
    host.namesAbove (steps + 1) name = ((host.parent? name).map fun p => p :: host.namesAbove steps p).getD [] := by
  rw [namesAbove, chain, parent?]
  cases host.class? name with
  | none => rfl
  | some cls =>
    rw [Option.bind_some]
    cases hp : cls.parent with
    | none => simp [hp]
    | some p => simp [hp, namesAbove]

/-- A search within a number of steps finds what is at most as many parents above. -/
theorem find?_namesAbove {wanted : String → Bool} {steps : Nat} {name p : String} :
    (host.namesAbove steps name).find? wanted = some p ↔
      ∃ n ≤ steps, NearestAbove host (fun x => wanted x = true) n name p := by
  induction steps generalizing name with
  | zero =>
    refine ⟨fun h => (nomatch h), fun ⟨n, hn, h⟩ => ?_⟩
    exact absurd h.pos (Nat.not_lt.mpr hn)
  | succ steps ih =>
    rw [namesAbove_succ]
    cases hlink : host.parent? name with
    | none =>
      refine ⟨fun h => (nomatch h), fun ⟨n, _, h⟩ => ?_⟩
      cases h with
      | parent hp _ => exact nomatch hlink.symm.trans hp
      | skip hp _ _ => exact nomatch hlink.symm.trans hp
    | some q =>
      rw [Option.map_some, Option.getD_some, List.find?_cons]
      cases hq : wanted q with
      | true =>
        constructor
        · rintro ⟨⟩
          exact ⟨1, Nat.succ_le_succ (Nat.zero_le _), .parent hlink hq⟩
        · rintro ⟨n, _, h⟩
          rw [(h.unique (.parent hlink hq)).2]
      | false =>
        have hnot : ¬wanted q = true := by rw [hq]; exact Bool.false_ne_true
        rw [ih]
        constructor
        · rintro ⟨n, hn, h⟩
          exact ⟨n + 1, Nat.succ_le_succ hn, .skip hlink hnot h⟩
        · rintro ⟨n, hn, h⟩
          cases h with
          | parent hp hw => exact absurd hw (Option.some.inj (hlink.symm.trans hp) ▸ hnot)
          | @skip n _ _ _ hp _ hrest =>
            exact ⟨n, Nat.le_of_succ_le_succ hn, Option.some.inj (hp.symm.trans hlink) ▸ hrest⟩

/-! ## Names that do not repeat -/

/-- Where no name repeats, the inheriters of a class are those that name it as their parent when asked. -/
theorem mem_inheriters (h : (host.classes.map ClassInfo.name).Nodup) {name parent : String} :
    name ∈ host.inheriters parent ↔ host.ParentLink name parent := by
  rw [inheriters, List.mem_map, ParentLink, parent?]
  constructor
  · rintro ⟨cls, hc, rfl⟩
    obtain ⟨hc, hp⟩ := List.mem_filter.mp hc
    rw [class?_of_mem h hc]
    exact beq_iff_eq.mp hp
  · intro hlink
    obtain ⟨cls, hc, hp⟩ := Option.bind_eq_some_iff.mp hlink
    obtain ⟨hm, hname⟩ := mem_of_class? hc
    exact ⟨cls, List.mem_filter.mpr ⟨hm, beq_iff_eq.mpr hp⟩, hname⟩

theorem nodup_inheriters (h : (host.classes.map ClassInfo.name).Nodup) (parent : String) : (host.inheriters parent).Nodup :=
  h.sublist (List.filter_sublist.map _)

/-- Following parents comes from a name to another one exactly when the other one is the name itself or above it. -/
theorem reaches_iff {name top : String} : Relation.ReflTransGen host.ParentLink name top ↔
    name = top ∨ ∃ n, NearestAbove host (· = top) n name top := by
  constructor
  · intro h
    induction h using Relation.ReflTransGen.head_induction_on with
    | refl => exact Or.inl rfl
    | @head name q hlink _ ih =>
      right
      by_cases hq : q = top
      · exact ⟨1, .parent (hq ▸ hlink) rfl⟩
      · obtain ⟨n, hn⟩ := ih.resolve_left hq
        exact ⟨n + 1, .skip hlink hq hn⟩
  · rintro (rfl | ⟨n, hn⟩)
    · exact .refl
    · exact hn.reaches

/-! ## Inheritance -/

/-- The class of a name names a parent that is defined. -/
def DefinedLink (host : Host) (name parent : String) : Prop := host.ParentLink name parent ∧ (host.class? parent).isSome = true

theorem isSome_class?_of_parentLink {name p : String} (h : host.ParentLink name p) : (host.class? name).isSome = true := by
  obtain ⟨_, hc, _⟩ := Option.bind_eq_some_iff.mp h
  exact Option.isSome_of_eq_some hc

/-- Only defined names lead to a defined name, so parents lead there through defined names. -/
theorem reflTransGen_definedLink_iff {name top : String} (htop : (host.class? top).isSome = true) :
    (host.class? name).isSome = true ∧ Relation.ReflTransGen host.DefinedLink name top ↔
      Relation.ReflTransGen host.ParentLink name top := by
  refine ⟨fun h => h.2.lift id fun _ _ hlink => hlink.1, fun h => ?_⟩
  induction h using Relation.ReflTransGen.head_induction_on with
  | refl => exact ⟨htop, .refl⟩
  | head hlink _ ih => exact ⟨isSome_class?_of_parentLink hlink, .head ⟨hlink, ih.1⟩ ih.2⟩

/-- A walk stands at a name and then at the defined names above it. -/
theorem names_chain_succ (steps : Nat) (name : String) :
    (host.chain (steps + 1) name).map ClassInfo.name =
      (name :: host.namesAbove steps name).filter fun x => (host.class? x).isSome := by
  induction steps generalizing name with
  | zero =>
    rw [chain, List.filter_cons]
    cases hc : host.class? name with
    | none => rfl
    | some cls =>
      have hname : cls.name = name := (mem_of_class? hc).2
      cases hp : cls.parent <;> simp [hp, hname, chain, namesAbove]
  | succ steps ih =>
    rw [chain, List.filter_cons, namesAbove_succ, parent?]
    cases hc : host.class? name with
    | none => rfl
    | some cls =>
      have hname : cls.name = name := (mem_of_class? hc).2
      cases hp : cls.parent with
      | none => simp [hp, hname]
      | some p => simp [hp, hname, ih p]

theorem mem_namesAbove {steps : Nat} {name top : String} :
    top ∈ host.namesAbove steps name ↔ ∃ n ≤ steps, NearestAbove host (· = top) n name top := by
  have hfind : (host.namesAbove steps name).find? (· == top) = some top ↔
      ∃ n ≤ steps, NearestAbove host (fun x => (x == top) = true) n name top := find?_namesAbove
  simp only [beq_iff_eq] at hfind
  rw [← hfind]
  constructor
  · intro hm
    have hsome : ((host.namesAbove steps name).find? (· == top)).isSome = true :=
      List.find?_isSome.mpr ⟨top, hm, beq_self_eq_true top⟩
    obtain ⟨found, hfound⟩ := Option.isSome_iff_exists.mp hsome
    have hwanted : (found == top) = true := List.find?_some (p := (· == top)) hfound
    rw [hfound, eq_of_beq hwanted]
  · exact List.mem_of_find?_eq_some

/-- A walk comes to a defined name when it begins there or the name is above its beginning. -/
theorem exists_mem_chain_succ_iff {steps : Nat} {name top : String} : (∃ cls ∈ host.chain (steps + 1) name, cls.name = top) ↔
    (host.class? top).isSome = true ∧ (name = top ∨ ∃ n ≤ steps, NearestAbove host (· = top) n name top) := by
  rw [← List.mem_map, names_chain_succ, List.mem_filter, List.mem_cons, mem_namesAbove, eq_comm (a := top), and_comm]

/-- A class is another one or inherits from it when the other one is defined and parents lead to it. -/
theorem inherits_iff {name top : String} : host.inherits name top = true ↔
    (host.class? top).isSome = true ∧ Relation.ReflTransGen host.ParentLink name top := by
  have hsteps : (∃ cls ∈ host.lineage name, cls.name = top) ↔ (host.class? top).isSome = true ∧
      (name = top ∨ ∃ n < host.classes.length, NearestAbove host (· = top) n name top) := by
    rw [lineage]
    cases hlength : host.classes.length with
    | zero => simp [chain, class?, List.length_eq_zero_iff.mp hlength]
    | succ steps => simp only [exists_mem_chain_succ_iff, Nat.lt_succ_iff]
  rw [inherits, List.any_eq_true]
  simp only [beq_iff_eq]
  rw [hsteps, reaches_iff]
  refine and_congr_right fun htop => ?_
  obtain ⟨cls, hc⟩ := Option.isSome_iff_exists.mp htop
  constructor
  · exact Or.imp id fun ⟨n, _, hn⟩ => ⟨n, hn⟩
  · intro h
    by_cases heq : name = top
    · exact Or.inl heq
    · obtain ⟨n, hn⟩ := h.resolve_left heq
      exact Or.inr ⟨n, hn.lt_length heq (List.mem_map.mpr ⟨cls, mem_of_class? hc⟩), hn⟩

/-- What a walk of any length comes to is found within as many steps as the dump has classes. -/
theorem inherits_of_mem_chain {steps : Nat} {name top : String} (h : ∃ cls ∈ host.chain steps name, cls.name = top) :
    host.inherits name top = true := by
  cases steps with
  | zero =>
    obtain ⟨_, hm, _⟩ := h
    nomatch hm
  | succ steps =>
    obtain ⟨htop, habove⟩ := exists_mem_chain_succ_iff.mp h
    exact inherits_iff.mpr ⟨htop, reaches_iff.mpr (habove.imp id fun ⟨n, _, hn⟩ => ⟨n, hn⟩)⟩

end Host

end JuliaStubs.Dump
