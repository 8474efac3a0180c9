import JuliaStubs.Proofs.Text.Sorted
import JuliaStubs.Source.InternedNames
import Mathlib.Data.List.Count

/-!
# Interned names

A set holds its names in strictly ascending order (`ascending_ofList`), so it is known by which they are (`ofList_congr`), however they
came to it (`supplied_eq_iff`). Its source declares and interns each of them on one line (`count_declaration`, `count_initialization`).
-/

namespace JuliaStubs.Source

/-! ## Sets -/

section Sets

variable {names others : List String} {name : String}

theorem mem_dropRepeats : name ∈ dropRepeats names ↔ name ∈ names := by
  fun_induction dropRepeats names with
  | case1 b rest ih =>
    rw [ih]
    simp
  | case2 a b rest _ ih => rw [List.mem_cons, ih, ← List.mem_cons]
  | case3 => exact Iff.rfl

theorem mem_ofList : name ∈ (InternedNames.ofList names).names ↔ name ∈ names :=
  mem_dropRepeats.trans Text.mem_sortNames

/-- Among names in order repetitions are neighbours. -/
theorem ascending_dropRepeats (h : names.Pairwise (· ≤ ·)) : (dropRepeats names).Pairwise (· < ·) := by
  fun_induction dropRepeats names with
  | case1 b rest ih => exact ih (List.pairwise_cons.mp h).2
  | case2 a b rest hne ih =>
    obtain ⟨hfirst, hrest⟩ := List.pairwise_cons.mp h
    have hab : a < b := lt_of_le_of_ne (hfirst b List.mem_cons_self) hne
    refine List.pairwise_cons.mpr ⟨fun name hn => ?_, ih hrest⟩
    rcases List.mem_cons.mp (mem_dropRepeats.mp hn) with rfl | hn
    · exact hab
    · exact lt_of_lt_of_le hab ((List.pairwise_cons.mp hrest).1 name hn)
  | case3 list hshort =>
    match list, hshort with
    | [], _ => exact .nil
    | [a], _ => exact List.pairwise_singleton ..
    | a :: b :: rest, hshort => exact (hshort a b rest rfl).elim

theorem ascending_ofList (names : List String) : (InternedNames.ofList names).names.Pairwise (· < ·) :=
  ascending_dropRepeats (Text.pairwise_sortNames names)

theorem nodup_ofList (names : List String) : (InternedNames.ofList names).names.Nodup :=
  (ascending_ofList names).imp ne_of_lt

/-- A set is known by its names: neither their order nor how often they were given matters. -/
theorem ofList_congr (h : ∀ name, name ∈ names ↔ name ∈ others) : InternedNames.ofList names = .ofList others := by
  have hperm : (InternedNames.ofList names).names.Perm (InternedNames.ofList others).names :=
    (List.perm_ext_iff_of_nodup (nodup_ofList names) (nodup_ofList others)).mpr fun name => by rw [mem_ofList, mem_ofList, h]
  have heq := hperm.eq_of_pairwise (fun _ _ _ _ hab hba => absurd hba (lt_asymm hab)) (ascending_ofList names)
    (ascending_ofList others)
  exact congrArg InternedNames.mk heq

end Sets

/-! ## Supplies -/

/-- A way in which names come to a set. -/
inductive Supply where
  | insert (name : String)
  | extend (names : List String)

/-- The names that come. -/
def Supply.names : Supply → List String
  | insert name => [name]
  | extend names => names

namespace InternedNames

/-- The set after a supply. -/
def supply (set : InternedNames) : Supply → InternedNames
  | .insert name => set.insert name
  | .extend names => set.extend names

/-- The set after supplies, one after another. -/
def supplied (supplies : List Supply) : InternedNames := supplies.foldl supply empty

theorem supply_ofList (names : List String) (s : Supply) : (ofList names).supply s = ofList (names ++ s.names) := by
  have hextend : ∀ more, (ofList names).extend more = ofList (names ++ more) := fun more =>
    ofList_congr fun name => by simp only [List.mem_append, mem_ofList]
  cases s with
  | insert name => exact hextend [name]
  | extend more => exact hextend more

/-- Supplies add up to the set of all names that came. -/
theorem supplied_eq_ofList (supplies : List Supply) : supplied supplies = ofList (supplies.flatMap Supply.names) := by
  have hrun : ∀ (supplies : List Supply) (names : List String),
      supplies.foldl supply (ofList names) = ofList (names ++ supplies.flatMap Supply.names) := by
    intro supplies
    induction supplies with
    | nil => exact fun names => by rw [List.foldl_nil, List.flatMap_nil, List.append_nil]
    | cons s rest ih => exact fun names => by rw [List.foldl_cons, supply_ofList, ih, List.flatMap_cons, List.append_assoc]
  have hempty : ofList [] = empty := by
    rw [ofList, Text.sortNames, List.mergeSort_nil]
    rfl
  have h := hrun supplies []
  rwa [hempty, List.nil_append] at h

/-- Two series of supplies lead to one set when the same names come. -/
theorem supplied_eq_iff {supplies supplies' : List Supply} : supplied supplies = supplied supplies' ↔
    ∀ name, (∃ s ∈ supplies, name ∈ s.names) ↔ ∃ s ∈ supplies', name ∈ s.names := by
  have hmem : ∀ (supplies : List Supply) (name : String), name ∈ (supplied supplies).names ↔ ∃ s ∈ supplies, name ∈ s.names := by
    intro supplies name
    rw [supplied_eq_ofList, mem_ofList, List.mem_flatMap]
  constructor
  · intro heq name
    rw [← hmem, heq, hmem]
  · intro h
    rw [supplied_eq_ofList, supplied_eq_ofList]
    exact ofList_congr fun name => by simpa only [List.mem_flatMap] using h name

/-! ## Source -/

theorem declaration_injective : Function.Injective declaration := by
  intro a b h
  have hchars := congrArg String.toList h
  simpa [declaration, indented, String.toList_inj] using hchars

/-- A line that interns a name has it twice, so its length tells that of the name. -/
theorem initialization_injective : Function.Injective initialization := by
  intro a b h
  have hchars := congrArg String.toList h
  simp only [initialization, indented, String.toList_append, List.append_assoc, List.append_cancel_left_eq] at hchars
  have hlength := congrArg List.length hchars
  simp only [List.length_append] at hlength
  exact String.toList_inj.mp (List.append_inj_left hchars (by omega))

theorem take_declaration (name : String) : (declaration name).toList.take 2 = ['\t', '_'] := by
  simp [declaration, indented]

theorem take_initialization (name : String) : (initialization name).toList.take 2 = ['\t', 's'] := by
  simp [initialization, indented]

/-- Lines of different kinds differ in their first two characters. -/
theorem count_eq_zero_of_take {line : String} {start : List Char} (hline : line.toList.take 2 = start) {lines : List String}
    (h : ∀ other ∈ lines, other.toList.take 2 ≠ start) : lines.count line = 0 :=
  List.count_eq_zero.mpr fun hm => h line hm hline

/-- The lines of a set are those of the empty one, and those of its names. -/
theorem count_lines (set : InternedNames) (line : String) : set.lines.count line =
    empty.lines.count line + (set.names.map declaration).count line + (set.names.map initialization).count line := by
  simp only [lines, empty, List.count_append, List.map_nil, List.count_nil]
  omega

theorem mem_lines {set : InternedNames} {line : String} (h : line ∈ set.lines) :
    line ∈ empty.lines ∨ ∃ name ∈ set.names, line = declaration name ∨ line = initialization name := by
  have hcases : line ∈ empty.lines ∨ line ∈ set.names.map declaration ∨ line ∈ set.names.map initialization := by
    rw [← List.count_pos_iff, count_lines] at h
    simp only [← List.count_pos_iff]
    omega
  rcases hcases with h | h | h
  · exact Or.inl h
  · obtain ⟨name, hn, rfl⟩ := List.mem_map.mp h
    exact Or.inr ⟨name, hn, Or.inl rfl⟩
  · obtain ⟨name, hn, rfl⟩ := List.mem_map.mp h
    exact Or.inr ⟨name, hn, Or.inr rfl⟩

/-- A name is declared as often as the set has it. -/
theorem count_declaration (set : InternedNames) (name : String) : set.lines.count (declaration name) = set.names.count name := by
  have hnone := @count_eq_zero_of_take _ _ (take_declaration name)
  have hinitialized : (set.names.map initialization).count (declaration name) = 0 :=
    hnone (List.forall_mem_map.mpr fun other _ => by rw [take_initialization]; decide)
  rw [count_lines, hnone (by decide), hinitialized, List.count_map_of_injective _ _ declaration_injective, Nat.zero_add,
    Nat.add_zero]

/-- A name is interned as often as the set has it. -/
theorem count_initialization (set : InternedNames) (name : String) :
    set.lines.count (initialization name) = set.names.count name := by
  have hnone := @count_eq_zero_of_take _ _ (take_initialization name)
  have hdeclared : (set.names.map declaration).count (initialization name) = 0 :=
    hnone (List.forall_mem_map.mpr fun other _ => by rw [take_declaration]; decide)
  rw [count_lines, hnone (by decide), hdeclared, List.count_map_of_injective _ _ initialization_injective, Nat.zero_add]

end InternedNames

end JuliaStubs.Source
