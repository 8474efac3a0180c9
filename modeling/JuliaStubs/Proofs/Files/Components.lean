import JuliaStubs.Files.Path
import Mathlib.Logic.Basic

/-!
# Components of paths

What a path denotes: the names on it, and whether it starts at the root. Slashes that are repeated or stand at the end do not count, nor
do names that stay in place, save at the start. A joined path has the names of both (`names_join`), and starts at the root if one of
them does (`isAbsolute_join`).
-/

namespace JuliaStubs.Files

/-- A step on a path. -/
inductive Component where
  | root
  /-- A relative path may say that it starts where it is. -/
  | here
  | up
  | name (s : String)
deriving DecidableEq

/-- The step of a name that does not stay in place. -/
def Component.ofName (s : String) : Component := if s = ".." then .up else .name s

/-- Where a path starts. -/
def startOf (path : String) : List Component :=
  if isAbsolute path then [.root] else if (names path).head? = some "." then [.here] else []

/-- The components of a path; two paths denote the same one when they have the same components. -/
def components (path : String) : List Component := startOf path ++ (movingNames path).map .ofName

example : components "./gen//../out/./classes/" = [.here, .name "gen", .up, .name "out", .name "classes"] := by decide

/-! ## Names -/

theorem splitNames_append (name s t : List Char) : splitNames name (s ++ '/' :: t) = splitNames name s ++ splitNames [] t := by
  induction s generalizing name with
  | nil =>
    simp only [List.nil_append, splitNames, if_true]
    split <;> rfl
  | cons c s ih =>
    rw [List.cons_append, splitNames, splitNames]
    split
    · rw [ih]
      split <;> rfl
    · exact ih _

theorem names_append (a b : String) : names (a ++ "/" ++ b) = names a ++ names b := by
  have htext : (a ++ "/" ++ b).toList = a.toList ++ '/' :: b.toList := by simp [String.toList_append]
  rw [names, htext, splitNames_append]
  rfl

/-- A slash at the end of a path adds no name. -/
theorem names_append_slash (a : String) : names (a ++ "/") = names a := by
  have h := names_append a ""
  rwa [String.append_empty, show names "" = [] from rfl, List.append_nil] at h

theorem isAbsolute_append {a : String} (h : a ≠ "") (b : String) : isAbsolute (a ++ b) = isAbsolute a := by
  obtain ⟨c, s, hs⟩ := List.exists_cons_of_ne_nil (String.toList_eq_nil_iff.not.mpr h)
  rw [isAbsolute, isAbsolute, String.toList_append, hs]
  rfl

theorem exists_of_endsWithSlash {a : String} (h : endsWithSlash a = true) : ∃ b, a = b ++ "/" := by
  obtain ⟨front, hfront⟩ := List.getLast?_eq_some_iff.mp (beq_iff_eq.mp h)
  exact ⟨String.ofList front, String.toList_injective (by simp [String.toList_append, hfront])⟩

/-! ## Joined paths -/

section Join

variable {base path : String}

theorem join_empty : join "" path = path := by
  simp [join]

theorem names_join : names (join base path) = if isAbsolute path then names path else names base ++ names path := by
  unfold join
  cases isAbsolute path with
  | true => rfl
  | false =>
    rw [Bool.false_or]
    by_cases hbase : base = ""
    · subst hbase
      rfl
    rw [if_neg (by simpa using hbase)]
    by_cases hslash : endsWithSlash base = true
    · obtain ⟨b, rfl⟩ := exists_of_endsWithSlash hslash
      rw [if_pos hslash, names_append, names_append_slash]
      rfl
    · rw [if_neg hslash, names_append]
      rfl

theorem isAbsolute_join : isAbsolute (join base path) = (isAbsolute path || isAbsolute base) := by
  unfold join
  cases hpath : isAbsolute path with
  | true => exact hpath
  | false =>
    rw [Bool.false_or, Bool.false_or]
    by_cases hbase : base = ""
    · subst hbase
      exact hpath
    rw [if_neg (by simpa using hbase)]
    split
    · exact isAbsolute_append hbase path
    · rw [String.append_assoc]
      exact isAbsolute_append hbase _

theorem components_congr {p q : String} (hstart : isAbsolute p = isAbsolute q) (hnames : names p = names q) :
    components p = components q := by
  rw [components, components, startOf, startOf, movingNames, movingNames, hstart, hnames]

theorem components_of_isAbsolute (h : isAbsolute path = true) :
    components path = .root :: (movingNames path).map .ofName := by
  rw [components, startOf, if_pos h]
  rfl

/-- Only a path that starts at the root has the root among its components. -/
theorem isAbsolute_of_root_mem (h : .root ∈ components path) : isAbsolute path = true := by
  have hname (s : String) : Component.ofName s ≠ .root := by
    unfold Component.ofName
    split <;> nofun
  rcases List.mem_append.mp h with h | h
  · unfold startOf at h
    split at h
    · assumption
    · split at h <;> simp at h
  · obtain ⟨s, -, hs⟩ := List.mem_map.mp h
    exact absurd hs (hname s)

theorem movingNames_join (h : isAbsolute path = false) : movingNames (join base path) = movingNames base ++ movingNames path := by
  rw [movingNames, names_join, h, if_neg Bool.false_ne_true, List.filter_append]
  rfl

/-- Two paths with the same names, of which only one starts at the root, denote the same one from the root and from nowhere else. -/
theorem components_join_eq_iff {p q : String} (hp : isAbsolute p = true) (hq : isAbsolute q = false) (hnames : names p = names q) :
    components (join base p) = components (join base q) ↔ components base = [.root] := by
  have hstart : components (join base p) = .root :: (movingNames q).map .ofName := by
    rw [components_of_isAbsolute (by rw [isAbsolute_join, hp, Bool.true_or]), movingNames, names_join, if_pos hp, hnames]
    rfl
  constructor
  · intro h
    have habsolute : isAbsolute (join base q) = true := isAbsolute_of_root_mem (by rw [← h, hstart]; exact List.mem_cons_self)
    have hbase : isAbsolute base = true := by rwa [isAbsolute_join, hq, Bool.false_or] at habsolute
    rw [hstart, components_of_isAbsolute habsolute, movingNames_join hq, List.map_append] at h
    have hnone := List.self_eq_append_left.mp (List.cons.inj h).2
    rw [components_of_isAbsolute hbase, hnone]
  · intro h
    have hbase : isAbsolute base = true := isAbsolute_of_root_mem (by rw [h]; exact List.mem_cons_self)
    rw [components_of_isAbsolute hbase] at h
    have habsolute : isAbsolute (join base q) = true := by rw [isAbsolute_join, hbase, Bool.or_true]
    rw [hstart, components_of_isAbsolute habsolute, movingNames_join hq, List.map_append, (List.cons.inj h).2, List.nil_append]

end Join

/-! ## Paths written with a slash -/

/-- A name after a path and a slash is the name joined to the path, unless the path is empty; then it is below the root. -/
theorem components_slash_iff {path name : String} (h : isAbsolute name = false) (base : String) :
    components (join base (path ++ "/" ++ name)) = components (join base (join path name)) ↔
      path ≠ "" ∨ components base = [.root] := by
  have hnames : names (path ++ "/" ++ name) = names (join path name) := by
    rw [names_append, names_join, h, if_neg Bool.false_ne_true]
  have hjoin : isAbsolute (join path name) = isAbsolute path := by
    rw [isAbsolute_join, h, Bool.false_or]
  by_cases hpath : path = ""
  · subst hpath
    have hslash : isAbsolute ("" ++ "/" ++ name) = true := isAbsolute_append (by decide) name
    rw [components_join_eq_iff hslash hjoin hnames, or_iff_right (not_not_intro rfl)]
  · have hslash : isAbsolute (path ++ "/" ++ name) = isAbsolute path := by
      rw [String.append_assoc]
      exact isAbsolute_append hpath _
    refine iff_of_true (components_congr ?_ ?_) (.inl hpath)
    · rw [isAbsolute_join, isAbsolute_join, hslash, hjoin]
    · rw [names_join, names_join, hslash, hjoin, hnames]

end JuliaStubs.Files
