import JuliaStubs.Catalog.Enum
import Mathlib.Data.List.Nodup

/-!
# The members of an enum by value

What `Enum.partition` does, said by the places of the members: the first member of each value is canonical, every later one an alias of
it, and both lists keep the order of declaration (`Enum.splits_partition`).
-/

namespace JuliaStubs.Catalog

namespace Enum

/-- Whether a member, given with its place, is the first of its value. -/
def isFirst (e : Enum) (entry : Constant × Nat) : Bool :=
  (e.members.take entry.2).all fun earlier => earlier.value != entry.1.value

/-- What splits the members of an enum by value. -/
structure Splits (e : Enum) (p : EnumPartition) : Prop where
  /-- Canonical are the members at the places where a value comes first, in the order of these places. -/
  canonical : p.canonical = (e.members.zipIdx.filter e.isFirst).map Prod.fst
  /-- Aliases are the members at all other places, in the order of these places. -/
  aliases : p.aliases.map Prod.fst = (e.members.zipIdx.filter fun entry => !e.isFirst entry).map Prod.fst
  /-- No value is that of two canonical members. -/
  nodup : (p.canonical.map Constant.value).Nodup
  /-- The values of the canonical members are those of the enum. -/
  covers : ∀ value, value ∈ p.canonical.map Constant.value ↔ value ∈ e.members.map Constant.value
  /-- An alias goes with the first member of its value, which is canonical and the one that names the value. -/
  paired : ∀ pair ∈ p.aliases, e.ofValue? pair.1.value = some pair.2 ∧ pair.2 ∈ p.canonical ∧ pair.2.value = pair.1.value ∧
    e.name? pair.1.value = some pair.2.name

section Partition

variable {e : Enum}

/-- What is found before a place is all that the partition looks at: the members before it with the same value. -/
theorem isFirst_length {before rest : List Constant} {member : Constant} (h : e.members = before ++ member :: rest) :
    e.isFirst (member, before.length) = (before.find? fun first => first.value == member.value).isNone := by
  rw [isFirst, h, List.take_left, Bool.eq_iff_iff, Option.isNone_iff_eq_none, List.find?_eq_none, List.all_eq_true]
  simp only [bne_iff_ne, beq_iff_eq]

/-- The partition of what follows some members, given canonical ones that stand for these members. -/
theorem partitionFrom_eq {before rest found : List Constant} (h : e.members = before ++ rest)
    (hfound : ∀ value, (found.find? fun first => first.value == value) = before.find? fun first => first.value == value) :
    (partitionFrom found rest).canonical = ((rest.zipIdx before.length).filter e.isFirst).map Prod.fst ∧
      (partitionFrom found rest).aliases = ((rest.zipIdx before.length).filter fun entry => !e.isFirst entry).filterMap
        fun entry => (e.ofValue? entry.1.value).map (entry.1, ·) := by
  induction rest generalizing before found with
  | nil => exact ⟨rfl, rfl⟩
  | cons member rest ih =>
    have hfirst := isFirst_length h
    have hnext : e.members = (before ++ [member]) ++ rest := by rw [h, List.append_assoc, List.singleton_append]
    have hlength : (before ++ [member]).length = before.length + 1 := by simp
    rw [partitionFrom, hfound, List.zipIdx_cons]
    cases hf : before.find? fun first => first.value == member.value with
    | none =>
      rw [hf, Option.isNone_none] at hfirst
      obtain ⟨hcanonical, haliases⟩ := @ih (before ++ [member]) (member :: found) hnext fun value => by
        rw [List.find?_cons, hfound, List.find?_append, List.find?_singleton]
        by_cases hv : member.value = value
        · rw [← hv, hf]
          simp
        · rw [beq_eq_false_iff_ne.mpr hv]
          simp
      rw [hlength] at hcanonical haliases
      simp only [List.filter_cons, hfirst, if_true, Bool.not_true, Bool.false_eq_true, if_false, List.map_cons]
      exact ⟨congrArg _ hcanonical, haliases⟩
    | some first =>
      rw [hf, Option.isNone_some] at hfirst
      have hvalue : e.ofValue? member.value = some first := by
        rw [ofValue?, h, List.find?_append, hf, Option.some_or]
      obtain ⟨hcanonical, haliases⟩ := @ih (before ++ [member]) found hnext fun value => by
        rw [hfound, List.find?_append, List.find?_singleton]
        by_cases hv : member.value = value
        · rw [← hv, hf, Option.some_or]
        · simp [hv]
      rw [hlength] at hcanonical haliases
      simp only [List.filter_cons, hfirst, Bool.false_eq_true, if_false, Bool.not_false, if_true]
      rw [List.filterMap_cons_some (by rw [hvalue, Option.map_some])]
      exact ⟨hcanonical, congrArg _ haliases⟩

theorem value_of_ofValue? {value : Int64} {first : Constant} (h : e.ofValue? value = some first) : first.value = value :=
  beq_iff_eq.mp (List.find?_eq_some_iff_append.mp h).1

theorem exists_ofValue? {value : Int64} (h : value ∈ e.members.map Constant.value) : ∃ first, e.ofValue? value = some first := by
  obtain ⟨member, hm, rfl⟩ := List.mem_map.mp h
  exact Option.isSome_iff_exists.mp (List.find?_isSome.mpr ⟨member, hm, beq_self_eq_true _⟩)

theorem partition_eq (e : Enum) : e.partition.canonical = (e.members.zipIdx.filter e.isFirst).map Prod.fst ∧
    e.partition.aliases = (e.members.zipIdx.filter fun entry => !e.isFirst entry).filterMap
      fun entry => (e.ofValue? entry.1.value).map (entry.1, ·) :=
  @partitionFrom_eq e [] _ _ rfl fun _ => rfl

/-- The first member of a value is canonical. -/
theorem mem_canonical_of_ofValue? {value : Int64} {first : Constant} (h : e.ofValue? value = some first) :
    first ∈ e.partition.canonical := by
  obtain ⟨hv, before, rest, hmembers, hbefore⟩ := List.find?_eq_some_iff_append.mp h
  have hentry : (first, before.length) ∈ e.members.zipIdx := by
    rw [List.mem_zipIdx_iff_getElem?, hmembers, List.getElem?_append_right (Nat.le_refl _), Nat.sub_self,
      List.getElem?_cons_zero]
  have hfirst : e.isFirst (first, before.length) = true := by
    rw [isFirst_length hmembers, Option.isNone_iff_eq_none, List.find?_eq_none, beq_iff_eq.mp hv]
    exact fun earlier he => by simpa using hbefore earlier he
  rw [(partition_eq e).1]
  exact List.mem_map.mpr ⟨_, List.mem_filter.mpr ⟨hentry, hfirst⟩, rfl⟩

/-- A value is that of one canonical member at most: of two members with one value the later is not the first. -/
theorem nodup_canonical (e : Enum) : (e.partition.canonical.map Constant.value).Nodup := by
  have hplaces : e.members.zipIdx.Pairwise fun a b => a.2 < b.2 := by
    rw [← List.pairwise_map, List.zipIdx_map_snd]
    exact List.pairwise_lt_range'
  rw [(partition_eq e).1, List.map_map, List.Nodup, List.pairwise_map]
  refine (hplaces.filter _).imp_of_mem fun {a b} ha hb hlt => ?_
  have hgeta := List.mem_zipIdx_iff_getElem?.mp (List.mem_filter.mp ha).1
  have hmem : a.1 ∈ e.members.take b.2 :=
    List.mem_of_getElem? (i := a.2) (by rw [List.getElem?_take, if_pos hlt, hgeta])
  have hfirst := List.all_eq_true.mp (List.mem_filter.mp hb).2 a.1 hmem
  exact bne_iff_ne.mp hfirst

theorem splits_partition (e : Enum) : e.Splits e.partition := by
  obtain ⟨hcanonical, haliases⟩ := partition_eq e
  refine ⟨hcanonical, ?_, nodup_canonical e, fun value => ⟨fun h => ?_, fun h => ?_⟩, fun pair hp => ?_⟩
  · rw [haliases, List.map_filterMap, ← List.filterMap_eq_map]
    refine List.filterMap_congr fun entry he => ?_
    have hmem : entry.1 ∈ e.members := by
      have := List.mem_zipIdx_iff_getElem?.mp (List.mem_filter.mp he).1
      exact List.mem_of_getElem? this
    obtain ⟨first, hfirst⟩ := exists_ofValue? (List.mem_map_of_mem (f := Constant.value) hmem)
    rw [hfirst]
    rfl
  · obtain ⟨first, hf, rfl⟩ := List.mem_map.mp h
    rw [hcanonical] at hf
    obtain ⟨entry, he, rfl⟩ := List.mem_map.mp hf
    have := List.mem_zipIdx_iff_getElem?.mp (List.mem_filter.mp he).1
    exact List.mem_map_of_mem (List.mem_of_getElem? this)
  · obtain ⟨first, hfirst⟩ := exists_ofValue? h
    rw [← value_of_ofValue? hfirst]
    exact List.mem_map_of_mem (mem_canonical_of_ofValue? hfirst)
  · rw [haliases] at hp
    obtain ⟨entry, _, hentry⟩ := List.mem_filterMap.mp hp
    obtain ⟨first, hfirst, rfl⟩ := Option.map_eq_some_iff.mp hentry
    exact ⟨hfirst, mem_canonical_of_ofValue? hfirst, value_of_ofValue? hfirst, by rw [name?, hfirst, Option.map_some]⟩

/-- Canonical members and aliases together are the members. -/
theorem canonical_append_aliases_perm (e : Enum) :
    (e.partition.canonical ++ e.partition.aliases.map Prod.fst).Perm e.members := by
  have h := splits_partition e
  rw [h.canonical, h.aliases, ← List.map_append]
  refine ((List.filter_append_perm e.isFirst e.members.zipIdx).map Prod.fst).trans ?_
  rw [List.zipIdx_map_fst]

end Partition

end Enum

end JuliaStubs.Catalog
