import JuliaStubs.Dump.Basic
import Mathlib.Data.List.Nodup

/-!
# Look-ups in a dump

What is found under a name of a list in which no name repeats (`find?_name_iff`), and for methods: each has its own binding
(`Host.DistinctMethods.binding?_of_mem`).
-/

namespace JuliaStubs.Dump

/-! ## Names that do not repeat -/

/-- What is found under a name, where no name repeats. -/
theorem find?_name_iff {α : Type} {name : α → String} {items : List α} (h : (items.map name).Nodup) {wanted : String} {item : α} :
    (items.find? fun item => name item == wanted) = some item ↔ item ∈ items ∧ name item = wanted := by
  constructor
  · exact fun hf => ⟨List.mem_of_find?_eq_some hf, by simpa using List.find?_some hf⟩
  · rintro ⟨hi, rfl⟩
    cases hf : items.find? fun other => name other == name item with
    | none => exact absurd (List.find?_eq_none.mp hf item hi) (by simp)
    | some other =>
      have hn : name other = name item := by simpa using List.find?_some hf
      rw [List.inj_on_of_nodup_map h (List.mem_of_find?_eq_some hf) hi hn]

/-- Look-ups by names that do not repeat do not depend on the order. -/
theorem find?_name_perm {α : Type} {name : α → String} {items others : List α} (hp : items.Perm others)
    (h : (items.map name).Nodup) (wanted : String) :
    (items.find? fun item => name item == wanted) = others.find? fun item => name item == wanted := by
  refine Option.ext fun item => ?_
  rw [find?_name_iff h, find?_name_iff ((hp.map name).nodup_iff.mp h), hp.mem_iff]

/-- The class of a name is one of the dump. -/
theorem Host.mem_of_class? {host : Host} {name : String} {cls : ClassInfo} (h : host.class? name = some cls) :
    cls ∈ host.classes ∧ cls.name = name :=
  ⟨List.mem_reverse.mp (List.mem_of_find?_eq_some h), by simpa using List.find?_some h⟩

/-- The class of a name, where no name repeats. -/
theorem Host.class?_of_mem {host : Host} (h : (host.classes.map ClassInfo.name).Nodup) {cls : ClassInfo}
    (hc : cls ∈ host.classes) : host.class? cls.name = some cls := by
  refine (find?_name_iff ?_).mpr ⟨List.mem_reverse.mpr hc, rfl⟩
  rw [List.map_reverse]
  exact List.nodup_reverse.mpr h

/-! ## Methods -/

/-- The methods of a class are those of a class of the dump. -/
theorem Host.class?_of_mem_methods {host : Host} {cls : String} {info : MethodInfo} (h : info ∈ host.methods cls) :
    ∃ found ∈ host.classes, host.class? cls = some found ∧ info ∈ found.methods := by
  rw [Host.methods] at h
  cases hc : host.class? cls with
  | none =>
    rw [hc] at h
    nomatch h
  | some found =>
    rw [hc] at h
    exact ⟨found, (Host.mem_of_class? hc).1, rfl, h⟩

/-- The names of the methods of each class of a dump do not repeat. -/
def Host.DistinctMethods (host : Host) : Prop := ∀ cls ∈ host.classes, (cls.methods.map MethodInfo.name).Nodup

instance (host : Host) : Decidable host.DistinctMethods := by
  unfold Host.DistinctMethods
  infer_instance

theorem Host.DistinctMethods.nodup_methods {host : Host} (h : host.DistinctMethods) (cls : String) :
    ((host.methods cls).map MethodInfo.name).Nodup := by
  rw [Host.methods]
  cases hc : host.class? cls with
  | none => exact List.nodup_nil
  | some found => exact h found (Host.mem_of_class? hc).1

/-- The binding of a method is its own, where no name repeats. -/
theorem ClassInfo.binding?_of_mem {cls : ClassInfo} (h : (cls.methods.map MethodInfo.name).Nodup) {info : MethodInfo}
    (hm : info ∈ cls.methods) : cls.binding? info.name = info.binding? := by
  rw [ClassInfo.binding?, (find?_name_iff h).mpr ⟨hm, rfl⟩, Option.bind_some]

theorem Host.DistinctMethods.binding?_of_mem {host : Host} (h : host.DistinctMethods) {cls : String} {info : MethodInfo}
    (hm : info ∈ host.methods cls) : host.binding? cls info.name = info.binding? := by
  obtain ⟨found, hf, hc, hm⟩ := Host.class?_of_mem_methods hm
  rw [Host.binding?, hc, Option.bind_some, ClassInfo.binding?_of_mem (h found hf) hm]

end JuliaStubs.Dump
