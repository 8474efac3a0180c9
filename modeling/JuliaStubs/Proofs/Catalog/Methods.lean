import JuliaStubs.Catalog.OfDump
import Mathlib.Data.List.Nodup
import Mathlib.Data.String.Basic

/-!
# Methods in the order of their names

The methods of a class are bound in the order of their names. Where no name repeats they ascend (`ascending_sortedMethods`), and their
order in the dump does not matter (`sortedMethods_eq_of_perm`).
-/

namespace JuliaStubs.Catalog

open Dump

variable {host : Host}

theorem sortedMethods_perm (host : Host) (cls : String) : (sortedMethods host cls).Perm (host.methods cls) :=
  List.mergeSort_perm _ _

theorem pairwise_sortedMethods (host : Host) (cls : String) :
    (sortedMethods host cls).Pairwise fun a b => a.name ≤ b.name := by
  have hle : (sortedMethods host cls).Pairwise fun a b => decide (a.name ≤ b.name) = true :=
    List.pairwise_mergeSort (fun a b c hab hbc => by simp only [decide_eq_true_eq] at *; exact le_trans hab hbc)
      (fun a b => by simp only [Bool.or_eq_true, decide_eq_true_eq]; exact le_total a.name b.name) (host.methods cls)
  exact hle.imp of_decide_eq_true

theorem nodup_sortedMethods {cls : String} (h : ((host.methods cls).map MethodInfo.name).Nodup) :
    ((sortedMethods host cls).map MethodInfo.name).Nodup :=
  ((sortedMethods_perm host cls).map _).nodup_iff.mpr h

/-- Methods of distinct names ascend when they are sorted. -/
theorem ascending_sortedMethods {cls : String} (h : ((host.methods cls).map MethodInfo.name).Nodup) :
    (sortedMethods host cls).Pairwise fun a b => a.name < b.name := by
  have hne : (sortedMethods host cls).Pairwise fun a b => a.name ≠ b.name :=
    List.pairwise_map.mp (nodup_sortedMethods h)
  exact (pairwise_sortedMethods host cls).imp₂ (fun _ _ hle hne => lt_of_le_of_ne hle hne) hne

/-- Where no name repeats, sorting forgets the order of the methods in the dump. -/
theorem sortedMethods_eq_of_perm {other : Host} {cls : String} (hp : (other.methods cls).Perm (host.methods cls))
    (h : ((host.methods cls).map MethodInfo.name).Nodup) : sortedMethods other cls = sortedMethods host cls := by
  have hsorted : (sortedMethods other cls).Perm (sortedMethods host cls) :=
    ((sortedMethods_perm other cls).trans hp).trans (sortedMethods_perm host cls).symm
  refine hsorted.eq_of_pairwise (fun a b ha hb hab hba => ?_) (pairwise_sortedMethods other cls) (pairwise_sortedMethods host cls)
  have ha : a ∈ host.methods cls := hp.mem_iff.mp ((sortedMethods_perm other cls).mem_iff.mp ha)
  have hb : b ∈ host.methods cls := (sortedMethods_perm host cls).mem_iff.mp hb
  exact List.inj_on_of_nodup_map h ha hb (le_antisymm hab hba)

/-- Sorting looks at nothing but the names. -/
theorem sortedMethods_map {other : Host} {cls : String} {change : MethodInfo → MethodInfo}
    (hname : ∀ info, (change info).name = info.name) (h : other.methods cls = (host.methods cls).map change) :
    sortedMethods other cls = (sortedMethods host cls).map change := by
  rw [sortedMethods, h, sortedMethods]
  exact (List.map_mergeSort fun a _ b _ => by rw [hname a, hname b]).symm

/-- Another entry under the name of a method takes its place among the sorted methods. -/
theorem sortedMethods_split {other : Host} {cls : String} {preceding following : List MethodInfo} {entry entry' : MethodInfo}
    (hmethods : host.methods cls = preceding ++ entry :: following)
    (hmethods' : other.methods cls = preceding ++ entry' :: following) (hname : entry'.name = entry.name)
    (hdistinct : ((preceding ++ entry :: following).map MethodInfo.name).Nodup) :
    ∃ left right, sortedMethods host cls = left ++ entry :: right ∧ sortedMethods other cls = left ++ entry' :: right ∧
      (left ++ right).Perm (preceding ++ following) := by
  let change := fun info : MethodInfo => if info.name = entry.name then entry' else info
  have hchange : ∀ info, (change info).name = info.name := by
    intro info
    by_cases hi : info.name = entry.name
    · exact (congrArg MethodInfo.name (if_pos hi)).trans (hname.trans hi.symm)
    · exact congrArg MethodInfo.name (if_neg hi)
  have hnew : entry.name ∉ (preceding ++ following).map MethodInfo.name :=
    (List.nodup_cons.mp ((List.perm_middle.map MethodInfo.name).nodup_iff.mp hdistinct)).1
  have hothers : ∀ left right : List MethodInfo, (left ++ right).Perm (preceding ++ following) →
      (left ++ entry :: right).map change = left ++ entry' :: right := by
    intro left right hperm
    have hkeep : ∀ info ∈ left ++ right, change info = info := fun info hi =>
      if_neg fun heq : info.name = entry.name => hnew (heq ▸ List.mem_map_of_mem (hperm.mem_iff.mp hi))
    rw [List.map_append, List.map_cons, show change entry = entry' from if_pos rfl,
      List.map_congr_left fun info hi => hkeep info (List.mem_append_left right hi),
      List.map_congr_left fun info hi => hkeep info (List.mem_append_right left hi), List.map_id', List.map_id']
  have hperm := sortedMethods_perm host cls
  have hmem : entry ∈ sortedMethods host cls := hperm.mem_iff.mpr (hmethods ▸ List.mem_append_right _ List.mem_cons_self)
  obtain ⟨left, right, hsplit⟩ := List.append_of_mem hmem
  rw [hsplit, hmethods] at hperm
  have hrest := ((List.perm_middle.symm.trans hperm).trans List.perm_middle).cons_inv
  have hmap : other.methods cls = (host.methods cls).map change := by rw [hmethods, hmethods', hothers _ _ (.refl _)]
  exact ⟨left, right, hsplit, by rw [sortedMethods_map hchange hmap, hsplit, hothers _ _ hrest], hrest⟩

/-- What becomes of the methods of a class depends on the methods in their order and on the bindings that their names lead to. -/
theorem methodsOf_congr {other : Host} {settings : Settings} {docs : Docs} {r : Registry} {cls : String}
    (hsorted : sortedMethods other cls = sortedMethods host cls)
    (hbinding : ∀ info ∈ host.methods cls, other.binding? cls info.name = host.binding? cls info.name) :
    methodsOf settings other docs r cls = methodsOf settings host docs r cls := by
  rw [methodsOf, hsorted, methodsOf]
  refine List.map_congr_left fun info hi => ?_
  rw [methodOf, hbinding info ((sortedMethods_perm host cls).mem_iff.mp hi), methodOf]

/-- The methods of a class that is the same in another dump fare alike there. -/
theorem methodsOf_of_class? {other : Host} {settings : Settings} {docs : Docs} {r : Registry} {cls : String}
    (h : other.class? cls = host.class? cls) : methodsOf settings other docs r cls = methodsOf settings host docs r cls := by
  have hmethods : other.methods cls = host.methods cls := by rw [Host.methods, h, Host.methods]
  refine methodsOf_congr (by rw [sortedMethods, hmethods, sortedMethods]) fun info _ => ?_
  rw [Host.binding?, h, Host.binding?]

end JuliaStubs.Catalog
