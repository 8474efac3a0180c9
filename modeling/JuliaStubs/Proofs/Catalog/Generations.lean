import JuliaStubs.Proofs.Catalog.Worklist
import JuliaStubs.Proofs.Text.Sorted
import Mathlib.Data.List.Nodup

/-!
# Generations of a traversal

Where no name of a dump repeats, a traversal visits the root, then its children, then theirs, and so on (`visits_eq_generations`), the
children of one class in name order. A class stands in the generation of its depth: the number of parents that lead from it to the root
for the first time (`mem_generation`). A parent of the root, which makes a cycle, has the root among its inheriters; there the root is no
child.
-/

namespace JuliaStubs.Catalog

open Dump

/-- The inheriters of a class in name order, without the root. -/
def children (host : Host) (root name : String) : List String :=
  (Text.sortNames (host.inheriters name)).filter (· ≠ root)

/-- The names at a depth below the root, in the order of their visits. -/
def generation (host : Host) (root : String) : Nat → List String
  | 0 => [root]
  | depth + 1 => (generation host root depth).flatMap (children host root)

/-- A name stands at a depth below the root: so many parents lead from it to the root for the first time. -/
def AtDepth (host : Host) (root : String) (depth : Nat) (name : String) : Prop :=
  depth = 0 ∧ name = root ∨ name ≠ root ∧ NearestAbove host (· = root) depth name root

theorem AtDepth.unique {host : Host} {root name : String} {depth other : Nat} (h : AtDepth host root depth name)
    (h' : AtDepth host root other name) : depth = other := by
  rcases h with ⟨rfl, rfl⟩ | ⟨hne, h⟩
  · rcases h' with ⟨rfl, _⟩ | ⟨hne, _⟩
    · rfl
    · exact absurd rfl hne
  · rcases h' with ⟨_, rfl⟩ | ⟨_, h'⟩
    · exact absurd rfl hne
    · exact (h.unique h').1

/-- The names with a depth are those from which the root is reached. -/
theorem exists_atDepth_iff {host : Host} {root name : String} :
    (∃ depth, AtDepth host root depth name) ↔ Relation.ReflTransGen host.ParentLink name root := by
  rw [Host.reaches_iff]
  constructor
  · rintro ⟨depth, ⟨_, rfl⟩ | ⟨_, h⟩⟩
    · exact Or.inl rfl
    · exact Or.inr ⟨depth, h⟩
  · intro h
    by_cases hn : name = root
    · exact ⟨0, Or.inl ⟨rfl, hn⟩⟩
    · obtain ⟨depth, hd⟩ := h.resolve_left hn
      exact ⟨depth, Or.inr ⟨hn, hd⟩⟩

/-- The children of a class stand at the same depth. -/
theorem AtDepth.of_sibling {host : Host} {root name other parent : String} {depth : Nat} (h : AtDepth host root depth name)
    (hne : name ≠ root) (hother : other ≠ root) (hlink : host.ParentLink name parent)
    (hlink' : host.ParentLink other parent) : AtDepth host root depth other := by
  refine Or.inr ⟨hother, ?_⟩
  cases (h.resolve_left fun h => hne h.2).2 with
  | parent hup _ =>
    obtain rfl := Option.some.inj (hlink.symm.trans hup)
    exact .parent hlink' rfl
  | skip hup hnot hrest =>
    obtain rfl := Option.some.inj (hlink.symm.trans hup)
    exact .skip hlink' hnot hrest

/-- Of two children of a class the first has the smaller name. -/
def SiblingsAscend (host : Host) (root name other : String) : Prop :=
  ∀ parent, name ≠ root → host.ParentLink name parent → host.ParentLink other parent → name < other

/-- One name may come before another breadth first: it is no deeper, and the smaller one of two children of a class. -/
def BreadthFirst (host : Host) (root name other : String) : Prop :=
  (∀ m n, AtDepth host root m name → AtDepth host root n other → m ≤ n) ∧ SiblingsAscend host root name other

section Distinct

variable {host : Host} (hdistinct : (host.classes.map ClassInfo.name).Nodup) {root : String}

include hdistinct

theorem mem_children {name parent : String} :
    name ∈ children host root parent ↔ host.ParentLink name parent ∧ name ≠ root := by
  rw [children, List.mem_filter, decide_eq_true_eq, Text.mem_sortNames, Host.mem_inheriters hdistinct]

theorem nodup_children (parent : String) : (children host root parent).Nodup :=
  (Text.nodup_sortNames.mpr (Host.nodup_inheriters hdistinct parent)).filter _

/-- A generation holds the names of its depth. -/
theorem mem_generation {depth : Nat} {name : String} : name ∈ generation host root depth ↔ AtDepth host root depth name := by
  induction depth generalizing name with
  | zero =>
    rw [generation, List.mem_singleton]
    refine ⟨fun h => Or.inl ⟨rfl, h⟩, ?_⟩
    rintro (⟨_, h⟩ | ⟨_, h⟩)
    · exact h
    · exact absurd h.pos (Nat.lt_irrefl 0)
  | succ depth ih =>
    rw [generation, List.mem_flatMap]
    constructor
    · rintro ⟨parent, hparent, hname⟩
      obtain ⟨hlink, hne⟩ := (mem_children hdistinct).mp hname
      refine Or.inr ⟨hne, ?_⟩
      rcases ih.mp hparent with ⟨rfl, rfl⟩ | ⟨hnp, habove⟩
      · exact .parent hlink rfl
      · exact .skip hlink hnp habove
    · rintro (⟨h, _⟩ | ⟨hne, h⟩)
      · nomatch h
      · cases h with
        | parent hlink _ => exact ⟨root, ih.mpr (Or.inl ⟨rfl, rfl⟩), (mem_children hdistinct).mpr ⟨hlink, hne⟩⟩
        | @skip _ _ parent _ hlink hnp habove =>
          exact ⟨parent, ih.mpr (Or.inr ⟨hnp, habove⟩), (mem_children hdistinct).mpr ⟨hlink, hne⟩⟩

/-- No name is the child of two classes. -/
theorem nodup_flatMap_children {names : List String} (h : names.Nodup) : (names.flatMap (children host root)).Nodup := by
  rw [List.nodup_flatMap]
  refine ⟨fun parent _ => nodup_children hdistinct parent, h.imp fun {a b} hne name ha hb => hne ?_⟩
  have hlink := ((mem_children hdistinct).mp ha).1
  exact Option.some.inj (hlink.symm.trans ((mem_children hdistinct).mp hb).1)

omit hdistinct in
theorem root_not_child (names : List String) : root ∉ names.flatMap (children host root) := by
  intro hin
  obtain ⟨_, _, hchild⟩ := List.mem_flatMap.mp hin
  exact of_decide_eq_true (List.mem_filter.mp hchild).2 rfl

/-- The loop, when it has visited the root. What was visited and what is queued, the root apart, is the root and the children of what
was visited, in this order; a visit takes a name from the queue and adds its children at the end. So in the end the visited names are the
root and the children of all of them. -/
theorem visitFrom_closed {queue visited admitted earlier : List String} (hvisited : ∀ name, name ∈ visited ↔ name ∈ earlier)
    (hroot : root ∈ earlier) (hnodup : earlier.Nodup)
    (hqueue : earlier ++ queue.filter (· ≠ root) = root :: earlier.flatMap (children host root)) :
    earlier ++ (Traversal.visitFrom host root queue visited admitted).map Visit.name =
      root :: (earlier ++ (Traversal.visitFrom host root queue visited admitted).map Visit.name).flatMap
        (children host root) := by
  fun_induction Traversal.visitFrom host root queue visited admitted generalizing earlier with
  | case1 => simpa using hqueue
  | case2 visited admitted name rest hseen ih =>
    have hn : name ∈ earlier := (hvisited name).mp (List.contains_iff_mem.mp hseen)
    have hfront : name = root := by
      by_contra hne
      -- a visited name other than the root would be queued a second time, as the child of two classes
      rw [List.filter_cons_of_pos (by simpa using hne)] at hqueue
      have hchildren : (root :: earlier.flatMap (children host root)).Nodup :=
        List.nodup_cons.mpr ⟨root_not_child earlier, nodup_flatMap_children hdistinct hnodup⟩
      rw [← hqueue] at hchildren
      exact (List.nodup_append.mp hchildren).2.2 name hn name List.mem_cons_self rfl
    rw [hfront, List.filter_cons_of_neg (by simp)] at hqueue
    exact ih hvisited hroot hnodup hqueue
  | case3 visited admitted name rest hnew visit =>
    rename_i ih
    have hn : name ∉ earlier := fun hin => hnew (List.contains_iff_mem.mpr ((hvisited name).mpr hin))
    have hne : name ≠ root := fun heq => hn (heq ▸ hroot)
    rw [List.filter_cons_of_pos (by simpa using hne)] at hqueue
    have hnodup' : (earlier ++ [name]).Nodup :=
      List.nodup_append.mpr ⟨hnodup, List.nodup_singleton name, fun a ha b hb heq =>
        hn (List.mem_singleton.mp hb ▸ heq ▸ ha)⟩
    have hvisited' : ∀ other, other ∈ name :: visited ↔ other ∈ earlier ++ [name] := fun other => by
      rw [List.mem_cons, hvisited, List.mem_append, List.mem_singleton, or_comm]
    have hqueue' : (earlier ++ [name]) ++ (rest ++ Text.sortNames (host.inheriters name)).filter (· ≠ root) =
        root :: (earlier ++ [name]).flatMap (children host root) := by
      rw [List.flatMap_append, List.flatMap_singleton, ← List.cons_append, ← hqueue, List.filter_append, List.append_assoc,
        List.append_assoc]
      rfl
    have hstep := ih hvisited' (List.mem_append_left _ hroot) hnodup' hqueue'
    rwa [List.append_assoc, List.singleton_append] at hstep

/-- The visited names are the root and their children, in this order. -/
theorem visits_closed : (visits host root).map Visit.name =
    root :: ((visits host root).map Visit.name).flatMap (children host root) := by
  rw [visits, Traversal.visitFrom]
  simp only [List.contains_nil, Bool.false_eq_true, if_false, List.nil_append, List.map_cons]
  have hqueue : [root] ++ (Text.sortNames (host.inheriters root)).filter (· ≠ root) =
      root :: [root].flatMap (children host root) := by
    rw [List.flatMap_singleton, List.singleton_append]
    rfl
  exact visitFrom_closed hdistinct (fun _ => Iff.rfl) List.mem_cons_self (List.nodup_singleton root) hqueue

/-- From each visited name parents lead to the root. -/
theorem Traced.reaches {visited admitted : List String} {visits : List Visit} (h : Traced host root visited admitted visits)
    (hv : ∀ name ∈ visited, Relation.ReflTransGen host.ParentLink name root) :
    ∀ visit ∈ visits, Relation.ReflTransGen host.ParentLink visit.name root := by
  induction h with
  | nil => exact fun _ hm => nomatch hm
  | @cons visited admitted visit rest hnew hfrom hverdict hrest ih =>
    have hself : Relation.ReflTransGen host.ParentLink visit.name root := by
      rcases hfrom with heq | ⟨p, hp, hin⟩
      · rw [heq]
      · exact .head ((Host.mem_inheriters hdistinct).mp hin) (hv p hp)
    intro other ho
    rcases List.mem_cons.mp ho with rfl | ho
    · exact hself
    · refine ih (fun name hname => ?_) other ho
      rcases List.mem_cons.mp hname with rfl | hname
      · exact hself
      · exact hv name hname

omit hdistinct in
/-- The generations up to a depth are the root and the children of those before. -/
theorem flatMap_generation_succ (depth : Nat) : (List.range (depth + 1)).flatMap (generation host root) =
    root :: ((List.range depth).flatMap (generation host root)).flatMap (children host root) := by
  rw [List.range_succ_eq_map, List.flatMap_cons, List.flatMap_map, List.flatMap_assoc]
  rfl

/-- The visits begin with the generations before a depth, and what is left is no less deep. -/
theorem visits_generations (depth : Nat) : ∃ rest : List String,
    (visits host root).map Visit.name = (List.range depth).flatMap (generation host root) ++ rest ∧
      ∀ name ∈ rest, ∀ other, AtDepth host root other name → depth ≤ other := by
  induction depth with
  | zero => exact ⟨_, rfl, fun _ _ _ _ => Nat.zero_le _⟩
  | succ depth ih =>
    -- the visits are the root and their own children: one more generation, and the children of the rest
    obtain ⟨rest, hsplit, hdeep⟩ := ih
    refine ⟨rest.flatMap (children host root), ?_, fun name hname other hother => ?_⟩
    · rw [flatMap_generation_succ, List.cons_append, ← List.flatMap_append, ← hsplit]
      exact visits_closed hdistinct
    · obtain ⟨parent, hparent, hchild⟩ := List.mem_flatMap.mp hname
      obtain ⟨hlink, hne⟩ := (mem_children hdistinct).mp hchild
      have habove := (hother.resolve_left fun h => hne h.2).2
      cases habove with
      | parent hlink' _ =>
        obtain rfl := Option.some.inj (hlink.symm.trans hlink')
        exact Nat.succ_le_succ (hdeep _ hparent 0 (Or.inl ⟨rfl, rfl⟩))
      | skip hlink' hnot hrest =>
        obtain rfl := Option.some.inj (hlink.symm.trans hlink')
        exact Nat.succ_le_succ (hdeep _ hparent _ (Or.inr ⟨hnot, hrest⟩))

/-- A traversal visits one generation after the other. -/
theorem visits_eq_generations : (visits host root).map Visit.name =
    (List.range (host.classes.length + 1)).flatMap (generation host root) := by
  obtain ⟨rest, hsplit, hdeep⟩ := visits_generations hdistinct (host.classes.length + 1)
  cases rest with
  | nil => rwa [List.append_nil] at hsplit
  | cons name rest =>
    have hname : name ∈ (visits host root).map Visit.name :=
      hsplit ▸ List.mem_append_right _ List.mem_cons_self
    obtain ⟨visit, hvisit, rfl⟩ := List.mem_map.mp hname
    obtain ⟨depth, hdepth⟩ := exists_atDepth_iff.mpr
      ((visits_traced host root).reaches hdistinct (fun _ h => nomatch h) visit hvisit)
    have hle : host.classes.length + 1 ≤ depth := hdeep _ List.mem_cons_self depth hdepth
    rcases hdepth with ⟨rfl, _⟩ | ⟨_, habove⟩
    · nomatch hle
    · have := habove.le_length
      omega

/-- A traversal visits the names from which parents lead to the root. -/
theorem mem_visits_iff {name : String} :
    name ∈ (visits host root).map Visit.name ↔ Relation.ReflTransGen host.ParentLink name root := by
  constructor
  · intro h
    obtain ⟨visit, hvisit, rfl⟩ := List.mem_map.mp h
    exact (visits_traced host root).reaches hdistinct (fun _ h => nomatch h) visit hvisit
  · intro h
    induction h using Relation.ReflTransGen.head_induction_on with
    | refl =>
      rw [visits_closed hdistinct]
      exact List.mem_cons_self
    | @head name parent hlink _ ih =>
      rw [visits_closed hdistinct]
      by_cases hn : name = root
      · rw [hn]
        exact List.mem_cons_self
      · exact List.mem_cons_of_mem _ (List.mem_flatMap.mpr ⟨parent, ih, (mem_children hdistinct).mpr ⟨hlink, hn⟩⟩)

theorem nodup_generation (depth : Nat) : (generation host root depth).Nodup := by
  induction depth with
  | zero => exact List.nodup_singleton root
  | succ depth ih => exact nodup_flatMap_children hdistinct ih

/-- The children of a class ascend within their generation. -/
theorem siblings_generation (depth : Nat) : (generation host root depth).Pairwise (SiblingsAscend host root) := by
  cases depth with
  | zero => exact List.pairwise_singleton _ _
  | succ depth =>
    rw [generation, List.pairwise_flatMap]
    refine ⟨fun parent _ => ?_, (nodup_generation hdistinct depth).imp fun {p q} hne a ha b hb r _ hra hrb => ?_⟩
    · have hascending := Text.ascending_sortNames (Host.nodup_inheriters hdistinct parent)
      exact (hascending.sublist List.filter_sublist).imp fun hlt _ _ _ _ => hlt
    · have hp := ((mem_children hdistinct).mp ha).1
      have hq := ((mem_children hdistinct).mp hb).1
      exact absurd ((Option.some.inj (hp.symm.trans hra)).trans (Option.some.inj (hrb.symm.trans hq))) hne

/-- Visits are made breadth first. -/
theorem breadthFirst_visits : ((visits host root).map Visit.name).Pairwise (BreadthFirst host root) := by
  rw [visits_eq_generations hdistinct, List.pairwise_flatMap]
  constructor
  · intro depth _
    refine (siblings_generation hdistinct depth).imp_of_mem fun {a b} ha hb hsiblings => ⟨fun m n hm hn => ?_, hsiblings⟩
    rw [hm.unique ((mem_generation hdistinct).mp ha), hn.unique ((mem_generation hdistinct).mp hb)]
  · refine List.pairwise_lt_range.imp fun {k l} hlt a ha b hb => ⟨fun m n hm hn => ?_, fun p hne hpa hpb => ?_⟩
    · rw [hm.unique ((mem_generation hdistinct).mp ha), hn.unique ((mem_generation hdistinct).mp hb)]
      exact hlt.le
    · have hb' := (mem_generation hdistinct).mp hb
      have hroot : b ≠ root := fun heq => by
        have := hb'.unique (Or.inl ⟨rfl, heq⟩)
        omega
      have := (((mem_generation hdistinct).mp ha).of_sibling hne hroot hpa hpb).unique hb'
      omega

end Distinct

end JuliaStubs.Catalog
