import JuliaStubs.Proofs.Catalog.Generations
import JuliaStubs.Proofs.Catalog.Tree

/-!
# Places in the class tree

Which class of a dump finds which place, where no name of the dump repeats (`placement_exact`). A class is placed under the nearest of
the ancestors admitted so far, in the middle of the traversal. That this is the nearest of all that may be admitted rests on what the
traversal has decided by then (`Decided`): every name on the way from a visited name to the root.
-/

namespace JuliaStubs.Catalog

open Dump Report Relation

/-! ## Verdicts below an admitted root -/

/-- The place of a class that may be admitted: the root has no parent, another class its nearest ancestor that may be admitted. -/
def PlacedUnder (host : Host) (root name : String) (parent : Option String) : Prop :=
  name = root ∧ parent = none ∨ name ≠ root ∧ ∃ n p, parent = some p ∧ NearestAbove host (Admissible host) n name p

/-- What is known when some names were visited: those that may be admitted are, and the way from each to the root was visited. -/
structure Decided (host : Host) (root : String) (visited admitted : List String) : Prop where
  admitted_iff : ∀ name, name ∈ admitted ↔ name ∈ visited ∧ Admissible host name
  parent_mem : ∀ name ∈ visited, name ≠ root → ∃ p ∈ visited, host.ParentLink name p
  reaches : ∀ name ∈ visited, ReflTransGen host.ParentLink name root

namespace Decided

variable {host : Host} {root name : String} {visited admitted : List String}

theorem nil : Decided host root [] [] where
  admitted_iff _ := ⟨fun h => (nomatch h), fun h => (nomatch h.1)⟩
  parent_mem _ h := nomatch h
  reaches _ h := nomatch h

/-- Below visited names the nearest admitted ancestor is the nearest of all that may be admitted. -/
theorem exists_nearest (h : Decided host root visited admitted) (hroot : Admissible host root) {n : Nat} {top : String}
    (habove : NearestAbove host (· = root) n name top) (hparent : ∀ p, host.ParentLink name p → p ∈ visited) :
    ∃ m p, NearestAbove host (Admissible host) m name p ∧ NearestAbove host (· ∈ admitted) m name p := by
  -- along the way up to the root: every name on it was visited, so there admitted and admissible are the same
  induction habove with
  | @parent name p hlink hp =>
    obtain rfl : p = root := hp
    exact ⟨1, p, .parent hlink hroot, .parent hlink ((h.admitted_iff p).mpr ⟨hparent p hlink, hroot⟩)⟩
  | @skip n name q p hlink hq hrest ih =>
    have hvisited : q ∈ visited := hparent q hlink
    by_cases hadmissible : Admissible host q
    · exact ⟨1, q, .parent hlink hadmissible, .parent hlink ((h.admitted_iff q).mpr ⟨hvisited, hadmissible⟩)⟩
    · obtain ⟨r, hr, hlink'⟩ := h.parent_mem q hvisited hq
      obtain ⟨m, p, hall, hadmitted⟩ := ih (fun s hs => Option.some.inj (hlink'.symm.trans hs) ▸ hr)
      have hnot : q ∉ admitted := fun hin => hadmissible ((h.admitted_iff q).mp hin).2
      exact ⟨m + 1, p, .skip hlink hadmissible hall, .skip hlink hnot hadmitted⟩

/-- The next name to visit is the root or has a visited parent, and is judged by its place. -/
theorem verdict_eq (h : Decided host root visited admitted) (hroot : Admissible host root)
    (hfrom : name = root ∨ ∃ p ∈ visited, host.ParentLink name p) (hname : Admissible host name) :
    ∃ parent, Traversal.verdict host root admitted name = .admitted parent ∧ PlacedUnder host root name parent := by
  rw [Traversal.verdict_of_admissible hname]
  split
  · rename_i hn
    exact ⟨none, rfl, Or.inl ⟨hn, rfl⟩⟩
  · rename_i hn
    obtain ⟨p, hp, hlink⟩ := hfrom.resolve_left hn
    obtain ⟨n, habove⟩ := (Host.reaches_iff.mp (.head hlink (h.reaches p hp))).resolve_left hn
    obtain ⟨m, q, hall, hadmitted⟩ :=
      h.exists_nearest hroot habove fun r hr => Option.some.inj (hlink.symm.trans hr) ▸ hp
    rw [Traversal.nearestAdmitted?_iff.mpr ⟨m, hadmitted⟩]
    exact ⟨some q, rfl, Or.inr ⟨hn, m, q, rfl, hall⟩⟩

/-- A visit decides on one more name. -/
theorem step (h : Decided host root visited admitted) (hroot : Admissible host root) {visit : Visit}
    (hfrom : visit.name = root ∨ ∃ p ∈ visited, host.ParentLink visit.name p)
    (hverdict : visit.verdict = Traversal.verdict host root admitted visit.name) :
    Decided host root (visit.name :: visited) (Traversal.admittedAfter admitted visit) where
  admitted_iff name := by
    have hvisit : (∃ parent, visit.verdict = .admitted parent) ↔ Admissible host visit.name := by
      rw [hverdict]
      constructor
      · rintro ⟨parent, hp⟩
        exact Traversal.admissible_of_verdict hp
      · intro hadmissible
        obtain ⟨parent, hp, _⟩ := h.verdict_eq hroot hfrom hadmissible
        exact ⟨parent, hp⟩
    rw [Traversal.mem_admittedAfter, hvisit, h.admitted_iff, List.mem_cons]
    constructor
    · rintro (⟨hin, hadmissible⟩ | ⟨rfl, hadmissible⟩)
      · exact ⟨Or.inr hin, hadmissible⟩
      · exact ⟨Or.inl rfl, hadmissible⟩
    · rintro ⟨rfl | hin, hadmissible⟩
      · exact Or.inr ⟨rfl, hadmissible⟩
      · exact Or.inl ⟨hin, hadmissible⟩
  parent_mem name hin hne := by
    rcases List.mem_cons.mp hin with rfl | hin
    · obtain ⟨p, hp, hlink⟩ := hfrom.resolve_left hne
      exact ⟨p, List.mem_cons_of_mem _ hp, hlink⟩
    · obtain ⟨p, hp, hlink⟩ := h.parent_mem name hin hne
      exact ⟨p, List.mem_cons_of_mem _ hp, hlink⟩
  reaches name hin := by
    rcases List.mem_cons.mp hin with rfl | hin
    · rcases hfrom with heq | ⟨p, hp, hlink⟩
      · rw [heq]
      · exact .head hlink (h.reaches p hp)
    · exact h.reaches name hin

end Decided

section Distinct

variable {host : Host} (hdistinct : (host.classes.map ClassInfo.name).Nodup) {root : String}

include hdistinct

/-- Below a root that may be admitted, all that may be admitted are, each at its place. -/
theorem Traced.verdict_eq {visited admitted : List String} {visits : List Visit} (h : Traced host root visited admitted visits)
    (hroot : Admissible host root) (hdecided : Decided host root visited admitted) :
    ∀ visit ∈ visits, Admissible host visit.name →
      ∃ parent, visit.verdict = .admitted parent ∧ PlacedUnder host root visit.name parent := by
  induction h with
  | nil => exact fun _ hm => nomatch hm
  | @cons visited admitted visit rest _ hfrom hverdict _ ih =>
    have hlinked : visit.name = root ∨ ∃ p ∈ visited, host.ParentLink visit.name p :=
      hfrom.imp id fun ⟨p, hp, hin⟩ => ⟨p, hp, (Host.mem_inheriters hdistinct).mp hin⟩
    intro other ho hadmissible
    rcases List.mem_cons.mp ho with rfl | ho
    · rw [hverdict]
      exact hdecided.verdict_eq hroot hlinked hadmissible
    · exact ih (hdecided.step hroot hlinked hverdict) other ho hadmissible

end Distinct

/-! ## Verdicts below another root -/

/-- Below a root that may not be admitted, all that may be admitted are orphans. -/
theorem Traced.orphaned {host : Host} {root : String} {visited : List String} {visits : List Visit}
    (h : Traced host root visited [] visits) (hroot : ¬Admissible host root) :
    ∀ visit ∈ visits, (∀ parent, visit.verdict ≠ .admitted parent) ∧
      (Admissible host visit.name → visit.verdict = .orphan ((host.parent? visit.name).getD "")) := by
  generalize hnone : ([] : List String) = admitted at h
  induction h with
  | nil => exact fun _ hm => nomatch hm
  | @cons visited admitted visit rest _ _ hverdict _ ih =>
    subst hnone
    have horphan : Admissible host visit.name → visit.verdict = .orphan ((host.parent? visit.name).getD "") := by
      intro hadmissible
      have hne : visit.name ≠ root := fun heq => hroot (heq ▸ hadmissible)
      have hnearest : Traversal.nearestAdmitted? host [] visit.name = none := by
        refine Option.eq_none_iff_forall_ne_some.mpr fun p hp => ?_
        obtain ⟨_, habove⟩ := Traversal.nearestAdmitted?_iff.mp hp
        nomatch habove.wanted_of
      rw [hverdict, Traversal.verdict_of_admissible hadmissible, if_neg hne, hnearest]
    have hnot : ∀ parent, visit.verdict ≠ .admitted parent := by
      intro parent hp
      rw [horphan (Traversal.admissible_of_verdict (hverdict ▸ hp))] at hp
      nomatch hp
    have hafter : [] = Traversal.admittedAfter [] visit := by
      rw [Traversal.admittedAfter]
      split
      · rename_i parent hp
        exact absurd hp (hnot parent)
      · rfl
    intro other ho
    rcases List.mem_cons.mp ho with rfl | ho
    · exact ⟨hnot, horphan⟩
    · exact ih hafter other ho

/-! ## The tree of a dump -/

/-- Where the names that are admitted are known, so are the names of the classes that visits add. -/
theorem names_filterMap_admittedClass? {settings : Settings} {host : Host} {docs : Docs} {visits : List Visit}
    (h : ∀ visit ∈ visits, (∃ parent, visit.verdict = .admitted parent) ↔ Admissible host visit.name) :
    (visits.filterMap (admittedClass? settings host docs)).map ClassDecl.name =
      (visits.map Visit.name).filter (Admissible host) := by
  induction visits with
  | nil => rfl
  | cons visit rest ih =>
    have hrest := ih fun other ho => h other (List.mem_cons_of_mem _ ho)
    have hvisit := h visit List.mem_cons_self
    rw [List.map_cons, List.filter_cons, List.filterMap_cons, admittedClass?]
    by_cases hadmissible : Admissible host visit.name
    · obtain ⟨parent, hp⟩ := hvisit.mpr hadmissible
      rw [hp, if_pos (decide_eq_true hadmissible), ← hrest]
      rfl
    · rw [if_neg (by simpa using hadmissible), ← hrest]
      cases hv : visit.verdict with
      | admitted parent => exact absurd (hvisit.mp ⟨parent, hv⟩) hadmissible
      | _ => rfl

/-- The tree of a dump in which no name repeats. From a root that may be admitted the registered classes are those that may be admitted
and from which parents lead to the root, each once and each at its place, breadth first and the children of one class in name order,
where classes that may not be admitted count as well; none of them is reported for want of a parent. From another root none is
registered, and those that could have been below it are reported. -/
theorem placement_exact (settings : Settings) (host : Host) (docs : Docs)
    (hdistinct : (host.classes.map ClassInfo.name).Nodup) :
    let root := settings.rootClass
    let outcome := ofDump settings host docs
    let r := outcome.result.registry
    (Admissible host root →
        (∀ name, name ∈ r.classNames ↔ Admissible host name ∧ ReflTransGen host.ParentLink name root) ∧
        r.classNames.Nodup ∧
        (∀ cls ∈ r.classes, PlacedUnder host root cls.name cls.parent) ∧
        r.classNames = ((List.range (host.classes.length + 1)).flatMap (generation host root)).filter (Admissible host) ∧
        (∀ depth name, name ∈ generation host root depth ↔ AtDepth host root depth name) ∧
        r.classNames.Pairwise (BreadthFirst host root) ∧
        ∀ name parent, Event.dropped (.unknownParent name parent) ∉ outcome.log) ∧
      (¬Admissible host root →
        r.classes = [] ∧
        ∀ name, Admissible host name → ReflTransGen host.ParentLink name root →
          ∃ parent, host.ParentLink name parent ∧ Event.dropped (.unknownParent name parent) ∈ outcome.log) := by
  intro root outcome r
  have htraced := visits_traced host root
  constructor
  · intro hroot
    have hplaced := htraced.verdict_eq hdistinct hroot .nil
    have hnames : r.classNames = ((visits host root).map Visit.name).filter (Admissible host) := by
      refine classNames_ofDump.trans (names_filterMap_admittedClass? fun visit hvisit => ⟨fun h => ?_, fun h => ?_⟩)
      · obtain ⟨parent, hp⟩ := h
        exact (htraced.admissible_iff visit hvisit).mpr fun _ he => nomatch hp.symm.trans he
      · obtain ⟨parent, hp, _⟩ := hplaced visit hvisit h
        exact ⟨parent, hp⟩
    refine ⟨fun name => ?_, ?_, fun cls hcls => ?_, ?_, fun _ _ => mem_generation hdistinct, ?_, fun name parent hm => ?_⟩
    · rw [hnames, List.mem_filter, mem_visits_iff hdistinct, decide_eq_true_eq, and_comm]
    · rw [hnames]
      exact htraced.nodup.1.filter _
    · have hcls : cls ∈ populated settings host docs := classes_ofDump ▸ hcls
      obtain ⟨visit, hvisit, hname, hverdict⟩ := exists_visit_of_populated hcls
      have hadmissible := (htraced.admissible_iff visit hvisit).mpr fun _ he => nomatch hverdict.symm.trans he
      obtain ⟨parent, hp, hplace⟩ := hplaced visit hvisit hadmissible
      obtain rfl := Verdict.admitted.inj (hverdict.symm.trans hp)
      exact hname ▸ hplace
    · rw [hnames, visits_eq_generations hdistinct]
    · rw [hnames]
      exact (breadthFirst_visits hdistinct).filter _
    · obtain ⟨visit, hvisit, _, hverdict, _⟩ := (mem_log_ofDump_iff rfl).mp hm
      have hadmissible := (htraced.admissible_iff visit hvisit).mpr fun _ he => nomatch hverdict.symm.trans he
      obtain ⟨_, hp, _⟩ := hplaced visit hvisit hadmissible
      nomatch hverdict.symm.trans hp
  · intro hroot
    have horphaned := htraced.orphaned hroot
    constructor
    · rw [classes_ofDump]
      refine List.eq_nil_iff_forall_not_mem.mpr fun cls hcls => ?_
      obtain ⟨visit, hvisit, _, hverdict⟩ := exists_visit_of_populated hcls
      exact (horphaned visit hvisit).1 _ hverdict
    · intro name hname hreaches
      obtain ⟨visit, hvisit, rfl⟩ := List.mem_map.mp ((mem_visits_iff hdistinct).mpr hreaches)
      have hne : visit.name ≠ root := fun heq => hroot (heq ▸ hname)
      obtain ⟨parent, hlink, _⟩ := hreaches.cases_head.resolve_left hne
      refine ⟨parent, hlink, (mem_log_ofDump_iff rfl).mpr ⟨visit, hvisit, parent, ?_, rfl⟩⟩
      rw [(horphaned visit hvisit).2 hname, show host.parent? visit.name = some parent from hlink]
      rfl

/-- A class without members. -/
def bareClass (name : String) (parent : Option String) (isExposed : Bool) : ClassInfo :=
  ⟨name, parent, .core, isExposed, true, false, true, [], [], [], []⟩

/-- A dump in which the root and one more class name parents that are not listed, and a class that is not exposed stands between two
others. -/
def concealed : Host :=
  ⟨[bareClass "Timer" (some "Hidden") true, bareClass "Object" (some "Above") true, bareClass "Hidden" (some "Object") false,
    bareClass "Lost" (some "Below") true, bareClass "Node" (some "Object") true], []⟩

theorem placement_exact_concealed : (concealed.classes.map ClassInfo.name).Nodup ∧ Admissible concealed "Object" ∧
    (ofDump .standard concealed .empty).result.registry.classNames = ["Object", "Node", "Timer"] := by
  have hdistinct : (concealed.classes.map ClassInfo.name).Nodup := by decide
  have hroot : Admissible concealed "Object" := by decide
  obtain ⟨_, _, _, hnames, _⟩ := (placement_exact .standard concealed .empty hdistinct).1 hroot
  have hobject : children concealed "Object" "Object" = ["Hidden", "Node"] := by
    rw [children, Text.sortNames, List.mergeSort_of_pairwise (by decide)]
    decide
  have hzero : generation concealed "Object" 0 = ["Object"] := rfl
  have hfirst : generation concealed "Object" 1 = ["Hidden", "Node"] := by
    rw [generation, hzero, List.flatMap_singleton, hobject]
  have hsecond : generation concealed "Object" 2 = ["Timer"] := by
    rw [generation, hfirst]
    decide +kernel
  have hlater : ∀ depth, generation concealed "Object" (depth + 3) = [] := by
    intro depth
    induction depth with
    | zero =>
      rw [generation, hsecond]
      decide +kernel
    | succ depth ih => rw [generation, ih, List.flatMap_nil]
  refine ⟨hdistinct, hroot, hnames.trans ?_⟩
  change List.filter _ ([0, 1, 2, 3, 4, 5].flatMap (generation concealed "Object")) = _
  simp only [List.flatMap_cons, List.flatMap_nil, hzero, hfirst, hsecond, hlater]
  decide

end JuliaStubs.Catalog
