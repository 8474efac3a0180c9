import JuliaStubs.Proofs.LoadOrder.Order

/-!
# Arrangements of a list

What the order of the given classes decides. A list in which every kept dependency stands first is returned as it is
(`order_of_kept_first`), so every arrangement that respects the kept dependencies is the order of some arrangement. A parent or an
argument type therefore comes first in all of them exactly when it does not lead back, or is an ancestor (`always_precedes_iff`).
And ordering what is in order changes nothing (`order_idempotent`): what survives the breaking of cycles is told by the dependencies
alone (`survives_iff_keeps`), so it is the same for the list that was ordered.
-/

namespace JuliaStubs.LoadOrder

open Catalog Relation

/-! ## Scans without a move -/

theorem placeOf_initial {n x : Nat} (hx : x < n) : (Arrangement.initial n).placeOf x = x := by
  simp [Arrangement.placeOf, Arrangement.initial, hx]

/-- Items that all stand after what they depend on stay where they are. -/
theorem relocateFrom_of_sorted {n : Nat} {next : Nat → List Nat} (hlt : ∀ x < n, ∀ d ∈ next x, d < x) (fuel i : Nat) :
    Arrangement.relocateFrom next fuel i (.initial n) = .initial n := by
  induction fuel generalizing i with
  | zero => rfl
  | succ fuel ih =>
    rw [Arrangement.relocateFrom]
    split
    · rfl
    · rename_i item hitem
      have hi : i < n ∧ i = item := by
        simpa [Arrangement.initial, List.getElem?_eq_some_iff] using hitem
      split
      · rename_i target hfar
        rw [Arrangement.furthest?] at hfar
        obtain ⟨d, hd, rfl⟩ := List.mem_map.mp (List.max?_mem hfar)
        have hdi : d < i := hi.2 ▸ hlt item (hi.2 ▸ hi.1) d hd
        rw [placeOf_initial (hdi.trans hi.1), if_neg (Nat.lt_asymm hdi)]
        exact ih _
      · exact ih _

theorem relocate_of_sorted {n : Nat} {next : Nat → List Nat} (hlt : ∀ x < n, ∀ d ∈ next x, d < x) :
    relocate n next = List.range n := by
  rw [relocate, relocateFrom_of_sorted hlt]
  rfl

/-! ## Sequences -/

/-- A sequence that respects some steps and has an item before another one, unless the steps lead from the first to the second: the
items that the first leads to go to the front. -/
theorem exists_before {α : Type} [DecidableEq α] {sequence : List α} {step : α → α → Prop}
    (hstep : ∀ x y, step x y → Precedes sequence y x) {a b : α} (ha : a ∈ sequence) (hb : b ∈ sequence)
    (hnot : ¬ReflTransGen step a b) :
    ∃ others : List α, others.Perm sequence ∧ (∀ x y, step x y → Precedes others y x) ∧ Precedes others a b := by
  classical
  let front := sequence.filter fun x => decide (ReflTransGen step a x)
  let back := sequence.filter fun x => !decide (ReflTransGen step a x)
  have hfront : ∀ x ∈ sequence, ReflTransGen step a x → x ∈ front := fun x hx h =>
    List.mem_filter.mpr ⟨hx, decide_eq_true h⟩
  have hback : ∀ x ∈ sequence, ¬ReflTransGen step a x → x ∈ back := fun x hx h =>
    List.mem_filter.mpr ⟨hx, by rw [decide_eq_false h]; rfl⟩
  refine ⟨front ++ back, List.filter_append_perm _ sequence, fun x y hxy => ?_, ?_⟩
  · have hp := hstep x y hxy
    by_cases hx : ReflTransGen step a x
    · have hpf : Precedes front y x := hp.filter (decide_eq_true (hx.tail hxy)) (decide_eq_true hx)
      exact List.Sublist.trans hpf (List.sublist_append_left front back)
    · by_cases hy : ReflTransGen step a y
      · exact precedes_iff.mpr ⟨front, back, rfl, hfront y hp.mem.1 hy, hback x hp.mem.2 hx⟩
      · have hpb : Precedes back y x := hp.filter (by rw [decide_eq_false hy]; rfl) (by rw [decide_eq_false hx]; rfl)
        exact List.Sublist.trans hpb (List.sublist_append_right front back)
  · exact precedes_iff.mpr ⟨front, back, rfl, hfront a ha .refl, hback b hb hnot⟩

/-! ## Kept dependencies -/

/-- A dependency that breaking cycles keeps, in terms of the dependencies alone. -/
def Keeps (r : Registry) (classes : List ClassDecl) (a b : String) : Prop :=
  ∃ cls ∈ classes, cls.name = a ∧ b ∈ classes.map ClassDecl.name ∧ ∃ strength, DependsAs r cls b strength ∧
    ¬(strength = .result ∧ Interdepends r classes (fun _ => True) a b) ∧
    ¬(strength = .argument ∧ Interdepends r classes (· ≠ .result) a b)

section Arrangements

variable {r : Registry} {classes : List ClassDecl}

theorem Keeps.depends {a b : String} (h : Keeps r classes a b) : Depends r classes (fun _ => True) a b := by
  obtain ⟨cls, hc, hn, hb, strength, hd, _⟩ := h
  exact ⟨cls, hc, hn, hb, strength, trivial, hd⟩

/-- The edges that are left are the kept dependencies. -/
theorem keeps_of_adj_rest (h : Listing r classes) {i j : Nat} (hij : (graph r classes).breakCycles.rest.Adj i j) :
    ∃ a b, (classes.map ClassDecl.name)[i]? = some a ∧ (classes.map ClassDecl.name)[j]? = some b ∧ Keeps r classes a b := by
  obtain ⟨edge, he, rfl, rfl⟩ := hij
  obtain ⟨hmem, hresult, hargument⟩ := (Digraph.mem_rest (graph_wellFormed h) edge).mp he
  obtain ⟨cls, name, hi, hj, hd⟩ := (mem_graph_edges h edge).mp hmem
  have hi' : (classes.map ClassDecl.name)[edge.source]? = some cls.name := by rw [List.getElem?_map, hi, Option.map_some]
  rw [mutual_graph_iff h hi' hj] at hresult
  rw [mutual_firm_iff h hi' hj] at hargument
  exact ⟨cls.name, name, hi', hj, cls, List.mem_of_getElem? hi, rfl, List.mem_of_getElem? hj, edge.strength, hd, hresult,
    hargument⟩

/-- The order puts every kept dependency first. -/
theorem Keeps.precedes (h : Listing r classes) {a b : String} (hab : Keeps r classes a b) :
    Precedes (order r classes).names b a := by
  obtain ⟨cls, hc, rfl, hb, strength, hd, hresult, hargument⟩ := hab
  rcases precedes_or_given_up h hc hb hd with hp | hgiven | hgiven
  · exact hp
  · exact absurd hgiven hresult
  · exact absurd hgiven hargument

/-- A list that already puts every kept dependency first is its own order. -/
theorem order_of_kept_first (h : Listing r classes)
    (hfirst : ∀ a b, Keeps r classes a b → Precedes (classes.map ClassDecl.name) b a) :
    (order r classes).names = classes.map ClassDecl.name := by
  have hg := graph_wellFormed h
  have hlt : ∀ x < (graph r classes).size, ∀ d ∈ (graph r classes).breakCycles.rest.table[x]?.getD [], d < x := by
    intro x _ d hd
    obtain ⟨a, b, hi, hj, hab⟩ := keeps_of_adj_rest h (Digraph.mem_table hg.rest |>.mp hd)
    have hidx := (hfirst a b hab).idxOf_lt h.nodup
    obtain ⟨hx, rfl⟩ := List.getElem?_eq_some_iff.mp hi
    obtain ⟨hd, rfl⟩ := List.getElem?_eq_some_iff.mp hj
    rwa [h.nodup.idxOf_getElem, h.nodup.idxOf_getElem] at hidx
  rw [names_order, Digraph.sequence, relocate_of_sorted hlt, map_nameAt_range]

theorem keeps_congr {others : List ClassDecl} (hp : others.Perm classes) : Keeps r others = Keeps r classes := by
  funext a b
  simp only [Keeps, (hp.map ClassDecl.name).mem_iff, hp.mem_iff, interdepends_congr hp]

/-- Names that respect the kept dependencies are the order of some arrangement of the classes. -/
theorem exists_arrangement (h : Listing r classes) {names : List String} (hnames : names.Perm (classes.map ClassDecl.name))
    (hfirst : ∀ a b, Keeps r classes a b → Precedes names b a) :
    ∃ others : List ClassDecl, others.Perm classes ∧ (order r others).names = names := by
  have hmap := List.eq_map_comp_perm ClassDecl.name
  obtain ⟨others, rfl, hp⟩ := (congrFun (congrFun hmap names) classes).mpr hnames
  refine ⟨others, hp, order_of_kept_first (h.of_perm hp) fun a b hab => hfirst a b ?_⟩
  rwa [keeps_congr hp] at hab

/-- Inside a cycle of parents and argument types nothing but parents is kept. -/
theorem parents_of_kept {a b : String} (hab : TransGen (Keeps r classes) a b)
    (hba : ReflTransGen (Depends r classes (· ≠ .result)) b a) : TransGen (Depends r classes (· = .parent)) a b := by
  have hkeeps : ∀ x y, Keeps r classes x y → Depends r classes (fun _ => True) x y := fun _ _ hxy => hxy.depends
  have hfirm : ∀ x y, Depends r classes (· ≠ .result) x y → Depends r classes (fun _ => True) x y :=
    fun _ _ ⟨cls, hc, hn, hm, strength, _, hd⟩ => ⟨cls, hc, hn, hm, strength, trivial, hd⟩
  -- no step is by a result type: such a step would be inside a cycle
  have hway : TransGen (fun x y => Keeps r classes x y ∧ Depends r classes (· ≠ .result) x y) a b := by
    refine TransGen.mono ?_ _ _ (transGen_between hab)
    rintro x y ⟨hxy, hax, hyb⟩
    refine ⟨hxy, ?_⟩
    have hyx : ReflTransGen (Depends r classes (fun _ => True)) y x :=
      ((ReflTransGen.mono hkeeps _ _ hyb).trans (ReflTransGen.mono hfirm _ _ hba)).trans (ReflTransGen.mono hkeeps _ _ hax)
    have hstep := hxy.depends
    obtain ⟨cls, hc, hn, hm, strength, hd, hresult, _⟩ := hxy
    exact ⟨cls, hc, hn, hm, strength, fun hs => hresult ⟨hs, .single hstep, hyx⟩, hd⟩
  -- so the way is one of parents and argument types, and inside a cycle of these
  refine TransGen.mono ?_ _ _ (transGen_between hway)
  rintro x y ⟨⟨hxy, hstep⟩, hax, hyb⟩
  have hright : ∀ x y, Keeps r classes x y ∧ Depends r classes (· ≠ .result) x y → Depends r classes (· ≠ .result) x y :=
    fun _ _ h => h.2
  have hcycle : Interdepends r classes (· ≠ .result) x y :=
    ⟨.single hstep, ((ReflTransGen.mono hright _ _ hyb).trans hba).trans (ReflTransGen.mono hright _ _ hax)⟩
  obtain ⟨cls, hc, hn, hm, strength, hd, hresult, hargument⟩ := hxy
  cases strength with
  | parent => exact ⟨cls, hc, hn, hm, .parent, rfl, hd⟩
  | argument => exact absurd ⟨rfl, hcycle⟩ hargument
  | result => exact absurd ⟨rfl, hcycle.mono⟩ hresult

/-- A parent or an argument type comes first in the order of every arrangement exactly when it does not lead back, or is an
ancestor. -/
theorem always_precedes_iff (h : Listing r classes) {a b : String} (hab : Depends r classes (· ≠ .result) a b) :
    (∀ others : List ClassDecl, others.Perm classes → Precedes (order r others).names b a) ↔
      ¬ReflTransGen (Depends r classes (· ≠ .result)) b a ∨ TransGen (Depends r classes (· = .parent)) a b := by
  constructor
  · intro halways
    by_contra hnot
    rw [not_or, not_not] at hnot
    obtain ⟨hback, hparents⟩ := hnot
    have hkept : ¬ReflTransGen (Keeps r classes) a b := by
      intro hway
      rcases reflTransGen_iff_eq_or_transGen.mp hway with heq | hway
      · obtain ⟨cls, _, rfl, _, _, _, hd⟩ := hab
        exact hd.1.ne heq
      · exact hparents (parents_of_kept hway hback)
    have hin := halways classes (.refl _)
    obtain ⟨names, hnames, hfirst, hbefore⟩ :=
      exists_before (fun x y hxy => hxy.precedes h) hin.mem.2 hin.mem.1 hkept
    obtain ⟨others, hp, rfl⟩ := exists_arrangement h (hnames.trans (order_perm h)) hfirst
    have hnd := nodup_order (h.of_perm hp)
    exact ((halways others hp).idxOf_lt hnd).asymm (hbefore.idxOf_lt hnd)
  · rintro (hback | hparents) others hp
    · rw [← depends_congr hp] at hab hback
      exact precedes_of_firm (h.of_perm hp) hab hback
    · refine Precedes.of_transGen (nodup_order (h.of_perm hp)) ?_ hparents
      rintro x y hxy
      rw [← depends_congr hp] at hxy
      obtain ⟨cls, hc, rfl, hy, _, rfl, hd⟩ := hxy
      exact (precedes_or_given_up (h.of_perm hp) hc hy hd).resolve_right (by simp)

/-! ## Ordering again -/

/-- A dependency between listed classes survives when the cycles are broken. -/
def Survives (r : Registry) (classes : List ClassDecl) (a b : String) : Prop :=
  ∃ edge ∈ (graph r classes).breakCycles.rest.edges, (classes.map ClassDecl.name)[edge.source]? = some a ∧
    (classes.map ClassDecl.name)[edge.target]? = some b

/-- The registered classes of some names, in the order of the names. -/
def classesNamed (r : Registry) (names : List String) : List ClassDecl := names.filterMap r.class?

/-- What survives is what the dependencies alone say is kept. -/
theorem survives_iff_keeps (h : Listing r classes) {a b : String} : Survives r classes a b ↔ Keeps r classes a b := by
  constructor
  · rintro ⟨edge, he, hs, ht⟩
    obtain ⟨a', b', hs', ht', hkeeps⟩ := keeps_of_adj_rest h ⟨edge, he, rfl, rfl⟩
    obtain rfl : a' = a := Option.some.inj (hs'.symm.trans hs)
    obtain rfl : b' = b := Option.some.inj (ht'.symm.trans ht)
    exact hkeeps
  · rintro ⟨cls, hc, rfl, hb, strength, hd, hresult, hargument⟩
    obtain ⟨i, hi⟩ := List.mem_iff_getElem?.mp hc
    obtain ⟨j, hj⟩ := List.mem_iff_getElem?.mp hb
    have hi' : (classes.map ClassDecl.name)[i]? = some cls.name := by rw [List.getElem?_map, hi, Option.map_some]
    refine ⟨⟨i, j, strength⟩, (Digraph.mem_rest (graph_wellFormed h) _).mpr ⟨?_, ?_, ?_⟩, hi', hj⟩
    · exact (mem_graph_edges h _).mpr ⟨cls, b, hi, hj, hd⟩
    · rwa [mutual_graph_iff h hi' hj]
    · rwa [mutual_firm_iff h hi' hj]

/-- What survives is a matter of which classes are listed, not of their places. -/
theorem survives_congr (h : Listing r classes) {others : List ClassDecl} (hp : others.Perm classes) {a b : String} :
    Survives r others a b ↔ Survives r classes a b := by
  rw [survives_iff_keeps (h.of_perm hp), survives_iff_keeps h, keeps_congr hp]

/-- A list is its own order exactly when it puts first what survives. -/
theorem names_order_eq_iff (h : Listing r classes) :
    (order r classes).names = classes.map ClassDecl.name ↔
      ∀ a b, Survives r classes a b → Precedes (classes.map ClassDecl.name) b a := by
  constructor
  · intro heq a b hab
    rw [← heq]
    exact ((survives_iff_keeps h).mp hab).precedes h
  · intro hfirst
    exact order_of_kept_first h fun a b hab => hfirst a b ((survives_iff_keeps h).mpr hab)

theorem Listing.class?_of_mem (h : Listing r classes) {cls : ClassDecl} (hc : cls ∈ classes) :
    r.class? cls.name = some cls :=
  Registry.class?_of_mem h.parentsFirst (h.registered cls hc)

/-- The classes are found under their names. -/
theorem classesNamed_map_name (h : Listing r classes) : classesNamed r (classes.map ClassDecl.name) = classes := by
  rw [classesNamed, List.filterMap_map]
  exact (List.filterMap_congr fun cls hc => h.class?_of_mem hc).trans List.filterMap_some

/-- The classes of an arrangement of the names are an arrangement of the classes, and are called by these names. -/
theorem classesNamed_of_perm (h : Listing r classes) {names : List String} (hp : names.Perm (classes.map ClassDecl.name)) :
    (classesNamed r names).Perm classes ∧ (classesNamed r names).map ClassDecl.name = names := by
  have hmap := List.eq_map_comp_perm ClassDecl.name
  obtain ⟨others, rfl, hothers⟩ := (congrFun (congrFun hmap names) classes).mpr hp
  rw [classesNamed_map_name (h.of_perm hothers)]
  exact ⟨hothers, rfl⟩

end Arrangements

/-- Ordering is idempotent: the classes in the order that was found are their own order, with the same cycles. A list is its own order
exactly when it puts first every dependency that survives the breaking of cycles; which ones these are does not depend on the places
in the list. -/
theorem order_idempotent {r : Registry} (hr : r.Reachable) {classes : List ClassDecl} (hin : ∀ cls ∈ classes, cls ∈ r.classes)
    (hnd : classes.Nodup) :
    (classesNamed r (order r classes).names).Perm classes ∧
      (classesNamed r (order r classes).names).map ClassDecl.name = (order r classes).names ∧
      (order r (classesNamed r (order r classes).names)).names = (order r classes).names ∧
      (order r (classesNamed r (order r classes).names)).cycles.Perm (order r classes).cycles ∧
      ((order r classes).names = classes.map ClassDecl.name ↔
        ∀ a b, Survives r classes a b → Precedes (classes.map ClassDecl.name) b a) ∧
      ∀ others : List ClassDecl, others.Perm classes → ∀ a b, Survives r others a b ↔ Survives r classes a b := by
  have h := Listing.of_reachable hr hin hnd
  obtain ⟨hagain, hnames⟩ := classesNamed_of_perm h (order_perm h)
  refine ⟨hagain, hnames, ?_, cycles_perm h hagain, names_order_eq_iff h, fun others hp _ _ => survives_congr h hp⟩
  refine ((names_order_eq_iff (h.of_perm hagain)).mpr fun a b hab => ?_).trans hnames
  rw [hnames]
  rw [survives_congr h hagain, survives_iff_keeps h] at hab
  exact hab.precedes h

theorem order_idempotent_rivals : (order rivals rivals.classes.reverse).names = ["Object", "Alpha", "Beta"] ∧
    (order rivals (classesNamed rivals (order rivals rivals.classes.reverse).names)).names = ["Object", "Alpha", "Beta"] ∧
    (order rivals (classesNamed rivals (order rivals rivals.classes.reverse).names)).cycles.Perm
      (order rivals rivals.classes.reverse).cycles := by
  have hnames : (order rivals rivals.classes.reverse).names = ["Object", "Alpha", "Beta"] := by cbv
  have h := order_idempotent reachable_rivals (fun _ hc => List.mem_reverse.mp hc)
    (by decide : rivals.classes.reverse.Nodup)
  exact ⟨hnames, h.2.2.1.trans hnames, h.2.2.2.1⟩

end JuliaStubs.LoadOrder
