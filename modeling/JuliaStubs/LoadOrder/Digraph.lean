import JuliaStubs.LoadOrder.Dependency

/-!
# Dependency graphs

Graphs over the numbers below a size, with an edge from a dependent item to what it depends on. A cycle is a set of at least two items
that reach each other.
-/

namespace JuliaStubs.LoadOrder

/-- A dependency between two items. -/
structure Edge where
  source : Nat
  target : Nat
  strength : Strength
deriving DecidableEq

/-- A graph of dependencies. -/
structure Digraph where
  size : Nat
  edges : List Edge
deriving DecidableEq

/-- Marks the items that are pending and those that they lead to, as far as they are not marked yet. -/
def markReached (next : Nat → List Nat) (marks : Array Bool) (pending : List Nat) : Array Bool :=
  match pending with
  | [] => marks
  | item :: rest =>
    if h : marks[item]? = some false then
      markReached next (marks.set item true (Array.getElem?_eq_some_iff.mp h).1) (next item ++ rest)
    else markReached next marks rest
termination_by (marks.count false, pending.length)
decreasing_by
  · obtain ⟨hi, hv⟩ := Array.getElem?_eq_some_iff.mp h
    have hpos : 0 < marks.count false := Array.count_pos_iff.mpr (hv ▸ Array.getElem_mem hi)
    apply Prod.Lex.left
    rw [Array.count_set hi, hv]
    have hne : (true == false) = false := rfl
    simp only [BEq.rfl, if_true, hne, Bool.false_eq_true, if_false]
    omega
  · apply Prod.Lex.right
    simp only [List.length_cons]
    omega

/-- A step of a depth-first search: to come to an item, or to leave it for good. -/
inductive SearchStep where
  | arrive (item : Nat)
  | leave (item : Nat)

/-- The items in the order in which a depth-first search leaves them. -/
def leavingOrder (next : Nat → List Nat) : Nat → List SearchStep → List Nat → List Nat
  | 0, _, _ => []
  | _ + 1, [], _ => []
  | fuel + 1, .leave item :: pending, seen => item :: leavingOrder next fuel pending seen
  | fuel + 1, .arrive item :: pending, seen =>
    if item ∈ seen then leavingOrder next fuel pending seen
    else leavingOrder next fuel ((next item).map .arrive ++ .leave item :: pending) (item :: seen)

namespace Digraph

/-- The items that an item depends on. -/
def successors (g : Digraph) (item : Nat) : List Nat :=
  (g.edges.filter fun edge => edge.source == item).map Edge.target

/-- The dependencies of every item. -/
def table (g : Digraph) : Array (List Nat) := ((List.range g.size).map g.successors).toArray

/-- For every item a mark at each item it reaches: those it depends on, directly or through others, and itself. -/
def reach (g : Digraph) : Array (Array Bool) :=
  let table := g.table
  let next := fun item => table[item]?.getD []
  ((List.range g.size).map fun item => markReached next (Array.replicate g.size false) [item]).toArray

/-- Whether an item reaches another one. -/
def reaches (reach : Array (Array Bool)) (item other : Nat) : Bool := ((reach[item]?.getD #[])[other]?).getD false

/-- The items that reach an item and are reached from it. -/
def component (size : Nat) (reach : Array (Array Bool)) (item : Nat) : List Nat :=
  (List.range size).filter fun other => reaches reach item other && reaches reach other item

/-- The sets of at least two items that reach each other, in the order of their least items. -/
def cyclicComponents (g : Digraph) : List (List Nat) :=
  let reach := g.reach
  (List.range g.size).filterMap fun item =>
    let items := component g.size reach item
    if items.head? = some item ∧ 2 ≤ items.length then some items else none

/-- The graph without the edges of one strength that stay inside one of the sets. -/
def dropWithin (g : Digraph) (sets : List (List Nat)) (strength : Strength) : Digraph :=
  { g with
    edges := g.edges.filter fun edge =>
      !(edge.strength == strength && sets.any fun items => items.contains edge.source && items.contains edge.target) }

/-- The sets in the order in which a depth-first search leaves them, so that a set comes after those it depends on. -/
def byLeaving (g : Digraph) (sets : List (List Nat)) : List (List Nat) :=
  let table := g.table
  let next := fun item => (table[item]?.getD []).reverse
  let order := leavingOrder next (2 * g.size + g.edges.length + 1) ((List.range g.size).map .arrive) []
  let last := fun items : List Nat => (items.map order.idxOf).max?.getD 0
  sets.mergeSort fun a b => last a ≤ last b

/-- What is left of a graph whose cycles are broken, and the cycles; those that result edges could not break are marked. -/
structure Broken where
  rest : Digraph
  cycles : List (List Nat × Bool)

/-- Breaks every cycle: drops the result edges inside cycles, and then the argument edges inside what is still a cycle. -/
def breakCycles (g : Digraph) : Broken :=
  let cycles := g.cyclicComponents
  let lighter := g.dropWithin cycles .result
  let stubborn := lighter.cyclicComponents
  { rest := lighter.dropWithin stubborn .argument
    cycles := (g.byLeaving cycles).map fun items => (items, items.any fun item => stubborn.any (·.contains item)) }

end Digraph

end JuliaStubs.LoadOrder
