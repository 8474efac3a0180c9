import JuliaStubs.LoadOrder.Digraph
import JuliaStubs.LoadOrder.Relocation
import JuliaStubs.Text.Sorted

/-!
# Load order

The order in which the files of classes are loaded: each class after the classes it depends on. Dependencies in a cycle cannot all be
met; those by result types are given up first, those by argument types only in cycles that remain, and parents never.
-/

namespace JuliaStubs.LoadOrder

open Catalog

/-- Classes that depend on each other. -/
structure Cycle where
  /-- The names of the classes, sorted. -/
  classes : List String
  /-- Whether argument dependencies had to be given up, so that some annotation names a class that is loaded later. -/
  forwardArguments : Bool
deriving DecidableEq

/-- The names of classes in load order and the cycles among them. -/
structure Order where
  names : List String
  cycles : List Cycle
deriving DecidableEq

/-- The last place of a name in a list. -/
def lastIndex? (name : String) : List String → Option Nat
  | [] => none
  | first :: rest =>
    match lastIndex? name rest with
    | some i => some (i + 1)
    | none => if first = name then some 0 else none

/-- The dependencies of listed classes on listed classes, between the last places of their names. -/
def graph (r : Registry) (classes : List ClassDecl) : Digraph :=
  let names := classes.map ClassDecl.name
  { size := names.length
    edges := classes.flatMap fun cls =>
      (dependencies r cls).filterMap fun dependency => do
        return ⟨← lastIndex? cls.name names, ← lastIndex? dependency.name names, dependency.strength⟩ }

/-- Orders classes so that each follows its dependencies in the list. The order given breaks ties. -/
def order (r : Registry) (classes : List ClassDecl) : Order :=
  let names := classes.map ClassDecl.name
  let nameAt := fun i => names[i]?.getD ""
  let broken := (graph r classes).breakCycles
  let table := broken.rest.table
  { names := (relocate names.length fun item => table[item]?.getD []).map nameAt
    cycles := broken.cycles.map fun (items, stubborn) => ⟨Text.sortNames (items.map nameAt), stubborn⟩ }

end JuliaStubs.LoadOrder
