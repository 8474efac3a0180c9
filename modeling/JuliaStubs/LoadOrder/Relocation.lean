/-!
# Relocation

Sorting by relocation: an item that stands before one of its dependencies is moved to the place of the furthest one, and the scan
goes on at the same place; an item whose dependencies all stand before it stays.
-/

namespace JuliaStubs.LoadOrder

/-- A sequence of items and the place of each item in it. -/
structure Arrangement where
  sequence : List Nat
  place : Array Nat
deriving DecidableEq

namespace Arrangement

/-- The items below a number in their natural order. -/
def initial (n : Nat) : Arrangement := ⟨List.range n, Array.range n⟩

/-- The place of an item. -/
def placeOf (a : Arrangement) (item : Nat) : Nat := a.place[item]?.getD 0

/-- The furthest place of the dependencies of an item. -/
def furthest? (a : Arrangement) (next : Nat → List Nat) (item : Nat) : Option Nat := ((next item).map a.placeOf).max?

/-- Notes the places of items that stand in a row from a place on. -/
def note : Array Nat → Nat → List Nat → Array Nat
  | place, _, [] => place
  | place, start, item :: rest => note (place.setIfInBounds item start) (start + 1) rest

/-- Moves the item at place `i` to the later place `target`; those between move up by one. -/
def move (a : Arrangement) (i target : Nat) (item : Nat) : Arrangement :=
  let sequence := (a.sequence.eraseIdx i).insertIdx target item
  ⟨sequence, note a.place i ((sequence.drop i).take (target + 1 - i))⟩

/-- Scans from place `i` on. -/
def relocateFrom (next : Nat → List Nat) : Nat → Nat → Arrangement → Arrangement
  | 0, _, a => a
  | fuel + 1, i, a =>
    match a.sequence[i]? with
    | none => a
    | some item =>
      match a.furthest? next item with
      | some target =>
        if i < target then relocateFrom next fuel i (a.move i target item)
        else relocateFrom next fuel (i + 1) a
      | none => relocateFrom next fuel (i + 1) a

end Arrangement

/-- Enough steps for `n` items without circular dependencies: at each of the `n` places an item moves away at most as often as its
dependencies are deep, which is less than `n` times. -/
def relocationSteps (n : Nat) : Nat := n * n * n + n + 1

/-- The items below `n`, each after the items that `next` says it depends on. -/
def relocate (n : Nat) (next : Nat → List Nat) : List Nat :=
  (Arrangement.relocateFrom next (relocationSteps n) 0 (.initial n)).sequence

end JuliaStubs.LoadOrder
