/-!
# Numbers of JSON texts

A numeral is whole when it has neither fraction nor exponent and fits in sixty-four bits; every other numeral is a double. The double
of a numeral comes from the leading digits that fit in sixty-four bits, scaled once by a power of ten.
-/

namespace JuliaStubs.Json

/-- A number: whole numbers lie between `-2 ^ 63` and `2 ^ 64 - 1`. -/
inductive Number where
  | whole (n : Int)
  | real (x : Float)
deriving DecidableEq

/-- The parts of a numeral, digit by digit. -/
structure Numeral where
  negative : Bool
  integer : List Nat
  fraction : Option (List Nat)
  /-- The sign and the digits of the exponent. -/
  exponent : Option (Bool × List Nat)

/-- Appends digits to a number while it stays below `2 ^ 64`: the number and how many digits were left over. -/
def leadingDigits (start : Nat) : List Nat → Nat × Nat
  | [] => (start, 0)
  | d :: rest =>
    if 10 * start + d < UInt64.size then leadingDigits (10 * start + d) rest
    else (start, (d :: rest).length)

/-- A power of ten as a double. -/
def powerOfTen (n : Nat) : Float := Float.ofScientific 1 false n

/-- Scales a double by a power of ten: by one product, or by quotients of at most `10 ^ 308` each; none past the largest double. -/
def scale : Nat → Float → Int → Option Float
  | 0, x, _ => some x
  | steps + 1, x, exponent =>
    if exponent.natAbs ≤ 308 then
      if 0 ≤ exponent then
        let y := x * powerOfTen exponent.toNat
        if y.isInf then none else some y
      else some (x / powerOfTen (-exponent).toNat)
    else if x == 0 then some x
    else if 0 ≤ exponent then none
    else scale steps (x / powerOfTen 308) (exponent + 308)

/-- A double with a sign. -/
def signed (negative : Bool) (x : Float) : Float := if negative then -x else x

namespace Numeral

/-- The digits of a numeral as a natural number. -/
def natural (digits : List Nat) : Nat := digits.foldl (fun n d => 10 * n + d) 0

/-- The double of a numeral; none when it is too large for one. -/
def real? (numeral : Numeral) : Option Float :=
  let (leading, skipped) := leadingDigits 0 numeral.integer
  let fraction := numeral.fraction.getD []
  let (significand, ignored) := leadingDigits leading fraction
  let exponent : Int := skipped - (fraction.length - ignored : Nat)
  let x := (UInt64.ofNat significand).toFloat
  match numeral.exponent with
  | none => (scale 4 x exponent).map (signed numeral.negative)
  | some (below, digits) =>
    let n := natural digits
    if Int32.maxValue.toInt < n then
      if significand != 0 && !below then none else some (signed numeral.negative 0)
    else (scale 4 x (if below then exponent - n else exponent + n)).map (signed numeral.negative)

/-- The number a numeral stands for; none when it is too large for a double. A negative zero is a double. -/
def number? (numeral : Numeral) : Option Number :=
  let n := natural numeral.integer
  if numeral.fraction.isSome || numeral.exponent.isSome then numeral.real?.map .real
  else if numeral.negative then
    if n != 0 && Int64.minValue.toInt ≤ -n then some (.whole (-n)) else numeral.real?.map .real
  else if n < UInt64.size then some (.whole n)
  else numeral.real?.map .real

end Numeral

namespace Number

/-- The number as a double. -/
def toFloat : Number → Float
  | whole n => if 0 ≤ n then (UInt64.ofNat n.toNat).toFloat else (Int64.ofInt n).toFloat
  | real x => x

/-- The number as an integer between two bounds. -/
def within? (low high : Int) : Number → Option Int
  | whole n => if low ≤ n ∧ n ≤ high then some n else none
  | real _ => none

end Number

end JuliaStubs.Json
