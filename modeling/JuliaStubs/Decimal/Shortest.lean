/-!
# Shortest decimals

A finite binary number is given by the fewest decimal digits that read back as it, and of the decimals with so few digits the
nearest one, the upper one on a tie.
-/

namespace JuliaStubs.Decimal

/-- A positive binary number `mantissa * 2 ^ exponent`; `narrow` says that the next smaller number of its format is only half a unit
away. -/
structure Binary where
  mantissa : Nat
  exponent : Int
  narrow : Bool
deriving DecidableEq

/-- The decimal `digits * 10 ^ exponent`. -/
structure Shortest where
  digits : Nat
  exponent : Int
deriving DecidableEq

namespace Binary

/-- The quarter units of a number and the ends of the interval that rounds to it, over the common denominator `scale`. -/
structure Bounds where
  lower : Nat
  value : Nat
  upper : Nat
  scale : Nat
  inclusive : Bool

/-- The interval of reals that round to a number: half a unit each way, a quarter below where the format is denser. -/
def bounds (b : Binary) : Bounds :=
  let unit := Nat.pow 2 b.exponent.toNat
  { lower := (4 * b.mantissa - (if b.narrow then 1 else 2)) * unit
    value := 4 * b.mantissa * unit
    upper := (4 * b.mantissa + 2) * unit
    scale := 4 * Nat.pow 2 (-b.exponent).toNat
    inclusive := b.mantissa % 2 == 0 }

/-- Whether the decimal `digits * 10 ^ k` lies in the interval. -/
def Bounds.contains (i : Bounds) (digits : Nat) (k : Int) : Bool :=
  let point := digits * Nat.pow 10 k.toNat * i.scale
  let unit := Nat.pow 10 (-k).toNat
  if i.inclusive then i.lower * unit ≤ point && point ≤ i.upper * unit
  else i.lower * unit < point && point < i.upper * unit

/-- The decimal with exponent `k` that reads back and is nearest to the number, if there is one. -/
def Bounds.onGrid? (i : Bounds) (k : Int) : Option Nat :=
  let numerator := i.value * Nat.pow 10 (-k).toNat
  let denominator := i.scale * Nat.pow 10 k.toNat
  let below := numerator / denominator
  let upperIsNearer := denominator ≤ 2 * (numerator % denominator)
  match i.contains below k && below != 0, i.contains (below + 1) k with
  | true, true => some (if upperIsNearer then below + 1 else below)
  | true, false => some below
  | false, true => some (below + 1)
  | false, false => none

/-- The first grid from exponent `k` downwards on which a decimal reads back. -/
def Bounds.search (i : Bounds) : Nat → Int → Shortest
  | 0, k => ⟨i.value * Nat.pow 10 (-k).toNat / (i.scale * Nat.pow 10 k.toNat), k⟩
  | steps + 1, k =>
    match i.onGrid? k with
    | some digits => ⟨digits, k⟩
    | none => i.search steps (k - 1)

/-- A decimal exponent above every grid that can hold a decimal near the number. -/
def gridAbove (b : Binary) : Int := ((b.mantissa.log2 : Int) + b.exponent) * 30103 / 100000 + 2

/-- The fewest digits that read back as the number; twenty-four grids below the first reach past seventeen digits. -/
def shortest (b : Binary) : Shortest := b.bounds.search 24 b.gridAbove

end Binary

/-- A number of a binary format, read as a decimal. -/
inductive Numeral where
  | nan
  | infinite (negative : Bool)
  | zero (negative : Bool)
  | finite (negative : Bool) (decimal : Shortest)
deriving DecidableEq

/-- The number with the given bits in a format of `fraction` fraction bits and `width` exponent bits. -/
def Numeral.ofBits (fraction width bits : Nat) : Numeral :=
  let negative := (bits / Nat.pow 2 (fraction + width)) % 2 == 1
  let field := bits / Nat.pow 2 fraction % Nat.pow 2 width
  let low := bits % Nat.pow 2 fraction
  let bias : Int := Nat.pow 2 (width - 1) - 1 + fraction
  if field = Nat.pow 2 width - 1 then
    if low = 0 then .infinite negative else .nan
  else if field = 0 then
    if low = 0 then .zero negative else .finite negative (Binary.shortest ⟨low, 1 - bias, false⟩)
  else .finite negative (Binary.shortest ⟨Nat.pow 2 fraction + low, field - bias, low == 0 && field != 1⟩)

/-- A double-precision number as a decimal. -/
def Numeral.ofFloat (x : Float) : Numeral := .ofBits 52 11 x.toBits.toNat

/-- A single-precision number as a decimal. -/
def Numeral.ofFloat32 (x : Float32) : Numeral := .ofBits 23 8 x.toBits.toNat

end JuliaStubs.Decimal
