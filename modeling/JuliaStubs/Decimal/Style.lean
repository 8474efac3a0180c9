import JuliaStubs.Decimal.Shortest

/-!
# Styles of decimal numbers

How the digits of a number are laid out: with or without an exponent, what follows a whole number, and the names of the numbers that
have no digits.
-/

namespace JuliaStubs.Decimal

/-- The choices of a printed form. -/
structure Style where
  /-- Whether numbers from `10 ^ 16` on and below `10 ^ -4` are written with an exponent. -/
  scientific : Bool
  /-- What follows the digits of a whole number written without an exponent. -/
  wholeSuffix : String
  /-- What follows every number written without an exponent. -/
  positionalSuffix : String
  /-- The mark between digits and exponent. -/
  mark : String
  infinity : String
  nan : String
deriving DecidableEq

namespace Style

/-- Digits with a point where it belongs and never an exponent. -/
def plain : Style := ⟨false, "", "", "e", "inf", "NaN"⟩

/-- Whole numbers keep one decimal place; large and small numbers have an exponent. -/
def general : Style := ⟨true, ".0", "", "e", "inf", "NaN"⟩

/-- A double-precision Julia literal. -/
def juliaDouble : Style := ⟨true, ".0", "", "e", "Inf", "NaN"⟩

/-- A single-precision Julia literal, whose exponent mark is an `f`. -/
def juliaSingle : Style := ⟨true, ".0", "f0", "f", "Inf32", "NaN32"⟩

end Style

/-- The decimal digits of a number. -/
def digitChars (n : Nat) : List Char := Nat.toDigits 10 n

/-- The digits of `decimal` with the point at its place. -/
def positional (style : Style) (decimal : Shortest) : String :=
  let digits := digitChars decimal.digits
  let places := (-decimal.exponent).toNat
  let body :=
    if places = 0 then
      String.ofList (digits ++ List.replicate decimal.exponent.toNat '0') ++ style.wholeSuffix
    else if places < digits.length then
      String.ofList (digits.take (digits.length - places)) ++ "." ++ String.ofList (digits.drop (digits.length - places))
    else "0." ++ String.ofList (List.replicate (places - digits.length) '0' ++ digits)
  body ++ style.positionalSuffix

/-- One digit before the point, the others after it, and the exponent. -/
def withExponent (style : Style) (decimal : Shortest) : String :=
  let digits := digitChars decimal.digits
  let exponent := decimal.exponent + (digits.length - 1 : Nat)
  let tail := if digits.length ≤ 1 then "" else "." ++ String.ofList (digits.drop 1)
  String.ofList (digits.take 1) ++ tail ++ style.mark ++ toString exponent

/-- The magnitude of a nonzero number. -/
def magnitude (style : Style) (decimal : Shortest) : String :=
  let leading := decimal.exponent + ((digitChars decimal.digits).length - 1 : Nat)
  if style.scientific && (16 ≤ leading || leading < -4) then withExponent style decimal
  else positional style decimal

/-- The sign of a negative number. -/
def sign (negative : Bool) : String := if negative then "-" else ""

/-- A number in a style. -/
def Numeral.render (style : Style) : Numeral → String
  | .nan => style.nan
  | .infinite negative => sign negative ++ style.infinity
  | .zero negative => sign negative ++ "0" ++ style.wholeSuffix ++ style.positionalSuffix
  | .finite negative decimal => sign negative ++ magnitude style decimal

/-- A double-precision number in a style. -/
def ofFloat (style : Style) (x : Float) : String := (Numeral.ofFloat x).render style

/-- A single-precision number in a style. -/
def ofFloat32 (style : Style) (x : Float32) : String := (Numeral.ofFloat32 x).render style

end JuliaStubs.Decimal
