/-
  Decimal numbers: a natural coefficient times a power of ten, and the two ways
  of writing one.

  * `Decimal.plain` writes every digit, at least one on each side of the point;
  * `Decimal.scientific` writes one digit before the point and an exponent with
    an explicit sign;
  * `Decimal.magnitude` is the power of ten of the first digit, by which a writer
    chooses between the two.
-/
namespace Tickscript

/-- The number `coefficient * 10 ^ exponent`. -/
structure Decimal where
  coefficient : Nat
  exponent : Int
deriving DecidableEq

namespace Decimal

/-- The digits of the coefficient, most significant first. -/
def digits (d : Decimal) : List Char := Nat.toDigits 10 d.coefficient

/-- The power of ten of the first digit. -/
def magnitude (d : Decimal) : Int := d.exponent + d.digits.length - 1

/-! ## Plain layout -/

/-- The number of digits written after the point. -/
def places (d : Decimal) : Nat := max 1 (-d.exponent).toNat

/-- The number in units of its last written place. -/
def scaled (d : Decimal) : Nat := d.coefficient * Nat.pow 10 (d.exponent + d.places).toNat

/-- All digits, with a point and no exponent: `0.0`, `100.0`, `0.00025`. -/
def plain (d : Decimal) : List Char :=
  let digits := (Nat.toDigits 10 d.scaled).leftpad (d.places + 1) '0'
  let whole := digits.length - d.places
  digits.take whole ++ '.' :: digits.drop whole

/-! ## Scientific layout -/

/-- The exponent mark with the exponent, never padded: `e+16`, `e-7`. -/
def exponentMark (e : Int) : List Char :=
  'e' :: (if e < 0 then '-' else '+') :: Nat.toDigits 10 e.natAbs

/-- One digit, then the others behind a point if there are any, then the exponent: `5e-324`,
    `1.5e-7`. -/
def scientific (d : Decimal) : List Char :=
  match d.digits with
  | [] => exponentMark d.magnitude
  | [first] => first :: exponentMark d.magnitude
  | first :: rest => first :: '.' :: rest ++ exponentMark d.magnitude

end Decimal

end Tickscript
