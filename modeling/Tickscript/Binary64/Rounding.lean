/-
  The double nearest to a decimal number, in exact arithmetic on naturals.

  * `roundQuotient` is the natural number nearest to a quotient; a `Tie` says which
    of two equally near ones that is;
  * `Binary64.nearestRank a b` is the rank of the magnitude nearest to `a / b`
    units, of two equally near ones the even rank;
  * `Binary64.nearest d` is that rank for a decimal number; it is `magnitudes` or
    more exactly for the numbers beyond the range of doubles.  Numbers that are
    certainly too large, or certainly nearer to zero than to anything else, are
    settled without working out their power of ten;
  * `Binary64.ofDecimal` puts the sign back and refuses numbers beyond the range.
-/
import Tickscript.Decimal
import Tickscript.Binary64.Basic

namespace Tickscript

/-- Which of two equally near natural numbers is taken: the even one or the larger one. -/
inductive Tie where
  | even
  | larger
deriving DecidableEq

/-- The natural number nearest to `a / b`. -/
def roundQuotient (tie : Tie) (a b : Nat) : Nat :=
  let down := a / b
  let twice := 2 * (a % b)
  if twice < b ∨ (twice = b ∧ tie = .even ∧ down % 2 = 0) then down else down + 1

namespace Binary64

/-- The rank of the magnitude nearest to `a / b` units.  Where `a / b` lies, ranks are
    `2 ^ shift` units apart. -/
def nearestRank (a b : Nat) : Nat :=
  let shift := (a / b).log2 - 52
  shift * Nat.pow 2 52 + roundQuotient .even a (b * Nat.pow 2 shift)

/-- The rank of the magnitude nearest to a decimal number; no rank if the number is beyond the
    range. -/
def nearest (d : Decimal) : Nat :=
  if d.coefficient = 0 then 0
  else if 310 < d.exponent then magnitudes
  else if d.exponent + d.coefficient.log2 < -331 then 0
  else nearestRank (d.coefficient * Nat.pow 10 d.exponent.toNat * Nat.pow 2 1074)
    (Nat.pow 10 (-d.exponent).toNat)

/-- The double nearest to a decimal number of the given sign, if that is within the range. -/
def ofDecimal (negative : Bool) (d : Decimal) : Option Binary64 :=
  if h : nearest d < magnitudes then some (.finite negative ⟨nearest d, h⟩) else none

end Binary64

end Tickscript
