/-
  Integers in decimal.
-/
namespace Tickscript.Integer

/-- A minus sign for a negative number, nothing for the others. -/
def sign (negative : Bool) : List Char := if negative then ['-'] else []

/-- The sign and the digits of an integer. -/
def decimal (n : Int) : List Char := sign (n < 0) ++ Nat.toDigits 10 n.natAbs

end Tickscript.Integer
