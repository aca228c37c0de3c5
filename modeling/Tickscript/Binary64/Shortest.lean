/-
  The fewest decimal digits that read back as a given magnitude.

  A magnitude has a finite decimal expansion, a whole number of units of
  `10 ^ -1074` (`Binary64.expansion`).  Dropping its last `j` digits leaves two
  neighbours on a coarser grid; `Binary64.candidate` is the nearer of those that
  read back, and `Binary64.shortest` takes the coarsest grid that has one.  The
  expansion itself always reads back, so the search cannot fail.  The two neighbours
  may be equally near; then a `Tie` chooses.

  * `Binary64.json` and `Binary64.script` are the two written forms.  They have
    equally many digits, but the first chooses the even neighbour and uses an
    exponent for large and small numbers, and the second chooses the larger
    neighbour and never uses an exponent.
-/
import Tickscript.Integer
import Tickscript.Binary64.Rounding

namespace Tickscript.Binary64

open Integer (sign)

/-- The magnitude of rank `k` in units of `10 ^ -1074`. -/
def expansion (k : Nat) : Nat := units k * Nat.pow 5 1074

/-- The decimal of `c` units of the grid that leaves the last `j` digits of an expansion out. -/
def onGrid (j c : Nat) : Decimal := ⟨c, (j : Int) - 1074⟩

/-- The number of grid units nearest to the magnitude of rank `k` among those that read back as
    `k`. -/
def candidate (tie : Tie) (k j : Nat) : Option Nat :=
  let down := expansion k / Nat.pow 10 j
  [roundQuotient tie (expansion k) (Nat.pow 10 j), down, down + 1].find? fun c =>
    nearest (onGrid j c) == k

/-- The value at the largest number from the given one down to `1` that has a value, and `rest` if
    there is none. -/
def firstDownFrom {α : Type} (f : Nat → Option α) (rest : α) : Nat → α
  | 0 => rest
  | j + 1 =>
    match f (j + 1) with
    | some a => a
    | none => firstDownFrom f rest j

/-- The candidate on the coarsest of the grids that leave out at most `j` digits. -/
def shortestFrom (tie : Tie) (k j : Nat) : Decimal :=
  firstDownFrom (fun i => (candidate tie k i).map (onGrid i)) (onGrid 0 (expansion k)) j

/-- The shortest decimal that reads back as the magnitude of rank `k`. -/
def shortest (tie : Tie) (k : Nat) : Decimal :=
  if k = 0 then ⟨0, 0⟩ else shortestFrom tie k (Nat.toDigits 10 (expansion k)).length

/-! ## Layouts -/

/-- A decimal as documents hold it: plain from `0.00001` to sixteen digits before the point. -/
def jsonLayout (d : Decimal) : List Char :=
  if -5 ≤ d.magnitude ∧ d.magnitude ≤ 15 then d.plain else d.scientific

/-- A double as documents hold it, with ties to the even digit; what is not finite has no form
    there. -/
def json : Binary64 → List Char
  | finite negative k => sign negative ++ jsonLayout (shortest .even k)
  | _ => "null".toList

/-- A double in plain digits, with ties to the larger digit; what is not finite is named. -/
def name : Binary64 → List Char
  | nan => "NaN".toList
  | infinite negative => sign negative ++ "inf".toList
  | finite negative k => sign negative ++ (shortest .larger k).plain

/-- A double as scripts hold it, always with a point. -/
def script (x : Binary64) : List Char := if x.isFinite then x.name else x.name ++ ['.', '0']

end Tickscript.Binary64
