/-
  Doubles.  The finite magnitudes are numbered in increasing order; the number of
  a magnitude, its rank, is at the same time the word that holds its exponent and
  its fraction.

  * `Binary64.units k` is the magnitude of rank `k` in units of `2 ^ -1074`, the
    distance of the smallest two, so that every finite double is a sign and a
    natural number of units;
  * `Binary64.ofBits` reads the 64-bit form;
  * `Binary64.equals`, also written `==`, is equality of numbers: the two zeros
    are equal, and what is not a number equals nothing.
-/
namespace Tickscript

/-- The number of finite magnitudes. -/
abbrev Binary64.magnitudes : Nat := 2047 * Nat.pow 2 52

/-- A double: no number at all, an infinity, or a sign and the rank of a finite magnitude. -/
inductive Binary64 where
  | nan
  | infinite (negative : Bool)
  | finite (negative : Bool) (rank : Fin Binary64.magnitudes)

namespace Binary64

/-- The magnitude of rank `k` in units of `2 ^ -1074`.  The first `2 ^ 53` ranks are one unit
    apart; after that the distance doubles every `2 ^ 52` ranks. -/
def units (k : Nat) : Nat :=
  if k < Nat.pow 2 53 then k
  else (Nat.pow 2 52 + k % Nat.pow 2 52) * Nat.pow 2 (k / Nat.pow 2 52 - 1)

/-- The zero of the given sign. -/
def zero (negative : Bool) : Binary64 := .finite negative ⟨0, by decide⟩

instance : Inhabited Binary64 := ⟨zero false⟩

/-- The double with the given bits: sign, exponent and fraction, most significant first. -/
def ofBits (bits : UInt64) : Binary64 :=
  let negative := decide (Nat.pow 2 63 ≤ bits.toNat)
  let word := bits.toNat % Nat.pow 2 63
  if h : word < magnitudes then .finite negative ⟨word, h⟩
  else if word = magnitudes then .infinite negative
  else .nan

def isFinite : Binary64 → Bool
  | finite _ _ => true
  | _ => false

/-- Whether the number is one of the two zeros. -/
def isZero : Binary64 → Bool
  | finite _ k => k.val == 0
  | _ => false

/-- Equality of numbers. -/
def equals : Binary64 → Binary64 → Bool
  | finite m j, finite n k => j == k && (m == n || j.val == 0)
  | infinite m, infinite n => m == n
  | _, _ => false

instance : BEq Binary64 := ⟨equals⟩

theorem isFinite_of_isZero {x : Binary64} (h : x.isZero) : x.isFinite := by
  cases x with
  | finite negative k => rfl
  | _ => simp [isZero] at h

/-- The zeros are what equals zero. -/
theorem isZero_eq_beq (x : Binary64) : x.isZero = (x == zero false) := by
  cases x with
  | finite negative k =>
    have hk : (k == ⟨0, by decide⟩) = (k.val == 0) := by
      rw [Bool.eq_iff_iff, beq_iff_eq, beq_iff_eq, Fin.ext_iff]
    show (k.val == 0) = (k == ⟨0, by decide⟩ && (negative == false || k.val == 0))
    rw [hk]
    cases k.val == 0 <;> simp
  | _ => rfl

end Binary64

end Tickscript
