/-
  The range of doubles, in decimal.

  How large a decimal number is can be told from the number of its digits and its
  exponent, and that is enough to see that it is within the range of doubles, or
  beyond it.

  * `Decimal.numerator_lt`, `Decimal.le_numerator`: a number between powers of ten;
  * `Binary64.nearest_lt_of_small`: up to `10 ^ 307` there is a nearest double;
  * `Binary64.exponent_lt_of_nearest_lt`: from `10 ^ 309` on there is none.
-/
import Tickscript.Proofs.Rounding

namespace Tickscript

/-! ## Powers of ten -/

namespace Decimal

variable {d : Decimal} {l m : Nat}

/-- The number of digits tells how large a coefficient is. -/
theorem coefficient_lt (d : Decimal) : d.coefficient < 10 ^ d.digits.length :=
  (Nat.length_toDigits_le_iff (by decide) Nat.length_toDigits_pos).1 (Nat.le_refl _)

theorem le_coefficient (h : d.coefficient ≠ 0) : 10 ^ (d.digits.length - 1) ≤ d.coefficient := by
  by_contra hlt
  have hpos : 0 < d.digits.length - 1 := by
    by_contra hone
    rw [Nat.eq_zero_of_not_pos hone] at hlt
    exact hlt (Nat.pos_of_ne_zero h)
  have hlength : d.digits.length ≤ d.digits.length - 1 :=
    (Nat.length_toDigits_le_iff (by decide) hpos).2 (Nat.lt_of_not_le hlt)
  omega

theorem numerator_lt (hc : d.coefficient < 10 ^ l) (h : d.exponent + l ≤ m) :
    d.numerator < 10 ^ m * d.denominator := by
  have hpowers : l + d.exponent.toNat ≤ m + (-d.exponent).toNat := by omega
  calc d.coefficient * 10 ^ d.exponent.toNat
      < 10 ^ l * 10 ^ d.exponent.toNat := Nat.mul_lt_mul_of_pos_right hc (Nat.pow_pos (by decide))
    _ = 10 ^ (l + d.exponent.toNat) := (Nat.pow_add ..).symm
    _ ≤ 10 ^ (m + (-d.exponent).toNat) := Nat.pow_le_pow_right (by decide) hpowers
    _ = 10 ^ m * d.denominator := Nat.pow_add ..

theorem le_numerator (hc : 10 ^ l ≤ d.coefficient) (h : m ≤ d.exponent + l) :
    10 ^ m * d.denominator ≤ d.numerator := by
  have hpowers : m + (-d.exponent).toNat ≤ l + d.exponent.toNat := by omega
  calc 10 ^ m * d.denominator
      = 10 ^ (m + (-d.exponent).toNat) := (Nat.pow_add ..).symm
    _ ≤ 10 ^ (l + d.exponent.toNat) := Nat.pow_le_pow_right (by decide) hpowers
    _ = 10 ^ l * 10 ^ d.exponent.toNat := Nat.pow_add ..
    _ ≤ d.numerator := Nat.mul_le_mul_right _ hc

end Decimal

namespace Binary64

variable {a b n l : Nat} {d : Decimal}

/-! ## Ranks -/

theorem roundQuotient_le (tie : Tie) : roundQuotient tie a b ≤ a / b + 1 := by
  unfold roundQuotient
  simp only
  split <;> omega

/-- Below `2 ^ 1023`, in units of `2 ^ -1074`, there is a rank. -/
theorem nearestRank_lt_magnitudes (hn : n ≤ 1023 + 1074) (h : a / b < 2 ^ n) :
    nearestRank a b < magnitudes := by
  obtain ⟨shift, hshift⟩ : ∃ shift, (a / b).log2 - 52 = shift := ⟨_, rfl⟩
  have hlog : (a / b).log2 < 1023 + 1074 := by
    by_cases h0 : a / b = 0
    · simp [h0]
    · exact Nat.lt_of_lt_of_le ((Nat.log2_lt h0).2 h) hn
  -- what is left after the shift has 53 binary digits
  have hquotient : a / (b * 2 ^ shift) < 2 ^ 53 := by
    rw [← Nat.div_div_eq_div_mul, Nat.div_lt_iff_lt_mul (Nat.pow_pos (by decide)), ← Nat.pow_add]
    exact Nat.lt_of_lt_of_le Nat.lt_log2_self (Nat.pow_le_pow_right (by decide) (by omega))
  have hround := roundQuotient_le (a := a) (b := b * 2 ^ shift) .even
  simp only [nearestRank, Nat.pow_eq, hshift, magnitudes]
  omega

/-- **A decimal up to `10 ^ 307` has a nearest double.** -/
theorem nearest_lt_of_small (hc : d.coefficient < 10 ^ l) (h : d.exponent + l ≤ 307) :
    nearest d < magnitudes := by
  obtain ⟨n, hn⟩ : ∃ n, n = 1074 := ⟨_, rfl⟩
  obtain ⟨m, hm, hpowers⟩ : ∃ m, m = 1023 ∧ 10 ^ 307 ≤ 2 ^ m := ⟨_, rfl, by decide +kernel⟩
  have hexponent : m + n ≤ 1023 + 1074 := by rw [hm, hn]
  have hnum : d.numerator * 2 ^ n < 2 ^ (m + n) * d.denominator :=
    calc d.numerator * 2 ^ n
        < 10 ^ 307 * d.denominator * 2 ^ n :=
          Nat.mul_lt_mul_of_pos_right (Decimal.numerator_lt hc h) (Nat.pow_pos (by decide))
      _ ≤ 2 ^ m * d.denominator * 2 ^ n := Nat.mul_le_mul_right _ (Nat.mul_le_mul_right _ hpowers)
      _ = 2 ^ (m + n) * d.denominator := by rw [Nat.mul_right_comm, ← Nat.pow_add]
  have hrank : decimalRank d < magnitudes := by
    rw [decimalRank, ← hn]
    exact nearestRank_lt_magnitudes hexponent ((Nat.div_lt_iff_lt_mul d.denominator_pos).2 hnum)
  rwa [nearest_eq_of_decimalRank_lt hrank]

/-- **A decimal from `10 ^ 309` on has none.** -/
theorem exponent_lt_of_nearest_lt (hc : 10 ^ l ≤ d.coefficient) (h : nearest d < magnitudes) :
    d.exponent + l < 309 := by
  by_contra hlarge
  have hle : ((309 : Nat) : Int) ≤ d.exponent + l := Int.not_lt.1 hlarge
  obtain ⟨n, hn⟩ : ∃ n, n = 1074 := ⟨_, rfl⟩
  obtain ⟨m, hm, hpowers⟩ : ∃ m, m = 1024 ∧ 2 ^ m ≤ 10 ^ 309 := ⟨_, rfl, by decide +kernel⟩
  have hexponent : 1024 + 1074 ≤ m + n := by rw [hm, hn]
  have hnum : 2 ^ (m + n) * d.denominator ≤ d.numerator * 2 ^ n :=
    calc 2 ^ (m + n) * d.denominator
        = 2 ^ m * d.denominator * 2 ^ n := by rw [Nat.mul_right_comm, ← Nat.pow_add]
      _ ≤ 10 ^ 309 * d.denominator * 2 ^ n :=
        Nat.mul_le_mul_right _ (Nat.mul_le_mul_right _ hpowers)
      _ ≤ d.numerator * 2 ^ n := Nat.mul_le_mul_right _ (Decimal.le_numerator hc hle)
  have hrank : magnitudes ≤ decimalRank d := by
    rw [decimalRank, ← hn]
    exact magnitudes_le_nearestRank hexponent ((Nat.le_div_iff_mul_le d.denominator_pos).2 hnum)
  have hmin := min_nearest d
  rw [Nat.min_eq_right hrank, Nat.min_eq_left h.le] at hmin
  exact h.ne hmin

end Binary64

end Tickscript
