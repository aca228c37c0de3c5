/-
  Rounding depends on the number alone.

  A decimal number is a quotient of naturals (`Decimal.numerator`,
  `Decimal.denominator`), and two decimals may be the same number
  (`Decimal.Same`).  What is rounded is the number:

  * `Binary64.nearestRank_congr`: equal quotients have the same nearest rank;
  * `Binary64.min_nearest`: the shortcuts for very large and very small decimals
    give what the quotient gives, as far as it is within the range;
  * `Binary64.ofDecimal_congr`: so the same number is read as the same double;
  * `Binary64.nearestRank_units`: a magnitude is nearest to itself.
-/
import Mathlib.Algebra.Order.Ring.Nat
import Mathlib.Tactic.Ring
import Tickscript.Binary64.Rounding

namespace Tickscript

/-! ## Decimals as quotients -/

namespace Decimal

def numerator (d : Decimal) : Nat := d.coefficient * 10 ^ d.exponent.toNat

def denominator (d : Decimal) : Nat := 10 ^ (-d.exponent).toNat

theorem denominator_pos (d : Decimal) : 0 < d.denominator := Nat.pow_pos (by decide)

/-- Two decimals are the same number. -/
def Same (d e : Decimal) : Prop := d.numerator * e.denominator = e.numerator * d.denominator

end Decimal

/-! ## Quotients -/

variable {a b a' b' c : Nat}

theorem roundQuotient_mul_right (tie : Tie) (hc : 0 < c) :
    roundQuotient tie (a * c) (b * c) = roundQuotient tie a b := by
  have hdiv : a * c / (b * c) = a / b := Nat.mul_div_mul_right a b hc
  have hmod : a * c % (b * c) = a % b * c := Nat.mul_mod_mul_right c a b
  have hlt : 2 * (a % b * c) < b * c ↔ 2 * (a % b) < b := by
    rw [← Nat.mul_assoc]
    exact Nat.mul_lt_mul_right hc
  have heq : 2 * (a % b * c) = b * c ↔ 2 * (a % b) = b := by
    rw [← Nat.mul_assoc]
    exact Nat.mul_left_inj (Nat.ne_of_gt hc)
  simp only [roundQuotient, hdiv, hmod, hlt, heq]

theorem le_roundQuotient (tie : Tie) : a / b ≤ roundQuotient tie a b := by
  unfold roundQuotient
  simp only
  split <;> omega

/-- Less than a half is rounded to nothing. -/
theorem roundQuotient_eq_zero (tie : Tie) (h : 2 * a < b) : roundQuotient tie a b = 0 := by
  have hlt : a < b := by omega
  simp [roundQuotient, Nat.div_eq_of_lt hlt, Nat.mod_eq_of_lt hlt, h]

theorem roundQuotient_one (tie : Tie) (a : Nat) : roundQuotient tie a 1 = a := by
  simp [roundQuotient, Nat.mod_one]

namespace Binary64

/-! ## Ranks -/

theorem nearestRank_mul_right (hc : 0 < c) :
    nearestRank (a * c) (b * c) = nearestRank a b := by
  have hdiv : a * c / (b * c) = a / b := Nat.mul_div_mul_right a b hc
  have hscale : b * c * 2 ^ ((a / b).log2 - 52) = b * 2 ^ ((a / b).log2 - 52) * c := by ring
  simp only [nearestRank, Nat.pow_eq, hdiv, hscale]
  rw [roundQuotient_mul_right .even hc]

/-- **The nearest rank is a matter of the quotient.** -/
theorem nearestRank_congr (hb : 0 < b) (hb' : 0 < b') (h : a * b' = a' * b) :
    nearestRank a b = nearestRank a' b' :=
  calc nearestRank a b = nearestRank (a * b') (b * b') := (nearestRank_mul_right hb').symm
    _ = nearestRank (a' * b) (b' * b) := by rw [h, Nat.mul_comm b b']
    _ = nearestRank a' b' := nearestRank_mul_right hb

/-- Less than half a unit has rank zero. -/
theorem nearestRank_eq_zero (h : 2 * a < b) : nearestRank a b = 0 := by
  have hdiv : a / b = 0 := Nat.div_eq_of_lt (by omega)
  simp [nearestRank, hdiv, roundQuotient_eq_zero .even h]

/-- From `2 ^ 1024` on, in units of `2 ^ -1074`, there is no rank. -/
theorem magnitudes_le_nearestRank {n : Nat} (hn : 1024 + 1074 ≤ n) (h : 2 ^ n ≤ a / b) :
    magnitudes ≤ nearestRank a b := by
  have hq : a / b ≠ 0 := Nat.ne_of_gt (Nat.lt_of_lt_of_le (Nat.pow_pos (by decide)) h)
  have hlog : n ≤ (a / b).log2 := (Nat.le_log2 hq).2 h
  obtain ⟨shift, hshift⟩ : ∃ shift, (a / b).log2 = shift + 52 := ⟨(a / b).log2 - 52, by omega⟩
  have hle : 2 ^ 52 ≤ a / (b * 2 ^ shift) := by
    rw [← Nat.div_div_eq_div_mul, Nat.le_div_iff_mul_le (Nat.pow_pos (by decide)), ← Nat.pow_add,
      Nat.add_comm, ← hshift]
    exact Nat.log2_self_le hq
  have hround := Nat.le_trans hle (le_roundQuotient (a := a) (b := b * 2 ^ shift) .even)
  simp only [nearestRank, Nat.pow_eq, hshift, Nat.add_sub_cancel, magnitudes]
  omega

/-- **A magnitude is nearest to itself.** -/
theorem nearestRank_units (k : Nat) : nearestRank (units k) 1 = k := by
  simp only [units, Nat.pow_eq]
  split_ifs with hk
  · -- below `2 ^ 53` the ranks are the units
    have hlog : k.log2 - 52 = 0 := by
      have : k.log2 < 53 := by
        by_cases h0 : k = 0
        · simp [h0]
        · exact (Nat.log2_lt h0).2 hk
      omega
    simp only [nearestRank, Nat.pow_eq, Nat.div_one, hlog]
    simp [roundQuotient_one]
  · -- from there on the quotient of the rank by `2 ^ 52` is the logarithm
    have hf : k % 2 ^ 52 < 2 ^ 52 := Nat.mod_lt k (by decide)
    obtain ⟨e, he⟩ : ∃ e, k / 2 ^ 52 = e + 1 := ⟨k / 2 ^ 52 - 1, by omega⟩
    have hpos : 0 < 2 ^ e := Nat.pow_pos (by decide)
    have hlog : ((2 ^ 52 + k % 2 ^ 52) * 2 ^ e).log2 = 52 + e := by
      refine (Nat.log2_eq_iff (Nat.mul_ne_zero (by omega) (by omega))).2 ⟨?_, ?_⟩
      · rw [Nat.pow_add]
        exact Nat.mul_le_mul_right _ (by omega)
      · have hsplit : 2 ^ (52 + e + 1) = 2 ^ 53 * 2 ^ e := by ring
        rw [hsplit]
        exact Nat.mul_lt_mul_of_pos_right (by omega) hpos
    have hround := roundQuotient_mul_right (a := 2 ^ 52 + k % 2 ^ 52) (b := 1) (c := 2 ^ e) .even
      hpos
    have hshift : 52 + e - 52 = e := by omega
    simp only [nearestRank, Nat.pow_eq, he, Nat.add_sub_cancel, Nat.div_one, hlog, hshift, hround,
      roundQuotient_one]
    omega

/-! ## Shortcuts -/

/-- The rank nearest to a decimal, without shortcuts. -/
def decimalRank (d : Decimal) : Nat := nearestRank (d.numerator * 2 ^ 1074) d.denominator

theorem decimalRank_congr {d e : Decimal} (h : d.Same e) : decimalRank d = decimalRank e := by
  refine nearestRank_congr d.denominator_pos e.denominator_pos ?_
  rw [Nat.mul_right_comm, h, Nat.mul_right_comm]

/-- What is certainly too large has no rank. -/
theorem magnitudes_le_decimalRank {d : Decimal} (hc : d.coefficient ≠ 0) (h : 310 < d.exponent) :
    magnitudes ≤ decimalRank d := by
  have hden : d.denominator = 1 := by
    have : (-d.exponent).toNat = 0 := by omega
    rw [Decimal.denominator, this, Nat.pow_zero]
  have hpowers : 2 ^ 1024 ≤ 10 ^ 311 := by decide +kernel
  obtain ⟨n, hn⟩ : ∃ n, n = 1074 := ⟨_, rfl⟩
  obtain ⟨m, hm⟩ : ∃ m, m = 1024 := ⟨_, rfl⟩
  obtain ⟨l, hl⟩ : ∃ l, l = 311 := ⟨_, rfl⟩
  rw [← hm, ← hl] at hpowers
  have hnum : 2 ^ m ≤ d.numerator :=
    calc 2 ^ m ≤ 10 ^ l := hpowers
      _ ≤ 10 ^ d.exponent.toNat := Nat.pow_le_pow_right (by decide) (by omega)
      _ ≤ d.numerator := Nat.le_mul_of_pos_left _ (Nat.pos_of_ne_zero hc)
  rw [decimalRank, hden, ← hn]
  refine magnitudes_le_nearestRank (n := m + n) (by omega) ?_
  rw [Nat.div_one, Nat.pow_add]
  exact Nat.mul_le_mul_right _ hnum

/-- What is certainly nearer to zero than to anything else has rank zero. -/
theorem decimalRank_eq_zero {d : Decimal} (h : d.exponent + d.coefficient.log2 < -331) :
    decimalRank d = 0 := by
  obtain ⟨l, hl⟩ : ∃ l, d.coefficient.log2 = l := ⟨_, rfl⟩
  rw [hl] at h
  have hcoefficient : d.coefficient < 2 ^ (l + 1) := hl ▸ Nat.lt_log2_self
  have hnum : d.numerator = d.coefficient := by
    have : d.exponent.toNat = 0 := by omega
    rw [Decimal.numerator, this, Nat.pow_zero, Nat.mul_one]
  have hpowers : 2 ^ (1074 + 2) ≤ 10 ^ 332 := by decide +kernel
  obtain ⟨n, hn⟩ : ∃ n, n = 1074 := ⟨_, rfl⟩
  obtain ⟨m, hm⟩ : ∃ m, m = 332 := ⟨_, rfl⟩
  rw [← hn, ← hm] at hpowers
  rw [decimalRank, hnum, ← hn]
  refine nearestRank_eq_zero ?_
  calc 2 * (d.coefficient * 2 ^ n) = d.coefficient * 2 ^ (n + 1) := by ring
    _ < 2 ^ (l + 1) * 2 ^ (n + 1) := Nat.mul_lt_mul_of_pos_right hcoefficient (Nat.pow_pos (by decide))
    _ = 2 ^ (n + 2) * 2 ^ l := by ring
    _ ≤ 10 ^ m * 10 ^ l := Nat.mul_le_mul hpowers (Nat.pow_le_pow_left (by decide) l)
    _ = 10 ^ (m + l) := (Nat.pow_add ..).symm
    _ ≤ d.denominator := Nat.pow_le_pow_right (by decide) (by omega)

/-- **The shortcuts change nothing within the range.** -/
theorem min_nearest (d : Decimal) : min (nearest d) magnitudes = min (decimalRank d) magnitudes := by
  unfold nearest
  by_cases hzero : d.coefficient = 0
  · have hrank : decimalRank d = 0 := by
      refine nearestRank_eq_zero ?_
      rw [Decimal.numerator, hzero, Nat.zero_mul, Nat.zero_mul, Nat.mul_zero]
      exact d.denominator_pos
    rw [if_pos hzero, hrank]
  rw [if_neg hzero]
  by_cases hlarge : 310 < d.exponent
  · rw [if_pos hlarge, Nat.min_self, Nat.min_eq_right (magnitudes_le_decimalRank hzero hlarge)]
  rw [if_neg hlarge]
  by_cases hsmall : d.exponent + d.coefficient.log2 < -331
  · rw [if_pos hsmall, decimalRank_eq_zero hsmall]
  · simp only [if_neg hsmall, Nat.pow_eq, decimalRank, Decimal.numerator, Decimal.denominator]

/-- Within the range the rank is the one without shortcuts. -/
theorem nearest_eq_of_decimalRank_lt {d : Decimal} (h : decimalRank d < magnitudes) :
    nearest d = decimalRank d := by
  have := min_nearest d
  omega

/-- **The same number has the same nearest rank**, if it is within the range. -/
theorem nearest_congr {d e : Decimal} (h : d.Same e) :
    min (nearest d) magnitudes = min (nearest e) magnitudes := by
  rw [min_nearest, min_nearest, decimalRank_congr h]

/-- **The same number is the same double.** -/
theorem ofDecimal_congr {d e : Decimal} (h : d.Same e) (negative : Bool) :
    ofDecimal negative d = ofDecimal negative e := by
  have hmin := nearest_congr h
  unfold ofDecimal
  by_cases hd : nearest d < magnitudes
  · have he : nearest e = nearest d := by omega
    simp only [he]
  · have he : ¬ nearest e < magnitudes := by omega
    rw [dif_neg hd, dif_neg he]

end Binary64

end Tickscript
