/-
  The two shortest decimals of a magnitude.

  Both writers of doubles search the same grids for the same two neighbours, so
  they stop at the same grid.  There they can only differ if the magnitude lies in
  the middle of two neighbours that both read back.

  * `Binary64.candidate_eq_or_tie`, `Binary64.shortest_eq_or_tie`: the decimals are
    the same, or these two neighbours, of which one writer takes the even and the
    other the larger one;
  * `Decimal.value`, `Binary64.magnitude`, `Binary64.value`: the numbers themselves;
  * `Binary64.value_shortest_eq_or_tie`: the same said of numbers.
-/
import Mathlib.Algebra.Order.Field.Rat
import Mathlib.Tactic.FieldSimp
import Mathlib.Tactic.Linarith
import Mathlib.Tactic.LinearCombination
import Mathlib.Tactic.Ring
import Tickscript.Proofs.Shortest

namespace Tickscript

/-! ## Rounded quotients -/

variable {a b : Nat}

/-- In the middle of two neighbours, the larger one is taken if ties go there. -/
theorem roundQuotient_larger_of_tie (h : 2 * (a % b) = b) :
    roundQuotient .larger a b = a / b + 1 := by
  simp [roundQuotient, h]

/-- In the middle of two neighbours, the even one is taken if ties go there. -/
theorem roundQuotient_even_of_tie (h : 2 * (a % b) = b) :
    roundQuotient .even a b = if a / b % 2 = 0 then a / b else a / b + 1 := by
  simp [roundQuotient, h]

/-- Elsewhere it does not matter where ties go. -/
theorem roundQuotient_of_not_tie (h : 2 * (a % b) ≠ b) (t t' : Tie) :
    roundQuotient t a b = roundQuotient t' a b := by
  simp only [roundQuotient, h, false_and, or_false]

namespace Binary64

/-! ## Shortest decimals -/

variable {k : Nat}

/-- The magnitude of rank `k` lies in the middle of the units `c` and `c + 1` of a grid, of which the
    first is even. -/
def Tied (k j c : Nat) : Prop := c % 2 = 0 ∧ 2 * expansion k = (2 * c + 1) * 10 ^ j

theorem candidate_eq (tie : Tie) (k j : Nat) : candidate tie k j =
    [roundQuotient tie (expansion k) (10 ^ j), expansion k / 10 ^ j, expansion k / 10 ^ j + 1].find?
      fun c => nearest (onGrid j c) == k := rfl

/-- **One grid.**  The candidates are the same, or the magnitude lies in the middle. -/
theorem candidate_eq_or_tie (k j : Nat) :
    candidate .larger k j = candidate .even k j ∨
      ∃ c, Tied k j c ∧ candidate .larger k j = some (c + 1) ∧ candidate .even k j = some c := by
  rw [candidate_eq, candidate_eq]
  obtain ⟨q, hq⟩ : ∃ q, expansion k / 10 ^ j = q := ⟨_, rfl⟩
  by_cases htie : 2 * (expansion k % 10 ^ j) = 10 ^ j
  · rw [roundQuotient_larger_of_tie htie, roundQuotient_even_of_tie htie, hq]
    by_cases heven : q % 2 = 0
    · rw [if_pos heven]
      have hmiddle : 2 * expansion k = (2 * q + 1) * 10 ^ j := by
        have hsplit := Nat.div_add_mod (expansion k) (10 ^ j)
        rw [hq] at hsplit
        linarith only [hsplit, htie]
      -- the two differ only if both neighbours read back
      cases hdown : nearest (onGrid j q) == k <;> cases hup : nearest (onGrid j (q + 1)) == k
      case true.true => exact Or.inr ⟨q, ⟨heven, hmiddle⟩, by simp [hup], by simp [hdown]⟩
      all_goals exact Or.inl (by simp [hdown, hup])
    · exact Or.inl (by rw [if_neg heven])
  · exact Or.inl (by rw [roundQuotient_of_not_tie htie .larger .even])

/-- Two searches that find the same or related values at every place have the same or related
    results. -/
theorem firstDownFrom_eq_or {α : Type} {p : α → α → Prop} {f g : Nat → Option α} {rest : α}
    (h : ∀ i, f i = g i ∨ ∃ a b, p a b ∧ f i = some a ∧ g i = some b) : ∀ j,
    firstDownFrom f rest j = firstDownFrom g rest j ∨
      p (firstDownFrom f rest j) (firstDownFrom g rest j)
  | 0 => Or.inl rfl
  | j + 1 => by
    rw [firstDownFrom, firstDownFrom]
    rcases h (j + 1) with heq | ⟨a, b, hp, hf, hg⟩
    · rw [heq]
      cases g (j + 1) with
      | some b => exact Or.inl rfl
      | none => exact firstDownFrom_eq_or h j
    · rw [hf, hg]
      exact Or.inr hp

/-- The magnitude of rank `k` lies in the middle of two neighbours on a grid, and `e` is the even one
    and `d` the other. -/
def Neighbours (k : Nat) (d e : Decimal) : Prop :=
  ∃ j c, Tied k j c ∧ d = onGrid j (c + 1) ∧ e = onGrid j c

theorem shortestFrom_eq_or_tie (k j : Nat) :
    shortestFrom .larger k j = shortestFrom .even k j ∨
      Neighbours k (shortestFrom .larger k j) (shortestFrom .even k j) := by
  refine firstDownFrom_eq_or (fun i => ?_) j
  rcases candidate_eq_or_tie k i with h | ⟨c, htied, hlarger, heven⟩
  · exact Or.inl (by rw [h])
  · exact Or.inr ⟨_, _, ⟨i, c, htied, rfl, rfl⟩, by rw [hlarger, Option.map_some],
      by rw [heven, Option.map_some]⟩

/-- **The shortest decimals are the same, or two neighbours with the magnitude in the middle.** -/
theorem shortest_eq_or_tie (k : Nat) :
    shortest .larger k = shortest .even k ∨
      Neighbours k (shortest .larger k) (shortest .even k) := by
  unfold shortest
  split_ifs
  · exact Or.inl rfl
  · exact shortestFrom_eq_or_tie k _

end Binary64

/-! ## Numbers -/

/-- The number that a decimal is. -/
def Decimal.value (d : Decimal) : ℚ := d.coefficient * 10 ^ d.exponent

theorem Decimal.value_eq_div (d : Decimal) : d.value = d.numerator / d.denominator := by
  have hpower : (10 : ℚ) ^ d.exponent = 10 ^ d.exponent.toNat / 10 ^ (-d.exponent).toNat := by
    rw [← zpow_natCast, ← zpow_natCast, ← zpow_sub₀ (by norm_num)]
    congr 1
    omega
  rw [value, hpower, numerator, denominator]
  push_cast
  rw [mul_div_assoc]

/-- Decimals that are the same number have the same value. -/
theorem Decimal.Same.value_eq {d e : Decimal} (h : d.Same e) : d.value = e.value := by
  have hd : (d.denominator : ℚ) ≠ 0 := Nat.cast_ne_zero.2 (Nat.ne_of_gt d.denominator_pos)
  have he : (e.denominator : ℚ) ≠ 0 := Nat.cast_ne_zero.2 (Nat.ne_of_gt e.denominator_pos)
  rw [value_eq_div, value_eq_div, div_eq_div_iff hd he]
  exact_mod_cast h

namespace Binary64

/-- The magnitude of rank `k`. -/
def magnitude (k : Nat) : ℚ := units k / 2 ^ 1074

/-- The number that a finite double is. -/
def value : Binary64 → ℚ
  | finite negative k => if negative then -magnitude k else magnitude k
  | _ => 0

theorem value_onGrid (j c : Nat) : (onGrid j c).value = c * 10 ^ ((j : ℤ) - 1074) := rfl

/-- The digits of the expansion are the magnitude. -/
theorem value_expansion (k : Nat) : (onGrid 0 (expansion k)).value = magnitude k := by
  obtain ⟨n, hn⟩ : ∃ n, n = 1074 := ⟨_, rfl⟩
  have hexp : ((0 : Nat) : ℤ) - 1074 = -(n : ℤ) := by omega
  have hten : (10 : ℚ) ^ n = 5 ^ n * 2 ^ n := by
    rw [← mul_pow]
    norm_num
  rw [value_onGrid, magnitude, expansion_eq hn, ← hn, hexp, zpow_neg, zpow_natCast, hten]
  push_cast
  field_simp

theorem magnitude_of_tied {k j c : Nat} (h : Tied k j c) :
    magnitude k = (c + 1 / 2) * 10 ^ ((j : ℤ) - 1074) := by
  have hmiddle : 2 * (expansion k : ℚ) = (2 * c + 1) * 10 ^ j := by exact_mod_cast h.2
  have hpower : (10 : ℚ) ^ ((j : ℤ) - 1074) = 10 ^ j * 10 ^ (((0 : Nat) : ℤ) - 1074) := by
    rw [← zpow_natCast, ← zpow_add₀ (by norm_num)]
    rfl
  rw [← value_expansion, value_onGrid, hpower]
  linear_combination 10 ^ (((0 : Nat) : ℤ) - 1074) / 2 * hmiddle

/-- **The two shortest decimals as numbers**: the same number, or the two ends of an interval with
    the magnitude in its middle, of which the lower one is even. -/
theorem value_shortest_eq_or_tie (k : Nat) :
    (shortest .larger k).value = (shortest .even k).value ∨
      ∃ (c : ℕ) (e : ℤ), c % 2 = 0 ∧ (shortest .larger k).value = (c + 1) * 10 ^ e ∧
        (shortest .even k).value = c * 10 ^ e ∧ magnitude k = (c + 1 / 2) * 10 ^ e := by
  rcases shortest_eq_or_tie k with heq | ⟨j, c, htied, hlarger, heven⟩
  · exact Or.inl (by rw [heq])
  · refine Or.inr ⟨c, (j : ℤ) - 1074, htied.1, ?_, ?_, magnitude_of_tied htied⟩
    · rw [hlarger, value_onGrid, Nat.cast_add_one]
    · rw [heven, value_onGrid]

end Binary64

end Tickscript
