/-
  Doubles are recovered from their written forms.

  * `Decimal.plain_injective`: the plain layout determines the number, for its
    digits and the place of the point do;
  * `Binary64.nearest_shortest`: the shortest decimal of a magnitude reads back as
    that magnitude, whichever candidates the search tried before;
  * `Binary64.script_injective`: finite doubles that scripts hold in the same form
    are the same, down to the sign of a zero.
-/
import Mathlib.Tactic.Ring
import Tickscript.Binary64.Shortest
import Tickscript.Proofs.Words
import Tickscript.Proofs.Rounding

namespace Tickscript

/-! ## Plain layout -/

namespace Decimal

variable (d : Decimal)

/-- The number in units of its last written place. -/
def fixed : Decimal := ⟨d.scaled, -d.places⟩

theorem same_fixed : d.Same d.fixed := by
  have hp : (-d.exponent).toNat ≤ d.places := Nat.le_max_right ..
  have hnum : d.fixed.numerator = d.scaled := by
    have : (-(d.places : Int)).toNat = 0 := by omega
    rw [numerator, fixed, this, Nat.pow_zero, Nat.mul_one]
  have hden : d.fixed.denominator = 10 ^ d.places := by simp [denominator, fixed]
  -- the point is moved by as many places to both sides
  have hexp : d.exponent.toNat + d.places =
      (d.exponent + d.places).toNat + (-d.exponent).toNat := by omega
  rw [Same, hnum, hden, numerator, scaled, denominator, Nat.pow_eq, Nat.mul_assoc, ← Nat.pow_add,
    hexp, Nat.pow_add, Nat.mul_assoc]

/-- The digits of the plain layout, with zeros in front up to one before the point. -/
def plainDigits : List Char := (Nat.toDigits 10 d.scaled).leftpad (d.places + 1) '0'

theorem plain_eq : d.plain = d.plainDigits.take (d.plainDigits.length - d.places) ++
    '.' :: d.plainDigits.drop (d.plainDigits.length - d.places) := rfl

theorem places_lt_length : d.places < d.plainDigits.length := by
  simp only [plainDigits, List.length_leftpad]
  omega

theorem isDigit_of_mem_plainDigits {c : Char} (h : c ∈ d.plainDigits) : c.isDigit := by
  rcases List.mem_append.1 h with h | h
  · rw [List.eq_of_mem_replicate h]
    decide
  · exact Nat.isDigit_of_mem_toDigits (by decide) (by decide) h

theorem ofDigitChars_plainDigits : Nat.ofDigitChars 10 d.plainDigits 0 = d.scaled := by
  have hzeros : ∀ n ds, Nat.ofDigitChars 10 (List.replicate n '0' ++ ds) 0 =
      Nat.ofDigitChars 10 ds 0 := by
    intro n ds
    induction n with
    | zero => rfl
    | succ n ih =>
      rw [List.replicate_succ, List.cons_append, Nat.ofDigitChars_cons]
      exact ih
  rw [plainDigits, List.leftpad, hzeros, Nat.ofDigitChars_toDigits (by decide) (by decide)]

/-- The plain layout begins with a digit. -/
theorem plain_eq_cons : ∃ c s, d.plain = c :: s ∧ c.isDigit := by
  have hlt := d.places_lt_length
  cases hd : d.plainDigits with
  | nil => simp [hd] at hlt
  | cons c ds =>
    obtain ⟨n, hn⟩ : ∃ n, d.plainDigits.length - d.places = n + 1 :=
      ⟨d.plainDigits.length - d.places - 1, by omega⟩
    have hplain : d.plain = c :: (ds.take n ++ '.' :: (c :: ds).drop (n + 1)) := by
      rw [plain_eq, hn, hd, List.take_succ_cons, List.cons_append]
    exact ⟨c, _, hplain, d.isDigit_of_mem_plainDigits (hd ▸ List.mem_cons_self)⟩

variable {d}

/-- **The plain layout determines the number.** -/
theorem plain_injective {e : Decimal} (h : d.plain = e.plain) : d.fixed = e.fixed := by
  have hpoint : ∀ (f : Decimal), '.' ∉ f.plainDigits := by
    intro f hf
    exact absurd (f.isDigit_of_mem_plainDigits hf) (by decide)
  rw [plain_eq, plain_eq] at h
  obtain ⟨hwhole, -, hpart⟩ := (List.append_cons_inj_of_notMem
    (fun hm => hpoint d (List.mem_of_mem_take hm)) (fun hm => hpoint d (List.mem_of_mem_drop hm))).1 h
  have hdigits : d.plainDigits = e.plainDigits := by
    rw [← List.take_append_drop (d.plainDigits.length - d.places) d.plainDigits, hwhole, hpart,
      List.take_append_drop]
  have hplaces : d.places = e.places := by
    have hlen := congrArg List.length hpart
    have hd := d.places_lt_length
    have he := e.places_lt_length
    simp only [List.length_drop] at hlen
    omega
  have hscaled : d.scaled = e.scaled := by
    rw [← ofDigitChars_plainDigits, ← ofDigitChars_plainDigits, hdigits]
  rw [fixed, fixed, hscaled, hplaces]

theorem same_of_plain_eq {e : Decimal} (h : d.plain = e.plain) : d.Same e := by
  have hd := d.same_fixed
  have he := e.same_fixed
  rw [plain_injective h] at hd
  have hpos := e.fixed.denominator_pos
  refine Nat.eq_of_mul_eq_mul_right hpos ?_
  calc d.numerator * e.denominator * e.fixed.denominator
      = d.numerator * e.fixed.denominator * e.denominator := by ring
    _ = e.fixed.numerator * e.denominator * d.denominator := by rw [hd]; ring
    _ = e.numerator * d.denominator * e.fixed.denominator := by rw [← he]; ring

end Decimal

namespace Binary64

/-! ## Shortest decimals -/

/-- The exponent is a variable, for a power with a numeral of that size is not evaluated. -/
theorem expansion_eq {n : Nat} (hn : n = 1074) (k : Nat) : expansion k = units k * 5 ^ n := by
  rw [expansion, ← hn, Nat.pow_eq]

theorem decimalRank_expansion (k : Nat) : decimalRank (onGrid 0 (expansion k)) = k := by
  obtain ⟨n, hn⟩ : ∃ n, n = 1074 := ⟨_, rfl⟩
  have hnum : (onGrid 0 (expansion k)).numerator = units k * 5 ^ n := by
    have hexp : ((0 : Nat) - 1074 : Int).toNat = 0 := rfl
    rw [Decimal.numerator, onGrid, hexp, Nat.pow_zero, Nat.mul_one, expansion_eq hn]
  have hden : (onGrid 0 (expansion k)).denominator = 10 ^ n := by
    rw [hn]
    rfl
  have hpower : (10 : Nat) ^ n = 1 * (5 ^ n * 2 ^ n) := by rw [← Nat.mul_pow, Nat.one_mul]
  have hpos : 0 < 5 ^ n * 2 ^ n := Nat.mul_pos (Nat.pow_pos (by decide)) (Nat.pow_pos (by decide))
  rw [decimalRank, hnum, hden, ← hn, hpower, Nat.mul_assoc, nearestRank_mul_right hpos,
    nearestRank_units]

theorem nearest_expansion {k : Nat} (hk : k < magnitudes) :
    nearest (onGrid 0 (expansion k)) = k := by
  have hrank := decimalRank_expansion k
  rw [nearest_eq_of_decimalRank_lt (by omega), hrank]

theorem nearest_candidate {tie : Tie} {k j c : Nat} (h : candidate tie k j = some c) :
    nearest (onGrid j c) = k := by
  simpa using List.find?_some h

/-- What is true of every value and of the rest is true of the first value. -/
theorem firstDownFrom_of_forall {α : Type} {p : α → Prop} {f : Nat → Option α} {rest : α}
    (hf : ∀ i a, f i = some a → p a) (hrest : p rest) : ∀ j, p (firstDownFrom f rest j)
  | 0 => hrest
  | j + 1 => by
    rw [firstDownFrom]
    cases h : f (j + 1) with
    | some a => exact hf (j + 1) a h
    | none => exact firstDownFrom_of_forall hf hrest j

theorem nearest_shortestFrom (tie : Tie) {k : Nat} (hk : k < magnitudes) (j : Nat) :
    nearest (shortestFrom tie k j) = k := by
  refine firstDownFrom_of_forall (p := fun d => nearest d = k) (fun i d h => ?_)
    (nearest_expansion hk) j
  obtain ⟨c, hc, rfl⟩ := Option.map_eq_some_iff.1 h
  exact nearest_candidate hc

/-- **The shortest decimal reads back.** -/
theorem nearest_shortest (tie : Tie) {k : Nat} (hk : k < magnitudes) :
    nearest (shortest tie k) = k := by
  unfold shortest
  split_ifs with h0
  · rw [h0]
    rfl
  · exact nearest_shortestFrom tie hk _

/-- A magnitude is recovered from its shortest decimal in plain digits. -/
theorem plain_shortest_injective {tie : Tie} {j k : Nat} (hj : j < magnitudes)
    (hk : k < magnitudes) (h : (shortest tie j).plain = (shortest tie k).plain) : j = k := by
  have hmin := nearest_congr (Decimal.same_of_plain_eq h)
  rw [nearest_shortest tie hj, nearest_shortest tie hk] at hmin
  omega

/-! ## Written doubles -/

theorem script_finite (negative : Bool) (k : Fin magnitudes) : (finite negative k).script =
    Integer.sign negative ++ (shortest .larger k).plain := rfl

theorem head?_plain_ne_minus (d : Decimal) : d.plain.head? ≠ some '-' := by
  obtain ⟨c, s, hs, hc⟩ := d.plain_eq_cons
  rw [hs, List.head?_cons, ne_eq, Option.some_inj]
  rintro rfl
  exact absurd hc (by decide)

/-- **A finite double is recovered from its form in scripts.** -/
theorem script_injective {x y : Binary64} (hx : x.isFinite) (hy : y.isFinite)
    (h : x.script = y.script) : x = y := by
  cases x with
  | nan => simp [isFinite] at hx
  | infinite => simp [isFinite] at hx
  | finite p j =>
    cases y with
    | nan => simp [isFinite] at hy
    | infinite => simp [isFinite] at hy
    | finite q k =>
      rw [script_finite, script_finite] at h
      obtain ⟨hsign, hplain⟩ := Integer.sign_append_injective (head?_plain_ne_minus _)
        (head?_plain_ne_minus _) h
      have hrank : j = k := Fin.ext (plain_shortest_injective j.isLt k.isLt hplain)
      rw [hsign, hrank]

end Binary64

end Tickscript
