/-
  Words: runs of characters of one kind, above all the digits of numbers.

  * `append_unique`: where a run of one kind ends is certain, if something else
    follows;
  * `Integer.toDigits_injective`: a number is recovered from its digits, in any
    base up to sixteen, and no superfluous zero stands in front of them;
  * `Integer.sign_append_injective`: a sign is told apart from what stands behind
    it, and so `Integer.decimal_injective`.
-/
import Mathlib.Data.List.Basic
import Tickscript.Integer

namespace Tickscript

/-! ## Runs -/

/-- **A run ends where its kind ends.**  What stands behind it is empty or begins with something of
    another kind. -/
theorem append_unique {α : Type} {p : α → Prop} : ∀ {xs ys zs ws : List α}, (∀ x ∈ xs, p x) →
    (∀ y ∈ ys, p y) → (∀ z ∈ zs.head?, ¬ p z) → (∀ w ∈ ws.head?, ¬ p w) →
    xs ++ zs = ys ++ ws → xs = ys ∧ zs = ws
  | [], [], _, _, _, _, _, _, h => ⟨rfl, h⟩
  | [], y :: ys, _, _, _, hy, hz, _, h => by
    simp only [List.nil_append, List.cons_append] at h
    subst h
    exact absurd (hy y List.mem_cons_self) (hz y rfl)
  | x :: xs, [], _, _, hx, _, _, hw, h => by
    simp only [List.nil_append, List.cons_append] at h
    subst h
    exact absurd (hx x List.mem_cons_self) (hw x rfl)
  | x :: xs, y :: ys, _, _, hx, hy, hz, hw, h => by
    simp only [List.cons_append, List.cons.injEq] at h
    obtain ⟨rfl, h⟩ := h
    obtain ⟨rfl, rfl⟩ := append_unique (fun z hz => hx z (List.mem_cons_of_mem x hz))
      (fun z hz => hy z (List.mem_cons_of_mem x hz)) hz hw h
    exact ⟨rfl, rfl⟩

namespace Integer

/-! ## Digits -/

variable {b m n : Nat}

/-- A digit of a base up to sixteen. -/
def Hex (c : Char) : Prop := ∃ d < 16, Nat.digitChar d = c

theorem hex_digitChar {d : Nat} (h : d < 16) : Hex d.digitChar := ⟨d, h, rfl⟩

/-- What is true of all sixteen digits is true of a digit. -/
theorem Hex.of_forall {p : Char → Prop} {c : Char} (hc : Hex c)
    (h : ∀ d < 16, p (Nat.digitChar d)) : p c := by
  obtain ⟨d, hd, rfl⟩ := hc
  exact h d hd

theorem digitChar_injective (hm : m < 16) (hn : n < 16) (h : m.digitChar = n.digitChar) : m = n := by
  have hall : ∀ i < 16, ∀ j < 16, i.digitChar = j.digitChar → i = j := by decide
  exact hall m hm n hn h

theorem hex_of_mem_toDigits (hb : 1 < b) (hb' : b ≤ 16) {c : Char} (h : c ∈ Nat.toDigits b n) :
    Hex c := by
  induction n using Nat.strongRecOn with
  | ind n ih =>
    rcases Nat.lt_or_ge n b with hn | hn
    · rw [Nat.toDigits_of_lt_base hn, List.mem_singleton] at h
      exact h ▸ hex_digitChar (Nat.lt_of_lt_of_le hn hb')
    · rw [Nat.toDigits_of_base_le hb hn, List.mem_append, List.mem_singleton] at h
      rcases h with h | rfl
      · exact ih (n / b) (Nat.div_lt_self (by omega) hb) h
      · exact hex_digitChar (Nat.lt_of_lt_of_le (Nat.mod_lt n (by omega)) hb')

/-- **A number is recovered from its digits.** -/
theorem toDigits_injective (hb : 1 < b) (hb' : b ≤ 16) :
    Nat.toDigits b m = Nat.toDigits b n → m = n := by
  -- a number of one digit differs in length from a number of more
  have hshort : ∀ {i j : Nat}, i < b → b ≤ j → Nat.toDigits b i ≠ Nat.toDigits b j := by
    intro i j hi hj h
    rw [Nat.toDigits_of_lt_base hi, Nat.toDigits_of_base_le hb hj] at h
    have hlen := congrArg List.length h
    have hpos := List.length_pos_iff.2 (Nat.toDigits_ne_nil (b := b) (n := j / b))
    simp only [List.length_append, List.length_singleton] at hlen
    omega
  induction m using Nat.strongRecOn generalizing n with
  | ind m ih =>
    intro h
    rcases Nat.lt_or_ge m b with hm | hm <;> rcases Nat.lt_or_ge n b with hn | hn
    · rw [Nat.toDigits_of_lt_base hm, Nat.toDigits_of_lt_base hn, List.singleton_inj] at h
      exact digitChar_injective (by omega) (by omega) h
    · exact absurd h (hshort hm hn)
    · exact absurd h.symm (hshort hn hm)
    · rw [Nat.toDigits_of_base_le hb hm, Nat.toDigits_of_base_le hb hn] at h
      obtain ⟨hquot, hlast⟩ := List.append_inj' h rfl
      have hm' := Nat.mod_lt m (show 0 < b by omega)
      have hn' := Nat.mod_lt n (show 0 < b by omega)
      have hdiv : m / b = n / b := ih (m / b) (Nat.div_lt_self (by omega) hb) hquot
      have hmod : m % b = n % b :=
        digitChar_injective (by omega) (by omega) (List.singleton_inj.1 hlast)
      rw [← Nat.div_add_mod m b, ← Nat.div_add_mod n b, hdiv, hmod]

/-- Only zero begins with a zero. -/
theorem toDigits_head_zero (hb : 1 < b) {ds : List Char} :
    Nat.toDigits b n = '0' :: ds → n = 0 ∧ ds = [] := by
  induction n using Nat.strongRecOn generalizing ds with
  | ind n ih =>
    intro h
    rcases Nat.lt_or_ge n b with hn | hn
    · rw [Nat.toDigits_of_lt_base hn, List.cons.injEq] at h
      exact ⟨Nat.digitChar_eq_zero.1 h.1, h.2.symm⟩
    · -- the first digit is the first digit of the quotient, which is not zero
      have hquot : n / b ≠ 0 := Nat.ne_of_gt (Nat.div_pos hn (by omega))
      cases hd : Nat.toDigits b (n / b) with
      | nil => exact absurd hd Nat.toDigits_ne_nil
      | cons d es =>
        rw [Nat.toDigits_of_base_le hb hn, hd, List.cons_append, List.cons.injEq] at h
        exact absurd (ih (n / b) (Nat.div_lt_self (by omega) hb) (h.1 ▸ hd)).1 hquot

/-! ## Signs -/

/-- A sign is read off, if the rest does not begin with a minus. -/
theorem sign_append_injective {p q : Bool} {s t : List Char} (hs : s.head? ≠ some '-')
    (ht : t.head? ≠ some '-') (h : sign p ++ s = sign q ++ t) : p = q ∧ s = t := by
  cases p <;> cases q
  · exact ⟨rfl, h⟩
  · exact absurd (congrArg List.head? h) (by simpa [sign] using hs)
  · exact absurd (congrArg List.head? h.symm) (by simpa [sign] using ht)
  · exact ⟨rfl, List.cons_injective h⟩

theorem Hex.ne_minus {c : Char} (h : Hex c) : c ≠ '-' := h.of_forall (p := (· ≠ '-')) (by decide)

theorem head?_toDigits_ne_minus (hb : 1 < b) (hb' : b ≤ 16) :
    (Nat.toDigits b n).head? ≠ some '-' := by
  intro h
  exact (hex_of_mem_toDigits hb hb' (List.mem_of_mem_head? h)).ne_minus rfl

/-- A character of an integer in decimal. -/
def Numeral (c : Char) : Prop := c = '-' ∨ c.isDigit

instance (c : Char) : Decidable (Numeral c) := inferInstanceAs (Decidable (_ ∨ _))

theorem numeral_of_mem_sign {p : Bool} {c : Char} (h : c ∈ sign p) : Numeral c := by
  cases p with
  | true => exact Or.inl (by simpa [sign] using h)
  | false => simp [sign] at h

theorem numeral_of_mem_toDigits (hb : 0 < b) (hb' : b ≤ 10) {c : Char}
    (h : c ∈ Nat.toDigits b n) : Numeral c := Or.inr (Nat.isDigit_of_mem_toDigits hb hb' h)

theorem numeral_of_mem_decimal {i : Int} {c : Char} (h : c ∈ decimal i) : Numeral c := by
  rcases List.mem_append.1 h with h | h
  · exact numeral_of_mem_sign h
  · exact numeral_of_mem_toDigits (by decide) (by decide) h

/-- An integer is its sign and its size. -/
theorem eq_of_sign_natAbs {i j : Int} (hs : decide (i < 0) = decide (j < 0))
    (ha : i.natAbs = j.natAbs) : i = j := by
  have hs' : i < 0 ↔ j < 0 := by simpa using hs
  omega

theorem decimal_injective {i j : Int} (h : decimal i = decimal j) : i = j := by
  obtain ⟨hs, hd⟩ := sign_append_injective (head?_toDigits_ne_minus (by decide) (by decide))
    (head?_toDigits_ne_minus (by decide) (by decide)) h
  exact eq_of_sign_natAbs hs (toDigits_injective (by decide) (by decide) hd)

end Integer

end Tickscript
