/-
  Numbers and their written forms.

  An integer shows its base: only hexadecimal ones have an `x`, and of the others
  only octal ones have a zero in front of a further digit.  A double has a point,
  and an integer has none.

  * `Number.render_int_injective`: an integer of either sign and its base are
    recovered from the written form;
  * `Number.mem_render_int`, `Number.mem_render_float`: the characters of numbers.
-/
import Tickscript.Literal.Render
import Tickscript.Proofs.Shortest

namespace Tickscript

open Integer (Numeral Hex)

namespace Base

theorem one_lt_radix (b : Base) : 1 < b.radix := by cases b <;> decide

theorem radix_le (b : Base) : b.radix ≤ 16 := by cases b <;> decide

/-- A prefix and digits behind it are no sign. -/
theorem head?_lead_append_ne_minus (b : Base) (n : Nat) :
    (b.lead ++ Nat.toDigits b.radix n).head? ≠ some '-' := by
  cases b with
  | decimal => exact Integer.head?_toDigits_ne_minus (one_lt_radix _) (radix_le _)
  | octal => simp [lead]
  | hex => simp [lead]

/-- **The base is recovered**, and with it the number. -/
theorem lead_append_injective {b c : Base} {m n : Nat}
    (h : b.lead ++ Nat.toDigits b.radix m = c.lead ++ Nat.toDigits c.radix n) : b = c ∧ m = n := by
  -- decimal digits do not go on behind a zero
  have hzero : ∀ {k : Nat} {s : List Char}, s ≠ [] → Nat.toDigits 10 k ≠ '0' :: s := by
    intro k s hs h
    exact hs (Integer.toDigits_head_zero (by decide) h).2
  -- there is no `x` among octal digits
  have hx : ∀ {k : Nat} {s : List Char}, Nat.toDigits 8 k ≠ 'x' :: s := by
    intro k s h
    have hmem : 'x' ∈ Nat.toDigits 8 k := h ▸ List.mem_cons_self
    exact absurd (Nat.isDigit_of_mem_toDigits (by decide) (by decide) hmem) (by decide)
  cases b <;> cases c
  case decimal.decimal =>
    exact ⟨rfl, Integer.toDigits_injective (one_lt_radix _) (radix_le _) h⟩
  case decimal.octal => exact absurd h (hzero Nat.toDigits_ne_nil)
  case decimal.hex => exact absurd h (hzero (List.cons_ne_nil _ _))
  case octal.decimal => exact absurd h.symm (hzero Nat.toDigits_ne_nil)
  case octal.octal =>
    exact ⟨rfl, Integer.toDigits_injective (one_lt_radix _) (radix_le _) (List.cons_injective h)⟩
  case octal.hex => exact absurd (List.cons_injective h) hx
  case hex.decimal => exact absurd h.symm (hzero (List.cons_ne_nil _ _))
  case hex.octal => exact absurd (List.cons_injective h).symm hx
  case hex.hex =>
    exact ⟨rfl, Integer.toDigits_injective (one_lt_radix _) (radix_le _)
      (List.cons_injective (List.cons_injective h))⟩

end Base

namespace Number

theorem render_int (v : Int64) (b : Base) : (int v b).render =
    Integer.sign (v < 0) ++ (b.lead ++ Nat.toDigits b.radix v.toInt.natAbs) := by
  rw [render, List.append_assoc]

/-- **An integer and its base are recovered from their written form.** -/
theorem render_int_injective {v w : Int64} {b c : Base} (h : (int v b).render = (int w c).render) :
    v = w ∧ b = c := by
  rw [render_int, render_int] at h
  obtain ⟨hsign, hdigits⟩ := Integer.sign_append_injective (b.head?_lead_append_ne_minus _)
    (c.head?_lead_append_ne_minus _) h
  obtain ⟨hbase, habs⟩ := Base.lead_append_injective hdigits
  refine ⟨Int64.toInt_inj.1 (Integer.eq_of_sign_natAbs ?_ habs), hbase⟩
  simpa [Int64.lt_iff_toInt_lt] using hsign

/-! ## Characters -/

/-- A character of an integer in any base. -/
theorem mem_render_int {v : Int64} {b : Base} {c : Char} (h : c ∈ (int v b).render) :
    c = '-' ∨ c = 'x' ∨ Hex c := by
  rw [render_int] at h
  rcases List.mem_append.1 h with h | h
  · cases hv : decide (v < 0) <;> simp_all [Integer.sign]
  rcases List.mem_append.1 h with h | h
  · cases b <;> simp [Base.lead] at h
    · exact Or.inr (Or.inr ⟨0, by decide, h.symm⟩)
    · rcases h with rfl | rfl
      · exact Or.inr (Or.inr ⟨0, by decide, rfl⟩)
      · exact Or.inr (Or.inl rfl)
  · exact Or.inr (Or.inr (Integer.hex_of_mem_toDigits b.one_lt_radix b.radix_le h))

theorem not_mem_render_int {v : Int64} {b : Base} {c : Char} (hm : c ≠ '-') (hx : c ≠ 'x')
    (hh : ¬ Hex c) : c ∉ (int v b).render := by
  intro h
  rcases mem_render_int h with h | h | h
  · exact hm h
  · exact hx h
  · exact hh h

theorem point_not_mem_render_int (v : Int64) (b : Base) : '.' ∉ (int v b).render :=
  not_mem_render_int (by decide) (by decide) fun h => h.of_forall (p := (· ≠ '.')) (by decide) rfl

/-- An integer has an `x`, or is made of the characters of a decimal one. -/
theorem render_int_cases (v : Int64) (b : Base) :
    'x' ∈ (int v b).render ∨ ∀ c ∈ (int v b).render, Numeral c := by
  rw [render_int]
  cases b with
  | hex => exact Or.inl (List.mem_append_right _ (by simp [Base.lead]))
  | decimal =>
    refine Or.inr fun c h => ?_
    rcases List.mem_append.1 h with h | h
    · exact Integer.numeral_of_mem_sign h
    · exact Integer.numeral_of_mem_toDigits (by decide) (by decide) h
  | octal =>
    refine Or.inr fun c h => ?_
    rcases List.mem_append.1 h with h | h
    · exact Integer.numeral_of_mem_sign h
    · rcases List.mem_cons.1 h with rfl | h
      · exact Or.inr (by decide)
      · exact Integer.numeral_of_mem_toDigits (by decide) (by decide) h

theorem mem_plain {d : Decimal} {c : Char} (h : c ∈ d.plain) : c = '.' ∨ c.isDigit := by
  rw [Decimal.plain_eq] at h
  rcases List.mem_append.1 h with h | h
  · exact Or.inr (d.isDigit_of_mem_plainDigits (List.mem_of_mem_take h))
  rcases List.mem_cons.1 h with h | h
  · exact Or.inl h
  · exact Or.inr (d.isDigit_of_mem_plainDigits (List.mem_of_mem_drop h))

/-- A double is made of the characters of a decimal integer and a point. -/
theorem mem_render_float {x : Binary64} (hx : x.isFinite) {c : Char} (h : c ∈ (float x).render) :
    c = '.' ∨ Numeral c := by
  cases x with
  | nan => simp [Binary64.isFinite] at hx
  | infinite => simp [Binary64.isFinite] at hx
  | finite p k =>
    rw [render, Binary64.script_finite] at h
    rcases List.mem_append.1 h with h | h
    · exact Or.inr (Integer.numeral_of_mem_sign h)
    · rcases mem_plain h with h | h
      · exact Or.inl h
      · exact Or.inr (Or.inr h)

theorem point_mem_render_float (x : Binary64) : '.' ∈ (float x).render := by
  cases x with
  | nan => decide
  | infinite negative => cases negative <;> decide
  | finite negative k =>
    rw [render, Binary64.script_finite, Decimal.plain_eq]
    exact List.mem_append_right _ (List.mem_append_right _ List.mem_cons_self)

end Number

end Tickscript
