/-
  A double in scripts and in documents.

  Scripts hold a double in plain digits, and documents hold large and small ones
  with an exponent.  Whoever reads documents takes either form for the same double.
  As numbers, the two forms are the same too, except for a double that lies in the
  middle of two decimals of which there are none shorter.

  * `Json.numeral_script`, `Json.Numeral.float?_ofScript`: the form in scripts is a
    number of documents, and the double is read back;
  * `Number.render_float`: what the two forms are;
  * `Number.render_float_ne_json`: a double whose forms are different numbers.
-/
import Tickscript.Literal.Render
import Tickscript.Proofs.Json.Intact
import Tickscript.Proofs.Ties

namespace Tickscript

/-! ## Signs -/

namespace Binary64

theorem units_pos {k : Nat} (hk : 0 < k) : 0 < units k := by
  simp only [units, Nat.pow_eq]
  split_ifs
  · exact hk
  · exact Nat.mul_pos (by omega) (Nat.pow_pos (by decide))

theorem magnitude_pos {k : Nat} (hk : 0 < k) : 0 < magnitude k :=
  div_pos (Nat.cast_pos.2 (units_pos hk)) (by positivity)

theorem magnitude_zero : magnitude 0 = 0 := by simp [magnitude, units]

/-- Negative numbers and one of the two zeros have the sign. -/
theorem negative_iff (negative : Bool) (k : Fin magnitudes) :
    negative ↔ (finite negative k).value < 0 ∨ finite negative k = zero true := by
  rcases Nat.eq_zero_or_pos k.val with hk | hk
  · have hzero : k = ⟨0, by decide⟩ := Fin.ext hk
    cases negative <;> simp [value, hzero, magnitude_zero, zero]
  · have hpos := magnitude_pos hk
    have hne : k ≠ ⟨0, by decide⟩ := fun h => by simp [h] at hk
    cases negative
    · simp [value, zero, hpos.le]
    · simp [value, hpos]

end Binary64

namespace Json

/-! ## Numbers of documents -/

/-- The double of a sign and a rank as it is written in scripts. -/
def Numeral.ofScript (negative : Bool) (k : Nat) : Numeral :=
  ⟨negative, (Binary64.shortest .larger k).fixed, false⟩

/-- The form in scripts is read back. -/
theorem Numeral.float?_ofScript (negative : Bool) (k : Fin Binary64.magnitudes) :
    (Numeral.ofScript negative k).float? = some (.finite negative k) :=
  float?_of_same (Decimal.same_fixed _)

/-- **A double in plain digits is scanned**, up to what follows. -/
theorem numeral_script (negative : Bool) (k : Fin Binary64.magnitudes) {rest : List Char}
    (h : Stops rest) : numeral ((Binary64.finite negative k).script ++ rest)
      = .ok (.ofScript negative k, rest) := by
  have hhead : ((Binary64.shortest .larger k).plain ++ rest).head? ≠ some '-' := by
    obtain ⟨c, cs, hcs, -⟩ := (Binary64.shortest .larger k).plain_eq_cons
    rw [List.head?_append_of_ne_nil _ (hcs ▸ List.cons_ne_nil c cs)]
    exact Binary64.head?_plain_ne_minus _
  rw [Binary64.script_finite, List.append_assoc, numeral_sign _ hhead,
    unsignedNumeral_plain negative _ h]
  rfl

/-- A double in plain digits begins with a sign or a digit. -/
theorem script_eq_cons (negative : Bool) (k : Fin Binary64.magnitudes) :
    ∃ c cs, (Binary64.finite negative k).script = c :: cs ∧ Integer.Numeral c := by
  rw [Binary64.script_finite]
  exact sign_append_eq_cons negative (Decimal.plain_eq_cons _)

/-- A text that is one number is read as the nearest double. -/
theorem parse_float_of_numeral {text cs : List Char} {c : Char} {n : Numeral} {x : Binary64}
    (htext : text = c :: cs) (hc : Integer.Numeral c) (hn : numeral text = .ok (n, []))
    (hx : n.float? = some x) : Codec.float.parse text = .ok x := by
  subst htext
  have hspells : Spells (c :: cs) (.scalar (.number n)) := by
    rw [Spells, tokens_number hc hn, Token.tokens]
    rfl
  rw [Codec.parse, Reader.parse_of_spells _ hspells]
  simp only [Codec.float, Reader.float, hx]

end Json

/-! ## Both forms -/

open Json (Codec Numeral numeral Stops)

namespace Number

/-- **The two forms of a finite double.**  In scripts it has digits on both sides of a point and no
    exponent, behind a minus sign if it is negative or the zero with a sign.  Both forms are numbers
    of documents, wherever they stand, and are read back as the double.  They are the same number,
    unless the double lies in the middle of two neighbouring decimals that both read back; then
    documents hold the even one, and scripts the one that is larger in size. -/
theorem render_float (negative : Bool) (k : Fin Binary64.magnitudes) :
    let x : Binary64 := .finite negative k
    (negative ↔ x.value < 0 ∨ x = .zero true) ∧
    (∃ whole part, (float x).render = (if negative then ['-'] else []) ++ whole ++ '.' :: part ∧
      whole ≠ [] ∧ part ≠ [] ∧ ∀ c ∈ whole ++ part, c.isDigit) ∧
    Codec.float.parse (float x).render = .ok x ∧ Codec.float.parse x.json = .ok x ∧
    ∃ m n : Numeral,
      (∀ rest, Stops rest → numeral ((float x).render ++ rest) = .ok (m, rest) ∧
        numeral (x.json ++ rest) = .ok (n, rest)) ∧
      m.float? = some x ∧ n.float? = some x ∧ m.negative = negative ∧ n.negative = negative ∧
      (m.decimal.value = n.decimal.value ∨ ∃ (c : ℕ) (e : ℤ), c % 2 = 0 ∧
        m.decimal.value = (c + 1) * 10 ^ e ∧ n.decimal.value = c * 10 ^ e ∧
        Binary64.magnitude k = (c + 1 / 2) * 10 ^ e) := by
  intro x
  have hscript := fun rest (h : Stops rest) => Json.numeral_script negative k h
  have hjson := fun rest (h : Stops rest) => Json.numeral_json negative k h
  obtain ⟨c, cs, hc, hnumeral⟩ := Json.script_eq_cons negative k
  obtain ⟨d, ds, hd, hnumeral'⟩ := Json.json_eq_cons negative k
  have hm_value := (Decimal.same_fixed (Binary64.shortest .larger k)).value_eq
  have hn_value := (Json.same_written (Binary64.shortest .even k)).value_eq
  have hm := Numeral.float?_ofScript negative k
  have hn := Numeral.float?_ofFinite negative k
  refine ⟨Binary64.negative_iff negative k, ?_, ?_, ?_, .ofScript negative k,
    .ofFinite negative k, fun rest h => ⟨hscript rest h, hjson rest h⟩, hm, hn, rfl, rfl, ?_⟩
  · refine ⟨_, _, ?_, (Binary64.shortest .larger k).wholeDigits_ne_nil,
      (Binary64.shortest .larger k).partDigits_ne_nil, fun c hc => ?_⟩
    · rw [render, Binary64.script_finite, Decimal.plain_eq_parts, List.append_assoc]
      rfl
    · rcases List.mem_append.1 hc with hc | hc
      · exact Decimal.isDigit_of_mem_wholeDigits _ hc
      · exact Decimal.isDigit_of_mem_partDigits _ hc
  · have htext := hscript [] Json.stops_nil
    rw [List.append_nil] at htext
    exact Json.parse_float_of_numeral hc hnumeral htext hm
  · have htext := hjson [] Json.stops_nil
    rw [List.append_nil] at htext
    exact Json.parse_float_of_numeral hd hnumeral' htext hn
  · simp only [Numeral.ofScript, Numeral.ofFinite, ← hm_value, ← hn_value]
    exact Binary64.value_shortest_eq_or_tie k

theorem render_float_large :
    let x : Binary64 := .finite false ⟨0x4341c37937e08000, by decide⟩
    (float x).render = "10000000000000000.0".toList ∧ x.json = "1e+16".toList ∧
      ∃ m n : Numeral, numeral (float x).render = .ok (m, []) ∧ numeral x.json = .ok (n, []) ∧
        m.float? = some x ∧ n.float? = some x := by
  refine ⟨by decide +kernel, by decide +kernel, ?_⟩
  obtain ⟨-, -, -, -, m, n, hread, hm, hn, -⟩ := render_float false ⟨0x4341c37937e08000, by decide⟩
  obtain ⟨hscript, hjson⟩ := hread [] Json.stops_nil
  rw [List.append_nil] at hscript hjson
  exact ⟨m, n, hscript, hjson, hm, hn⟩

/-- The double lies in the middle of the two decimals. -/
theorem render_float_ne_json :
    let x : Binary64 := .finite false ⟨0x3ec1000000000000, by decide⟩
    (float x).render = "0.0000020265579223632813".toList ∧
      x.json = "2.0265579223632812e-6".toList ∧
      ∃ m n : Numeral, numeral (float x).render = .ok (m, []) ∧ numeral x.json = .ok (n, []) ∧
        m.decimal.value ≠ n.decimal.value := by
  intro x
  have hscript : (float x).render = "0.0000020265579223632813".toList := by decide +kernel
  have hjson : x.json = "2.0265579223632812e-6".toList := by decide +kernel
  refine ⟨hscript, hjson, ⟨false, ⟨20265579223632813, -22⟩, false⟩,
    ⟨false, ⟨20265579223632812, -22⟩, false⟩, by rw [hscript]; rfl, by rw [hjson]; rfl, ?_⟩
  norm_num [Decimal.value]

end Number

end Tickscript
