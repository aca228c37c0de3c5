/-
  An integer shows its base, and is read back with it.

  The prefix of octal integers is a digit itself.  It is told apart from a decimal
  number because it stands in front of a further digit, and no decimal number of
  two digits or more begins with a zero.

  * `Base.shown_lead`: the base is told by what stands in front of the digits;
  * `Number.readInt?_render`: an integer is read back, with its base;
  * `Number.render_based`: what the written form of an integer is.
-/
import Tickscript.Proofs.Digits
import Tickscript.Proofs.Number

namespace Tickscript

/-! ## Bases -/

namespace Base

/-- The base that a text without a sign shows, and its digits: hexadecimal behind `0x`, octal
    behind a zero that a further digit follows, and decimal otherwise. -/
def shown : List Char → Base × List Char
  | '0' :: 'x' :: ds => (.hex, ds)
  | '0' :: d :: ds => if d.isDigit then (.octal, d :: ds) else (.decimal, '0' :: d :: ds)
  | ds => (.decimal, ds)

theorem shown_octal {d : Char} (hd : d.isDigit) (ds : List Char) :
    shown ('0' :: d :: ds) = (.octal, d :: ds) := by
  have hx : d ≠ 'x' := by
    rintro rfl
    exact absurd hd (by decide)
  rw [shown, if_pos hd]
  exact hx

/-- What does not begin with a zero, or is a single one, is decimal. -/
theorem shown_decimal {ds : List Char} (h : ∀ es, ds = '0' :: es → es = []) :
    shown ds = (.decimal, ds) := by
  unfold shown
  split
  · cases h _ rfl
  · cases h _ rfl
  · rfl

/-- **The base is told by its prefix.** -/
theorem shown_lead (b : Base) (n : Nat) :
    shown (b.lead ++ Nat.toDigits b.radix n) = (b, Nat.toDigits b.radix n) := by
  cases b with
  | hex => rfl
  | decimal => exact shown_decimal fun es h => (Integer.toDigits_head_zero (by decide) h).2
  | octal =>
    obtain ⟨d, ds, hd⟩ := List.exists_cons_of_ne_nil (Nat.toDigits_ne_nil (b := 8) (n := n))
    have hdigit : d.isDigit :=
      Nat.isDigit_of_mem_toDigits (b := 8) (n := n) (by decide) (by decide)
        (hd ▸ List.mem_cons_self)
    rw [lead, radix, hd]
    exact shown_octal hdigit ds

end Base

namespace Number

/-! ## Reading -/

/-- An integer and the base in which it is written: the sign is taken off, the base is told, and
    the digits are those of that base. -/
def readInt? (text : List Char) : Option (Int × Base) :=
  let (negative, rest) := Integer.unsigned text
  let (base, ds) := Base.shown rest
  (Integer.natural? base.radix ds).map fun n => (Integer.signed negative n, base)

/-- **An integer is read back, with its base.** -/
theorem readInt?_render (v : Int64) (b : Base) :
    readInt? (int v b).render = some (v.toInt, b) := by
  have hsign : decide (v < 0) = decide (v.toInt < 0) := by
    simp [Int64.lt_iff_toInt_lt]
  simp only [readInt?, render_int, Integer.unsigned_sign _ (b.head?_lead_append_ne_minus _),
    Base.shown_lead, Integer.natural?_toDigits b.one_lt_radix b.radix_le, Option.map_some, hsign,
    Integer.signed_natAbs]

/-! ## Written forms -/

/-- **An integer is a sign, a prefix and digits.**  The sign is that of a negative number, the prefix
    that of the base, and the digits are those of the absolute value, without superfluous zeros.
    The number and the base are read back from it, so that no other integer has that form in any
    base, and no double has. -/
theorem render_based (v : Int64) (b : Base) :
    (∃ ds, (int v b).render =
        (if v < 0 then ['-'] else []) ++
          (match b with
            | .decimal => []
            | .octal => ['0']
            | .hex => ['0', 'x']) ++ ds ∧
      Integer.natural? b.radix ds = some v.toInt.natAbs ∧ ∀ es, ds = '0' :: es → es = []) ∧
    readInt? (int v b).render = some (v.toInt, b) ∧
    (∀ w c, (int w c).render = (int v b).render → w = v ∧ c = b) ∧
    ∀ x, (float x).render ≠ (int v b).render := by
  refine ⟨⟨Nat.toDigits b.radix v.toInt.natAbs, ?_, ?_, fun es h => ?_⟩, readInt?_render v b,
    fun w c => render_int_injective, fun x h => ?_⟩
  · have hlead : b.lead = match b with
        | .decimal => []
        | .octal => ['0']
        | .hex => ['0', 'x'] := by cases b <;> rfl
    rw [render, Integer.sign, hlead]
    simp only [decide_eq_true_eq]
  · exact Integer.natural?_toDigits b.one_lt_radix b.radix_le
  · exact (Integer.toDigits_head_zero b.one_lt_radix h).2
  · exact point_not_mem_render_int v b (h ▸ point_mem_render_float x)

/-- The octal zero has two digits, of which the first is the prefix; it is not the decimal zero.  The
    absolute value of the smallest word is no word. -/
theorem render_based_limits :
    let n := Int64.minValue
    (int 0 .octal).render = "00".toList ∧ (int 0 .decimal).render ≠ "00".toList ∧
      (int n .hex).render = "-0x8000000000000000".toList ∧
      readInt? "-0x8000000000000000".toList = some (n.toInt, .hex) := by
  intro n
  have hzero : (int 0 .octal).render = "00".toList := by decide
  have hmin : (int n .hex).render = "-0x8000000000000000".toList := by decide
  obtain ⟨-, hread, -, -⟩ := render_based n .hex
  obtain ⟨-, -, hunique, -⟩ := render_based 0 .octal
  rw [hmin] at hread
  refine ⟨hzero, fun h => ?_, hmin, hread⟩
  have hbase := (hunique 0 .decimal (h.trans hzero.symm)).2
  cases hbase

end Number

end Tickscript
