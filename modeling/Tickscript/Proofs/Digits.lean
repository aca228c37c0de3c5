/-
  Integers are read back from their digits.

  * `Integer.natural?` reads digits of a base up to sixteen, and
    `Integer.unsigned` takes off the sign in front of them;
  * `Integer.natural?_toDigits`: the digits of a number are read as that number, in
    every base;
  * `Integer.unsigned_sign`: a sign is taken off, whatever digits follow it;
  * `Integer.decimal?_decimal`: so an integer is read back from its decimal form.
-/
import Tickscript.Proofs.Words

namespace Tickscript.Integer

/-! ## Readers -/

/-- The value of a digit of a base. -/
def digit? (b : Nat) (c : Char) : Option Nat := (List.range b).find? fun d => d.digitChar == c

/-- The number that at least one digit spells, the most significant first. -/
def natural? (b : Nat) (ds : List Char) : Option Nat :=
  if ds.isEmpty then none else ds.foldlM (fun n c => (digit? b c).map (b * n + ·)) 0

/-- Whether a minus stands in front, and what stands behind it. -/
def unsigned : List Char → Bool × List Char
  | '-' :: cs => (true, cs)
  | cs => (false, cs)

/-- The integer of a sign and a size. -/
def signed (negative : Bool) (n : Nat) : Int := if negative then -n else n

/-- An integer in decimal. -/
def decimal? (text : List Char) : Option Int :=
  (natural? 10 (unsigned text).2).map (signed (unsigned text).1)

/-! ## Laws -/

variable {b n : Nat}

theorem digit?_digitChar {d : Nat} (hd : d < b) (hb : b ≤ 16) : digit? b d.digitChar = some d := by
  cases h : digit? b d.digitChar with
  | none => exact absurd BEq.rfl (List.find?_eq_none.1 h d (List.mem_range.2 hd))
  | some e =>
    have he : e < b := List.mem_range.1 (List.mem_of_find?_eq_some h)
    have hchar : e.digitChar = d.digitChar := by simpa using List.find?_some h
    rw [digitChar_injective (by omega) (by omega) hchar]

theorem foldlM_toDigits (hb : 1 < b) (hb' : b ≤ 16) :
    (Nat.toDigits b n).foldlM (fun n c => (digit? b c).map (b * n + ·)) 0 = some n := by
  induction n using Nat.strongRecOn with
  | ind n ih =>
    rcases Nat.lt_or_ge n b with hn | hn
    · rw [Nat.toDigits_of_lt_base hn, List.foldlM_cons, digit?_digitChar hn hb']
      simp
    · have hlast := digit?_digitChar (Nat.mod_lt n (show 0 < b by omega)) hb'
      rw [Nat.toDigits_of_base_le hb hn, List.foldlM_append, ih _ (Nat.div_lt_self (by omega) hb)]
      simp [hlast, Nat.div_add_mod]

/-- **Digits are read as their number.** -/
theorem natural?_toDigits (hb : 1 < b) (hb' : b ≤ 16) :
    natural? b (Nat.toDigits b n) = some n := by
  rw [natural?, List.isEmpty_eq_false_iff.2 Nat.toDigits_ne_nil, if_neg Bool.false_ne_true,
    foldlM_toDigits hb hb']

/-- A sign is taken off. -/
theorem unsigned_sign (negative : Bool) {cs : List Char} (h : cs.head? ≠ some '-') :
    unsigned (sign negative ++ cs) = (negative, cs) := by
  cases negative with
  | true => rfl
  | false =>
    rw [sign, if_neg Bool.false_ne_true, List.nil_append]
    unfold unsigned
    split
    · exact absurd rfl h
    · rfl

theorem signed_natAbs (i : Int) : signed (i < 0) i.natAbs = i := by
  by_cases hi : i < 0
  · rw [signed, if_pos (decide_eq_true hi)]
    omega
  · rw [signed, if_neg (by simpa using hi)]
    omega

/-- **An integer is read back from its decimal form.** -/
theorem decimal?_decimal (i : Int) : decimal? (decimal i) = some i := by
  rw [decimal?, decimal, unsigned_sign _ (head?_toDigits_ne_minus (by decide) (by decide)),
    natural?_toDigits (by decide) (by decide), Option.map_some, signed_natAbs]

end Tickscript.Integer
