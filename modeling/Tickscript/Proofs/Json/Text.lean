/-
  Strings are scanned as they were written.

  * `pieces_quoted`: the scanner stops at the quote that closes a written string,
    whatever the string holds, and finds one part for each character (`piece`);
  * `spell_map_piece`: these parts spell the string.
-/
import Mathlib.Tactic.SplitIfs
import Tickscript.Json.Token
import Tickscript.Json.Value

namespace Tickscript.Json

/-! ## One character -/

/-- The control characters that are written with a letter. -/
def lettered : List Char := ['\x08', '\t', '\n', '\x0c', '\r']

/-- The part of a string that a written character is scanned as.  The other control characters are
    written by number. -/
def piece (c : Char) : Piece := if c < ' ' ∧ c ∉ lettered then .unit c.toNat else .char c

theorem hexUnit_toDigits : ∀ n < 32, ∃ a b c d,
    (Nat.toDigits 16 n).leftpad 4 '0' = [a, b, c, d] ∧ hexUnit a b c d = some n := by
  have hall : ∀ n < 32, (Nat.toDigits 16 n).leftpad 4 '0' =
      ['0', '0', Nat.digitChar (n / 16), Nat.digitChar (n % 16)] ∧
      hexUnit '0' '0' (Nat.digitChar (n / 16)) (Nat.digitChar (n % 16)) = some n := by decide
  intro n hn
  exact ⟨_, _, _, _, hall n hn⟩

/-- A character that stands for itself. -/
theorem pieces_self {c : Char} (hq : c ≠ '"') (hb : c ≠ '\\') (hc : ¬ c < ' ') (t : List Char) :
    pieces (c :: t) = (.char c :: (pieces t).1, (pieces t).2) := by
  rw [pieces.eq_def]
  split <;> simp_all

/-- A character that is written as a letter behind a backslash. -/
theorem pieces_letter {c l : Char} (hl : l ≠ 'u') (h : unescape l = some c) (t : List Char) :
    pieces ('\\' :: l :: t) = (.char c :: (pieces t).1, (pieces t).2) := by
  rw [pieces, h]
  · exact fun _ _ _ _ _ hu => absurd hu hl
  · exact hl

/-- A character that is written by number. -/
theorem pieces_number {a b c d : Char} {n : Nat} (h : hexUnit a b c d = some n) (t : List Char) :
    pieces ('\\' :: 'u' :: a :: b :: c :: d :: t) = (.unit n :: (pieces t).1, (pieces t).2) := by
  rw [pieces, h]

theorem pieces_escape (c : Char) (t : List Char) :
    pieces (escape c ++ t) = (piece c :: (pieces t).1, (pieces t).2) := by
  unfold escape
  split_ifs with hq hb hbs ht hn hf hr hc
  · subst hq; exact pieces_letter (by decide) rfl t
  · subst hb; exact pieces_letter (by decide) rfl t
  · subst hbs; exact pieces_letter (by decide) rfl t
  · subst ht; exact pieces_letter (by decide) rfl t
  · subst hn; exact pieces_letter (by decide) rfl t
  · subst hf; exact pieces_letter (by decide) rfl t
  · subst hr; exact pieces_letter (by decide) rfl t
  · have hlt : c.toNat < 32 := hc
    have hpiece : piece c = .unit c.toNat := if_pos ⟨hc, by simp [lettered, hbs, ht, hn, hf, hr]⟩
    obtain ⟨w, x, y, z, hdigits, hunit⟩ := hexUnit_toDigits c.toNat hlt
    rw [hdigits, hpiece]
    exact pieces_number hunit t
  · have hpiece : piece c = .char c := if_neg fun h => hc h.1
    rw [hpiece]
    exact pieces_self hq hb hc t

/-! ## All characters -/

/-- **A written string is scanned**, up to its closing quote. -/
theorem pieces_quoted (s t : List Char) :
    pieces (s.flatMap escape ++ '"' :: t) = (s.map piece, .ok t) := by
  induction s with
  | nil => rfl
  | cons c s ih => rw [List.flatMap_cons, List.append_assoc, pieces_escape, ih, List.map_cons]

/-- **The parts of a written string spell it.** -/
theorem spell_map_piece (s : List Char) : spell (s.map piece) = some s := by
  induction s with
  | nil => rfl
  | cons c s ih =>
    rw [List.map_cons, piece]
    split_ifs with h
    · have hn : c.toNat < 32 := h.1
      have hleading : isLeading c.toNat = false := by
        simp only [isLeading, Bool.and_eq_false_imp, decide_eq_true_eq]
        omega
      have htrailing : isTrailing c.toNat = false := by
        simp only [isTrailing, Bool.and_eq_false_imp, decide_eq_true_eq]
        omega
      rw [spell.eq_def]
      simp only [hleading, htrailing, ih, Option.map_some, Char.ofNat_toNat, Bool.false_eq_true,
        ↓reduceIte]
    · rw [spell, ih, Option.map_some]

theorem ofText_quoted (s : String) (t : List Char) :
    Token.ofText (s.toList.flatMap escape ++ '"' :: t) = (.scalar (.text (some s)), t) := by
  rw [Token.ofText, pieces_quoted]
  simp only [spell_map_piece, Option.map_some, String.ofList_toList]

end Tickscript.Json
