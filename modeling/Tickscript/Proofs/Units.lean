/-
  A duration is written in the largest unit that measures it.

  The units are tried from the largest to the smallest, and the nanosecond measures
  everything.

  * `Duration.not_dvd_of_size_lt`: no unit larger than the one that is taken
    measures the duration;
  * `Duration.read?_of_denotes`: a reader of durations, which is told the unit by
    the letters behind the number;
  * `Duration.renderWord?_eq`: the written form is the one that arithmetic on words
    of 64 bits yields, in which nothing overflows;
  * `Duration.render_largest`: what the written form of a word is
    (`Duration.InLargestUnit`).
-/
import Mathlib.Algebra.Group.Nat.Defs
import Mathlib.Data.List.TakeWhile
import Tickscript.Proofs.Digits
import Tickscript.Proofs.Duration

namespace Tickscript.Duration

open Integer (Numeral)

/-! ## The largest unit -/

/-- Units are listed from the largest to the smallest. -/
theorem units_decreasing : units.Pairwise fun u v => v.size < u.size := by decide

/-- The unit of a duration is the first that measures it. -/
theorem find?_units (n : Int) :
    units.find? (fun u => n % u.size == 0) = some (scaleOf n) := by
  have hlast : [nanosecond].find? (fun u => n % u.size == 0) = some nanosecond :=
    List.find?_cons_of_pos (beq_iff_eq.2 (Int.emod_one n))
  rw [← scales_append, List.find?_append, hlast, scaleOf]
  cases scales.find? fun u => n % u.size == 0 <;> rfl

/-- **No larger unit measures the duration.** -/
theorem not_dvd_of_size_lt {n : Int} {v : Scale} (hv : v ∈ units)
    (h : (scaleOf n).size < v.size) : ¬ (v.size : Int) ∣ n := by
  obtain ⟨-, larger, smaller, hunits, hlarger⟩ :=
    List.find?_eq_some_iff_append.1 (find?_units n)
  have hsorted := units_decreasing
  rw [hunits] at hv hsorted
  obtain ⟨-, hsorted, -⟩ := List.pairwise_append.1 hsorted
  rcases List.mem_append.1 hv with hv | hv
  · intro hdvd
    simpa [Int.emod_eq_zero_of_dvd hdvd] using hlarger v hv
  -- the unit itself and those behind it are not larger
  · rcases List.mem_cons.1 hv with rfl | hv
    · omega
    · have := (List.pairwise_cons.1 hsorted).1 v hv
      omega

/-! ## Reading -/

/-- The number of nanoseconds that a text says: an integer in decimal, times the size of the unit
    whose letters follow it. -/
def read? (text : List Char) : Option Int := do
  let count ← Integer.decimal? (text.takeWhile (Numeral ·))
  let u ← units.find? fun u => u.suffix.toList == text.dropWhile (Numeral ·)
  some (count * u.size)

/-- The unit with the letters of a unit has its size. -/
theorem find?_suffix : ∀ u ∈ units,
    (units.find? fun v => v.suffix.toList == u.suffix.toList).map Scale.size = some u.size := by
  decide

/-- **A text is read as what it denotes.** -/
theorem read?_of_denotes {text : List Char} {n : Int} (h : Denotes text n) :
    read? text = some n := by
  obtain ⟨q, u, hu, rfl, rfl⟩ := h
  have hcount : ∀ c ∈ Integer.decimal q, decide (Numeral c) = true := by
    intro c hc
    exact decide_eq_true (Integer.numeral_of_mem_decimal hc)
  have hletters : ∀ c ∈ u.suffix.toList, decide (Numeral c) = false := by
    intro c hc
    exact decide_eq_false (not_numeral_letter (mem_letters hu hc))
  have htake : u.suffix.toList.takeWhile (Numeral ·) = [] ∧
      u.suffix.toList.dropWhile (Numeral ·) = u.suffix.toList := by
    cases hs : u.suffix.toList with
    | nil => exact ⟨rfl, rfl⟩
    | cons c cs =>
      have hc := hletters c (hs ▸ List.mem_cons_self)
      simp [hc]
  obtain ⟨v, hv, hsize⟩ := Option.map_eq_some_iff.1 (find?_suffix u hu)
  rw [read?, List.takeWhile_append_of_pos hcount, List.dropWhile_append_of_pos hcount, htake.1,
    htake.2, List.append_nil, Integer.decimal?_decimal]
  simp [hv, hsize]

/-! ## Arithmetic on words -/

/-- The quotient of words, rounded towards zero.  There is none by zero, and that of the smallest
    word by minus one is no word. -/
def quotient? (n d : Int64) : Option Int64 :=
  if d = 0 ∨ (n = Int64.minValue ∧ d = -1) then none else some (n / d)

/-- The remainder of words, where they have a quotient. -/
def remainder? (n d : Int64) : Option Int64 :=
  if d = 0 ∨ (n = Int64.minValue ∧ d = -1) then none else some (n % d)

/-- A word in the first of the given units that leaves no remainder, and in nanoseconds if there is
    none; no text if a quotient or a remainder is missing on the way. -/
def renderIn? (n : Int64) : List Scale → Option (List Char)
  | [] => some (Integer.decimal n.toInt ++ nanosecond.suffix.toList)
  | u :: rest => do
    if (← remainder? n (.ofNat u.size)) = 0 then
      let q ← quotient? n (.ofNat u.size)
      some (Integer.decimal q.toInt ++ u.suffix.toList)
    else renderIn? n rest

/-- A number of nanoseconds as scripts write it, in arithmetic on words. -/
def renderWord? (n : Int64) : Option (List Char) :=
  if n = 0 then some "0s".toList else renderIn? n scales

/-- The size of a unit above the nanosecond is a positive word. -/
theorem size_bounds : ∀ u ∈ scales, 0 < u.size ∧ u.size < 2 ^ 63 := by decide

theorem toInt_ne_zero {n : Int64} (hn : n ≠ 0) : n.toInt ≠ 0 := by
  intro h
  exact hn (Int64.toInt_inj.1 (h.trans Int64.toInt_zero.symm))

section
variable {u : Scale}

theorem toInt_size (hu : u ∈ scales) : (Int64.ofNat u.size).toInt = u.size :=
  Int64.toInt_ofNat_of_lt (size_bounds u hu).2

/-- A size is no divisor that overflows. -/
theorem size_ne (hu : u ∈ scales) : Int64.ofNat u.size ≠ 0 ∧ Int64.ofNat u.size ≠ -1 := by
  have hpos : 0 < (Int64.ofNat u.size).toInt := by
    rw [toInt_size hu]
    exact Int.natCast_pos.2 (size_bounds u hu).1
  constructor <;>
  · intro h
    rw [h] at hpos
    exact absurd hpos (by decide)

theorem remainder?_size (n : Int64) (hu : u ∈ scales) :
    remainder? n (.ofNat u.size) = some (n % .ofNat u.size) := by
  rw [remainder?, if_neg (by simp [size_ne hu])]

theorem quotient?_size (n : Int64) (hu : u ∈ scales) :
    quotient? n (.ofNat u.size) = some (n / .ofNat u.size) := by
  rw [quotient?, if_neg (by simp [size_ne hu])]

/-- A word leaves no remainder if the unit measures it. -/
theorem mod_size_eq_zero_iff (n : Int64) (hu : u ∈ scales) :
    n % .ofNat u.size = 0 ↔ n.toInt % u.size = 0 := by
  rw [← Int64.toInt_inj, Int64.toInt_mod, toInt_size hu, Int64.toInt_zero,
    ← Int.dvd_iff_tmod_eq_zero, Int.dvd_iff_emod_eq_zero]

/-- The quotient by a unit that measures the word is exact. -/
theorem toInt_div_size {n : Int64} (hu : u ∈ scales) (hn : n.toInt % u.size = 0) :
    (n / .ofNat u.size).toInt = n.toInt / u.size := by
  rw [Int64.toInt_div_of_ne_right _ _ (size_ne hu).2, toInt_size hu,
    Int.tdiv_eq_ediv_of_dvd (Int.dvd_of_emod_eq_zero hn)]

end

/-- **No quotient and no remainder is missing**, and what is written is the exact quotient by the
    unit. -/
theorem renderIn?_eq (n : Int64) : ∀ us : List Scale, us ⊆ scales →
    let u := (us.find? fun u => n.toInt % u.size == 0).getD nanosecond
    renderIn? n us = some (Integer.decimal (n.toInt / u.size) ++ u.suffix.toList)
  | [], _ => by simp [renderIn?, nanosecond]
  | u :: rest, hus => by
    obtain ⟨hu, hrest⟩ := List.cons_subset.1 hus
    have hmod := mod_size_eq_zero_iff n hu
    by_cases hn : n.toInt % u.size = 0
    · simp [renderIn?, remainder?_size n hu, quotient?_size n hu, hmod.2 hn, hn,
        toInt_div_size hu hn]
    · have hne : ¬ n % .ofNat u.size = 0 := fun h => hn (hmod.1 h)
      simpa [renderIn?, remainder?_size n hu, hne, hn] using renderIn?_eq n rest hrest

/-- **Nothing overflows.** -/
theorem renderWord?_eq (n : Int64) : renderWord? n = some (render n.toInt) := by
  rw [renderWord?, render]
  by_cases hn : n = 0
  · rw [if_pos hn, if_pos (by rw [hn, Int64.toInt_zero])]
  · rw [if_neg hn, if_neg (toInt_ne_zero hn), renderIn?_eq n scales (List.Subset.refl _)]
    rfl

/-! ## Written forms of words -/

/-- The text is a decimal integer and the letters of a unit, `n` is that many of the unit, and no
    larger unit measures `n`. -/
def InLargestUnit (text : List Char) (n : Int) : Prop :=
  ∃ q : Int, ∃ u ∈ units, text = Integer.decimal q ++ u.suffix.toList ∧ q * u.size = n ∧
    ∀ v ∈ units, u.size < v.size → ¬ (v.size : Int) ∣ n

theorem inLargestUnit_render {n : Int} (hn : n ≠ 0) : InLargestUnit (render n) n := by
  refine ⟨n / (scaleOf n).size, scaleOf n, scaleOf_mem n, ?_, ?_, fun v hv => ?_⟩
  · rw [render, if_neg hn]
  · exact Int.ediv_mul_cancel (scaleOf_dvd n)
  · exact not_dvd_of_size_lt hv

/-- **A duration is written in the largest unit that measures it.**  Nothing takes no seconds.  The
    written form is read back, so that it is the form of one word only, and it takes no quotient
    and no remainder beyond the words. -/
theorem render_largest (n : Int64) :
    (n = 0 → render n.toInt = "0s".toList) ∧
    (n ≠ 0 → InLargestUnit (render n.toInt) n.toInt) ∧
    read? (render n.toInt) = some n.toInt ∧
    (∀ m : Int64, render m.toInt = render n.toInt → m = n) ∧
    renderWord? n = some (render n.toInt) := by
  refine ⟨?_, fun hn => inLargestUnit_render (toInt_ne_zero hn),
    read?_of_denotes (denotes_render n.toInt), fun m h => ?_, renderWord?_eq n⟩
  · rintro rfl
    rfl
  · exact Int64.toInt_inj.1 (render_injective h)

/-- An hour and a half, whose unit is told from that of a second and a half by one letter more, and
    the smallest word, which is a power of two and takes nanoseconds. -/
theorem render_largest_letters :
    let Written (n : Int64) (text : List Char) := render n.toInt = text ∧
      InLargestUnit text n.toInt ∧ read? text = some n.toInt ∧ renderWord? n = some text
    Written 5400000000000 "90m".toList ∧ Written 1500000000 "1500ms".toList ∧
      Written Int64.minValue "-9223372036854775808ns".toList := by
  intro Written
  have hwritten {n : Int64} {text : List Char} (hn : n ≠ 0) (h : render n.toInt = text) :
      Written n text := by
    obtain ⟨-, hlargest, hread, -, hword⟩ := render_largest n
    rw [h] at hlargest hread hword
    exact ⟨h, hlargest hn, hread, hword⟩
  refine ⟨hwritten ?_ ?_, hwritten ?_ ?_, hwritten ?_ ?_⟩ <;> decide

end Tickscript.Duration
