/-
  Durations are recovered from their written forms.

  The unit of a duration is one of eight, measures it exactly
  (`Duration.scaleOf_dvd`) and is told apart by its letters, which stand behind
  the last digit.

  * `Duration.units` says which eight there are, with their letters and sizes, and
    `Duration.scales_append` that these are the ones that are tried;
  * `Duration.denotes_render_iff`: a written form denotes its duration and no other
    (`Duration.Denotes`);
  * `Duration.render_injective`: different durations are written differently.
-/
import Tickscript.Literal.Render
import Tickscript.Proofs.Words

namespace Tickscript.Duration

/-! ## Units -/

/-- The units of time, from the week to the nanosecond, with the nanoseconds that each has. -/
def units : List Scale := [
  ⟨"w", 604800000000000⟩,
  ⟨"d", 86400000000000⟩,
  ⟨"h", 3600000000000⟩,
  ⟨"m", 60000000000⟩,
  ⟨"s", 1000000000⟩,
  ⟨"ms", 1000000⟩,
  ⟨"u", 1000⟩,
  ⟨"ns", 1⟩]

/-- **The units that are tried are all units**, in this order and the nanosecond last. -/
theorem scales_append : scales ++ [nanosecond] = units := rfl

theorem scaleOf_mem (n : Int) : scaleOf n ∈ units := by
  rw [← scales_append, scaleOf]
  cases h : scales.find? fun u => n % u.size == 0 with
  | none => exact List.mem_append_right _ (List.mem_singleton.2 rfl)
  | some u => exact List.mem_append_left _ (List.mem_of_find?_eq_some h)

/-- **The unit measures the duration exactly.** -/
theorem scaleOf_dvd (n : Int) : ((scaleOf n).size : Int) ∣ n := by
  unfold scaleOf
  cases h : scales.find? fun u => n % u.size == 0 with
  | none => exact Int.one_dvd n
  | some u =>
    have hu : n % u.size = 0 := by simpa using List.find?_some h
    exact Int.dvd_of_emod_eq_zero hu

/-- Units are told apart by their letters. -/
theorem size_eq_of_suffix_eq : ∀ u ∈ units, ∀ v ∈ units, u.suffix.toList = v.suffix.toList →
    u.size = v.size := by decide

/-! ## Characters -/

/-- The letters of the units. -/
def letters : List Char := ['w', 'd', 'h', 'm', 's', 'u', 'n']

theorem mem_letters {u : Scale} (hu : u ∈ units) {c : Char} (hc : c ∈ u.suffix.toList) :
    c ∈ letters := by
  have hall : ∀ u ∈ units, u.suffix.toList.all letters.contains := by decide
  exact List.contains_iff_mem.1 (List.all_eq_true.1 (hall u hu) c hc)

theorem suffix_ne_nil : ∀ u ∈ units, u.suffix.toList ≠ [] := by decide

theorem not_numeral_letter {c : Char} (h : c ∈ letters) : ¬ Integer.Numeral c := by
  simp only [letters, List.mem_cons, List.not_mem_nil, or_false] at h
  rcases h with rfl | rfl | rfl | rfl | rfl | rfl | rfl <;> decide

/-! ## Written forms -/

/-- The text is a decimal integer and the letters of a unit, and `n` is that many of the unit. -/
def Denotes (text : List Char) (n : Int) : Prop :=
  ∃ q, ∃ u ∈ units, text = Integer.decimal q ++ u.suffix.toList ∧ n = q * u.size

/-- A duration is what its written form denotes. -/
theorem denotes_render (n : Int) : Denotes (render n) n := by
  by_cases hn : n = 0
  · refine ⟨0, ⟨"s", 1000000000⟩, by simp [units], ?_, by rw [hn, Int.zero_mul]⟩
    rw [render, if_pos hn]
    rfl
  · refine ⟨n / (scaleOf n).size, scaleOf n, scaleOf_mem n, ?_, ?_⟩
    · rw [render, if_neg hn]
    · exact (Int.ediv_mul_cancel (scaleOf_dvd n)).symm

/-- A text denotes one duration at most. -/
theorem Denotes.unique {text : List Char} {m n : Int} (hm : Denotes text m) (hn : Denotes text n) :
    m = n := by
  obtain ⟨p, u, hu, rfl, rfl⟩ := hm
  obtain ⟨q, v, hv, h, rfl⟩ := hn
  have hend : ∀ w ∈ units, ∀ c ∈ w.suffix.toList.head?, ¬ Integer.Numeral c := by
    intro w hw c hc
    exact not_numeral_letter (mem_letters hw (List.mem_of_mem_head? hc))
  obtain ⟨hcount, hsuffix⟩ := append_unique (fun c => Integer.numeral_of_mem_decimal)
    (fun c => Integer.numeral_of_mem_decimal) (hend u hu) (hend v hv) h
  rw [Integer.decimal_injective hcount, size_eq_of_suffix_eq u hu v hv hsuffix]

theorem denotes_render_iff {m n : Int} : Denotes (render n) m ↔ m = n := by
  constructor
  · exact fun h => h.unique (denotes_render n)
  · rintro rfl
    exact denotes_render m

/-- **A duration is recovered from its written form.** -/
theorem render_injective {m n : Int} (h : render m = render n) : m = n :=
  denotes_render_iff.1 (h ▸ denotes_render m)

/-- A duration is made of the characters of an integer and of letters. -/
theorem mem_render {n : Int} {c : Char} (h : c ∈ render n) : Integer.Numeral c ∨ c ∈ letters := by
  obtain ⟨q, u, hu, hn, -⟩ := denotes_render n
  rw [hn] at h
  rcases List.mem_append.1 h with h | h
  · exact Or.inl (Integer.numeral_of_mem_decimal h)
  · exact Or.inr (mem_letters hu h)

/-- A duration has a letter. -/
theorem exists_letter (n : Int) : ∃ c ∈ render n, c ∈ letters := by
  obtain ⟨q, u, hu, hn, -⟩ := denotes_render n
  cases hs : u.suffix.toList with
  | nil => exact absurd hs (suffix_ne_nil u hu)
  | cons c s =>
    have hc : c ∈ u.suffix.toList := hs ▸ List.mem_cons_self
    exact ⟨c, hn ▸ List.mem_append_right _ hc, mem_letters hu hc⟩

end Tickscript.Duration
