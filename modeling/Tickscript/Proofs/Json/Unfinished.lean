/-
  Numbers that break off.

  Where the text of a number ends too early, either something is missing, such as
  the digits behind a point, or what is there is a number as well.  The latter is
  nearer to zero, so whoever could read the whole number can read it too.

  * `prefix_toDigits`: the first digits of a natural number;
  * `unfinished_decimal`: the first characters of an integer;
  * `unfinished_json`: the first characters of a double, in either layout.
-/
import Tickscript.Proofs.Json.Numeral
import Tickscript.Proofs.Range

namespace Tickscript

open Binary64 (magnitudes nearest shortest)

/-! ## Lists -/

/-- A prefix ends within the first part or behind it. -/
theorem prefix_append_cases {α : Type} {p a b : List α} (h : p <+: a ++ b) :
    p <+: a ∨ ∃ q, q ≠ [] ∧ p = a ++ q ∧ q <+: b := by
  obtain ⟨t, ht⟩ := h
  rcases List.append_eq_append_iff.1 ht with ⟨m, rfl, -⟩ | ⟨q, rfl, rfl⟩
  · exact Or.inl (List.prefix_append p m)
  · cases q with
    | nil => exact Or.inl (by simp)
    | cons c q => exact Or.inr ⟨c :: q, List.cons_ne_nil c q, rfl, List.prefix_append _ t⟩

theorem head?_of_isPrefix {α : Type} {p l : List α} (h : p <+: l) (hne : p ≠ []) :
    p.head? = l.head? := by
  rw [List.head?_eq_some_head hne, List.head?_eq_some_head (h.ne_nil hne), h.head hne]

/-! ## Digits -/

/-- **The first digits of a natural number are those of one that is at least ten times smaller.** -/
theorem prefix_toDigits {p : List Char} {k : Nat} (h : p <+: Nat.toDigits 10 k) (hne : p ≠ [])
    (hproper : p ≠ Nat.toDigits 10 k) : ∃ m, p = Nat.toDigits 10 m ∧ 0 < m ∧ 10 * m ≤ k := by
  induction k using Nat.strongRecOn with
  | ind k ih =>
    by_cases hk : k < 10
    · -- a single digit has nothing in front of its end
      rw [Nat.toDigits_of_lt_base hk] at h hproper
      rcases List.prefix_cons_iff.1 h with rfl | ⟨t, rfl, ht⟩
      · exact absurd rfl hne
      · rw [List.prefix_nil.1 ht] at hproper
        exact absurd rfl hproper
    · have hk := Nat.le_of_not_lt hk
      rw [Nat.toDigits_of_base_le (by decide) hk, List.prefix_concat_iff] at h
      rw [Nat.toDigits_of_base_le (by decide) hk] at hproper
      have hinit := h.resolve_left hproper
      by_cases hp : p = Nat.toDigits 10 (k / 10)
      · exact ⟨k / 10, hp, by omega, by omega⟩
      · obtain ⟨m, hm, hpos, hle⟩ := ih (k / 10) (by omega) hinit hp
        exact ⟨m, hm, hpos, by omega⟩

theorem ofDigitChars_lt : ∀ {ds : List Char}, (∀ c ∈ ds, c.isDigit) →
    Nat.ofDigitChars 10 ds 0 < 10 ^ ds.length
  | [], _ => by simp
  | c :: ds, h => by
    obtain ⟨hc, hds⟩ := List.forall_mem_cons.1 h
    have hrest := ofDigitChars_lt hds
    have hdigit : c.toNat - '0'.toNat ≤ 9 := Nat.sub_le_sub_right (Char.isDigit_iff_toNat.1 hc).2 _
    have hfirst := Nat.mul_le_mul_left (10 ^ ds.length) hdigit
    rw [Nat.ofDigitChars_cons, Nat.mul_zero, Nat.zero_add, Nat.ofDigitChars_eq_ofDigitChars_zero,
      List.length_cons, Nat.pow_succ]
    omega

namespace Json

/-! ## Unsigned numbers -/

/-- What a text is scanned as that breaks off inside a number: nothing yet, because something is
    missing, or a number that is within the range. -/
def Unfinished (x : Except Fault (Numeral × List Char)) : Prop :=
  x = .error .truncated ∨ ∃ n : Numeral, x = .ok (n, []) ∧ n.float?.isSome

/-- The number of some digits on both sides of the point is within the range, if there are not too
    many in front of it. -/
theorem isSome_float? {negative whole : Bool} {ds : List Char} {e : Int}
    (hds : ∀ c ∈ ds, c.isDigit) (h : e + ds.length ≤ 307) :
    (⟨negative, ⟨Nat.ofDigitChars 10 ds 0, e⟩, whole⟩ : Numeral).float?.isSome := by
  have hnearest : nearest ⟨Nat.ofDigitChars 10 ds 0, e⟩ < magnitudes :=
    Binary64.nearest_lt_of_small (ofDigitChars_lt hds) h
  rw [Numeral.float?, Binary64.ofDecimal, dif_pos hnearest]
  rfl

section Unsigned

variable {negative : Bool} {whole fraction p : List Char} {e : Int}

/-- A point with the digits behind it; nothing if there are none. -/
def pointed : List Char → List Char
  | [] => []
  | ds => '.' :: ds

theorem pointed_of_ne_nil {ds : List Char} (h : ds ≠ []) : pointed ds = '.' :: ds := by
  cases ds with
  | nil => exact absurd rfl h
  | cons c ds => rfl

/-- The digits in front of a point: at least one, with no zero in front of others. -/
structure Leading (whole : List Char) : Prop where
  digits : ∀ c ∈ whole, c.isDigit
  ne_nil : whole ≠ []
  head : whole.length = 1 ∨ whole.head? ≠ some '0'
  short : whole.length ≤ 16

theorem Leading.of_isPrefix (h : Leading whole) (hp : p <+: whole) (hne : p ≠ []) : Leading p where
  digits c hc := h.digits c (hp.subset hc)
  ne_nil := hne
  head := by
    have hpos := List.length_pos_iff.2 hne
    have hlength := hp.length_le
    refine h.head.imp (fun hone => by omega) fun hhead => ?_
    rwa [head?_of_isPrefix hp hne]
  short := hp.length_le.trans h.short

theorem Leading.wholePart (h : Leading whole) {rest : List Char}
    (hrest : ∀ c ∈ rest.head?, ¬ c.isDigit) : Json.wholePart (whole ++ rest) = .ok (whole, rest) :=
  wholePart_append h.digits h.ne_nil h.head hrest

theorem fractionPart_pointed (hfraction : ∀ c ∈ fraction, c.isDigit) {rest : List Char}
    (hrest : ∀ c ∈ rest.head?, ¬ c.isDigit ∧ c ≠ '.') :
    fractionPart (pointed fraction ++ rest) = .ok (fraction, rest) := by
  cases fraction with
  | nil =>
    rw [pointed, List.nil_append]
    unfold fractionPart
    split
    · exact absurd rfl (hrest '.' rfl).2
    · rfl
  | cons c ds => exact digitRun_append hfraction (List.cons_ne_nil c ds) fun c hc => (hrest c hc).1

/-- A number without an exponent that breaks off. -/
theorem unfinished_fixed (hwhole : Leading whole) (hfraction : ∀ c ∈ fraction, c.isDigit)
    (hp : p <+: whole ++ pointed fraction) (hne : p ≠ []) :
    Unfinished (unsignedNumeral negative p) := by
  rcases prefix_append_cases hp with hp | ⟨q, hq, rfl, hinit⟩
  · have h := hwhole.of_isPrefix hp hne
    have hscan : Json.wholePart (p ++ []) = .ok (p, []) := h.wholePart (by simp)
    rw [List.append_nil] at hscan
    refine Or.inr ⟨_, unsignedNumeral_eq hscan rfl rfl, isSome_float? (by simpa using h.digits) ?_⟩
    have := h.short
    simp only [List.append_nil, List.length_nil, Option.getD_none]
    omega
  · cases fraction with
    | nil => exact absurd (List.prefix_nil.1 hinit) hq
    | cons c ds =>
      obtain ⟨t, rfl, ht⟩ := (List.prefix_cons_iff.1 hinit).resolve_left hq
      have hscan : Json.wholePart (whole ++ '.' :: t) = .ok (whole, '.' :: t) :=
        hwhole.wholePart (by simp)
      by_cases hempty : t = []
      · -- behind the point a digit is missing
        subst hempty
        exact Or.inl (by simp only [unsignedNumeral, hscan, bind, Except.bind]; rfl)
      · have hdigits : ∀ c ∈ t, c.isDigit := fun c hc => hfraction c (ht.subset hc)
        have hpart : fractionPart ('.' :: (t ++ [])) = .ok (t, []) :=
          digitRun_append hdigits hempty (by simp)
        rw [List.append_nil] at hpart
        have hall : ∀ c ∈ whole ++ t, c.isDigit := fun c hc =>
          (List.mem_append.1 hc).elim (hwhole.digits c) (hdigits c)
        refine Or.inr ⟨_, unsignedNumeral_eq hscan hpart rfl, isSome_float? hall ?_⟩
        have := hwhole.short
        simp only [List.length_append, Option.getD_none]
        omega

/-- An exponent that breaks off is at least ten times smaller. -/
theorem exponentPart_of_isPrefix {q : List Char} (hq : q <+: Decimal.exponentMark e) (hne : q ≠ [])
    (hproper : q ≠ Decimal.exponentMark e) : exponentPart q = .error .truncated ∨
      ∃ e', exponentPart q = .ok (some e', []) ∧ (0 < e' → 10 * e' ≤ e) := by
  obtain ⟨t, rfl, ht⟩ := (List.prefix_cons_iff.1 hq).resolve_left hne
  rcases List.prefix_cons_iff.1 ht with rfl | ⟨u, rfl, hu⟩
  · exact Or.inl rfl
  by_cases hempty : u = []
  · subst hempty
    refine Or.inl ?_
    by_cases he : e < 0 <;> simp only [he, if_true, if_false] <;> rfl
  · have hdigits : u ≠ Nat.toDigits 10 e.natAbs := by
      rintro rfl
      exact hproper rfl
    obtain ⟨m, rfl, hpos, hle⟩ := prefix_toDigits hu hempty hdigits
    obtain ⟨e', hmark, he'⟩ : ∃ e' : Int,
        'e' :: (if e < 0 then '-' else '+') :: Nat.toDigits 10 m = Decimal.exponentMark e' ∧
          (0 < e' → 10 * e' ≤ e) := by
      by_cases he : e < 0
      · refine ⟨-m, ?_, by omega⟩
        rw [Decimal.exponentMark, if_pos he, if_pos (by omega), Int.natAbs_neg, Int.natAbs_natCast]
      · refine ⟨m, ?_, by omega⟩
        rw [Decimal.exponentMark, if_neg he, if_neg (by omega), Int.natAbs_natCast]
    rw [hmark]
    refine Or.inr ⟨e', ?_, he'⟩
    simpa using exponentPart_exponentMark e' stops_nil

/-- A number with an exponent that breaks off. -/
theorem unfinished_marked (hwhole : Leading whole) (hfraction : ∀ c ∈ fraction, c.isDigit)
    (he : e < 309) (hp : p <+: whole ++ pointed fraction ++ Decimal.exponentMark e) (hne : p ≠ [])
    (hproper : p ≠ whole ++ pointed fraction ++ Decimal.exponentMark e) :
    Unfinished (unsignedNumeral negative p) := by
  rcases prefix_append_cases hp with hp | ⟨q, hq, rfl, hinit⟩
  · exact unfinished_fixed hwhole hfraction hp hne
  · obtain ⟨t, rfl, -⟩ := (List.prefix_cons_iff.1 hinit).resolve_left hq
    have hpart : fractionPart (pointed fraction ++ 'e' :: t) = .ok (fraction, 'e' :: t) :=
      fractionPart_pointed hfraction (by simp)
    have hscan : Json.wholePart (whole ++ pointed fraction ++ 'e' :: t)
        = .ok (whole, pointed fraction ++ 'e' :: t) := by
      rw [List.append_assoc]
      refine hwhole.wholePart ?_
      cases fraction <;> simp [pointed]
    rcases exponentPart_of_isPrefix hinit hq (by simpa using hproper) with h | ⟨e', h, he'⟩
    · exact Or.inl (by simp only [unsignedNumeral, hscan, hpart, h, bind, Except.bind])
    · have hall : ∀ c ∈ whole ++ fraction, c.isDigit := fun c hc =>
        (List.mem_append.1 hc).elim (hwhole.digits c) (hfraction c)
      refine Or.inr ⟨_, unsignedNumeral_eq hscan hpart h, isSome_float? hall ?_⟩
      have := hwhole.short
      simp only [List.length_append, Option.getD_some]
      omega

end Unsigned

/-! ## Signs -/

/-- What breaks off behind a sign. -/
theorem prefix_sign {negative : Bool} {cs p : List Char} (hp : p <+: Integer.sign negative ++ cs)
    (hne : p ≠ []) (hproper : p ≠ Integer.sign negative ++ cs) :
    p = ['-'] ∨ ∃ q, q ≠ [] ∧ q <+: cs ∧ q ≠ cs ∧ p = Integer.sign negative ++ q := by
  rcases prefix_append_cases hp with hp | ⟨q, hq, rfl, hinit⟩
  · cases negative with
    | false => exact absurd (List.prefix_nil.1 hp) hne
    | true =>
      obtain ⟨t, rfl, ht⟩ := (List.prefix_cons_iff.1 hp).resolve_left hne
      rw [List.prefix_nil.1 ht]
      exact Or.inl rfl
  · exact Or.inr ⟨q, hq, hinit, fun h => hproper (by rw [h]), rfl⟩

theorem numeral_minus : numeral ['-'] = .error .truncated := rfl

/-! ## Integers -/

/-- `m` lies between zero and `n`, and is not zero itself. -/
def Toward (n m : Int) : Prop := (0 < m ∧ m ≤ n) ∨ (n ≤ m ∧ m < 0)

/-- **The first characters of an integer are a sign or an integer nearer to zero.** -/
theorem unfinished_decimal {n : Int} {p : List Char} (hp : p <+: Integer.decimal n) (hne : p ≠ [])
    (hproper : p ≠ Integer.decimal n) :
    numeral p = .error .truncated ∨ ∃ m, numeral p = .ok (.ofInt m, []) ∧ Toward n m := by
  rcases prefix_sign hp hne hproper with rfl | ⟨q, hq, hinit, hrest, rfl⟩
  · exact Or.inl numeral_minus
  · obtain ⟨k, rfl, hpos, hle⟩ := prefix_toDigits hinit hq hrest
    obtain ⟨m, hm, htoward⟩ : ∃ m : Int,
        Integer.sign (n < 0) ++ Nat.toDigits 10 k = Integer.decimal m ∧ Toward n m := by
      by_cases hn : n < 0
      · have hsign : -(k : Int) < 0 := by omega
        refine ⟨-k, ?_, Or.inr ⟨by omega, hsign⟩⟩
        rw [Integer.decimal, Int.natAbs_neg, Int.natAbs_natCast]
        simp only [hn, hsign, decide_true]
      · have hsign : ¬ (k : Int) < 0 := by omega
        refine ⟨k, ?_, Or.inl ⟨by omega, by omega⟩⟩
        rw [Integer.decimal, Int.natAbs_natCast]
        simp only [hn, hsign, decide_false]
    rw [hm]
    refine Or.inr ⟨m, ?_, htoward⟩
    simpa using numeral_decimal m stops_nil

/-! ## Doubles -/

theorem scientific_eq {d : Decimal} {first : Char} {more : List Char} (h : d.digits = first :: more) :
    d.scientific = [first] ++ pointed more ++ Decimal.exponentMark d.magnitude := by
  rw [Decimal.scientific, h]
  cases more <;> rfl

/-- The plain layout of a number up to sixteen digits. -/
theorem leading_wholeDigits {d : Decimal} (h : d.magnitude ≤ 15) : Leading d.wholeDigits where
  digits _ hc := d.isDigit_of_mem_wholeDigits hc
  ne_nil := d.wholeDigits_ne_nil
  head := head?_wholeDigits d
  short := by
    have hplaces : -d.exponent ≤ d.places := by
      have : (-d.exponent).toNat ≤ d.places := Nat.le_max_right ..
      omega
    rw [Decimal.magnitude] at h
    have hscaled : d.scaled < 10 ^ (16 + d.places) :=
      calc d.coefficient * 10 ^ (d.exponent + d.places).toNat
          < 10 ^ d.digits.length * 10 ^ (d.exponent + d.places).toNat :=
            Nat.mul_lt_mul_of_pos_right d.coefficient_lt (Nat.pow_pos (by decide))
        _ = 10 ^ (d.digits.length + (d.exponent + d.places).toNat) := (Nat.pow_add ..).symm
        _ ≤ 10 ^ (16 + d.places) := Nat.pow_le_pow_right (by decide) (by omega)
    have hlength := (Nat.length_toDigits_le_iff (by decide) (by omega)).2 hscaled
    simp only [Decimal.wholeDigits, List.length_take, Decimal.plainDigits, List.length_leftpad]
    omega

/-- The shortest decimal of a double is not beyond the range. -/
theorem magnitude_shortest_lt {k : Nat} (hk : k < magnitudes) :
    (shortest .even k).magnitude < 309 := by
  have hrank := Binary64.nearest_shortest .even hk
  by_cases hzero : (shortest .even k).coefficient = 0
  · -- only zero is written without a coefficient
    rw [nearest, if_pos hzero] at hrank
    subst hrank
    decide
  · have hexponent := Binary64.exponent_lt_of_nearest_lt (Decimal.le_coefficient hzero) (hrank.symm ▸ hk)
    have hpos : 0 < (shortest .even k).digits.length := Nat.length_toDigits_pos
    rw [Decimal.magnitude]
    omega

theorem unfinished_jsonLayout {negative : Bool} {k : Nat} (hk : k < magnitudes) {p : List Char}
    (hp : p <+: Binary64.jsonLayout (shortest .even k)) (hne : p ≠ [])
    (hproper : p ≠ Binary64.jsonLayout (shortest .even k)) :
    Unfinished (unsignedNumeral negative p) := by
  have hmagnitude := magnitude_shortest_lt hk
  unfold Binary64.jsonLayout at hp hproper
  split at hp
  · next hplain =>
    rw [Decimal.plain_eq_parts, ← pointed_of_ne_nil (Decimal.partDigits_ne_nil _)] at hp
    exact unfinished_fixed (leading_wholeDigits hplain.2)
      (fun _ => Decimal.isDigit_of_mem_partDigits _) hp hne
  · next hplain =>
    rw [if_neg hplain] at hproper
    obtain ⟨hds, hdsne⟩ := digits_toDigits (shortest .even k).coefficient
    obtain ⟨first, more, hd⟩ := List.exists_cons_of_ne_nil hdsne
    rw [hd, List.forall_mem_cons] at hds
    have hfirst : Leading [first] := ⟨by simpa using hds.1, List.cons_ne_nil _ _, Or.inl rfl, by simp⟩
    rw [scientific_eq hd] at hp hproper
    exact unfinished_marked hfirst hds.2 hmagnitude hp hne hproper

/-- **The first characters of a double are a number within the range, or something is missing.** -/
theorem unfinished_json {negative : Bool} {k : Fin magnitudes} {p : List Char}
    (hp : p <+: (Binary64.finite negative k).json) (hne : p ≠ [])
    (hproper : p ≠ (Binary64.finite negative k).json) : Unfinished (numeral p) := by
  rcases prefix_sign hp hne hproper with rfl | ⟨q, hq, hinit, hrest, rfl⟩
  · exact Or.inl numeral_minus
  · have hhead : q.head? ≠ some '-' := by
      rw [head?_of_isPrefix hinit hq]
      simpa using head?_jsonLayout_ne_minus (shortest .even k) []
    rw [numeral_sign negative hhead]
    exact unfinished_jsonLayout k.isLt hinit hq hrest

end Json

end Tickscript
