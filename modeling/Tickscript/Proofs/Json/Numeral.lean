/-
  Numbers are scanned as they were written.

  * `numeral_decimal`, `numeral_json`: the scanner stops behind a written integer
    and a written double, if nothing follows that could belong to it (`Stops`), and
    gives the number that was written (`Numeral.ofInt`, `Numeral.ofFinite`);
  * `Numeral.integer?_ofInt`: an integer within 64 bits is recovered;
  * `Numeral.float?_ofFinite`: a finite double is recovered, down to the sign of a
    zero.
-/
import Mathlib.Data.List.TakeWhile
import Tickscript.Json.Token
import Tickscript.Proofs.Shortest

namespace Tickscript

/-! ## Both sides of the point -/

namespace Decimal

variable (d : Decimal)

/-- The digits in front of the point of the plain layout. -/
def wholeDigits : List Char := d.plainDigits.take (d.plainDigits.length - d.places)

/-- The digits behind the point of the plain layout. -/
def partDigits : List Char := d.plainDigits.drop (d.plainDigits.length - d.places)

theorem plain_eq_parts : d.plain = d.wholeDigits ++ '.' :: d.partDigits := rfl

theorem one_le_places : 1 ≤ d.places := Nat.le_max_left ..

theorem isDigit_of_mem_wholeDigits {c : Char} (h : c ∈ d.wholeDigits) : c.isDigit :=
  d.isDigit_of_mem_plainDigits (List.mem_of_mem_take h)

theorem isDigit_of_mem_partDigits {c : Char} (h : c ∈ d.partDigits) : c.isDigit :=
  d.isDigit_of_mem_plainDigits (List.mem_of_mem_drop h)

theorem ofDigitChars_parts : Nat.ofDigitChars 10 (d.wholeDigits ++ d.partDigits) 0 = d.scaled := by
  rw [wholeDigits, partDigits, List.take_append_drop, ofDigitChars_plainDigits]

theorem length_partDigits : d.partDigits.length = d.places := by
  have hlen := d.places_lt_length
  rw [partDigits, List.length_drop]
  omega

theorem partDigits_ne_nil : d.partDigits ≠ [] := by
  rw [← List.length_pos_iff, length_partDigits]
  exact d.one_le_places

theorem wholeDigits_ne_nil : d.wholeDigits ≠ [] := by
  have hlen := d.places_lt_length
  rw [← List.length_pos_iff, wholeDigits, List.length_take]
  omega

end Decimal

namespace Json

/-! ## Parts of numbers -/

/-- Nothing that could belong to a number stands in front. -/
def Stops (rest : List Char) : Prop :=
  ∀ c ∈ rest.head?, ¬ c.isDigit ∧ c ≠ '.' ∧ c ≠ 'e' ∧ c ≠ 'E'

theorem stops_nil : Stops [] := by simp [Stops]

theorem digitRun_append {ds rest : List Char} (hds : ∀ c ∈ ds, c.isDigit) (hne : ds ≠ [])
    (hrest : ∀ c ∈ rest.head?, ¬ c.isDigit) : digitRun (ds ++ rest) = .ok (ds, rest) := by
  have hstop : rest.takeWhile Char.isDigit = [] ∧ rest.dropWhile Char.isDigit = rest := by
    cases rest with
    | nil => exact ⟨rfl, rfl⟩
    | cons c rest =>
      have hc := hrest c rfl
      exact ⟨List.takeWhile_cons_of_neg hc, List.dropWhile_cons_of_neg hc⟩
  have htake : (ds ++ rest).takeWhile Char.isDigit = ds := by
    rw [List.takeWhile_append_of_pos hds, hstop.1, List.append_nil]
  have hdrop : (ds ++ rest).dropWhile Char.isDigit = rest := by
    rw [List.dropWhile_append_of_pos hds, hstop.2]
  rw [digitRun, htake, hdrop]
  cases ds with
  | nil => exact absurd rfl hne
  | cons d ds => rfl

theorem wholePart_append {ds rest : List Char} (hds : ∀ c ∈ ds, c.isDigit) (hne : ds ≠ [])
    (hlead : ds.length = 1 ∨ ds.head? ≠ some '0') (hrest : ∀ c ∈ rest.head?, ¬ c.isDigit) :
    wholePart (ds ++ rest) = .ok (ds, rest) := by
  have hlead' : ¬ (1 < ds.length ∧ ds.head? = some '0') := by
    rintro ⟨hlen, hhead⟩
    rcases hlead with h | h
    · omega
    · exact h hhead
  simp only [wholePart, digitRun_append hds hne hrest, bind, Except.bind, if_neg hlead']

theorem fractionPart_of_stops {rest : List Char} (h : Stops rest) :
    fractionPart rest = .ok ([], rest) := by
  unfold fractionPart
  split
  · exact absurd rfl (h '.' rfl).2.1
  · rfl

theorem exponentPart_of_stops {rest : List Char} (h : Stops rest) :
    exponentPart rest = .ok (none, rest) := by
  unfold exponentPart
  split
  · exact absurd rfl (h 'e' rfl).2.2.1
  · exact absurd rfl (h 'E' rfl).2.2.2
  · rfl

theorem unsignedNumeral_eq {negative : Bool} {cs whole rest fraction rest' rest'' : List Char}
    {exponent : Option Int} (hw : wholePart cs = .ok (whole, rest))
    (hf : fractionPart rest = .ok (fraction, rest'))
    (he : exponentPart rest' = .ok (exponent, rest'')) :
    unsignedNumeral negative cs = .ok (⟨negative,
      ⟨Nat.ofDigitChars 10 (whole ++ fraction) 0, exponent.getD 0 - fraction.length⟩,
      fraction.isEmpty && exponent.isNone⟩, rest'') := by
  simp only [unsignedNumeral, hw, hf, he, bind, Except.bind]

/-- The digits of a number are digits, and at least one. -/
theorem digits_toDigits (n : Nat) :
    (∀ c ∈ Nat.toDigits 10 n, c.isDigit) ∧ Nat.toDigits 10 n ≠ [] :=
  ⟨fun _ h => Nat.isDigit_of_mem_toDigits (by decide) (by decide) h, Nat.toDigits_ne_nil⟩

theorem exponentPart_exponentMark (e : Int) {rest : List Char} (h : Stops rest) :
    exponentPart (Decimal.exponentMark e ++ rest) = .ok (some e, rest) := by
  obtain ⟨hds, hne⟩ := digits_toDigits e.natAbs
  have hdigits (negative : Bool) :
      exponentDigits negative (Nat.toDigits 10 e.natAbs ++ rest)
        = .ok (if negative then -(e.natAbs : Int) else e.natAbs, rest) := by
    simp only [exponentDigits, digitRun_append hds hne fun c hc => (h c hc).1, bind, Except.bind,
      Nat.ofDigitChars_toDigits (b := 10) (by decide) (by decide)]
  unfold Decimal.exponentMark
  by_cases he : e < 0
  · have hsign : -(e.natAbs : Int) = e := by omega
    have hvalue : exponentDigits true (Nat.toDigits 10 e.natAbs ++ rest) = .ok (e, rest) := by
      rw [hdigits true, if_pos rfl, hsign]
    simp [if_pos he, exponentPart, signedExponent, hvalue, Except.map]
  · have hsign : (e.natAbs : Int) = e := by omega
    have hvalue : exponentDigits false (Nat.toDigits 10 e.natAbs ++ rest) = .ok (e, rest) := by
      rw [hdigits false, if_neg Bool.false_ne_true, hsign]
    simp [if_neg he, exponentPart, signedExponent, hvalue, Except.map]

/-! ## Integers -/

/-- An integer as it is written. -/
def Numeral.ofInt (n : Int) : Numeral := ⟨n < 0, ⟨n.natAbs, 0⟩, true⟩

theorem head?_toDigits (n : Nat) :
    (Nat.toDigits 10 n).length = 1 ∨ (Nat.toDigits 10 n).head? ≠ some '0' := by
  cases hd : Nat.toDigits 10 n with
  | nil => exact absurd hd Nat.toDigits_ne_nil
  | cons d ds =>
    by_cases h0 : d = '0'
    · subst h0
      obtain ⟨-, rfl⟩ := Integer.toDigits_head_zero (by decide) hd
      exact Or.inl rfl
    · exact Or.inr (by simpa using h0)

theorem unsignedNumeral_toDigits (negative : Bool) (n : Nat) {rest : List Char} (h : Stops rest) :
    unsignedNumeral negative (Nat.toDigits 10 n ++ rest)
      = .ok (⟨negative, ⟨n, 0⟩, true⟩, rest) := by
  obtain ⟨hds, hne⟩ := digits_toDigits n
  have hwhole := wholePart_append hds hne (head?_toDigits n) fun c hc => (h c hc).1
  rw [unsignedNumeral_eq hwhole (fractionPart_of_stops h) (exponentPart_of_stops h),
    List.append_nil, Nat.ofDigitChars_toDigits (by decide) (by decide)]
  rfl

/-- A number behind its sign. -/
theorem numeral_sign (negative : Bool) {cs : List Char} (h : cs.head? ≠ some '-') :
    numeral (Integer.sign negative ++ cs) = unsignedNumeral negative cs := by
  cases negative with
  | true => rfl
  | false =>
    rw [Integer.sign, if_neg (by decide), List.nil_append]
    unfold numeral
    split
    · exact absurd rfl h
    · rfl

theorem head?_append_ne_minus {ds : List Char} (hds : ∀ c ∈ ds, c.isDigit) (hne : ds ≠ [])
    (rest : List Char) : (ds ++ rest).head? ≠ some '-' := by
  cases ds with
  | nil => exact absurd rfl hne
  | cons d ds =>
    rw [List.cons_append, List.head?_cons, ne_eq, Option.some_inj]
    rintro rfl
    exact absurd (hds '-' List.mem_cons_self) (by decide)

/-- **A written integer is scanned**, up to what follows. -/
theorem numeral_decimal (n : Int) {rest : List Char} (h : Stops rest) :
    numeral (Integer.decimal n ++ rest) = .ok (.ofInt n, rest) := by
  obtain ⟨hds, hne⟩ := digits_toDigits n.natAbs
  rw [Integer.decimal, List.append_assoc, numeral_sign _ (head?_append_ne_minus hds hne rest),
    unsignedNumeral_toDigits _ _ h]
  rfl

theorem Numeral.integer?_ofInt {n : Int} (hmin : Int64.minValue.toInt ≤ n)
    (hmax : n < UInt64.size) : (Numeral.ofInt n).integer? = some n := by
  have hvalue : (if n < 0 then -(n.natAbs : Int) else n.natAbs) = n := by
    split <;> omega
  have hzero : ¬ (n < 0 ∧ n = 0) := by omega
  simp only [integer?, ofInt, decide_eq_true_eq, hvalue, true_and]
  rw [if_pos ⟨hzero, hmin, hmax⟩]

/-! ## Doubles -/

/-- Only a single zero may stand in front of the point. -/
theorem head?_wholeDigits (d : Decimal) :
    d.wholeDigits.length = 1 ∨ d.wholeDigits.head? ≠ some '0' := by
  have hlen := d.places_lt_length
  by_cases hpad : (Nat.toDigits 10 d.scaled).length < d.places + 1
  · -- zeros are put in front until one digit is
    refine Or.inl ?_
    simp only [Decimal.wholeDigits, List.length_take, Decimal.plainDigits, List.length_leftpad]
    omega
  · have hdigits : d.plainDigits = Nat.toDigits 10 d.scaled := by
      rw [Decimal.plainDigits, List.leftpad, Nat.sub_eq_zero_of_le (Nat.le_of_not_lt hpad)]
      rfl
    rcases head?_toDigits d.scaled with h | h
    · have hplaces := d.one_le_places
      omega
    · refine Or.inr ?_
      rw [Decimal.wholeDigits, List.head?_take, if_neg (by omega), hdigits]
      exact h

/-- The decimal that a written one is read as: it has a place behind the point if it is written
    without an exponent. -/
def written (d : Decimal) : Decimal :=
  if -5 ≤ d.magnitude ∧ d.magnitude ≤ 15 then d.fixed else d

theorem same_written (d : Decimal) : d.Same (written d) := by
  unfold written
  split
  · exact d.same_fixed
  · rfl

/-- The double of a sign and a rank as it is written. -/
def Numeral.ofFinite (negative : Bool) (k : Nat) : Numeral :=
  ⟨negative, written (Binary64.shortest .even k), false⟩

/-- A number that is the shortest decimal of a double is read as that double. -/
theorem Numeral.float?_of_same {negative : Bool} {tie : Tie} {k : Fin Binary64.magnitudes}
    {d : Decimal} (h : (Binary64.shortest tie k).Same d) :
    (⟨negative, d, false⟩ : Numeral).float? = some (.finite negative k) := by
  have hrank := Binary64.nearest_shortest tie k.isLt
  rw [float?, ← Binary64.ofDecimal_congr h, Binary64.ofDecimal]
  simp only [hrank, k.isLt, ↓reduceDIte, Fin.eta]

theorem Numeral.float?_ofFinite (negative : Bool) (k : Fin Binary64.magnitudes) :
    (Numeral.ofFinite negative k).float? = some (.finite negative k) :=
  float?_of_same (same_written _)

theorem Numeral.isFinite_of_float? {n : Numeral} {x : Binary64} (h : n.float? = some x) :
    x.isFinite := by
  unfold float? Binary64.ofDecimal at h
  split at h
  · cases h
    rfl
  · cases h

theorem unsignedNumeral_plain (negative : Bool) (d : Decimal) {rest : List Char} (h : Stops rest) :
    unsignedNumeral negative (d.plain ++ rest) = .ok (⟨negative, d.fixed, false⟩, rest) := by
  have hwhole : wholePart (d.plain ++ rest)
      = .ok (d.wholeDigits, '.' :: (d.partDigits ++ rest)) := by
    rw [d.plain_eq_parts, List.append_assoc]
    exact wholePart_append (fun _ => d.isDigit_of_mem_wholeDigits) d.wholeDigits_ne_nil
      (head?_wholeDigits d) (by simp)
  have hfraction : fractionPart ('.' :: (d.partDigits ++ rest)) = .ok (d.partDigits, rest) :=
    digitRun_append (fun _ => d.isDigit_of_mem_partDigits) d.partDigits_ne_nil
      fun c hc => (h c hc).1
  rw [unsignedNumeral_eq hwhole hfraction (exponentPart_of_stops h), d.ofDigitChars_parts,
    d.length_partDigits, List.isEmpty_eq_false_iff.2 d.partDigits_ne_nil, Option.getD_none,
    Int.zero_sub]
  rfl

theorem unsignedNumeral_scientific (negative : Bool) (d : Decimal) {rest : List Char}
    (h : Stops rest) :
    unsignedNumeral negative (d.scientific ++ rest) = .ok (⟨negative, d, false⟩, rest) := by
  obtain ⟨hds, hne⟩ := digits_toDigits d.coefficient
  have hvalue : Nat.ofDigitChars 10 d.digits 0 = d.coefficient :=
    Nat.ofDigitChars_toDigits (by decide) (by decide)
  have hexponent := exponentPart_exponentMark d.magnitude h
  have hmark : ∀ c ∈ (Decimal.exponentMark d.magnitude ++ rest).head?, ¬ c.isDigit := by
    simp [Decimal.exponentMark]
  cases hd : d.digits with
  | nil => exact absurd hd hne
  | cons first more =>
    have hdigit : ∀ c ∈ first :: more, c.isDigit :=
      fun c hc => hds c (show c ∈ d.digits from hd ▸ hc)
    have hfirst : ∀ c ∈ [first], c.isDigit := by
      rintro c hc
      exact hdigit c (List.mem_singleton.1 hc ▸ List.mem_cons_self)
    have hmagnitude : d.magnitude - more.length = d.exponent := by
      rw [Decimal.magnitude, hd, List.length_cons]
      omega
    rw [hd] at hvalue
    cases more with
    | nil =>
      have hwhole : wholePart (d.scientific ++ rest)
          = .ok ([first], Decimal.exponentMark d.magnitude ++ rest) := by
        rw [Decimal.scientific, hd]
        exact wholePart_append hfirst (List.cons_ne_nil _ _) (Or.inl rfl) hmark
      rw [unsignedNumeral_eq hwhole rfl hexponent, List.append_nil, hvalue, Option.getD_some,
        hmagnitude]
      rfl
    | cons second more =>
      have hwhole : wholePart (d.scientific ++ rest) = .ok ([first], '.' :: (second :: more ++
          (Decimal.exponentMark d.magnitude ++ rest))) := by
        rw [Decimal.scientific, hd, List.append_assoc]
        exact wholePart_append hfirst (List.cons_ne_nil _ _) (Or.inl rfl) (by simp)
      have hfraction : fractionPart ('.' :: (second :: more ++
          (Decimal.exponentMark d.magnitude ++ rest)))
          = .ok (second :: more, Decimal.exponentMark d.magnitude ++ rest) :=
        digitRun_append (fun c hc => hdigit c (List.mem_cons_of_mem first hc))
          (List.cons_ne_nil second more) hmark
      rw [unsignedNumeral_eq hwhole hfraction hexponent, List.singleton_append, hvalue,
        Option.getD_some, hmagnitude]
      rfl

/-- A written decimal begins with a digit. -/
theorem jsonLayout_eq_cons (d : Decimal) :
    ∃ c cs, Binary64.jsonLayout d = c :: cs ∧ c.isDigit := by
  unfold Binary64.jsonLayout
  split
  · exact d.plain_eq_cons
  · obtain ⟨hds, hne⟩ := digits_toDigits d.coefficient
    obtain ⟨first, more, hd⟩ := List.exists_cons_of_ne_nil hne
    have hfirst : first.isDigit := hds first (hd ▸ List.mem_cons_self)
    rw [Decimal.scientific, Decimal.digits, hd]
    cases more with
    | nil => exact ⟨first, _, rfl, hfirst⟩
    | cons second more => exact ⟨first, _, rfl, hfirst⟩

theorem head?_jsonLayout_ne_minus (d : Decimal) (rest : List Char) :
    (Binary64.jsonLayout d ++ rest).head? ≠ some '-' := by
  obtain ⟨c, cs, hcs, hc⟩ := jsonLayout_eq_cons d
  rw [hcs, List.cons_append, List.head?_cons, ne_eq, Option.some_inj]
  rintro rfl
  exact absurd hc (by decide)

/-- A number with or without a sign begins with a sign or a digit. -/
theorem sign_append_eq_cons (negative : Bool) {text : List Char}
    (h : ∃ c cs, text = c :: cs ∧ c.isDigit) :
    ∃ c cs, Integer.sign negative ++ text = c :: cs ∧ Integer.Numeral c := by
  obtain ⟨c, cs, rfl, hc⟩ := h
  cases negative with
  | true => exact ⟨'-', _, rfl, Or.inl rfl⟩
  | false => exact ⟨c, cs, rfl, Or.inr hc⟩

theorem json_eq_cons (negative : Bool) (k : Fin Binary64.magnitudes) :
    ∃ c cs, (Binary64.finite negative k).json = c :: cs ∧ Integer.Numeral c :=
  sign_append_eq_cons negative (jsonLayout_eq_cons _)

/-- **A written double is scanned**, up to what follows. -/
theorem numeral_json (negative : Bool) (k : Fin Binary64.magnitudes) {rest : List Char}
    (h : Stops rest) : numeral ((Binary64.finite negative k).json ++ rest)
      = .ok (.ofFinite negative k, rest) := by
  rw [Binary64.json, List.append_assoc, numeral_sign _ (head?_jsonLayout_ne_minus _ _),
    Binary64.jsonLayout, Numeral.ofFinite, written]
  split
  · exact unsignedNumeral_plain negative _ h
  · exact unsignedNumeral_scientific negative _ h

end Json

end Tickscript
