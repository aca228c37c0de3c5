/-
  Literals are recovered from a text that goes on behind them.

  A string ends at its first quote without a backslash (`Literal.scan`), whatever
  it holds.  All other literals that are no lists and no lambdas are words: they
  end in front of the comma or the bracket that follows, and their characters
  tell their kinds apart (`Literal.kindOf`).

  * `Literal.scan_quoted`: reading a quoted string stops behind it and gives the
    string;
  * `Literal.render_append_injective`: so a literal is recovered, and the text
    behind it;
  * `Literal.arguments_injective`: and so are all literals in brackets, where empty
    lists may stand among them (`Literal.vacancies_injective`).
-/
import Tickscript.Proofs.Duration
import Tickscript.Proofs.Number

namespace Tickscript

open Integer (Numeral Hex)

namespace Literal

/-! ## Written forms -/

theorem render_text (s : String) : (text s).render = quoted s := rfl

theorem render_number (n : Number) : (number n).render = n.render := rfl

theorem render_duration (n : Int64) : (duration n).render = Duration.render n.toInt := rfl

theorem render_list (items : List Literal) :
    (list items).render = separator.intercalate (items.map render) := by
  have hall : ∀ ls, renderAll ls = ls.map render := by
    intro ls
    induction ls with
    | nil => rfl
    | cons l ls ih => exact congrArg (l.render :: ·) ih
  rw [← hall]
  rfl

/-! ## Strings -/

/-- Reading from behind an opening quote: a backslash takes the next character as it is, and a
    quote ends the string.  The result is the string and what follows. -/
def scan : List Char → Option (List Char × List Char)
  | [] => none
  | '\'' :: t => some ([], t)
  | '\\' :: c :: t => (scan t).map fun r => (c :: r.1, r.2)
  | c :: t => (scan t).map fun r => (c :: r.1, r.2)

/-- One character of a string. -/
theorem scan_escape (c : Char) (t : List Char) :
    scan (escape c ++ t) = (scan t).map fun r => (c :: r.1, r.2) := by
  by_cases hb : c = '\\'
  · subst hb
    rfl
  by_cases hq : c = '\''
  · subst hq
    rfl
  have hc : escape c = [c] := if_neg (by simp [hb, hq])
  rw [hc, List.singleton_append, scan]
  · exact hq
  · intro d s hd
    exact absurd hd hb

/-- **A quoted string is read back**, and the reading stops behind it. -/
theorem scan_quoted (s t : List Char) : scan (s.flatMap escape ++ '\'' :: t) = some (s, t) := by
  induction s with
  | nil => rfl
  | cons c s ih => rw [List.flatMap_cons, List.append_assoc, scan_escape, ih, Option.map_some]

example : scan "it\\'s', 2)".toList = some ("it's".toList, ", 2)".toList) := by decide

theorem quoted_append_injective {s s' : String} {t t' : List Char}
    (h : quoted s ++ t = quoted s' ++ t') : s = s' ∧ t = t' := by
  have hscan : ∀ (r : String) (u : List Char),
      quoted r ++ u = '\'' :: (r.toList.flatMap escape ++ '\'' :: u) := by
    intro r u
    simp [quoted]
  rw [hscan, hscan] at h
  have heq := congrArg scan (List.cons_injective h)
  rw [scan_quoted, scan_quoted, Option.some_inj, Prod.mk.injEq, String.toList_inj] at heq
  exact heq

/-! ## Words -/

/-- A literal that is written as a word. -/
inductive IsWord : Literal → Prop where
  | bool (b : Bool) : IsWord (.bool b)
  | float {x : Binary64} (hx : x.isFinite) : IsWord (.number (.float x))
  | int (v : Int64) (b : Base) : IsWord (.number (.int v b))
  | duration (n : Int64) : IsWord (.duration n)

/-- A character of a word. -/
def InWord (c : Char) : Prop := c ≠ ',' ∧ c ≠ ')' ∧ c ≠ '\''

instance (c : Char) : Decidable (InWord c) := inferInstanceAs (Decidable (_ ∧ _))

theorem inWord_of_numeral {c : Char} (h : Numeral c) : InWord c := by
  refine ⟨?_, ?_, ?_⟩ <;>
  · rintro rfl
    exact absurd h (by decide)

theorem inWord_of_hex {c : Char} (h : Hex c) : InWord c := h.of_forall (p := InWord) (by decide)

theorem inWord_of_letter {c : Char} (h : c ∈ Duration.letters) : InWord c := by
  simp only [Duration.letters, List.mem_cons, List.not_mem_nil, or_false] at h
  rcases h with rfl | rfl | rfl | rfl | rfl | rfl | rfl <;> decide

theorem inWord_of_mem_render {l : Literal} (hl : l.IsWord) {c : Char} (hc : c ∈ l.render) :
    InWord c := by
  cases hl with
  | bool b =>
    have hall : ∀ b, (bool b).render.all (fun c => InWord c) := by decide
    exact of_decide_eq_true (List.all_eq_true.1 (hall b) c hc)
  | float hx =>
    rcases Number.mem_render_float hx hc with rfl | h
    · decide
    · exact inWord_of_numeral h
  | int v b =>
    rcases Number.mem_render_int hc with rfl | rfl | h
    · decide
    · decide
    · exact inWord_of_hex h
  | duration n =>
    rcases Duration.mem_render hc with h | h
    · exact inWord_of_numeral h
    · exact inWord_of_letter h

/-! ### Kinds -/

/-- What a word can be. -/
inductive Kind where
  | bool
  | float
  | int
  | duration

/-- The kind of a literal that is a word. -/
def kind : Literal → Kind
  | bool _ => .bool
  | number (.float _) => .float
  | number (.int _ _) => .int
  | _ => .duration

/-- The kind of a word, by its characters. -/
def kindOf (w : List Char) : Kind :=
  if 'E' ∈ w then .bool
  else if '.' ∈ w then .float
  else if 'x' ∈ w ∨ w.all (Numeral ·) then .int
  else .duration

section
variable {w : List Char}

theorem kindOf_eq_float (hE : 'E' ∉ w) (hp : '.' ∈ w) : kindOf w = .float := by
  rw [kindOf, if_neg hE, if_pos hp]

theorem kindOf_eq_int (hE : 'E' ∉ w) (hp : '.' ∉ w) (hx : 'x' ∈ w ∨ ∀ c ∈ w, Numeral c) :
    kindOf w = .int := by
  have hx' : 'x' ∈ w ∨ w.all (Numeral ·) := by simpa using hx
  rw [kindOf, if_neg hE, if_neg hp, if_pos hx']

theorem kindOf_eq_duration (hE : 'E' ∉ w) (hp : '.' ∉ w)
    (hx : ¬ ('x' ∈ w ∨ ∀ c ∈ w, Numeral c)) : kindOf w = .duration := by
  have hx' : ¬ ('x' ∈ w ∨ w.all (Numeral ·)) := by simpa using hx
  rw [kindOf, if_neg hE, if_neg hp, if_neg hx']

end

theorem kindOf_bool (b : Bool) : kindOf (bool b).render = .bool := by
  cases b <;> rfl

theorem kindOf_float {x : Binary64} (hx : x.isFinite) :
    kindOf (number (.float x)).render = .float := by
  have hE : 'E' ∉ (Number.float x).render := by
    intro h
    rcases Number.mem_render_float hx h with h | h
    · exact absurd h (by decide)
    · exact absurd h (by decide)
  rw [render_number]
  exact kindOf_eq_float hE (Number.point_mem_render_float x)

theorem kindOf_int (v : Int64) (b : Base) : kindOf (number (.int v b)).render = .int := by
  have hE : 'E' ∉ (Number.int v b).render :=
    Number.not_mem_render_int (by decide) (by decide) fun h =>
      h.of_forall (p := (· ≠ 'E')) (by decide) rfl
  rw [render_number]
  exact kindOf_eq_int hE (Number.point_not_mem_render_int v b) (Number.render_int_cases v b)

theorem kindOf_duration (n : Int64) : kindOf (duration n).render = .duration := by
  have hmem : ∀ c, ¬ Numeral c → c ∉ Duration.letters → c ∉ Duration.render n.toInt := by
    intro c hn hl h
    rcases Duration.mem_render h with h | h
    · exact hn h
    · exact hl h
  have hE := hmem 'E' (by decide) (by decide)
  have hpoint := hmem '.' (by decide) (by decide)
  have hint : ¬ ('x' ∈ Duration.render n.toInt ∨ ∀ c ∈ Duration.render n.toInt, Numeral c) := by
    rintro (h | h)
    · exact hmem 'x' (by decide) (by decide) h
    · obtain ⟨c, hc, hl⟩ := Duration.exists_letter n.toInt
      exact Duration.not_numeral_letter hl (h c hc)
  rw [render_duration]
  exact kindOf_eq_duration hE hpoint hint

/-- The characters of a word tell its kind. -/
theorem kindOf_render {l : Literal} (hl : l.IsWord) : kindOf l.render = l.kind := by
  cases hl with
  | bool b => exact kindOf_bool b
  | float hx => exact kindOf_float hx
  | int v b => exact kindOf_int v b
  | duration n => exact kindOf_duration n

/-- **A word is recovered from its characters.** -/
theorem eq_of_render_eq {l m : Literal} (hl : l.IsWord) (hm : m.IsWord)
    (h : l.render = m.render) : l = m := by
  have hkind : l.kind = m.kind := by rw [← kindOf_render hl, h, kindOf_render hm]
  cases hl <;> cases hm
  case bool.bool b c =>
    have hbool : ∀ b c, (bool b).render = (bool c).render → b = c := by decide
    rw [hbool b c h]
  case float.float x hx y hy => rw [Binary64.script_injective hx hy h]
  case int.int v b w c =>
    obtain ⟨rfl, rfl⟩ := Number.render_int_injective h
    rfl
  case duration.duration m n => rw [Int64.toInt_inj.1 (Duration.render_injective h)]
  -- words of different kinds
  all_goals cases hkind

theorem IsWord.render_ne_nil {l : Literal} (hl : l.IsWord) : l.render ≠ [] := by
  intro h
  cases hl with
  | bool b => cases b <;> cases h
  | @float x => exact absurd (Number.point_mem_render_float x) (by rw [← render_number, h]; simp)
  | int v b =>
    rw [render_number, Number.render_int] at h
    exact Nat.toDigits_ne_nil (List.append_eq_nil_iff.1 (List.append_eq_nil_iff.1 h).2).2
  | duration n =>
    obtain ⟨c, hc, -⟩ := Duration.exists_letter n.toInt
    rw [← render_duration, h] at hc
    cases hc

/-! ## Literals in brackets -/

/-- A literal that is neither a list nor a lambda, nor a double without a written form. -/
inductive IsAtom : Literal → Prop where
  | text (s : String) : IsAtom (.text s)
  | word {l : Literal} (hl : l.IsWord) : IsAtom l

/-- What follows an argument. -/
def Ends (t : List Char) : Prop := ∃ c s, t = c :: s ∧ (c = ',' ∨ c = ')')

theorem Ends.not_inWord {t : List Char} (ht : Ends t) : ∀ c ∈ t.head?, ¬ InWord c := by
  obtain ⟨c, s, rfl, rfl | rfl⟩ := ht <;>
  · rintro c hc
    rw [List.head?_cons, Option.mem_some_iff] at hc
    subst hc
    decide

/-- A word does not begin with a quote. -/
theorem quoted_append_ne {s : String} {l : Literal} (hl : l.IsWord) {t u : List Char} :
    quoted s ++ t ≠ l.render ++ u := by
  intro h
  cases hr : l.render with
  | nil => exact hl.render_ne_nil hr
  | cons c cs =>
    have hc : InWord c := inWord_of_mem_render hl (hr ▸ List.mem_cons_self)
    rw [hr] at h
    exact hc.2.2 (List.cons.inj h).1.symm

/-- **A literal is recovered from its written form**, together with what follows. -/
theorem render_append_injective {l m : Literal} (hl : l.IsAtom) (hm : m.IsAtom) {t u : List Char}
    (ht : Ends t) (hu : Ends u) (h : l.render ++ t = m.render ++ u) : l = m ∧ t = u := by
  cases hl with
  | text s =>
    cases hm with
    | text s' =>
      obtain ⟨rfl, rfl⟩ := quoted_append_injective h
      exact ⟨rfl, rfl⟩
    | word hm => exact absurd h (quoted_append_ne hm)
  | word hl =>
    cases hm with
    | text s' => exact absurd h.symm (quoted_append_ne hl)
    | word hm =>
      obtain ⟨hword, rfl⟩ := append_unique (fun _ => inWord_of_mem_render hl)
        (fun _ => inWord_of_mem_render hm) ht.not_inWord hu.not_inWord h
      exact ⟨eq_of_render_eq hl hm hword, rfl⟩

theorem IsAtom.render_append_ne {l : Literal} (hl : l.IsAtom) (t : List Char) {u : List Char}
    (hu : Ends u) : l.render ++ t ≠ u := by
  obtain ⟨c, s, rfl, hc⟩ := hu
  intro h
  cases hl with
  | text s =>
    obtain ⟨rfl, -⟩ := List.cons.inj h
    rcases hc with hc | hc <;> cases hc
  | word hl =>
    cases hr : l.render with
    | nil => exact hl.render_ne_nil hr
    | cons d ds =>
      have hd : InWord d := inWord_of_mem_render hl (hr ▸ List.mem_cons_self)
      rw [hr] at h
      obtain ⟨rfl, -⟩ := List.cons.inj h
      rcases hc with hc | hc
      · exact hd.1 hc
      · exact hd.2.1 hc

/-! ### Places -/

/-- Whether the literal is an empty list, of which nothing is written. -/
def isVacant : Literal → Bool
  | list [] => true
  | _ => false

/-- What stands between two separators: an atom, or nothing at all. -/
inductive IsPlace : Literal → Prop where
  | atom {l : Literal} (hl : l.IsAtom) : IsPlace l
  | vacant : IsPlace (.list [])

theorem IsAtom.isVacant_eq_false {l : Literal} (hl : l.IsAtom) : l.isVacant = false := by
  cases hl with
  | text s => rfl
  | word hl => cases hl <;> rfl

/-- **A place is recovered**, together with what follows: an atom begins with a character that
    follows no place. -/
theorem IsPlace.render_append_injective {l m : Literal} (hl : l.IsPlace) (hm : m.IsPlace)
    {t u : List Char} (ht : Ends t) (hu : Ends u) (h : l.render ++ t = m.render ++ u) :
    l = m ∧ t = u := by
  cases hl with
  | atom hl =>
    cases hm with
    | atom hm => exact Literal.render_append_injective hl hm ht hu h
    | vacant => exact absurd h (hl.render_append_ne t hu)
  | vacant =>
    cases hm with
    | atom hm => exact absurd h.symm (hm.render_append_ne u ht)
    | vacant => exact ⟨rfl, h⟩

/-- The arguments behind the first, the closing bracket and what follows. -/
def argumentsAfter : List Literal → List Char → List Char
  | [], t => ')' :: t
  | l :: ls, t => ',' :: ' ' :: (l.render ++ argumentsAfter ls t)

theorem ends_argumentsAfter (ls : List Literal) (t : List Char) : Ends (argumentsAfter ls t) := by
  cases ls with
  | nil => exact ⟨')', t, rfl, Or.inr rfl⟩
  | cons l ls => exact ⟨',', _, rfl, Or.inl rfl⟩

theorem intercalate_eq : ∀ (l : Literal) (ls : List Literal) (t : List Char),
    separator.intercalate ((l :: ls).map render) ++ ')' :: t = l.render ++ argumentsAfter ls t
  | l, [], t => by rw [List.map_singleton, List.intercalate_singleton, argumentsAfter]
  | l, m :: ls, t => by
    rw [List.map_cons, List.map_cons, List.intercalate_cons_cons, ← List.map_cons,
      List.append_assoc, intercalate_eq m ls t]
    simp [argumentsAfter, separator]

theorem argumentsAfter_injective : ∀ {ls ms : List Literal} {t u : List Char},
    (∀ l ∈ ls, l.IsPlace) → (∀ m ∈ ms, m.IsPlace) → argumentsAfter ls t = argumentsAfter ms u →
    ls = ms ∧ t = u
  | [], [], _, _, _, _, h => ⟨rfl, (List.cons.inj h).2⟩
  | [], _ :: _, _, _, _, _, h => by cases (List.cons.inj h).1
  | _ :: _, [], _, _, _, _, h => by cases (List.cons.inj h).1
  | l :: ls, m :: ms, t, u, hl, hm, h => by
    have hrest : l.render ++ argumentsAfter ls t = m.render ++ argumentsAfter ms u :=
      List.cons_injective (List.cons_injective h)
    obtain ⟨rfl, htail⟩ := (hl l List.mem_cons_self).render_append_injective
      (hm m List.mem_cons_self) (ends_argumentsAfter ls t) (ends_argumentsAfter ms u) hrest
    obtain ⟨rfl, rfl⟩ := argumentsAfter_injective (fun x hx => hl x (List.mem_cons_of_mem l hx))
      (fun x hx => hm x (List.mem_cons_of_mem l hx)) htail
    exact ⟨rfl, rfl⟩

/-- Brackets with nothing between them hold no place, or a single vacant one. -/
theorem eq_vacant_of_intercalate_eq {ms : List Literal} {t u : List Char}
    (hm : ∀ m ∈ ms, m.IsPlace)
    (h : ')' :: t = separator.intercalate (ms.map render) ++ ')' :: u) :
    (ms = [] ∨ ms = [list []]) ∧ t = u := by
  cases ms with
  | nil => exact ⟨Or.inl rfl, List.cons_injective h⟩
  | cons m ms =>
    rw [intercalate_eq] at h
    rcases hm m List.mem_cons_self with hm | _
    · exact absurd h.symm (hm.render_append_ne _ ⟨')', t, rfl, Or.inr rfl⟩)
    · cases ms with
      | nil => exact ⟨Or.inr rfl, List.cons_injective h⟩
      | cons n ms => cases (List.cons.inj h).1

/-- **Arguments are recovered from their written form but for vacant places**, up to the bracket
    that closes them, together with what follows. -/
theorem vacancies_injective {ls ms : List Literal} {t u : List Char} (hl : ∀ l ∈ ls, l.IsPlace)
    (hm : ∀ m ∈ ms, m.IsPlace)
    (h : separator.intercalate (ls.map render) ++ ')' :: t =
      separator.intercalate (ms.map render) ++ ')' :: u) :
    ls.filter (!·.isVacant) = ms.filter (!·.isVacant) ∧ t = u := by
  cases ls with
  | nil =>
    obtain ⟨hms, htail⟩ := eq_vacant_of_intercalate_eq hm h
    rcases hms with rfl | rfl <;> exact ⟨rfl, htail⟩
  | cons l ls =>
    cases ms with
    | nil =>
      obtain ⟨hls, htail⟩ := eq_vacant_of_intercalate_eq hl h.symm
      rcases hls with hls | hls <;> rw [hls] <;> exact ⟨rfl, htail.symm⟩
    | cons m ms =>
      -- as if a comma stood in front of the first argument
      rw [intercalate_eq, intercalate_eq] at h
      obtain ⟨hargs, htail⟩ := argumentsAfter_injective hl hm (congrArg ([',', ' '] ++ ·) h)
      exact ⟨congrArg _ hargs, htail⟩

/-- **Atoms are recovered from their written form**, up to the bracket that closes them, together
    with what follows. -/
theorem arguments_injective {ls ms : List Literal} {t u : List Char} (hl : ∀ l ∈ ls, l.IsAtom)
    (hm : ∀ m ∈ ms, m.IsAtom)
    (h : separator.intercalate (ls.map render) ++ ')' :: t =
      separator.intercalate (ms.map render) ++ ')' :: u) : ls = ms ∧ t = u := by
  have hall : ∀ {ns : List Literal}, (∀ n ∈ ns, n.IsAtom) → ns.filter (!·.isVacant) = ns := by
    intro ns hns
    rw [List.filter_eq_self]
    intro n hn
    rw [(hns n hn).isVacant_eq_false]
    rfl
  obtain ⟨hargs, htail⟩ := vacancies_injective (fun l h => .atom (hl l h))
    (fun m h => .atom (hm m h)) h
  rw [hall hl, hall hm] at hargs
  exact ⟨hargs, htail⟩

end Literal

end Tickscript
