/-
  A string ends at its own last quote.

  A reader that knows nothing but the opening quote goes from character to
  character: a backslash takes the one behind it as it is, and the first quote
  that is not taken ends the string.

  * `Literal.scan_eq`: reading a string is finding that quote and dropping the
    backslashes in front of it, for every text;
  * `Literal.escaped_eq`: to double the backslashes and then to put one in front of
    each quote is to escape each character by itself;
  * `Literal.render_closing`: in a script, the quote that is found is the last
    character of the literal, and what stands in front of it is the string.
-/
import Tickscript.Proofs.Literal

namespace Tickscript.Literal

/-! ## Where a string ends -/

/-- The place of the quote that ends a string, counted from behind its opening quote: the first
    that no backslash takes. -/
def closing? : List Char → Option Nat
  | [] => none
  | '\'' :: _ => some 0
  | '\\' :: _ :: t => (closing? t).map (· + 2)
  | _ :: t => (closing? t).map (· + 1)

/-- What a string holds: its characters without the backslashes that take others. -/
def unescape : List Char → List Char
  | [] => []
  | '\\' :: c :: t => c :: unescape t
  | c :: t => c :: unescape t

section
variable {c : Char}

theorem closing?_cons (hq : c ≠ '\'') (hb : c ≠ '\\') (t : List Char) :
    closing? (c :: t) = (closing? t).map (· + 1) := by
  rw [closing?]
  · exact hq
  · intro d s hd
    exact absurd hd hb

theorem unescape_cons (hb : c ≠ '\\') (t : List Char) : unescape (c :: t) = c :: unescape t := by
  rw [unescape]
  intro d s hd
  exact absurd hd hb

end

/-- The quote that ends a string stands in the text. -/
theorem closing?_lt {u : List Char} {k : Nat} (h : closing? u = some k) : k < u.length := by
  fun_induction closing? u generalizing k with
  | case1 => cases h
  | case2 t =>
    cases h
    exact Nat.zero_lt_succ _
  | case3 c t ih =>
    obtain ⟨j, hj, rfl⟩ := Option.map_eq_some_iff.1 h
    have := ih hj
    simp only [List.length_cons]
    omega
  | case4 c t _ _ ih =>
    obtain ⟨j, hj, rfl⟩ := Option.map_eq_some_iff.1 h
    exact Nat.succ_lt_succ (ih hj)

/-- **Reading finds the quote that ends the string** and gives what stands in front of it, without
    backslashes, and what follows. -/
theorem scan_eq (u : List Char) :
    scan u = (closing? u).map fun k => (unescape (u.take k), u.drop (k + 1)) := by
  fun_induction scan u with
  | case1 => rfl
  | case2 t => rfl
  | case3 c t ih =>
    rw [ih, closing?, Option.map_map, Option.map_map]
    rfl
  | case4 c t hq htake ih =>
    by_cases hb : c = '\\'
    · subst hb
      -- a backslash that takes no character is the last one
      cases t with
      | nil => rfl
      | cons d s => exact absurd rfl (htake d s rfl)
    · rw [ih, closing?_cons hq hb, Option.map_map, Option.map_map]
      refine congrArg (Option.map · (closing? t)) (funext fun k => ?_)
      simp [unescape_cons hb]

/-! ## What stands between the quotes -/

/-- A text with another one in the place of each character `c`. -/
def substitute (c : Char) (w s : List Char) : List Char :=
  s.flatMap fun d => if d = c then w else [d]

/-- A string with its backslashes doubled, and then a backslash in front of each quote. -/
def escaped (s : List Char) : List Char :=
  substitute '\'' ['\\', '\''] (substitute '\\' ['\\', '\\'] s)

/-- **Both substitutions together escape each character once**: the second leaves the backslashes
    of the first alone, and the first has passed those of the second. -/
theorem escaped_eq (s : List Char) : escaped s = s.flatMap escape := by
  have hchar : ∀ c : Char,
      substitute '\'' ['\\', '\''] (if c = '\\' then ['\\', '\\'] else [c]) = escape c := by
    intro c
    by_cases hb : c = '\\'
    · subst hb
      rfl
    by_cases hq : c = '\''
    · subst hq
      rfl
    · simp [substitute, escape, hb, hq]
  rw [escaped, substitute, substitute, List.flatMap_assoc]
  exact congrArg (s.flatMap ·) (funext hchar)

/-- The other way round, the backslash in front of a quote is doubled, and the quote is free. -/
example : closing? (substitute '\\' ['\\', '\\'] (substitute '\'' ['\\', '\''] "'".toList)) =
    some 2 := by decide

theorem render_text_eq_escaped (s : String) :
    (text s).render = '\'' :: escaped s.toList ++ ['\''] := by
  rw [escaped_eq]
  exact render_text s

/-- A string in a script from behind its opening quote. -/
theorem tail_render_text_append (s : String) (t : List Char) :
    ((text s).render ++ t).tail = escaped s.toList ++ '\'' :: t := by
  rw [render_text_eq_escaped, List.cons_append, List.cons_append, List.tail_cons,
    List.append_assoc, List.singleton_append]

/-- What is found of an escaped string is the quote behind it. -/
theorem closing?_escaped (s t : List Char) :
    closing? (escaped s ++ '\'' :: t) = some (escaped s).length := by
  have hscan : scan (escaped s ++ '\'' :: t) = some (s, t) := by
    rw [escaped_eq]
    exact scan_quoted s t
  rw [scan_eq] at hscan
  obtain ⟨k, hk, hread⟩ := Option.map_eq_some_iff.1 hscan
  -- as much is left behind the quote as follows the string
  have hleft := congrArg (fun r => r.2.length) hread
  have hlt := closing?_lt hk
  simp only [List.length_drop, List.length_append, List.length_cons] at hleft hlt
  have hplace : k = (escaped s).length := by omega
  rw [hk, hplace]

/-- Without its backslashes, an escaped string is the string. -/
theorem unescape_escaped (s : List Char) : unescape (escaped s) = s := by
  have hscan := scan_quoted s []
  rw [← escaped_eq, scan_eq, closing?_escaped, Option.map_some, List.take_left, Option.some_inj,
    Prod.mk.injEq] at hscan
  exact hscan.1

/-- **A string in a script ends at the last character of its literal**, whatever it holds and
    whatever follows, and what stands in front of that quote is the string, backslashes apart.  So
    no other string with another text behind it looks the same. -/
theorem render_closing (s : String) (t : List Char) :
    (text s).render = '\'' :: escaped s.toList ++ ['\''] ∧
      (∃ k, closing? ((text s).render ++ t).tail = some k ∧ (text s).render.length = k + 2 ∧
        unescape (((text s).render ++ t).tail.take k) = s.toList) ∧
      ∀ (s' : String) (t' : List Char), (text s).render ++ t = (text s').render ++ t' →
        s = s' ∧ t = t' := by
  have hrender := render_text_eq_escaped s
  have htail := tail_render_text_append s t
  refine ⟨hrender, ⟨(escaped s.toList).length, ?_, ?_, ?_⟩, fun s' t' h =>
    quoted_append_injective h⟩
  · rw [htail, closing?_escaped]
  · rw [hrender, List.cons_append, List.length_cons, List.length_append, List.length_singleton]
  · rw [htail, List.take_left, unescape_escaped]

/-- A string with backslashes in front of a quote and at its end, as the first of two arguments. -/
theorem render_closing_backslashes :
    let s := "\\' \\"
    let t := ", 'x')".toList
    let behind := "\\\\\\' \\\\', 'x')".toList
    ((text s).render ++ t).tail = behind ∧ closing? behind = some 7 ∧
      (text s).render.length = 9 ∧ unescape (behind.take 7) = s.toList := by
  intro s t behind
  have hbehind : ((text s).render ++ t).tail = behind := by decide
  have hseven : closing? behind = some 7 := by decide
  obtain ⟨-, ⟨k, hclosing, hlength, hread⟩, -⟩ := render_closing s t
  rw [hbehind] at hclosing hread
  obtain rfl : 7 = k := Option.some_inj.1 (hseven.symm.trans hclosing)
  exact ⟨hbehind, hclosing, hlength, hread⟩

end Tickscript.Literal
