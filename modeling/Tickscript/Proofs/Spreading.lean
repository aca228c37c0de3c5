/-
  Lists are spread into the arguments of a call.

  Written in an argument list, a list stands for its items, and these take its place.  But
  where there is no item the place stays, and so do the separators around it.

  * `Literal.places`: the places that a literal takes, without lists but for the empty ones;
    `Literal.flattenAll_eq_filter`: the other places are the items;
  * `Call.render_places`: a call is written place by place;
  * `Call.render_spread_iff`: so it is written like the call of its items alone exactly if no
    empty list stands beside another place;
  * `Call.flattenAll_eq_of_render_eq`: the items of a call are recovered from its text, whatever
    lists they stand in.
-/
import Tickscript.Chain.Render
import Tickscript.Proofs.Documents.Chain
import Tickscript.Proofs.Literal

namespace Tickscript

/-! ## Separated parts -/

section
variable {α : Type} {sep : List α}

theorem intercalate_append {xs ys : List (List α)} (hxs : xs ≠ []) (hys : ys ≠ []) :
    sep.intercalate (xs ++ ys) = sep.intercalate xs ++ sep ++ sep.intercalate ys := by
  induction xs with
  | nil => exact absurd rfl hxs
  | cons x xs ih =>
    rw [List.cons_append]
    cases xs with
    | nil => rw [List.nil_append, List.intercalate_cons_of_ne_nil hys, List.intercalate_singleton]
    | cons x' xs =>
      rw [List.cons_append, List.intercalate_cons_cons, ← List.cons_append,
        ih (List.cons_ne_nil x' xs), List.intercalate_cons_cons]
      simp only [List.append_assoc]

/-- There is a separator between any two parts. -/
theorem length_intercalate (xs : List (List α)) : (sep.intercalate xs).length
    = (xs.map List.length).sum + sep.length * (xs.length - 1) := by
  induction xs with
  | nil => rfl
  | cons x xs ih =>
    cases xs with
    | nil => simp
    | cons x' xs =>
      rw [List.intercalate_cons_cons, List.length_append, List.length_append, ih]
      simp only [List.map_cons, List.sum_cons, List.length_cons, Nat.add_sub_cancel, Nat.mul_succ]
      omega

end

namespace Literal

/-! ## Places -/

mutual

/-- The places that a literal takes in an argument list: those of its items for a list, unless it
    has none; one for every other literal. -/
def places : Literal → List Literal
  | list [] => [list []]
  | list (l :: rest) => places l ++ placesAll rest
  | l => [l]

def placesAll : List Literal → List Literal
  | [] => []
  | l :: rest => places l ++ placesAll rest

end

theorem places_list {items : List Literal} (h : items ≠ []) :
    (list items).places = placesAll items := by
  cases items with
  | nil => exact absurd rfl h
  | cons l rest => rfl

mutual

theorem places_ne_nil : ∀ l : Literal, l.places ≠ []
  | list [] => List.cons_ne_nil _ _
  | list (l :: rest) => placesAll_ne_nil l rest
  | text _ | number _ | bool _ | duration _ | lambda _ => List.cons_ne_nil _ _

theorem placesAll_ne_nil : ∀ (l : Literal) (rest : List Literal), placesAll (l :: rest) ≠ []
  | l, _ => fun h => places_ne_nil l (List.append_eq_nil_iff.1 h).1

end

mutual

/-- **A literal is written place by place.** -/
theorem render_eq_intercalate : ∀ l : Literal,
    l.render = separator.intercalate (l.places.map render)
  | list [] => rfl
  | list (l :: rest) => by
    rw [render_list, intercalate_placesAll (l :: rest), places_list (List.cons_ne_nil l rest)]
  | text _ | number _ | bool _ | duration _ | lambda _ => List.intercalate_singleton.symm

theorem intercalate_placesAll : ∀ ls : List Literal,
    separator.intercalate (ls.map render) = separator.intercalate ((placesAll ls).map render)
  | [] => rfl
  | [l] => by
    rw [List.map_singleton, List.intercalate_singleton, render_eq_intercalate l, placesAll,
      placesAll, List.append_nil]
  | l :: m :: rest => by
    have hl : l.places.map render ≠ [] := by simpa using places_ne_nil l
    have hrest : (placesAll (m :: rest)).map render ≠ [] := by simpa using placesAll_ne_nil m rest
    have hplaces : placesAll (l :: m :: rest) = l.places ++ placesAll (m :: rest) := rfl
    rw [hplaces, List.map_append, intercalate_append hl hrest, ← render_eq_intercalate l,
      ← intercalate_placesAll (m :: rest)]
    exact List.intercalate_cons_cons

end

/-! ### Items -/

mutual

theorem flatten_eq_filter : ∀ l : Literal, l.flatten = l.places.filter (!·.isVacant)
  | list [] => rfl
  | list (l :: rest) => flattenAll_eq_filter (l :: rest)
  | text _ | number _ | bool _ | duration _ | lambda _ => rfl

/-- **The places that are not vacant hold the items**, whatever lists these stand in. -/
theorem flattenAll_eq_filter : ∀ ls : List Literal,
    flattenAll ls = (placesAll ls).filter (!·.isVacant)
  | [] => rfl
  | l :: rest => by
    rw [flattenAll, placesAll, List.filter_append, flatten_eq_filter l, flattenAll_eq_filter rest]

end

mutual

theorem list_notMem_flatten (items : List Literal) : ∀ l : Literal, list items ∉ l.flatten
  | list ls => list_notMem_flattenAll items ls
  | text _ | number _ | bool _ | duration _ | lambda _ => by simp [flatten]

/-- There are no lists among the items. -/
theorem list_notMem_flattenAll (items : List Literal) : ∀ ls : List Literal,
    list items ∉ flattenAll ls
  | [] => List.not_mem_nil
  | l :: rest => by
    rw [flattenAll, List.mem_append, not_or]
    exact ⟨list_notMem_flatten items l, list_notMem_flattenAll items rest⟩

end

theorem eq_vacant_of_isVacant {l : Literal} (h : l.isVacant) : l = list [] := by
  unfold isVacant at h
  split at h
  · rfl
  · cases h

/-- Vacant places add nothing to the text but their separators. -/
theorem sum_length_render (ls : List Literal) :
    (((ls.filter (!·.isVacant)).map render).map List.length).sum
      = ((ls.map render).map List.length).sum := by
  induction ls with
  | nil => rfl
  | cons l rest ih =>
    cases hl : l.isVacant with
    | false => simpa [hl] using ih
    | true =>
      obtain rfl := eq_vacant_of_isVacant hl
      have hlength : (list []).render.length = 0 := rfl
      simpa [hl, hlength] using ih

/-- Places and items are written alike exactly if there are as many of them, or if the only place
    is vacant. -/
theorem intercalate_filter_eq_iff (ls : List Literal) :
    separator.intercalate (ls.map render)
        = separator.intercalate ((ls.filter (!·.isVacant)).map render) ↔
      list [] ∉ ls ∨ ls = [list []] := by
  constructor
  · intro h
    by_cases hmem : list [] ∈ ls
    · right
      have hfewer : (ls.filter (!·.isVacant)).length < ls.length :=
        List.length_filter_lt_length_iff_exists.2 ⟨list [], hmem, by decide⟩
      have hlength := congrArg List.length h
      rw [length_intercalate, length_intercalate, sum_length_render] at hlength
      simp only [List.length_map, separator, List.length_cons, List.length_nil] at hlength
      -- the same separators with fewer parts: there are none, and one part
      obtain ⟨l, rfl⟩ : ∃ l, ls = [l] := List.length_eq_one_iff.1 (by omega)
      rw [List.mem_singleton.1 hmem]
    · exact Or.inl hmem
  · rintro (hmem | rfl)
    · have hall : ls.filter (!·.isVacant) = ls := by
        rw [List.filter_eq_self]
        intro l hl
        rw [Bool.not_eq_true', Bool.eq_false_iff]
        intro hvacant
        exact hmem (eq_vacant_of_isVacant hvacant ▸ hl)
      rw [hall]
    · rfl

/-- A finite literal that is neither a list nor a lambda is an atom. -/
theorem isAtom_of_finite {l : Literal} (hfinite : ∀ n, l = number n → n.Finite)
    (hlist : ∀ items, l ≠ list items) (hlambda : ∀ e, l ≠ lambda e) : l.IsAtom := by
  cases l with
  | text s => exact .text s
  | number n =>
    cases n with
    | int v b => exact .word (.int v b)
    | float x => exact .word (.float (hfinite (.float x) rfl))
  | bool b => exact .word (.bool b)
  | duration n => exact .word (.duration n)
  | lambda e => exact absurd rfl (hlambda e)
  | list items => exact absurd rfl (hlist items)

/-- Where no item is a lambda, each place holds an atom or is vacant. -/
theorem isPlace_of_mem_placesAll {ls : List Literal} (hfinite : ∀ l ∈ ls, l.Finite)
    (hlambda : ∀ e, lambda e ∉ flattenAll ls) : ∀ l ∈ placesAll ls, l.IsPlace := by
  intro l hl
  cases hvacant : l.isVacant with
  | true =>
    rw [eq_vacant_of_isVacant hvacant]
    exact .vacant
  | false =>
    have hitem : l ∈ flattenAll ls := by
      rw [flattenAll_eq_filter, List.mem_filter, hvacant]
      exact ⟨hl, rfl⟩
    refine .atom (isAtom_of_finite ?_ ?_ ?_)
    · rintro n rfl
      obtain ⟨m, hm, hn⟩ := mem_flattenAll.1 hitem
      exact hfinite m hm n hn
    · rintro items rfl
      exact list_notMem_flattenAll items ls hitem
    · rintro e rfl
      exact hlambda e hitem

end Literal

/-! ## Calls -/

namespace Call

/-- The call with its items as arguments, one by one. -/
def spread (c : Call) : Call := ⟨c.name, Literal.flattenAll c.args⟩

theorem render_eq_iff {c : Call} {args : List Literal} :
    c.render = (⟨c.name, args⟩ : Call).render ↔
      Literal.separator.intercalate (c.args.map Literal.render)
        = Literal.separator.intercalate (args.map Literal.render) := by
  simp [render]

/-- A call is written place by place. -/
theorem render_places (c : Call) :
    c.render = (⟨c.name, Literal.placesAll c.args⟩ : Call).render :=
  render_eq_iff.2 (Literal.intercalate_placesAll c.args)

/-- **A list is written as its items, but an empty list keeps its separators.**  Each place of a
    call is written as if it were an argument, and this is the same as writing its items alone
    exactly if no list in it is empty, at whatever depth, or if an empty list is all there is. -/
theorem render_spread_iff (c : Call) :
    c.render = (⟨c.name, Literal.placesAll c.args⟩ : Call).render ∧
      (c.render = c.spread.render ↔
        .list [] ∉ Literal.placesAll c.args ∨ Literal.placesAll c.args = [.list []]) := by
  constructor
  · exact render_places c
  · rw [spread, render_eq_iff, Literal.intercalate_placesAll, Literal.flattenAll_eq_filter]
    exact Literal.intercalate_filter_eq_iff _

/-- An empty list in front of an argument leaves a comma behind. -/
theorem render_leading_empty_list :
    let c : Call := ⟨"f", [.list [], .text "a"]⟩
    c.render = "f(, 'a')".toList ∧ c.spread.render = "f('a')".toList ∧
      c.render ≠ c.spread.render := by
  decide

/-- **The items of a call are recovered from its text**, with their kinds, the bases of integers
    and the signs of zeros, whatever lists they stand in and whatever strings hold.  Only lambdas
    are not, for they are written as they are. -/
theorem flattenAll_eq_of_render_eq {c d : Call} (hname : c.name = d.name) (hc : c.Finite)
    (hd : d.Finite) (hclambda : ∀ e, .lambda e ∉ Literal.flattenAll c.args)
    (hdlambda : ∀ e, .lambda e ∉ Literal.flattenAll d.args) (h : c.render = d.render) :
    Literal.flattenAll c.args = Literal.flattenAll d.args := by
  have hplaces : ∀ {e : Call}, e.render = e.name.toList ++ '(' ::
      (Literal.separator.intercalate ((Literal.placesAll e.args).map Literal.render) ++ [')']) := by
    intro e
    rw [render_places]
    simp [render]
  rw [hplaces, hplaces, hname] at h
  have hargs := List.cons_injective (List.append_cancel_left h)
  rw [Literal.flattenAll_eq_filter, Literal.flattenAll_eq_filter]
  exact (Literal.vacancies_injective (Literal.isPlace_of_mem_placesAll hc hclambda)
    (Literal.isPlace_of_mem_placesAll hd hdlambda) hargs).1

/-- A string that looks like the end of its literal and more arguments, and an octal number, in
    different lists with empty ones among them. -/
theorem flattenAll_eq_of_render_eq_nested :
    let s : Literal := .text "a', -8, 'b\\"
    let n : Literal := .number (.int (-8) .octal)
    let x : Literal := .number (.float (.zero true))
    let c : Call := ⟨"f", [.list [s, .list [], .list [n]], x, .duration 0]⟩
    let d : Call := ⟨"f", [.list [.list [s]], .list [], n, .list [x, .list [.duration 0]]]⟩
    c.render = d.render ∧ Literal.flattenAll c.args = Literal.flattenAll d.args := by
  intro s n x c d
  have hrender : c.render = d.render := by decide
  have hc : c.Finite := by
    simp [c, s, n, x, Finite, Literal.Finite, Literal.flatten, Literal.flattenAll, Number.Finite,
      Binary64.zero, Binary64.isFinite]
  have hd : d.Finite := by
    simp [d, s, n, x, Finite, Literal.Finite, Literal.flatten, Literal.flattenAll, Number.Finite,
      Binary64.zero, Binary64.isFinite]
  have hclambda : ∀ e, .lambda e ∉ Literal.flattenAll c.args := by
    simp [c, s, n, x, Literal.flatten, Literal.flattenAll]
  have hdlambda : ∀ e, .lambda e ∉ Literal.flattenAll d.args := by
    simp [d, s, n, x, Literal.flatten, Literal.flattenAll]
  exact ⟨hrender, flattenAll_eq_of_render_eq rfl hc hd hclambda hdlambda hrender⟩

end Call

end Tickscript
