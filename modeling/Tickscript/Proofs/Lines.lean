/-
  Links are recovered from the lines that they are written on.

  A link is legible (`Link.Legible`) if its name has no bracket and its arguments
  are literals without lists and lambdas, or one list of such, as the name says.

  * `Chain.line_injective`: a legible line is recovered, with what follows it, so
    that nothing in it passes for another line;
  * `Chain.renderLinks_injective`: so are lines that are all legible;
  * `Chain.renderLinks_around_injective`: and so are lines around given ones that
    need not be legible, if no line in front of these has the name of one of them.
-/
import Tickscript.Chain.Render
import Tickscript.Proofs.Literal

namespace Tickscript

open Literal (separator)

/-! ## Lines -/

/-- The names of the calls whose arguments are one list. -/
def spreadNames : List String := ["exec", "handlers", "services", "teams", "recipients"]

/-- A link that can be read back. -/
structure Link.Legible (l : Link) : Prop where
  name : '(' ∉ l.call.name.toList
  args : ∃ items : List Literal, (∀ i ∈ items, i.IsAtom) ∧
    l.call.args = if l.call.name ∈ spreadNames then [.list items] else items

namespace Chain

variable {afterNode : Bool} {l m : Link} {t u : List Char}

/-- A line, and what follows it. -/
def line (afterNode : Bool) (l : Link) (t : List Char) : List Char :=
  indentation (level afterNode l.operator) ++ l.operator.token :: (l.call.name.toList ++
    '(' :: (separator.intercalate (l.call.args.map Literal.render) ++ ')' :: '\n' :: t))

theorem renderLinks_cons (afterNode : Bool) (l : Link) (rest : List Link) :
    renderLinks afterNode (l :: rest) =
      line afterNode l (renderLinks (afterNode || l.operator == .pipe) rest) := by
  simp [renderLinks, line, Link.render, Call.render]

theorem renderLinks_append (ls ms : List Link) : ∀ afterNode, renderLinks afterNode (ls ++ ms) =
    renderLinks afterNode ls ++ renderLinks (afterNode || ls.any (·.operator == .pipe)) ms := by
  induction ls with
  | nil => simp [renderLinks]
  | cons l ls ih => simp [renderLinks, ih, Bool.or_assoc]

/-- The operator and the name of a line are recovered, and the text behind the bracket. -/
theorem line_opening_injective (hl : '(' ∉ l.call.name.toList) (hm : '(' ∉ m.call.name.toList)
    (h : line afterNode l t = line afterNode m u) :
    l.operator = m.operator ∧ l.call.name = m.call.name ∧
      separator.intercalate (l.call.args.map Literal.render) ++ ')' :: '\n' :: t =
        separator.intercalate (m.call.args.map Literal.render) ++ ')' :: '\n' :: u := by
  have hblank : ∀ n, ∀ c ∈ indentation n, c = ' ' := by
    intro n c hc
    exact List.eq_of_mem_replicate hc
  have htoken : ∀ (o : Operator) (s : List Char), ∀ c ∈ (o.token :: s).head?, ¬ c = ' ' := by
    rintro (_ | _) s c hc rfl <;> cases hc
  obtain ⟨-, h⟩ := append_unique (hblank _) (hblank _) (htoken _ _) (htoken _ _) h
  obtain ⟨hop, h⟩ := List.cons.inj h
  have hname : ∀ {n : String}, '(' ∉ n.toList → ∀ c ∈ n.toList, c ≠ '(' := by
    rintro n hn c hc rfl
    exact hn hc
  obtain ⟨hnames, h⟩ := append_unique (p := (· ≠ '(')) (hname hl) (hname hm) (by simp) (by simp) h
  refine ⟨?_, String.toList_inj.1 hnames, List.cons_injective h⟩
  revert hop
  cases l.operator <;> cases m.operator <;> simp [Operator.token]

/-- A list is written as its items are. -/
theorem intercalate_args {n : String} {args items : List Literal}
    (h : args = if n ∈ spreadNames then [.list items] else items) :
    separator.intercalate (args.map Literal.render) =
      separator.intercalate (items.map Literal.render) := by
  subst h
  split_ifs
  · rw [List.map_singleton, List.intercalate_singleton, Literal.render_list]
  · rfl

/-- **A legible line is recovered**, with what follows it. -/
theorem line_injective (hl : l.Legible) (hm : m.Legible)
    (h : line afterNode l t = line afterNode m u) : l = m ∧ t = u := by
  obtain ⟨hop, hname, hargs⟩ := line_opening_injective hl.name hm.name h
  obtain ⟨items, hitems, hla⟩ := hl.args
  obtain ⟨others, hothers, hma⟩ := hm.args
  rw [intercalate_args hla, intercalate_args hma] at hargs
  obtain ⟨rfl, htail⟩ := Literal.arguments_injective hitems hothers hargs
  refine ⟨?_, List.cons_injective htail⟩
  obtain ⟨o, n, args⟩ := l
  obtain ⟨o', n', args'⟩ := m
  simp only at hop hname hla hma
  subst hop hname
  rw [hla, hma]

/-! ## Scripts -/

theorem renderLinks_cons_ne_nil (afterNode : Bool) (l : Link) (ls : List Link) :
    renderLinks afterNode (l :: ls) ≠ [] := by
  simp [renderLinks]

/-- **Legible lines are recovered from their text.** -/
theorem renderLinks_injective : ∀ {ls ms : List Link} {afterNode : Bool}, (∀ l ∈ ls, l.Legible) →
    (∀ m ∈ ms, m.Legible) → renderLinks afterNode ls = renderLinks afterNode ms → ls = ms
  | [], [], _, _, _, _ => rfl
  | [], m :: ms, _, _, _, h => absurd h.symm (renderLinks_cons_ne_nil _ m ms)
  | l :: ls, [], _, _, _, h => absurd h (renderLinks_cons_ne_nil _ l ls)
  | l :: ls, m :: ms, afterNode, hl, hm, h => by
    rw [renderLinks_cons, renderLinks_cons] at h
    obtain ⟨rfl, htail⟩ := line_injective (hl l List.mem_cons_self) (hm m List.mem_cons_self) h
    rw [renderLinks_injective (fun x hx => hl x (List.mem_cons_of_mem l hx))
      (fun x hx => hm x (List.mem_cons_of_mem l hx)) htail]

section
variable {mid post post' : List Link}

/-- A legible line that stands in front of given lines, and whose name is none of theirs. -/
def Apart (mid : List Link) (l : Link) : Prop :=
  l.Legible ∧ ∀ m ∈ mid, l.call.name ≠ m.call.name

/-- Given lines do not begin like a line apart from them, unless there are none. -/
theorem eq_of_apart (hmid : ∀ m ∈ mid, '(' ∉ m.call.name.toList) (hpost : ∀ l ∈ post, l.Legible)
    (hpost' : ∀ l ∈ post', l.Legible) {pre : List Link} (hl : Apart mid l)
    (hpre : ∀ x ∈ pre, Apart mid x)
    (h : renderLinks afterNode (mid ++ post) = renderLinks afterNode (l :: (pre ++ mid ++ post'))) :
    mid ++ post = l :: (pre ++ mid ++ post') := by
  cases mid with
  | nil =>
    refine renderLinks_injective hpost ?_ h
    intro x hx
    simp only [List.append_nil, List.mem_cons, List.mem_append] at hx
    rcases hx with rfl | hx | hx
    · exact hl.1
    · exact (hpre x hx).1
    · exact hpost' x hx
  | cons m mid =>
    rw [List.cons_append, renderLinks_cons, renderLinks_cons] at h
    obtain ⟨-, hname, -⟩ := line_opening_injective (hmid m List.mem_cons_self) hl.1.name h
    exact absurd hname.symm (hl.2 m List.mem_cons_self)

/-- **Lines are recovered around given lines**, which need not be legible. -/
theorem renderLinks_around_injective (hmid : ∀ m ∈ mid, '(' ∉ m.call.name.toList)
    (hpost : ∀ l ∈ post, l.Legible) (hpost' : ∀ l ∈ post', l.Legible) :
    ∀ {pre pre' : List Link} {afterNode : Bool}, (∀ l ∈ pre, Apart mid l) →
      (∀ l ∈ pre', Apart mid l) →
      renderLinks afterNode (pre ++ mid ++ post) = renderLinks afterNode (pre' ++ mid ++ post') →
      pre ++ mid ++ post = pre' ++ mid ++ post'
  | [], [], afterNode, _, _, h => by
    rw [List.nil_append, renderLinks_append, renderLinks_append, List.append_cancel_left_eq] at h
    rw [renderLinks_injective hpost hpost' h]
  | [], l :: pre', _, _, hpre', h =>
    eq_of_apart hmid hpost hpost' (hpre' l List.mem_cons_self)
      (fun x hx => hpre' x (List.mem_cons_of_mem l hx)) h
  | l :: pre, [], _, hpre, _, h =>
    (eq_of_apart hmid hpost' hpost (hpre l List.mem_cons_self)
      (fun x hx => hpre x (List.mem_cons_of_mem l hx)) h.symm).symm
  | l :: pre, m :: pre', afterNode, hpre, hpre', h => by
    simp only [List.cons_append] at h ⊢
    rw [renderLinks_cons, renderLinks_cons] at h
    obtain ⟨rfl, htail⟩ := line_injective (hpre l List.mem_cons_self).1
      (hpre' m List.mem_cons_self).1 h
    rw [renderLinks_around_injective hmid hpost hpost' (fun x hx => hpre x (List.mem_cons_of_mem l hx))
      (fun x hx => hpre' x (List.mem_cons_of_mem l hx)) htail]

end

end Chain

end Tickscript
