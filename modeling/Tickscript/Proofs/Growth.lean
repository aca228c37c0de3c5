/-
  The text of a chain grows at its end.

  How far a property is indented depends on all links in front of it: it belongs
  to a node, if there is one anywhere before.  Links behind it do not matter.  So
  nothing that has been written is written anew when a link is added.

  * `Chain.render_append`: a link adds one line to the text (`Chain.item`);
  * `Builder.render_apply`, `Builder.tip_apply_of_idle`: a step adds the line of its
    link, or nothing;
  * `Builder.isPrefix_render_run`: so a run goes on with the text that it finds;
  * `Builder.render_growth`: all of this, for every run from any parent.
-/
import Tickscript.Proofs.Lines
import Tickscript.Proofs.Outcome

namespace Tickscript

namespace Chain

/-- Whether one of the calls is a node. -/
def hasNode (c : Chain) : Bool := c.links.any (·.operator == .pipe)

/-- The line that a link adds to the text of a chain.  A property stands behind eight blanks if
    the chain has a node, and everything else behind four. -/
def item (c : Chain) (l : Link) : List Char :=
  List.replicate (if l.operator = .dot ∧ c.hasNode then 8 else 4) ' ' ++
    l.operator.token :: l.call.render ++ ['\n']

theorem renderLinks_singleton (c : Chain) (l : Link) : renderLinks c.hasNode [l] = c.item l := by
  have hlevel : 4 * level c.hasNode l.operator =
      if l.operator = .dot ∧ c.hasNode then 8 else 4 := by
    cases l.operator <;> cases c.hasNode <;> rfl
  rw [renderLinks, renderLinks, indentation, hlevel, Link.render, item, List.append_assoc]

/-- **A link adds one line to the text.** -/
theorem render_append (c : Chain) (l : Link) : (c.append l).render = c.render ++ c.item l := by
  rw [render, append, renderLinks_append, Bool.false_or, ← hasNode, renderLinks_singleton, render,
    List.append_assoc, List.cons_append]

example : (append ⟨"batch", [⟨.dot, ⟨"a", []⟩⟩, ⟨.pipe, ⟨"b", []⟩⟩]⟩ ⟨.dot, ⟨"c", []⟩⟩).render =
    "batch\n    .a()\n    |b()\n        .c()\n".toList := by decide

end Chain

namespace Builder

variable {b : Builder} {s : Step}

/-! ## One step -/

/-- A step that adds a link writes its line. -/
theorem render_apply {l : Link} (hb : b.failure = none) (ha : s.isAttempted) (hl : s.Adds l) :
    (b.apply s).1.tip.render = b.tip.render ++ b.tip.item l := by
  rw [apply_eq hb, Step.links_of_adds ha hl]
  exact b.tip.render_append l

/-- The step does nothing: the builder has failed before, the step is left out, or it is
    rejected. -/
def Idle (b : Builder) (s : Step) : Prop :=
  b.failure ≠ none ∨ s.isAttempted = false ∨ ∃ cause, s.Rejects cause

theorem tip_apply_of_idle (h : b.Idle s) : (b.apply s).1.tip = b.tip := by
  cases hb : b.failure with
  | some e => rw [apply_failed hb]
  | none =>
    have hlinks : s.links = [] := by
      cases ha : s.isAttempted with
      | false => exact Step.links_of_not_isAttempted ha
      | true =>
        rcases h with h | h | ⟨cause, hr⟩
        · exact absurd hb h
        · rw [ha] at h
          cases h
        · exact Step.links_of_failure (Step.failure_of_rejects ha hr)
    rw [apply_eq hb, hlinks, List.append_nil]

/-- A step writes a line, or does nothing. -/
theorem adds_or_idle (b : Builder) (s : Step) :
    (b.failure = none ∧ s.isAttempted ∧ ∃ l, s.Adds l) ∨ b.Idle s := by
  by_cases hb : b.failure = none
  · cases ha : s.isAttempted with
    | false => exact Or.inr (Or.inr (Or.inl ha))
    | true =>
      rcases s.adds_or_rejects with hl | hr
      · exact Or.inl ⟨hb, rfl, hl⟩
      · exact Or.inr (Or.inr (Or.inr hr))
  · exact Or.inr (Or.inl hb)

theorem isPrefix_render_apply (b : Builder) (s : Step) :
    b.tip.render <+: (b.apply s).1.tip.render := by
  rcases b.adds_or_idle s with ⟨hb, ha, l, hl⟩ | h
  · rw [render_apply hb ha hl]
    exact List.prefix_append _ _
  · exact tip_apply_of_idle h ▸ List.prefix_rfl

/-! ## Runs -/

/-- **A run goes on with the text that it finds.** -/
theorem isPrefix_render_run : ∀ (b : Builder) (steps : List Step),
    b.tip.render <+: (b.run steps).1.tip.render
  | b, [] => List.prefix_rfl
  | b, s :: rest => by
    rw [run_cons]
    exact (b.isPrefix_render_apply s).trans (isPrefix_render_run _ rest)

/-- **Rendering is incremental.**  A root is written as its name, and each link as one more line.  So
    the text of a run goes on from that of every earlier state of the run; a step that is tried and
    has all its literals adds the line of its link, and every other step adds nothing. -/
theorem render_growth :
    (∀ name, (Chain.identifier name).render = name.toList ++ ['\n']) ∧
    (∀ c l, (Chain.append c l).render = c.render ++ c.item l) ∧
    ∀ (parent : Chain) (front : List Step),
      let before := ((start parent).run front).1
      (∀ back, before.tip.render <+: ((start parent).run (front ++ back)).1.tip.render) ∧
      ∀ s, let after := ((start parent).run (front ++ [s])).1
        (before.failure = none → s.isAttempted → ∀ l, s.Adds l →
          after.tip.render = before.tip.render ++ before.tip.item l) ∧
        (before.Idle s → after.tip.render = before.tip.render) := by
  refine ⟨fun name => rfl, Chain.render_append, fun parent front => ⟨fun back => ?_, fun s => ?_⟩⟩
  · rw [run_append]
    exact isPrefix_render_run _ back
  · intro after
    have hafter : after = (((start parent).run front).1.apply s).1 := run_append _ _ _
    rw [hafter]
    exact ⟨fun hb ha l hl => render_apply hb ha hl, fun h => by rw [tip_apply_of_idle h]⟩

/-- A property of a chain that came with a node is indented twice.  An empty text is left out, and a
    threshold that is no number is rejected. -/
theorem render_growth_topic :
    let parent : Chain := ⟨"stream", [⟨.pipe, ⟨"from", []⟩⟩, ⟨.dot, ⟨"all", []⟩⟩]⟩
    let topic : Step := .dot "topic" [.text "cpu"]
    let b := ((start parent).run [topic]).1
    b.tip.render = parent.render ++ "        .topic('cpu')\n".toList ∧
      ((start parent).run ([topic] ++ [.dot "id" [.text ""]])).1.tip.render = b.tip.render ∧
      ((start parent).run ([topic] ++ [.dotAlways "flapping" [.float .nan]])).1.tip.render
        = b.tip.render := by
  intro parent topic b
  have hadds : topic.Adds ⟨.dot, ⟨"topic", [.text "cpu"]⟩⟩ := ⟨rfl, rfl, .cons rfl .nil⟩
  have hrejects : Step.Rejects (.dotAlways "flapping" [.float .nan]) (.nonFiniteFloat .nan) :=
    ⟨[], .float .nan, [], [], rfl, .nil, rfl⟩
  have htopic := ((render_growth.2.2 parent []).2 topic).1 rfl rfl _ hadds
  exact ⟨htopic, ((render_growth.2.2 parent [topic]).2 _).2 (Or.inr (Or.inl rfl)),
    ((render_growth.2.2 parent [topic]).2 _).2 (Or.inr (Or.inr ⟨_, hrejects⟩))⟩

end Builder

end Tickscript
