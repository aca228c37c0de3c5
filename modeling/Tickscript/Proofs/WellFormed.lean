/-
  What stands in the chains that builders make.

  A builder takes a literal over as it is encoded.  So there are values that literals could hold
  and that are never found behind a parent: what is no number, an octal with a sign, a negative
  duration, lists in lists.

  * `Literal.WellFormed`: the literals that arguments have (`Argument.wellFormed_of_encode`);
  * `Builder.Grown.apply`, `Builder.Grown.run`: a step and a run put well-formed links behind the
    parent;
  * `Step.nonzero_of_mem_links`, `Step.cause_ne_absent`: the steps that leave zeros out add none,
    and never fail for a missing argument;
  * `Builder.run_wellFormed`: both for every run, and for the chains of alerts, in which no call
    but `flapping` has a zero.
-/
import Tickscript.Proofs.Calls
import Tickscript.Proofs.Encoding
import Tickscript.Proofs.Outcome

namespace Tickscript

/-! ## Literals of arguments -/

/-- A finite double, an integer with a sign in decimal only, a duration that is not negative, a
    text, a flag, an expression, or a list of texts. -/
inductive Literal.WellFormed : Literal → Prop
  | text (s : String) : WellFormed (.text s)
  | decimal (n : Int64) : WellFormed (.number (.int n .decimal))
  | based {n : Int64} (base : Base) : 0 ≤ n → WellFormed (.number (.int n base))
  | float {x : Binary64} : x.isFinite → WellFormed (.number (.float x))
  | bool (b : Bool) : WellFormed (.bool b)
  | duration {n : Int64} : 0 ≤ n → WellFormed (.duration n)
  | lambda (e : String) : WellFormed (.lambda e)
  | list (items : List String) : WellFormed (.list (items.map .text))

namespace Literal.WellFormed

theorem ne_nan {l : Literal} (h : l.WellFormed) : l ≠ .number (.float .nan) := by
  rintro rfl
  cases h with
  | float hx => cases hx

theorem ne_infinite {l : Literal} (h : l.WellFormed) (negative : Bool) :
    l ≠ .number (.float (.infinite negative)) := by
  rintro rfl
  cases h with
  | float hx => cases hx

theorem ne_octal {l : Literal} (h : l.WellFormed) {n : Int64} (hn : n < 0) :
    l ≠ .number (.int n .octal) := by
  rintro rfl
  cases h with
  | based _ h0 => exact Int64.not_lt.2 h0 hn

end Literal.WellFormed

theorem nonneg_of_toInt_eq_natCast {v : Int64} {n : Nat} (h : v.toInt = n) : 0 ≤ v := by
  rw [Int64.le_iff_toInt_le, h]
  exact Int.natCast_nonneg n

theorem Argument.wellFormed_of_encode {x : Argument} {l : Literal} (h : x.encode = .ok l) :
    l.WellFormed := by
  obtain ⟨hdenotes, hnone⟩ := encode_eq_ok_iff.1 h
  cases hdenotes with
  | text s => exact .text s
  | bool b => exact .bool b
  | int n => exact .decimal n
  | uint hv => exact .decimal _
  | float x =>
    cases hx : x.isFinite with
    | true => exact .float hx
    | false => exact absurd (.float hx) (hnone _)
  | duration hv => exact .duration (nonneg_of_toInt_eq_natCast hv)
  | list items => exact .list items
  | lambda e => exact .lambda e
  | number n =>
    cases n with
    | int n base =>
      by_cases hbase : base = .decimal
      · exact hbase ▸ .decimal n
      · refine .based base (Int64.not_lt.1 fun hn => ?_)
        exact hnone _ (.based hbase hn)
    | float x =>
      cases hx : x.isFinite with
      | true => exact .float hx
      | false => exact absurd (.floatNumber hx) (hnone _)

/-! ## Links of steps -/

/-- All arguments of the call are well formed. -/
def Link.WellFormed (l : Link) : Prop := ∀ x ∈ l.call.args, x.WellFormed

/-- No argument of the call is a zero. -/
def Link.Nonzero (l : Link) : Prop := ∀ x ∈ l.call.args, ¬ x.Zero

namespace Step

/-- The step is a property that is left out if an argument is zero. -/
def omitsZeros : Step → Bool
  | dot _ _ | dotIf _ _ _ => true
  | pipe _ _ | dotAlways _ _ => false

variable {s : Step} {l : Link}

theorem isZero_of_isAttempted (hs : s.omitsZeros) (ha : s.isAttempted) :
    ∀ x ∈ s.args, x.isZero = false := by
  cases s with
  | pipe | dotAlways => cases hs
  | dot n as => simpa [isAttempted, args] using ha
  | dotIf n condition as =>
    have hall : condition ∧ ∀ x ∈ as, x.isZero = false := by simpa [isAttempted] using ha
    exact hall.2

theorem wellFormed_of_mem_links (hl : l ∈ s.links) : l.WellFormed := by
  intro x hx
  obtain ⟨a, -, hax⟩ := Argument.exists_of_mem_encodes (mem_links_iff.1 hl).2.args x hx
  exact Argument.wellFormed_of_encode hax

/-- **What leaves zeros out adds none.** -/
theorem nonzero_of_mem_links (hs : s.omitsZeros) (hl : l ∈ s.links) : l.Nonzero := by
  obtain ⟨ha, hadds⟩ := mem_links_iff.1 hl
  intro x hx hzero
  obtain ⟨a, hmem, hax⟩ := Argument.exists_of_mem_encodes hadds.args x hx
  have hna := isZero_of_isAttempted hs ha a hmem
  rw [Argument.isZero_iff.2 (Or.inr ⟨x, hax, hzero⟩)] at hna
  cases hna

/-- **What leaves zeros out does not fail for a missing argument.** -/
theorem cause_ne_absent (hs : s.omitsZeros) {e : BuildError} (hf : s.failure = some e) :
    e.cause ≠ .absent := by
  obtain ⟨ha, cause, ⟨front, a, back, literals, hargs, -, hac⟩, rfl⟩ := failure_eq_some_iff.1 hf
  rintro rfl
  have hna := isZero_of_isAttempted hs ha a (by simp [hargs])
  cases Argument.encode_eq_error_iff.1 hac
  cases hna

end Step

/-! ## Runs -/

namespace Builder

/-- The chain so far is the parent with well-formed links behind it. -/
def Grown (parent : Chain) (b : Builder) : Prop :=
  ∃ added, b.tip = ⟨parent.root, parent.links ++ added⟩ ∧ ∀ l ∈ added, l.WellFormed

variable {parent : Chain} {b : Builder}

theorem grown_start (parent : Chain) : Grown parent (start parent) :=
  ⟨[], by simp [start], nofun⟩

/-- One step puts the links of the step behind the chain, or none. -/
theorem apply_tip (b : Builder) (s : Step) :
    ∃ added, (b.apply s).1.tip = ⟨b.tip.root, b.tip.links ++ added⟩ ∧ added ⊆ s.links := by
  cases hb : b.failure with
  | none => exact ⟨s.links, by rw [apply_eq hb], List.Subset.refl _⟩
  | some e => exact ⟨[], by rw [apply_failed hb, List.append_nil], List.nil_subset _⟩

/-- A failure is kept, or is that of the step. -/
theorem apply_failure (b : Builder) (s : Step) :
    (b.apply s).1.failure = b.failure ∨ (b.apply s).1.failure = s.failure := by
  cases hb : b.failure with
  | none => exact Or.inr (by rw [apply_eq hb])
  | some e => exact Or.inl (by rw [apply_failed hb, hb])

theorem Grown.apply (h : Grown parent b) (s : Step) : Grown parent (b.apply s).1 := by
  obtain ⟨added, htip, hadded⟩ := h
  obtain ⟨more, hmore, hsub⟩ := b.apply_tip s
  refine ⟨added ++ more, by rw [hmore, htip, List.append_assoc], fun l hl => ?_⟩
  rcases List.mem_append.1 hl with hl | hl
  · exact hadded l hl
  · exact Step.wellFormed_of_mem_links (hsub hl)

theorem Grown.run : ∀ {b : Builder}, Grown parent b → ∀ steps, Grown parent (b.run steps).1
  | _, h, [] => h
  | _, h, s :: rest => by
    rw [run_cons]
    exact (h.apply s).run rest

end Builder

/-! ## Alerts -/

/-- All steps of a handler leave zeros out. -/
theorem Handler.omitsZeros_steps (h : Handler) : ∀ s ∈ h.steps, s.omitsZeros := by
  cases h with
  | httpPost h =>
    simp only [steps, List.mem_append, List.mem_cons, List.mem_map, List.not_mem_nil, or_false]
    rintro s ((rfl | rfl) | ⟨e, -, rfl⟩) <;> rfl
  | _ => simp [steps, property, SnmpData.step, Step.omitsZeros]

namespace Alert

/-- A step of an alert leaves zeros out, or has no arguments, or is that of flapping. -/
theorem omitsZeros_or (a : Alert) :
    ∀ s ∈ a.steps, s.omitsZeros ∨ s.args = [] ∨ s.name = "flapping" := by
  have hproperty : ∀ s ∈ a.propertySteps, s.omitsZeros := by
    simp [propertySteps, Handler.property, condition, Step.omitsZeros]
  have hstate : ∀ s ∈ a.stateSteps, s.omitsZeros := by
    unfold stateSteps
    split_ifs <;> simp [Step.omitsZeros]
  have hflapping : ∀ s ∈ a.flappingSteps, s.name = "flapping" := by
    unfold flappingSteps
    split_ifs <;> simp [Step.name]
  intro s hs
  simp only [steps, List.cons_append, List.mem_cons, List.mem_append, List.mem_flatMap] at hs
  rcases hs with rfl | ((hs | hs) | hs) | ⟨h, -, hs⟩
  · exact Or.inr (Or.inl rfl)
  · exact Or.inl (hproperty s hs)
  · exact Or.inl (hstate s hs)
  · exact Or.inr (Or.inr (hflapping s hs))
  · exact Or.inl (h.omitsZeros_steps s hs)

theorem nonzero_or_flapping {a : Alert} {s : Step} (hs : s ∈ a.steps) {l : Link}
    (hl : l ∈ s.links) : l.Nonzero ∨ l.call.name = "flapping" := by
  have hadds := (Step.mem_links_iff.1 hl).2
  rcases a.omitsZeros_or s hs with hs | hs | hs
  · exact Or.inl (Step.nonzero_of_mem_links hs hl)
  · have hargs := hadds.args
    rw [hs] at hargs
    refine Or.inl fun x hx => ?_
    rw [List.forall₂_nil_left_iff.1 hargs] at hx
    cases hx
  · exact Or.inr (hadds.name.trans hs)

end Alert

/-- **In every chain that is built, what stands behind the parent is well formed.**  A property that
    leaves zeros out adds no zero and never fails for a missing argument.  In the chain of an alert
    no call but that of flapping has a zero, and nothing is infinite, not a number, or octal with a
    sign. -/
theorem Builder.run_wellFormed :
    (∀ (parent : Chain) (steps : List Step),
      (∃ added, ((start parent).run steps).1.tip = ⟨parent.root, parent.links ++ added⟩ ∧
        ∀ l ∈ added, l.WellFormed) ∧
      ∀ front s back, steps = front ++ s :: back → s.omitsZeros →
        let before := ((start parent).run front).1
        let after := (before.apply s).1
        (∃ added, after.tip = ⟨before.tip.root, before.tip.links ++ added⟩ ∧
          ∀ l ∈ added, l.WellFormed ∧ l.Nonzero) ∧
        (after.failure = before.failure ∨ ∀ e, after.failure = some e → e.cause ≠ .absent)) ∧
    ∀ (p : String) (a : Alert) (c : Chain), (a.convert (.identifier p)).result = .ok c →
      ∀ l ∈ c.links, l.WellFormed ∧ (l.Nonzero ∨ l.call.name = "flapping") ∧
        ∀ x ∈ l.call.args, x ≠ .number (.float .nan) ∧
          (∀ negative, x ≠ .number (.float (.infinite negative))) ∧
          ∀ n < 0, x ≠ .number (.int n .octal) := by
  refine ⟨fun parent steps => ⟨(grown_start parent).run steps, ?_⟩, fun p a c h l hl => ?_⟩
  · intro front s back _ hs before after
    obtain ⟨added, htip, hsub⟩ := before.apply_tip s
    refine ⟨⟨added, htip, fun l hl => ?_⟩, ?_⟩
    · exact ⟨Step.wellFormed_of_mem_links (hsub hl), Step.nonzero_of_mem_links hs (hsub hl)⟩
    · rcases before.apply_failure s with h | h
      · exact Or.inl h
      · exact Or.inr fun e he => Step.cause_ne_absent hs (h.symm.trans he)
  · obtain ⟨-, rfl⟩ := Alert.convert_eq_ok_iff.1 h
    obtain ⟨s, hs, hls⟩ := List.mem_flatMap.1 (show l ∈ a.steps.flatMap Step.links from hl)
    have hwell := Step.wellFormed_of_mem_links hls
    exact ⟨hwell, Alert.nonzero_or_flapping hs hls, fun x hx =>
      ⟨(hwell x hx).ne_nan, (hwell x hx).ne_infinite, fun n => (hwell x hx).ne_octal⟩⟩

/-- A node may have an empty text, and the thresholds of flapping may be zero. -/
theorem Builder.run_wellFormed_flapping :
    let front : List Step := [.pipe "log" [.text ""]]
    let s : Step := .dot "mode" [.number (.int 0 .octal)]
    let before := ((start (.identifier "stream")).run front).1
    let a : Alert := { useFlapping := true }
    s.omitsZeros ∧ before.tip = ⟨"stream", [⟨.pipe, ⟨"log", [.text ""]⟩⟩]⟩ ∧
      (∃ added, (before.apply s).1.tip = ⟨"stream", before.tip.links ++ added⟩ ∧
        ∀ l ∈ added, l.WellFormed ∧ l.Nonzero) ∧
      (a.convert (.identifier "stream")).result = .ok ⟨"stream", a.calls⟩ ∧
      ∀ l ∈ a.calls, l.WellFormed ∧ (l.Nonzero ∨ l.call.name = "flapping") := by
  intro front s before a
  have hconvert : (a.convert (.identifier "stream")).result = .ok ⟨"stream", a.calls⟩ :=
    Alert.convert_ok_iff.2 ⟨⟨by decide, fun _ => by decide, fun _ => by decide⟩, rfl⟩
  refine ⟨rfl, rfl, ?_, hconvert, fun l hl => ?_⟩
  · exact ((run_wellFormed.1 (.identifier "stream") (front ++ [s])).2 front s [] rfl rfl).1
  · obtain ⟨hwell, hzero, -⟩ := run_wellFormed.2 "stream" a _ hconvert l hl
    exact ⟨hwell, hzero⟩

end Tickscript
