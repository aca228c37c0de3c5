/-
  When the conversion of an alert fails, and with which failure.

  * `Alert.failure` is the failure of an alert, said of its settings alone: the
    number of former states, then the duration of an unchanged state, then the
    thresholds of flapping, the last two only as far as they are in use;
  * `Alert.convert_error_iff`: the conversion fails with exactly that, and alerts
    that agree on these settings (`Alert.SameLimits`) fail alike.
-/
import Tickscript.Proofs.Calls

namespace Tickscript.Alert

/-- The first setting that no literal can hold. -/
def failure (a : Alert) : Option BuildError :=
  if 2 ^ 63 ≤ a.history.toNat then some ⟨"history", .integerOverflow a.history⟩
  else if a.stateChangesOnly ∧ 2 ^ 63 ≤ a.stateChangesOnlyDuration.nanoseconds then
    some ⟨"stateChangesOnly", .durationOverflow a.stateChangesOnlyDuration.seconds⟩
  else if a.useFlapping ∧ a.flapLow.isFinite = false then
    some ⟨"flapping", .nonFiniteFloat a.flapLow⟩
  else if a.useFlapping ∧ a.flapHigh.isFinite = false then
    some ⟨"flapping", .nonFiniteFloat a.flapHigh⟩
  else none

/-- Agreement on the settings that can fail.  What is not in use may differ. -/
structure SameLimits (a b : Alert) : Prop where
  history : a.history = b.history
  stateChangesOnly : a.stateChangesOnly = b.stateChangesOnly
  duration : a.stateChangesOnly → a.stateChangesOnlyDuration = b.stateChangesOnlyDuration
  useFlapping : a.useFlapping = b.useFlapping
  thresholds : a.useFlapping → a.flapLow = b.flapLow ∧ a.flapHigh = b.flapHigh

/-- The failures of the three settings, in the order of the steps. -/
theorem failure_eq (a : Alert) : a.failure = Step.firstFailure a.steps := by
  rw [firstFailure_steps, firstFailure_propertySteps, firstFailure_stateSteps,
    firstFailure_flappingSteps, failure]
  by_cases hh : a.history.toNat < 2 ^ 63
  · rw [if_neg (Nat.not_le.2 hh), if_pos hh, Option.none_or]
    by_cases hd : a.stateChangesOnly ∧ 2 ^ 63 ≤ a.stateChangesOnlyDuration.nanoseconds
    · rw [if_pos hd, if_pos hd, Option.some_or]
    · rw [if_neg hd, if_neg hd, Option.none_or]
      cases hu : a.useFlapping <;> cases hl : a.flapLow.isFinite <;>
        cases hf : a.flapHigh.isFinite <;> simp [thresholdFailure, hl, hf]
  · rw [if_pos (Nat.le_of_not_lt hh), if_neg hh, Option.some_or, Option.some_or]

theorem failure_isSome_iff (a : Alert) : a.failure.isSome ↔
    2 ^ 63 ≤ a.history.toNat ∨
      (a.stateChangesOnly ∧ 2 ^ 63 ≤ a.stateChangesOnlyDuration.nanoseconds) ∨
      (a.useFlapping ∧ (a.flapLow.isFinite = false ∨ a.flapHigh.isFinite = false)) := by
  unfold failure
  split_ifs with h1 h2 h3 h4 <;> simp only [Option.isSome_some, Option.isSome_none, true_iff,
    Bool.false_eq_true, false_iff]
  · exact Or.inl h1
  · exact Or.inr (Or.inl h2)
  · exact Or.inr (Or.inr ⟨h3.1, Or.inl h3.2⟩)
  · exact Or.inr (Or.inr ⟨h4.1, Or.inr h4.2⟩)
  · rintro (h | h | ⟨h, hl | hh⟩)
    · exact h1 h
    · exact h2 h
    · exact h3 ⟨h, hl⟩
    · exact h4 ⟨h, hh⟩

theorem failure_congr {a b : Alert} (h : a.SameLimits b) : a.failure = b.failure := by
  obtain ⟨hh, hs, hd, hu, ht⟩ := h
  unfold failure
  rw [← hh, ← hs, ← hu]
  cases hsa : a.stateChangesOnly <;> cases hua : a.useFlapping
  · simp
  · obtain ⟨hl, hf⟩ := ht hua
    simp [← hl, ← hf]
  · simp [← hd hsa]
  · obtain ⟨hl, hf⟩ := ht hua
    simp [← hd hsa, ← hl, ← hf]

/-- **A conversion fails exactly for the three settings that a literal may be too small for, and
    with the failure of the first.**  No other setting and no handler has a part in it. -/
theorem convert_error_iff (parent : Chain) (a : Alert) :
    ((∃ e, (a.convert parent).result = .error e) ↔
      2 ^ 63 ≤ a.history.toNat ∨
        (a.stateChangesOnly ∧ 2 ^ 63 ≤ a.stateChangesOnlyDuration.nanoseconds) ∨
        (a.useFlapping ∧ (a.flapLow.isFinite = false ∨ a.flapHigh.isFinite = false))) ∧
    (∀ e, (a.convert parent).result = .error e ↔ a.failure = some e) ∧
    ∀ (other : Chain) (b : Alert), a.SameLimits b →
      ∀ e, (b.convert other).result = .error e ↔ (a.convert parent).result = .error e := by
  have hiff : ∀ (p : Chain) (c : Alert) (e : BuildError),
      (c.convert p).result = .error e ↔ c.failure = some e := by
    intro p c e
    rw [convert_eq_error_iff, failure_eq]
  refine ⟨?_, hiff parent a, fun other b hab e => ?_⟩
  · rw [← failure_isSome_iff, Option.isSome_iff_exists]
    exact exists_congr (hiff parent a)
  · rw [hiff, hiff, failure_congr hab]

/-- A duration out of range does no harm while it is not in use, nor does a handler; of two
    thresholds that are no numbers the lower one is blamed. -/
theorem convert_error_unused_duration :
    let a : Alert := {
      stateChangesOnlyDuration := ⟨2 ^ 64, by decide⟩
      useFlapping := true
      flapLow := .nan
      flapHigh := .infinite true }
    let b : Alert := { a with stateChangesOnlyDuration := .zero, logHandlers := [{}] }
    a.SameLimits b ∧
      (a.convert (.identifier "stream")).result = .error ⟨"flapping", .nonFiniteFloat .nan⟩ ∧
      (b.convert (.identifier "batch")).result = .error ⟨"flapping", .nonFiniteFloat .nan⟩ := by
  intro a b
  have hab : a.SameLimits b := ⟨rfl, rfl, by decide, rfl, fun _ => ⟨rfl, rfl⟩⟩
  have ha : (a.convert (.identifier "stream")).result = .error ⟨"flapping", .nonFiniteFloat .nan⟩ :=
    ((convert_error_iff (.identifier "stream") a).2.1 _).2 (by simp [failure, a, Binary64.isFinite])
  exact ⟨hab, ha, ((convert_error_iff _ a).2.2 _ b hab _).2 ha⟩

end Tickscript.Alert
