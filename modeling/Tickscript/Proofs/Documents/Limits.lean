/-
  Failures of alerts that come from documents.

  A number of a document is a finite double, or else the document is refused.  So of the
  settings that a literal may be too small for, the thresholds of flapping are no longer
  among those that can fail.

  * `Alert.failure_of_finite`: the failure of an alert with finite thresholds;
  * `Alert.convert_error_of_parse`: the two ways in which the conversion of an alert fails
    that was read from a text.
-/
import Tickscript.Proofs.Documents.Alert
import Tickscript.Proofs.Failure
import Tickscript.Proofs.Json.Intact

namespace Tickscript.Alert

open Json

/-- With finite thresholds, only two settings are left that no literal may hold. -/
theorem failure_of_finite {a : Alert} (h : a.Finite) : a.failure =
    if 2 ^ 63 ≤ a.history.toNat then some ⟨"history", .integerOverflow a.history⟩
    else if a.stateChangesOnly ∧ 2 ^ 63 ≤ a.stateChangesOnlyDuration.nanoseconds then
      some ⟨"stateChangesOnly", .durationOverflow a.stateChangesOnlyDuration.seconds⟩
    else none := by
  obtain ⟨hlow, hhigh⟩ := h
  have hl : ¬ (a.useFlapping ∧ a.flapLow.isFinite = false) := by simp [hlow]
  have hh : ¬ (a.useFlapping ∧ a.flapHigh.isFinite = false) := by simp [hhigh]
  rw [failure, if_neg hl, if_neg hh]

/-- **The conversion of an alert that was read from a text fails in two ways only**, whatever the
    text is and whatever numbers it has for the thresholds: these are finite, so the number of
    former states or, if that has a literal, the duration of an unchanged state is to blame. -/
theorem convert_error_of_parse {text : List Char} {a : Alert} (h : codec.parse text = .ok a) :
    a.flapLow.isFinite ∧ a.flapHigh.isFinite ∧
    ∀ parent e, (a.convert parent).result = .error e ↔
      (2 ^ 63 ≤ a.history.toNat ∧ e = ⟨"history", .integerOverflow a.history⟩) ∨
      (a.history.toNat < 2 ^ 63 ∧ a.stateChangesOnly ∧
        2 ^ 63 ≤ a.stateChangesOnlyDuration.nanoseconds ∧
        e = ⟨"stateChangesOnly", .durationOverflow a.stateChangesOnlyDuration.seconds⟩) := by
  have hfinite : a.Finite := finite_of_parse h
  refine ⟨hfinite.1, hfinite.2, fun parent e => ?_⟩
  rw [convert_eq_error_iff, ← failure_eq, failure_of_finite hfinite]
  split_ifs with hhistory hduration
  · refine ⟨fun he => Or.inl ⟨hhistory, (Option.some.inj he).symm⟩, ?_⟩
    rintro (⟨-, rfl⟩ | ⟨hlt, -⟩)
    · rfl
    · exact absurd hhistory (Nat.not_le.2 hlt)
  · refine ⟨fun he => Or.inr ⟨Nat.lt_of_not_le hhistory, hduration.1, hduration.2,
      (Option.some.inj he).symm⟩, ?_⟩
    rintro (⟨hle, -⟩ | ⟨-, -, -, rfl⟩)
    · exact absurd hle hhistory
    · rfl
  · refine ⟨nofun, ?_⟩
    rintro (⟨hle, -⟩ | ⟨-, hs, hle, -⟩)
    · exact absurd hle hhistory
    · exact absurd ⟨hs, hle⟩ hduration

/-- Thresholds out of all proportion, one of them a zero and the other too small to be told from
    one: the number of former states is to blame. -/
theorem convert_error_of_parse_thresholds :
    let text := "\x7b\"useFlapping\":true,\"flapLow\":-0.0e999,".toList
      ++ "\"flapHigh\":1e-999,\"history\":9223372036854775808\x7d".toList
    ∃ a, codec.parse text = .ok a ∧ a.flapLow.isFinite ∧ a.flapHigh.isFinite ∧
      (a.convert (.identifier "stream")).result
        = .error ⟨"history", .integerOverflow 9223372036854775808⟩ := by
  intro text
  have hspells : Spells text (.object [
      (.name (some "useFlapping"), .scalar (.bool true)),
      (.name (some "flapLow"), .scalar (.number ⟨true, ⟨0, 998⟩, false⟩)),
      (.name (some "flapHigh"), .scalar (.number ⟨false, ⟨1, -999⟩, false⟩)),
      (.name (some "history"), .scalar (.number ⟨false, ⟨9223372036854775808, 0⟩, true⟩))] none) := by
    simp only [Spells, text]
    with_unfolding_all rfl
  have hparse : codec.parse text = .ok {
      useFlapping := true
      flapLow := .zero true
      flapHigh := .zero false
      history := 9223372036854775808 } := (Reader.parse_of_spells _ hspells).trans rfl
  obtain ⟨hlow, hhigh, hconvert⟩ := convert_error_of_parse hparse
  exact ⟨_, hparse, hlow, hhigh, (hconvert _ _).2 (Or.inl ⟨by decide, rfl⟩)⟩

end Tickscript.Alert
