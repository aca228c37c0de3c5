/-
  What a run of steps builds.

  A step adds at most one link, or fails, whatever stands before it
  (`Step.links`, `Step.failure`).  So the outcome of a run is read off its steps:

  * `Builder.run_eq`: the run adds the links of the steps in front of the first
    failure (`Step.built`), and keeps that failure (`Step.firstFailure`);
  * `Alert.convert_result`: the conversion of an alert, said without a builder.
-/
import Mathlib.Data.List.TakeWhile
import Tickscript.Alert.Conversion

namespace Tickscript

namespace Step

/-- The link that a step adds, if it adds one. -/
def links (s : Step) : List Link :=
  match s.attempt.map Attempt.encode with
  | some (.ok l) => [l]
  | _ => []

/-- Why a step fails, if it does. -/
def failure (s : Step) : Option BuildError :=
  match s.attempt with
  | none => none
  | some a =>
    match a.encode with
    | .ok _ => none
    | .error cause => some ⟨a.name, cause⟩

/-- The first failure of steps in order. -/
def firstFailure (steps : List Step) : Option BuildError := steps.findSome? failure

/-- The links of the steps in front of the first that fails. -/
def built (steps : List Step) : List Link :=
  (steps.takeWhile fun s => s.failure.isNone).flatMap links

theorem links_of_failure {s : Step} {e : BuildError} (h : s.failure = some e) : s.links = [] := by
  unfold failure at h
  unfold links
  cases ha : s.attempt with
  | none => rfl
  | some a =>
    rw [ha] at h
    cases he : a.encode with
    | ok l => simp [he] at h
    | error cause => simp [he]

@[simp] theorem firstFailure_nil : firstFailure [] = none := rfl

theorem firstFailure_cons (s : Step) (rest : List Step) :
    firstFailure (s :: rest) = s.failure.or (firstFailure rest) := by
  simp only [firstFailure, List.findSome?_cons]
  cases s.failure <;> rfl

theorem firstFailure_append (s t : List Step) :
    firstFailure (s ++ t) = (firstFailure s).or (firstFailure t) := List.findSome?_append

theorem firstFailure_eq_none {steps : List Step} (h : ∀ s ∈ steps, s.failure = none) :
    firstFailure steps = none := List.findSome?_eq_none_iff.2 h

/-- Without a failure every step adds its links. -/
theorem built_of_firstFailure {steps : List Step} (h : firstFailure steps = none) :
    built steps = steps.flatMap links := by
  have hall : ∀ s ∈ steps, s.failure.isNone := by
    intro s hs
    simp [List.findSome?_eq_none_iff.1 h s hs]
  rw [built, List.takeWhile_eq_self_iff.2 hall]

theorem built_cons_of_failure {s : Step} {rest : List Step} {e : BuildError}
    (h : s.failure = some e) : built (s :: rest) = [] := by simp [built, h]

theorem built_cons_of_not_failure {s : Step} {rest : List Step} (h : s.failure = none) :
    built (s :: rest) = s.links ++ built rest := by simp [built, h]

end Step

namespace Builder

variable {b : Builder}

/-- **One step.**  A builder that has not failed takes over the link of the step, and its
    failure. -/
theorem apply_eq (h : b.failure = none) (s : Step) :
    (b.apply s).1 = ⟨⟨b.tip.root, b.tip.links ++ s.links⟩, s.failure⟩ := by
  obtain ⟨⟨root, ls⟩, failure⟩ := b
  simp only at h
  subst h
  unfold apply Step.links Step.failure
  cases s.attempt with
  | none => simp
  | some a =>
    cases ha : a.encode with
    | ok l => simp [link, ha, Chain.append]
    | error cause => simp [link, ha]

/-- A builder that has failed stays as it is. -/
theorem apply_failed {e : BuildError} (h : b.failure = some e) (s : Step) : (b.apply s).1 = b := by
  unfold apply
  cases s.attempt with
  | none => rfl
  | some a => simp [link, h]

theorem run_cons (b : Builder) (s : Step) (rest : List Step) :
    (b.run (s :: rest)).1 = ((b.apply s).1.run rest).1 := rfl

theorem run_failed {e : BuildError} (h : b.failure = some e) :
    ∀ steps, (b.run steps).1 = b
  | [] => rfl
  | s :: rest => by rw [run_cons, apply_failed h, run_failed h rest]

/-- **A whole run.** -/
theorem run_eq : ∀ {b : Builder}, b.failure = none → ∀ steps,
    (b.run steps).1 = ⟨⟨b.tip.root, b.tip.links ++ Step.built steps⟩, Step.firstFailure steps⟩
  | b, h, [] => by
    obtain ⟨tip, failure⟩ := b
    simp only at h
    simp [run, Step.built, h]
  | b, h, s :: rest => by
    rw [run_cons, apply_eq h, Step.firstFailure_cons]
    cases hs : s.failure with
    | none => rw [run_eq rfl rest, Step.built_cons_of_not_failure hs]; simp
    | some e =>
      rw [run_failed rfl rest, Step.built_cons_of_failure hs, Step.links_of_failure hs]; simp

end Builder

namespace Alert

/-- **The conversion, said without a builder.** -/
theorem convert_result (parent : Chain) (a : Alert) :
    (a.convert parent).result =
      match Step.firstFailure a.steps with
      | some e => .error e
      | none => .ok ⟨parent.root, parent.links ++ a.steps.flatMap Step.links⟩ := by
  have hrun : ((Builder.start parent).run a.steps).1 =
      ⟨⟨parent.root, parent.links ++ Step.built a.steps⟩, Step.firstFailure a.steps⟩ :=
    Builder.run_eq rfl a.steps
  show (((Builder.start parent).run a.steps).1).finish = _
  rw [hrun]
  cases hf : Step.firstFailure a.steps with
  | some e => rfl
  | none => rw [Step.built_of_firstFailure hf]; rfl

theorem convert_eq_ok_iff {parent c : Chain} {a : Alert} :
    (a.convert parent).result = .ok c ↔ Step.firstFailure a.steps = none ∧
      c = ⟨parent.root, parent.links ++ a.steps.flatMap Step.links⟩ := by
  rw [convert_result]
  cases Step.firstFailure a.steps <;> simp [eq_comm]

theorem convert_eq_error_iff {parent : Chain} {a : Alert} {e : BuildError} :
    (a.convert parent).result = .error e ↔ Step.firstFailure a.steps = some e := by
  rw [convert_result]
  cases Step.firstFailure a.steps <;> simp

end Alert

end Tickscript
