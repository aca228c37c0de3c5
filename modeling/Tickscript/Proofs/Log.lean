/-
  What is logged while a chain is built.

  After a failure a run goes on: each later step is tried or left out as it would have been, and
  the event of a step that is tried takes the place of its link.  So the links, the failure and
  the events behind it name the same calls, one after another, whether or not a run fails.

  * `Builder.apply_events`: the event of one step;
  * `Builder.run_events`, `Builder.run_events_of_rejects`: the events of a run with a failure;
  * `Builder.names_run`: the calls named by a run;
  * `Alert.tried_steps`: the calls that are tried for an alert are those of its settings
    (`Alert.calls`), even where one of them has no literal;
  * `Alert.convert_log`: the log of a conversion.
-/
import Tickscript.Proofs.Calls
import Tickscript.Proofs.Outcome

namespace Tickscript

/-- The call that an event is about. -/
def Event.property? : Event → Option String
  | rejected e => some e.property
  | skipped name => some name
  | loaded _ | converted _ => none

namespace Step

/-- The name of the call, if the step is tried. -/
def tried (s : Step) : List String := if s.isAttempted then [s.name] else []

variable {s : Step}

theorem tried_of_isAttempted (h : s.isAttempted) : s.tried = [s.name] := if_pos h

theorem tried_of_not_isAttempted (h : s.isAttempted = false) : s.tried = [] := by simp [tried, h]

/-- A step that does not fail is tried exactly if it adds a link. -/
theorem tried_of_failure_eq_none (h : s.failure = none) : s.tried = s.links.map (·.call.name) := by
  cases ha : s.isAttempted with
  | false => rw [tried_of_not_isAttempted ha, links_of_not_isAttempted ha, List.map_nil]
  | true =>
    rcases s.adds_or_rejects with ⟨l, hl⟩ | ⟨cause, hr⟩
    · rw [tried_of_isAttempted ha, links_of_adds ha hl, List.map_singleton, hl.name]
    · rw [failure_of_rejects ha hr] at h
      cases h

theorem tried_of_failure_eq_some {e : BuildError} (h : s.failure = some e) :
    s.tried = [e.property] := by
  obtain ⟨ha, cause, -, rfl⟩ := failure_eq_some_iff.1 h
  exact tried_of_isAttempted ha

theorem map_name_filter_isAttempted (steps : List Step) :
    (steps.filter isAttempted).map name = steps.flatMap tried := by
  induction steps with
  | nil => rfl
  | cons s rest ih =>
    cases ha : s.isAttempted with
    | false =>
      rw [List.filter_cons_of_neg (by simp [ha]), ih, List.flatMap_cons,
        tried_of_not_isAttempted ha, List.nil_append]
    | true =>
      rw [List.filter_cons_of_pos ha, List.map_cons, ih, List.flatMap_cons,
        tried_of_isAttempted ha, List.singleton_append]

end Step

/-! ## Events of runs -/

namespace Builder

variable {b : Builder}

/-- **The event of one step.**  Before the failure it is the failure of the step, if it has one, and
    behind it the step itself, if it is tried. -/
theorem apply_events (b : Builder) (s : Step) :
    (b.apply s).2 =
      if b.failure.isSome then s.tried.map .skipped else (s.failure.map .rejected).toList := by
  unfold apply
  rw [Step.attempt_eq]
  cases ha : s.isAttempted with
  | false =>
    rw [Step.tried_of_not_isAttempted ha, Step.failure_of_not_isAttempted ha]
    cases b.failure <;> rfl
  | true =>
    rw [Step.tried_of_isAttempted ha]
    cases hb : b.failure with
    | some e => simp [link, hb]
    | none =>
      rcases s.adds_or_rejects with ⟨l, hl⟩ | ⟨cause, hr⟩
      · rw [Step.failure_of_adds ha hl]
        simp [link, hb, Step.encode_of_adds hl]
      · rw [Step.failure_of_rejects ha hr]
        simp [link, hb, Step.encode_of_rejects hr]

theorem run_cons_events (b : Builder) (s : Step) (rest : List Step) :
    (b.run (s :: rest)).2 = (b.apply s).2 ++ ((b.apply s).1.run rest).2 := rfl

theorem run_append_events (b : Builder) (steps later : List Step) :
    (b.run (steps ++ later)).2 = (b.run steps).2 ++ ((b.run steps).1.run later).2 := by
  induction steps generalizing b with
  | nil => rfl
  | cons s rest ih =>
    rw [List.cons_append, run_cons_events, run_cons_events, ih, run_cons, List.append_assoc]

/-- Behind the failure each step that is tried is logged. -/
theorem run_events_of_failed {e : BuildError} (hb : b.failure = some e) :
    ∀ steps, (b.run steps).2 = (steps.flatMap Step.tried).map .skipped
  | [] => rfl
  | s :: rest => by
    rw [run_cons_events, apply_events, hb, apply_failed hb, run_events_of_failed hb rest,
      List.flatMap_cons, List.map_append]
    rfl

/-- Without a failure nothing is logged. -/
theorem run_events_of_firstFailure : ∀ {b : Builder} {steps : List Step}, b.failure = none →
    Step.firstFailure steps = none → (b.run steps).2 = []
  | _, [], _, _ => rfl
  | b, s :: rest, hb, h => by
    rw [Step.firstFailure_cons, Option.or_eq_none_iff] at h
    rw [run_cons_events, apply_events, hb, h.1, apply_eq hb, h.1,
      run_events_of_firstFailure rfl h.2]
    rfl

/-- **The events of a run with a failure**: the failure, then each later step that is tried. -/
theorem run_events {front back : List Step} {s : Step} {e : BuildError} (hb : b.failure = none)
    (hfront : Step.firstFailure front = none) (hs : s.failure = some e) :
    (b.run (front ++ s :: back)).2 = .rejected e :: (back.flatMap Step.tried).map .skipped := by
  have hafter : (b.run front).1.failure = none := by rw [run_eq hb, hfront]
  have hfailed : ((b.run front).1.apply s).1.failure = some e := by rw [apply_eq hafter, hs]
  rw [run_append_events, run_events_of_firstFailure hb hfront, run_cons_events, apply_events,
    hafter, hs, run_events_of_failed hfailed]
  rfl

/-- The same, said of the steps that are tried. -/
theorem run_events_of_rejects {steps front back : List Step} {s : Step} {cause : LiteralError}
    (hb : b.failure = none) (h : steps.filter Step.isAttempted = front ++ s :: back)
    (hfront : ∀ t ∈ front, ∀ c, ¬ t.Rejects c) (hr : s.Rejects cause) :
    (b.run steps).2 = .rejected ⟨s.name, cause⟩ :: back.map (fun t => .skipped t.name) := by
  -- the steps that are left out lie somewhere in between
  obtain ⟨front', rest, rfl, rfl, hrest⟩ := List.filter_eq_append_iff.1 h
  obtain ⟨gap, back', rfl, hgap, hs, rfl⟩ := List.filter_eq_cons_iff.1 hrest
  have hbefore : Step.firstFailure (front' ++ gap) = none := by
    refine (Step.built_of_adds fun t ht => hfront t ?_).2
    rw [List.filter_append, List.filter_eq_nil_iff.2 hgap, List.append_nil] at ht
    exact ht
  rw [← List.append_assoc, run_events hb hbefore (Step.failure_of_rejects hs hr),
    ← Step.map_name_filter_isAttempted, List.map_map]
  rfl

/-- **A run names the calls that are tried**, with its links up to a failure and with its events from
    there on. -/
theorem names_run : ∀ {b : Builder}, b.failure = none → ∀ steps,
    (Step.built steps).map (·.call.name) ++ (b.run steps).2.filterMap Event.property? =
      steps.flatMap Step.tried
  | _, _, [] => rfl
  | b, hb, s :: rest => by
    rw [run_cons_events, apply_events, hb, List.flatMap_cons]
    cases hs : s.failure with
    | none =>
      have hafter : (b.apply s).1.failure = none := by rw [apply_eq hb, hs]
      rw [Step.built_cons_of_not_failure hs, Step.tried_of_failure_eq_none hs, ← names_run hafter rest]
      simp
    | some e =>
      have hafter : (b.apply s).1.failure = some e := by rw [apply_eq hb, hs]
      rw [Step.built_cons_of_failure hs, Step.tried_of_failure_eq_some hs,
        run_events_of_failed hafter rest]
      simp [Event.property?, List.filterMap_map, Function.comp_def]

end Builder

/-! ## Alerts -/

namespace Alert

open Setting

/-- The number of former states is tried unless it is zero, be there a literal for it or not. -/
theorem tried_history (n : UInt64) :
    (Step.dot "history" [.uint n]).tried = (number "history" n.toNat).map (·.call.name) := by
  by_cases hn : n = 0
  · subst hn
    rfl
  · have hn' : n.toNat ≠ 0 := fun h => hn (UInt64.toNat_inj.1 h)
    simp [Step.tried, Step.isAttempted, Step.name, Argument.isZero, number, when, hn, hn']

theorem tried_stateSteps (a : Alert) : a.stateSteps.flatMap Step.tried =
    (when a.stateChangesOnly "stateChangesOnly"
      (if a.stateChangesOnlyDuration.nanoseconds = 0 then []
        else [.duration (.ofNat a.stateChangesOnlyDuration.nanoseconds)])).map (·.call.name) := by
  unfold stateSteps
  by_cases hs : a.stateChangesOnly
  · by_cases h0 : a.stateChangesOnlyDuration.nanoseconds = 0 <;>
      simp [hs, h0, Step.tried, Step.isAttempted, Step.name, Argument.isZero, when]
  · simp [hs, when]

theorem tried_flappingSteps (a : Alert) : a.flappingSteps.flatMap Step.tried =
    (when a.useFlapping "flapping" [.number (.float a.flapLow), .number (.float a.flapHigh)]).map
      (·.call.name) := by
  unfold flappingSteps
  by_cases hu : a.useFlapping <;> simp [hu, Step.tried, Step.isAttempted, Step.name, when]

theorem tried_propertySteps (a : Alert) : a.propertySteps.flatMap Step.tried =
    (a.eventCalls ++ a.conditionCalls ++
      (number "history" a.history.toNat ++ text "levelTag" a.levelTag
        ++ text "levelField" a.levelField ++ text "messageField" a.messageField
        ++ text "durationField" a.durationField ++ text "idTag" a.idTag
        ++ text "idField" a.idField ++ flag "all" a.all
        ++ flag "noRecoveries" a.noRecoveries)).map (·.call.name) := by
  simp [propertySteps, Step.tried_of_failure_eq_none, tried_history, eventCalls, conditionCalls]

theorem tried_handlers (a : Alert) :
    (a.handlers.flatMap Handler.steps).flatMap Step.tried =
      a.handlerCalls.map (·.call.name) := by
  rw [← links_handlers, List.map_flatMap]
  refine List.flatMap_congr fun s hs => Step.tried_of_failure_eq_none ?_
  obtain ⟨h, -, hs⟩ := List.mem_flatMap.1 hs
  exact h.failure_steps s hs

/-- **The calls that are tried for an alert are those of its settings**, also those that have no
    literal for their arguments. -/
theorem tried_steps (a : Alert) : a.steps.flatMap Step.tried = a.calls.map (·.call.name) := by
  have hpipe : (Step.pipe "alert" []).tried = ["alert"] := rfl
  simp only [steps, calls, outputCalls, List.flatMap_append, List.flatMap_cons, List.map_append,
    List.map_cons, hpipe, tried_propertySteps, tried_stateSteps, tried_flappingSteps,
    tried_handlers, List.append_assoc, List.cons_append, List.nil_append]

/-- The number of handlers, list by list. -/
def handlerCount (a : Alert) : Nat :=
  a.httpPostHandlers.length + a.tcpHandlers.length + a.emailHandlers.length
    + a.execHandlers.length + a.logHandlers.length + a.victorOpsHandlers.length
    + a.pagerDutyHandlers.length + a.pushoverHandlers.length + a.sensuHandlers.length
    + a.slackHandlers.length + a.telegramHandlers.length + a.hipChatHandlers.length
    + a.alertaHandlers.length + a.opsGenieHandlers.length + a.talkHandlers.length
    + a.mqttHandlers.length + a.snmpTrapHandlers.length

theorem length_handlers (a : Alert) : a.handlers.length = a.handlerCount := by
  unfold handlers handlerCount
  simp only [List.length_append, List.length_map]

theorem convert_log_eq (parent : Chain) (a : Alert) : (a.convert parent).log =
    ((Builder.start parent).run a.steps).2 ++ [.converted a.handlerCount] := by
  rw [← a.length_handlers]
  rfl

/-- **The log of a conversion.**  If every call that is tried has literals for its arguments, the
    number of handlers is all that is logged.  Otherwise the first call that has none is logged with
    its cause, then every later call that is tried, and the number of handlers even so.  In either
    case the links that are added and the calls that are logged are the calls of the settings. -/
theorem convert_log (parent : Chain) (a : Alert) :
    let attempted := a.steps.filter Step.isAttempted
    let log := (a.convert parent).log
    attempted.map Step.name = a.calls.map (·.call.name) ∧
    ((∀ s ∈ attempted, ∀ cause, ¬ s.Rejects cause) →
      log = [.converted a.handlerCount] ∧ log.map Event.level = [.debug]) ∧
    (∀ front s back cause, attempted = front ++ s :: back →
      (∀ t ∈ front, ∀ c, ¬ t.Rejects c) → s.Rejects cause →
      log = .rejected ⟨s.name, cause⟩ :: back.map (fun t => .skipped t.name)
        ++ [.converted a.handlerCount] ∧
      log.map Event.level = .warn :: back.map (fun _ => .trace) ++ [.debug]) ∧
    ∃ added, ((Builder.start parent).run a.steps).1.tip = ⟨parent.root, parent.links ++ added⟩ ∧
      added.map (·.call.name) ++ log.filterMap Event.property? = a.calls.map (·.call.name) := by
  intro attempted log
  have hlog : log = ((Builder.start parent).run a.steps).2 ++ [.converted a.handlerCount] :=
    convert_log_eq parent a
  refine ⟨?_, fun h => ?_, fun front s back cause h hfront hr => ?_, Step.built a.steps, ?_, ?_⟩
  · rw [Step.map_name_filter_isAttempted, tried_steps]
  · have hevents : log = [.converted a.handlerCount] := by
      rw [hlog, Builder.run_events_of_firstFailure rfl (Step.built_of_adds h).2, List.nil_append]
    exact ⟨hevents, by rw [hevents]; rfl⟩
  · have hevents : log = .rejected ⟨s.name, cause⟩ :: back.map (fun t => .skipped t.name)
        ++ [.converted a.handlerCount] := by
      rw [hlog, Builder.run_events_of_rejects rfl h hfront hr]
    refine ⟨hevents, ?_⟩
    rw [hevents]
    simp [Event.level, Function.comp_def]
  · rw [Builder.run_eq rfl]
    rfl
  · rw [hlog, List.filterMap_append, ← List.append_assoc, Builder.names_run rfl, tried_steps]
    simp [Event.property?]

/-- A number that no literal can hold is logged, and the two calls behind it, but no command that is
    empty.  Without them nothing is logged but that there are no handlers. -/
theorem convert_log_history :
    let quiet : Alert := { topic := "cpu" }
    let a : Alert := {
      topic := "cpu"
      history := 0x8000000000000000
      all := true
      execHandlers := [{}]
      talkHandlers := [{}] }
    (quiet.convert (.identifier "stream")).log = [.converted 0] ∧
      (a.convert (.identifier "stream")).log = [
        .rejected ⟨"history", .integerOverflow 0x8000000000000000⟩, .skipped "all", .skipped "talk",
        .converted 2] ∧
      a.calls.map (·.call.name) = ["alert", "topic", "history", "all", "talk"] := by
  intro quiet a
  have hquiet : quiet.steps.filter Step.isAttempted =
      [.pipe "alert" [], .dot "topic" [.text "cpu"]] := by
    unfold steps handlers
    simp [quiet, propertySteps, stateSteps, flappingSteps, Handler.property, condition,
      Step.isAttempted, Argument.isZero, List.filter_cons]
  have hattempted : a.steps.filter Step.isAttempted = [
      .pipe "alert" [], .dot "topic" [.text "cpu"], .dot "history" [.uint 0x8000000000000000],
      .dotIf "all" true [], .dot "talk" []] := by
    unfold steps handlers
    simp [a, propertySteps, stateSteps, flappingSteps, Handler.steps, Handler.method,
      Handler.property, condition, Step.isAttempted, Argument.isZero, List.filter_cons]
  have hfront : ∀ t ∈ [Step.pipe "alert" [], .dot "topic" [.text "cpu"]], ∀ c, ¬ t.Rejects c := by
    intro t ht
    rcases List.mem_pair.1 ht with rfl | rfl
    · exact Step.Adds.not_rejects (l := ⟨.pipe, ⟨"alert", []⟩⟩) ⟨rfl, rfl, .nil⟩
    · exact Step.Adds.not_rejects (l := ⟨.dot, ⟨"topic", [.text "cpu"]⟩⟩)
        ⟨rfl, rfl, .cons rfl .nil⟩
  have hrejects : (Step.dot "history" [.uint 0x8000000000000000]).Rejects
      (.integerOverflow 0x8000000000000000) :=
    ⟨[], _, [], [], rfl, .nil, rfl⟩
  have hnone := (convert_log (.identifier "stream") quiet).2.1
  obtain ⟨hnames, -, hlog, -⟩ := convert_log (.identifier "stream") a
  refine ⟨(hnone (hquiet ▸ hfront)).1, ?_, ?_⟩
  · exact (hlog _ _ [.dotIf "all" true [], .dot "talk" []] _ hattempted hfront hrejects).1
  · rw [← hnames, hattempted]
    rfl

end Alert

end Tickscript
