/-
  Recovery of an alert from its chain.

  In front of the calls of the handlers stand the calls of the settings, which have
  different names.  So the settings of an alert in normal form (`Alert.Normal`) are
  found by name, and its handlers one after another.

  * `Alert.calls_injective`: alerts in normal form with the same calls are the same
    but for thresholds that are not in use;
  * `Alert.convert_injective`: alerts in normal form with equal chains are equal, to
    the order of their headers.
-/
import Tickscript.Proofs.Equality
import Tickscript.Proofs.Recovery.Handler

namespace Tickscript

open Setting

namespace Alert

/-- An alert in normal form: no setting has a value that leaves no trace in the calls. -/
structure Normal (a : Alert) : Prop where
  conditions : ∀ e ∈ [a.info, a.warn, a.crit, a.infoReset, a.warnReset, a.critReset], e ≠ some ""
  duration : a.stateChangesOnly = false → a.stateChangesOnlyDuration = .zero
  thresholds : a.useFlapping = false → a.flapLow.isZero ∧ a.flapHigh.isZero
  handlers : ∀ h ∈ a.handlers, h.Normal

/-! ## The parts of the calls -/

/-- The calls of all settings that are not handlers. -/
def settingCalls (a : Alert) : List Link :=
  ⟨.pipe, ⟨"alert", []⟩⟩ :: (a.eventCalls ++ a.conditionCalls ++ a.outputCalls)

theorem calls_eq (a : Alert) : a.calls = a.settingCalls ++ a.handlers.flatMap Handler.calls := by
  rw [calls, settingCalls, handlerCalls_eq, List.cons_append]

theorem inner_settingCalls (a : Alert) : Handler.Inner a.settingCalls := by
  have hparts : Handler.Inner (a.eventCalls ++ a.conditionCalls ++ a.outputCalls) := by
    simp [eventCalls, conditionCalls, outputCalls, Handler.methods, Handler.inner_when]
  intro l hl
  rcases List.mem_cons.1 hl with rfl | hl
  · decide
  · exact hparts l hl

/-- The handlers of each kind are found among all handlers. -/
theorem eq_of_handlers_eq {a b : Alert} (h : a.handlers = b.handlers) :
    a.httpPostHandlers = b.httpPostHandlers ∧
    a.tcpHandlers = b.tcpHandlers ∧
    a.emailHandlers = b.emailHandlers ∧
    a.execHandlers = b.execHandlers ∧
    a.logHandlers = b.logHandlers ∧
    a.victorOpsHandlers = b.victorOpsHandlers ∧
    a.pagerDutyHandlers = b.pagerDutyHandlers ∧
    a.pushoverHandlers = b.pushoverHandlers ∧
    a.sensuHandlers = b.sensuHandlers ∧
    a.slackHandlers = b.slackHandlers ∧
    a.telegramHandlers = b.telegramHandlers ∧
    a.hipChatHandlers = b.hipChatHandlers ∧
    a.alertaHandlers = b.alertaHandlers ∧
    a.opsGenieHandlers = b.opsGenieHandlers ∧
    a.talkHandlers = b.talkHandlers ∧
    a.mqttHandlers = b.mqttHandlers ∧
    a.snmpTrapHandlers = b.snmpTrapHandlers := by
  have pick {α : Type} (f : Handler → Option α) : a.handlers.filterMap f = b.handlers.filterMap f := by
    rw [h]
  unfold handlers at pick
  simp only [List.filterMap_append, List.filterMap_map, Function.comp_def] at pick
  refine ⟨?_, ?_, ?_, ?_, ?_, ?_, ?_, ?_, ?_, ?_, ?_, ?_, ?_, ?_, ?_, ?_, ?_⟩
  · simpa using pick fun | .httpPost h => some h | _ => none
  · simpa using pick fun | .tcp h => some h | _ => none
  · simpa using pick fun | .email h => some h | _ => none
  · simpa using pick fun | .exec h => some h | _ => none
  · simpa using pick fun | .log h => some h | _ => none
  · simpa using pick fun | .victorOps h => some h | _ => none
  · simpa using pick fun | .pagerDuty h => some h | _ => none
  · simpa using pick fun | .pushover h => some h | _ => none
  · simpa using pick fun | .sensu h => some h | _ => none
  · simpa using pick fun | .slack h => some h | _ => none
  · simpa using pick fun | .telegram h => some h | _ => none
  · simpa using pick fun | .hipChat h => some h | _ => none
  · simpa using pick fun | .alerta h => some h | _ => none
  · simpa using pick fun | .opsGenie h => some h | _ => none
  · simpa using pick fun | .talk h => some h | _ => none
  · simpa using pick fun | .mqtt h => some h | _ => none
  · simpa using pick fun | .snmpTrap h => some h | _ => none

section
variable {a b : Alert} (h : a.settingCalls = b.settingCalls)
include h

theorem named_settings_eq (n : String) :
    named n (a.eventCalls ++ a.conditionCalls ++ a.outputCalls) =
      named n (b.eventCalls ++ b.conditionCalls ++ b.outputCalls) := by
  rw [settingCalls, settingCalls, List.cons.injEq] at h
  rw [h.2]

theorem eventSettings_eq : a.topic = b.topic ∧ a.id = b.id ∧ a.message = b.message ∧
    a.details = b.details := by
  have field := named_settings_eq h
  simp only [eventCalls, conditionCalls, outputCalls] at field
  refine ⟨?_, ?_, ?_, ?_⟩
  · exact text_injective (by simpa using field "topic")
  · exact text_injective (by simpa using field "id")
  · exact text_injective (by simpa using field "message")
  · exact text_injective (by simpa using field "details")

theorem conditions_eq (ha : a.Normal) (hb : b.Normal) : a.info = b.info ∧ a.warn = b.warn ∧
    a.crit = b.crit ∧ a.infoReset = b.infoReset ∧ a.warnReset = b.warnReset ∧
    a.critReset = b.critReset := by
  have field := named_settings_eq h
  simp only [eventCalls, conditionCalls, outputCalls] at field
  have hna := ha.conditions
  have hnb := hb.conditions
  simp only [List.mem_cons, List.not_mem_nil, or_false, forall_eq_or_imp, forall_eq] at hna hnb
  obtain ⟨a1, a2, a3, a4, a5, a6⟩ := hna
  obtain ⟨b1, b2, b3, b4, b5, b6⟩ := hnb
  refine ⟨?_, ?_, ?_, ?_, ?_, ?_⟩
  · exact expression_injective a1 b1 (by simpa using field "info")
  · exact expression_injective a2 b2 (by simpa using field "warn")
  · exact expression_injective a3 b3 (by simpa using field "crit")
  · exact expression_injective a4 b4 (by simpa using field "infoReset")
  · exact expression_injective a5 b5 (by simpa using field "warnReset")
  · exact expression_injective a6 b6 (by simpa using field "critReset")

theorem outputSettings_eq : a.levelTag = b.levelTag ∧ a.levelField = b.levelField ∧
    a.messageField = b.messageField ∧ a.durationField = b.durationField ∧ a.idTag = b.idTag ∧
    a.idField = b.idField ∧ a.all = b.all ∧ a.noRecoveries = b.noRecoveries := by
  have field := named_settings_eq h
  simp only [eventCalls, conditionCalls, outputCalls] at field
  refine ⟨?_, ?_, ?_, ?_, ?_, ?_, ?_, ?_⟩
  · exact text_injective (by simpa using field "levelTag")
  · exact text_injective (by simpa using field "levelField")
  · exact text_injective (by simpa using field "messageField")
  · exact text_injective (by simpa using field "durationField")
  · exact text_injective (by simpa using field "idTag")
  · exact text_injective (by simpa using field "idField")
  · exact flag_injective (by simpa using field "all")
  · exact flag_injective (by simpa using field "noRecoveries")

theorem history_eq (ha : a.Encodable) (hb : b.Encodable) : a.history = b.history := by
  have field := named_settings_eq h "history"
  simp only [eventCalls, conditionCalls, outputCalls] at field
  exact UInt64.toNat_inj.1 (number_injective ha.history hb.history (by simpa using field))

/-- The duration of an unchanged state is found where it is in use, and is zero elsewhere. -/
theorem stateChanges_eq (ha : a.Encodable) (hb : b.Encodable) (hna : a.Normal) (hnb : b.Normal) :
    a.stateChangesOnly = b.stateChangesOnly ∧
      a.stateChangesOnlyDuration = b.stateChangesOnlyDuration := by
  have field := named_settings_eq h "stateChangesOnly"
  simp only [eventCalls, conditionCalls, outputCalls] at field
  obtain ⟨hflag, hargs⟩ := when_injective (by simpa using field)
  have hs : a.stateChangesOnly = b.stateChangesOnly := Bool.eq_iff_iff.2 hflag
  refine ⟨hs, ?_⟩
  cases hsa : a.stateChangesOnly with
  | false => rw [hna.duration hsa, hnb.duration (hs ▸ hsa)]
  | true =>
    have hda := ha.duration hsa
    have hdb := hb.duration (hs ▸ hsa)
    have heq := hargs hsa
    have hns : a.stateChangesOnlyDuration.nanoseconds = b.stateChangesOnlyDuration.nanoseconds := by
      split_ifs at heq with h0 h1 h1
      · rw [h0, h1]
      · simpa [ofNat_inj hda hdb] using heq
    cases hd : a.stateChangesOnlyDuration
    cases he : b.stateChangesOnlyDuration
    simpa [hd, he] using hns

theorem flapping_eq : a.useFlapping = b.useFlapping ∧
    (a.useFlapping → a.flapLow = b.flapLow ∧ a.flapHigh = b.flapHigh) := by
  have field := named_settings_eq h "flapping"
  simp only [eventCalls, conditionCalls, outputCalls] at field
  obtain ⟨hflag, hargs⟩ := when_injective (by simpa using field)
  exact ⟨Bool.eq_iff_iff.2 hflag, fun hu => by simpa using hargs hu⟩

end

/-- **Alerts in normal form with the same calls** are the same but for thresholds that are not in
    use. -/
theorem calls_injective {a b : Alert} (hna : a.Normal) (hnb : b.Normal) (hea : a.Encodable)
    (heb : b.Encodable) (h : a.calls = b.calls) :
    { a with flapLow := b.flapLow, flapHigh := b.flapHigh } = b ∧
      (a.useFlapping → a.flapLow = b.flapLow ∧ a.flapHigh = b.flapHigh) := by
  rw [calls_eq, calls_eq] at h
  obtain ⟨hs, hh⟩ := Handler.split_unique (inner_settingCalls a) (inner_settingCalls b)
    (Handler.opens_head_flatMap_calls hna.handlers) (Handler.opens_head_flatMap_calls hnb.handlers) h
  have hhandlers := eq_of_handlers_eq (Handler.flatMap_calls_injective hna.handlers hnb.handlers hh)
  have hevents := eventSettings_eq hs
  have hconditions := conditions_eq hs hna hnb
  have houtput := outputSettings_eq hs
  have hhistory := history_eq hs hea heb
  have hstate := stateChanges_eq hs hea heb hna hnb
  have hflapping := flapping_eq hs
  refine ⟨?_, hflapping.2⟩
  cases a
  cases b
  simp_all

/-! ## Equal chains -/

/-- The alert with the signs of zero thresholds left out. -/
def dropZeroSigns (a : Alert) : Alert :=
  { a with flapLow := a.flapLow.dropZeroSign, flapHigh := a.flapHigh.dropZeroSign }

theorem handlers_dropZeroSigns (a : Alert) : a.dropZeroSigns.handlers = a.handlers := rfl

theorem Normal.dropZeroSigns {a : Alert} (h : a.Normal) : a.dropZeroSigns.Normal where
  conditions := h.conditions
  duration := h.duration
  thresholds hu := by
    obtain ⟨hl, hh⟩ := h.thresholds hu
    simp only [Alert.dropZeroSigns, Binary64.dropZeroSign, hl, hh]
    exact ⟨rfl, rfl⟩
  handlers := h.handlers

theorem Encodable.dropZeroSigns {a : Alert} (h : a.Encodable) : a.dropZeroSigns.Encodable where
  history := h.history
  duration := h.duration
  thresholds hu := by
    obtain ⟨hl, hh⟩ := h.thresholds hu
    exact ⟨by rw [← hl]; exact Binary64.isFinite_dropZeroSign _,
      by rw [← hh]; exact Binary64.isFinite_dropZeroSign _⟩

section
variable {n : String}

theorem map_when (p : Prop) [Decidable p] (args : List Literal) :
    (when p n args).map Link.dropZeroSign = when p n (args.map Literal.dropZeroSign) := by
  by_cases hp : p <;> simp [when, hp, Link.dropZeroSign]

@[simp] theorem map_text (s : String) : (text n s).map Link.dropZeroSign = text n s := by
  simp [text, map_when, Literal.dropZeroSign]

@[simp] theorem map_texts (ss : List String) : (texts n ss).map Link.dropZeroSign = texts n ss := by
  simp [texts, map_when, Literal.dropZeroSign, Literal.dropZeroSigns_eq_map, Function.comp_def]

@[simp] theorem map_number (k : Nat) : (number n k).map Link.dropZeroSign = number n k := by
  simp [number, map_when, Literal.dropZeroSign, Number.dropZeroSign]

@[simp] theorem map_flag (b : Bool) : (flag n b).map Link.dropZeroSign = flag n b := by
  simp [flag, map_when]

@[simp] theorem map_opening : (opening n).map Link.dropZeroSign = opening n := by
  simp [opening, map_when]

@[simp] theorem map_expression (e : Option String) :
    (expression n e).map Link.dropZeroSign = expression n e := by
  cases e <;> simp [expression, map_when, Literal.dropZeroSign]

@[simp] theorem map_headerCalls (e : String × String) :
    (Handler.headerCalls e).map Link.dropZeroSign = Handler.headerCalls e := by
  simp [Handler.headerCalls, map_when, Literal.dropZeroSign]

@[simp] theorem map_dataCalls (d : Handler.SnmpData) :
    d.calls.map Link.dropZeroSign = d.calls := by
  simp [Handler.SnmpData.calls, map_when, Literal.dropZeroSign]

end

theorem map_handlerCalls (h : Handler) : h.calls.map Link.dropZeroSign = h.calls := by
  cases h with
  | httpPost h => simp [Handler.calls, Handler.HttpPost.calls, List.map_flatMap]
  | tcp h => simp [Handler.calls, Handler.Tcp.calls]
  | email h => simp [Handler.calls, Handler.Email.calls, List.map_flatMap]
  | exec h => simp [Handler.calls, Handler.Exec.calls]
  | log h =>
    simp [Handler.calls, Handler.Log.calls, map_when, Literal.dropZeroSign, Number.dropZeroSign]
  | victorOps h => simp [Handler.calls, Handler.VictorOps.calls]
  | pagerDuty h => simp [Handler.calls, Handler.PagerDuty.calls]
  | pushover h => simp [Handler.calls, Handler.Pushover.calls]
  | sensu h => simp [Handler.calls, Handler.Sensu.calls]
  | slack h => simp [Handler.calls, Handler.Slack.calls]
  | telegram h => simp [Handler.calls, Handler.Telegram.calls]
  | hipChat h => simp [Handler.calls, Handler.HipChat.calls]
  | alerta h => simp [Handler.calls, Handler.Alerta.calls]
  | opsGenie h => simp [Handler.calls, Handler.OpsGenie.calls]
  | talk h => simp [Handler.calls, Handler.Talk.calls]
  | mqtt h => simp [Handler.calls, Handler.Mqtt.calls, map_when, Literal.dropZeroSign]
  | snmpTrap h => simp [Handler.calls, Handler.SnmpTrap.calls, List.map_flatMap]

/-- Only the thresholds have signs to lose. -/
theorem settingCalls_dropZeroSigns (a : Alert) :
    a.settingCalls.map Link.dropZeroSign = a.dropZeroSigns.settingCalls := by
  have hstate : (if a.stateChangesOnlyDuration.nanoseconds = 0 then []
      else [Literal.duration (.ofNat a.stateChangesOnlyDuration.nanoseconds)]).map
        Literal.dropZeroSign = if a.stateChangesOnlyDuration.nanoseconds = 0 then []
      else [Literal.duration (.ofNat a.stateChangesOnlyDuration.nanoseconds)] := by
    split_ifs <;> simp [Literal.dropZeroSign]
  have hpipe : Link.dropZeroSign ⟨.pipe, ⟨"alert", []⟩⟩ = ⟨.pipe, ⟨"alert", []⟩⟩ := rfl
  simp only [settingCalls, eventCalls, conditionCalls, outputCalls, List.map_cons,
    List.map_append, hpipe, map_text, map_number, map_flag, map_expression, map_when, hstate,
    List.map_nil, Literal.dropZeroSign, Number.dropZeroSign]
  rfl

theorem calls_dropZeroSigns (a : Alert) :
    a.calls.map Link.dropZeroSign = a.dropZeroSigns.calls := by
  rw [calls_eq, calls_eq, handlers_dropZeroSigns, List.map_append, List.map_flatMap,
    settingCalls_dropZeroSigns]
  simp only [map_handlerCalls]

theorem beq_of_eq_thresholds {a : Alert} {low high : Binary64} (hl : a.flapLow.equals low)
    (hh : a.flapHigh.equals high) : a == { a with flapLow := low, flapHigh := high } := by
  have hl' : (a.flapLow == low) = true := hl
  have hh' : (a.flapHigh == high) = true := hh
  show instBEqAlert.beq a _ = true
  cases a
  simp only [instBEqAlert.beq]
  simp_all

/-- **Equal chains come of equal alerts**, if the alerts are in normal form, and then their headers
    are in the same order too. -/
theorem convert_injective {parent c d : Chain} {a b : Alert} (hna : a.Normal) (hnb : b.Normal)
    (ha : (a.convert parent).result = .ok c) (hb : (b.convert parent).result = .ok d)
    (h : c == d) :
    a == b ∧ a.httpPostHandlers.map (·.headers.entries) = b.httpPostHandlers.map (·.headers.entries) := by
  obtain ⟨hea, rfl⟩ := convert_ok_iff.1 ha
  obtain ⟨heb, rfl⟩ := convert_ok_iff.1 hb
  have hlinks := (Chain.eq_of_beq h).2
  simp only [List.map_append, List.append_cancel_left_eq, calls_dropZeroSigns] at hlinks
  obtain ⟨heq, hthresholds⟩ := calls_injective hna.dropZeroSigns hnb.dropZeroSigns
    hea.dropZeroSigns heb.dropZeroSigns hlinks
  have hb : b = { a with flapLow := b.flapLow, flapHigh := b.flapHigh } := by
    cases a
    cases b
    simp_all [dropZeroSigns]
  have hflaps : a.flapLow.equals b.flapLow ∧ a.flapHigh.equals b.flapHigh := by
    cases hu : a.useFlapping with
    | true =>
      obtain ⟨hl, hh⟩ := hea.thresholds hu
      obtain ⟨hl', hh'⟩ := hthresholds hu
      exact ⟨Binary64.equals_of_isFinite hl hl', Binary64.equals_of_isFinite hh hh'⟩
    | false =>
      have hu' : b.useFlapping = false := by rw [hb, hu]
      obtain ⟨hl, hh⟩ := hna.thresholds hu
      obtain ⟨hl', hh'⟩ := hnb.thresholds hu'
      exact ⟨Binary64.equals_of_isZero hl hl', Binary64.equals_of_isZero hh hh'⟩
  refine ⟨?_, ?_⟩
  · rw [hb]
    exact beq_of_eq_thresholds hflaps.1 hflaps.2
  · rw [hb]

/-- Two alerts that differ in the sign of a zero, with a text under one name for the alert and for
    a handler, and with a header. -/
theorem convert_injective_headers :
    let a : Alert := {
      topic := "cpu"
      useFlapping := true
      flapLow := .zero true
      httpPostHandlers := [{ url := "u", headers := Headers.empty.insert "b" "1" }]
      mqttHandlers := [{ topic := "cpu" }] }
    let b : Alert := { a with flapLow := .zero false }
    let c : Chain := ⟨"stream", a.calls⟩
    let d : Chain := ⟨"stream", b.calls⟩
    a.Normal ∧ b.Normal ∧ (a.convert (.identifier "stream")).result = .ok c ∧
      (b.convert (.identifier "stream")).result = .ok d ∧ c == d ∧ a == b := by
  intro a b c d
  have hn : ∀ h ∈ a.handlers, h.Normal := by
    simp [handlers, a, Handler.Normal, Headers.insert, Headers.put, Headers.empty]
  have hna : a.Normal := ⟨by simp [a], by simp [a, Duration.zero], by simp [a], hn⟩
  have hnb : b.Normal := ⟨by simp [a, b], by simp [a, b, Duration.zero], by simp [a, b], hn⟩
  have ha : (a.convert (.identifier "stream")).result = .ok c :=
    convert_ok_iff.2 ⟨⟨by decide, by decide, fun _ => by decide⟩, rfl⟩
  have hb : (b.convert (.identifier "stream")).result = .ok d :=
    convert_ok_iff.2 ⟨⟨by decide, by decide, fun _ => by decide⟩, rfl⟩
  have hcd : c == d := by decide
  exact ⟨hna, hnb, ha, hb, hcd, (convert_injective hna hnb ha hb hcd).1⟩

end Alert

end Tickscript
