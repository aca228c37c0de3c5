/-
  The calls of an alert, read off its settings.

  `Alert.calls` is the list of links that an alert stands for, written down
  setting by setting: no steps, no builder, and no zero test but the one that the
  setting itself calls for.

  * `Handler.links_steps`, `Alert.links_steps`: the steps of a handler and of an
    alert add exactly these links;
  * `Alert.convert_links`: a conversion that succeeds puts them behind the links
    of the parent.
-/
import Mathlib.Algebra.Order.Ring.Nat
import Tickscript.Proofs.Run

namespace Tickscript

/-! ## Calls of single settings -/

namespace Setting

/-- A property that is there on condition. -/
def when (p : Prop) [Decidable p] (name : String) (args : List Literal) : List Link :=
  if p then [⟨.dot, ⟨name, args⟩⟩] else []

/-- A property without arguments. -/
def opening (name : String) : List Link := when True name []

/-- A property without arguments, if the flag is set. -/
def flag (name : String) (b : Bool) : List Link := when b name []

/-- A text that is not empty. -/
def text (name s : String) : List Link := when (s ≠ "") name [.text s]

/-- A list that is not empty, as one argument. -/
def texts (name : String) (ss : List String) : List Link :=
  when (ss ≠ []) name [.list (ss.map .text)]

/-- A number that is not zero. -/
def number (name : String) (n : Nat) : List Link :=
  when (n ≠ 0) name [.number (.int (.ofNat n) .decimal)]

/-- An expression that is there and not empty. -/
def expression (name : String) : Option String → List Link
  | none => []
  | some e => when (e ≠ "") name [.lambda e]

end Setting

open Setting

/-! ## Calls of handlers -/

namespace Handler

/-- A header with a name and a value. -/
def headerCalls (e : String × String) : List Link :=
  when (e.1 ≠ "" ∧ e.2 ≠ "") "header" [.text e.1, .text e.2]

def HttpPost.calls (h : HttpPost) : List Link :=
  text "post" h.url ++ text "endpoint" h.endpoint ++ h.headers.entries.flatMap headerCalls

def Tcp.calls (h : Tcp) : List Link := opening "tcp" ++ text "address" h.address

def Email.calls (h : Email) : List Link := opening "email" ++ h.toList.flatMap (text "to")

def Exec.calls (h : Exec) : List Link := texts "exec" h.command

def Log.calls (h : Log) : List Link :=
  text "log" h.filePath ++ when True "mode" [.number (.int (.ofNat h.mode.toNat) .octal)]

def VictorOps.calls (h : VictorOps) : List Link :=
  opening "victorOps" ++ text "routingKey" h.routingKey

def PagerDuty.calls (h : PagerDuty) : List Link :=
  opening "pagerDuty" ++ text "serviceKey" h.serviceKey

def Pushover.calls (h : Pushover) : List Link :=
  opening "pushover" ++ text "userKey" h.userKey ++ text "device" h.device
    ++ text "title" h.title ++ text "url" h.url ++ text "urlTitle" h.urlTitle
    ++ text "sound" h.sound

def Sensu.calls (h : Sensu) : List Link :=
  opening "sensu" ++ text "source" h.source ++ texts "handlers" h.handlersList

def Slack.calls (h : Slack) : List Link :=
  opening "slack" ++ text "channel" h.channel ++ text "username" h.username
    ++ text "iconEmoji" h.iconEmoji

def Telegram.calls (h : Telegram) : List Link :=
  opening "telegram" ++ text "chatId" h.chatId ++ text "parseMode" h.parseMode
    ++ flag "disableWebPagePreview" h.disableWebPagePreview
    ++ flag "disableNotification" h.disableNotification

def HipChat.calls (h : HipChat) : List Link :=
  opening "hipChat" ++ text "room" h.room ++ text "token" h.token

def Alerta.calls (h : Alerta) : List Link :=
  opening "alerta" ++ text "token" h.token ++ text "resource" h.resource ++ text "event" h.event
    ++ text "environment" h.environment ++ text "group" h.group ++ text "value" h.value
    ++ text "origin" h.origin ++ texts "services" h.services

def OpsGenie.calls (h : OpsGenie) : List Link :=
  opening "opsGenie" ++ texts "teams" h.teamsList ++ texts "recipients" h.recipientsList

def Talk.calls (_ : Talk) : List Link := opening "talk"

def Mqtt.calls (h : Mqtt) : List Link :=
  opening "mqtt" ++ text "brokerName" h.brokerName ++ text "topic" h.topic
    ++ number "qos" h.qos.toNat ++ when h.retained "retained" [.bool true]

/-- A value of a trap, if none of its parts is empty. -/
def SnmpData.calls (d : SnmpData) : List Link :=
  when (d.oid ≠ "" ∧ d.kind ≠ "" ∧ d.value ≠ "") "data" [.text d.oid, .text d.kind, .text d.value]

def SnmpTrap.calls (h : SnmpTrap) : List Link :=
  text "snmpTrap" h.trapOid ++ h.dataList.flatMap SnmpData.calls

/-- The calls of a handler of any kind. -/
def calls : Handler → List Link
  | httpPost h => h.calls
  | tcp h => h.calls
  | email h => h.calls
  | exec h => h.calls
  | log h => h.calls
  | victorOps h => h.calls
  | pagerDuty h => h.calls
  | pushover h => h.calls
  | sensu h => h.calls
  | slack h => h.calls
  | telegram h => h.calls
  | hipChat h => h.calls
  | alerta h => h.calls
  | opsGenie h => h.calls
  | talk h => h.calls
  | mqtt h => h.calls
  | snmpTrap h => h.calls

end Handler

/-! ## Calls of alerts -/

namespace Alert

/-- What the events say, and where they are published. -/
def eventCalls (a : Alert) : List Link :=
  text "topic" a.topic ++ text "id" a.id ++ text "message" a.message ++ text "details" a.details

/-- When the levels are reached and left. -/
def conditionCalls (a : Alert) : List Link :=
  expression "info" a.info ++ expression "warn" a.warn ++ expression "crit" a.crit
    ++ expression "infoReset" a.infoReset ++ expression "warnReset" a.warnReset
    ++ expression "critReset" a.critReset

/-- Which events are sent, and with which tags and fields. -/
def outputCalls (a : Alert) : List Link :=
  number "history" a.history.toNat ++ text "levelTag" a.levelTag ++ text "levelField" a.levelField
    ++ text "messageField" a.messageField ++ text "durationField" a.durationField
    ++ text "idTag" a.idTag ++ text "idField" a.idField
    ++ flag "all" a.all ++ flag "noRecoveries" a.noRecoveries
    ++ when a.stateChangesOnly "stateChangesOnly"
      (if a.stateChangesOnlyDuration.nanoseconds = 0 then []
        else [.duration (.ofNat a.stateChangesOnlyDuration.nanoseconds)])
    ++ when a.useFlapping "flapping" [.number (.float a.flapLow), .number (.float a.flapHigh)]

/-- The calls of all handlers, kind by kind. -/
def handlerCalls (a : Alert) : List Link :=
  a.httpPostHandlers.flatMap (·.calls) ++ a.tcpHandlers.flatMap (·.calls)
    ++ a.emailHandlers.flatMap (·.calls) ++ a.execHandlers.flatMap (·.calls)
    ++ a.logHandlers.flatMap (·.calls) ++ a.victorOpsHandlers.flatMap (·.calls)
    ++ a.pagerDutyHandlers.flatMap (·.calls) ++ a.pushoverHandlers.flatMap (·.calls)
    ++ a.sensuHandlers.flatMap (·.calls) ++ a.slackHandlers.flatMap (·.calls)
    ++ a.telegramHandlers.flatMap (·.calls) ++ a.hipChatHandlers.flatMap (·.calls)
    ++ a.alertaHandlers.flatMap (·.calls) ++ a.opsGenieHandlers.flatMap (·.calls)
    ++ a.talkHandlers.flatMap (·.calls) ++ a.mqttHandlers.flatMap (·.calls)
    ++ a.snmpTrapHandlers.flatMap (·.calls)

/-- All calls of an alert. -/
def calls (a : Alert) : List Link :=
  ⟨.pipe, ⟨"alert", []⟩⟩ :: (a.eventCalls ++ a.conditionCalls ++ a.outputCalls ++ a.handlerCalls)

end Alert

/-! ## The links that steps add -/

namespace Step

variable {name : String} {args : List Argument} {literals : List Literal}

theorem failure_dot (h : Argument.encodeAll args = .ok literals) :
    (Step.dot name args).failure = none := by
  unfold failure
  simp only [attempt, Attempt.property?]
  split
  · rfl
  · next a ha =>
    split at ha
    · simp at ha
    · cases ha
      simp [Attempt.encode, h, Except.map]

theorem failure_dot_of_error {cause : LiteralError} (hz : args.any Argument.isZero = false)
    (h : Argument.encodeAll args = .error cause) :
    (Step.dot name args).failure = some ⟨name, cause⟩ := by
  simp [failure, attempt, Attempt.property?, hz, Attempt.encode, h, Except.map]

theorem links_dot {p : Prop} [Decidable p] (h : Argument.encodeAll args = .ok literals)
    (hp : args.any Argument.isZero = false ↔ p) :
    (Step.dot name args).links = when p name literals := by
  simp only [links, attempt, Attempt.property?, when]
  by_cases hz : args.any Argument.isZero
  · rw [if_pos hz, if_neg fun hq => by simp [hp.2 hq] at hz]
    rfl
  · rw [if_neg hz, if_pos (hp.1 (by simpa using hz))]
    simp [Attempt.encode, h, Except.map]

end Step

open Handler (property header)

@[simp] theorem property_failure (name s : String) : (property name s).failure = none :=
  Step.failure_dot rfl

@[simp] theorem property_links (name s : String) : (property name s).links = text name s :=
  Step.links_dot rfl (by simp [Argument.isZero])

@[simp] theorem opening_failure (name : String) : (Step.dot name []).failure = none :=
  Step.failure_dot rfl

@[simp] theorem opening_links (name : String) : (Step.dot name []).links = opening name :=
  Step.links_dot rfl (by simp)

@[simp] theorem texts_failure (name : String) (ss : List String) :
    (Step.dot name [.list ss]).failure = none := Step.failure_dot rfl

@[simp] theorem texts_links (name : String) (ss : List String) :
    (Step.dot name [.list ss]).links = texts name ss :=
  Step.links_dot rfl (by simp [Argument.isZero])

@[simp] theorem flag_failure (name : String) (b : Bool) :
    (Step.dotIf name b []).failure = none := by cases b <;> rfl

@[simp] theorem flag_links (name : String) (b : Bool) :
    (Step.dotIf name b []).links = flag name b := by cases b <;> rfl

@[simp] theorem bool_failure (name : String) (b : Bool) :
    (Step.dot name [.bool b]).failure = none := Step.failure_dot rfl

@[simp] theorem bool_links (name : String) (b : Bool) :
    (Step.dot name [.bool b]).links = when b name [.bool true] := by cases b <;> rfl

@[simp] theorem header_failure (e : String × String) : (header e).failure = none :=
  Step.failure_dot rfl

@[simp] theorem header_links (e : String × String) :
    (header e).links = Handler.headerCalls e :=
  Step.links_dot rfl (by simp [Argument.isZero])

@[simp] theorem data_failure (d : Handler.SnmpData) : d.step.failure = none :=
  Step.failure_dot rfl

@[simp] theorem data_links (d : Handler.SnmpData) :
    d.step.links = d.calls :=
  Step.links_dot rfl (by simp [Argument.isZero])

@[simp] theorem expression_failure (name : String) (e : Option String) :
    (Alert.condition name e).failure = none := by
  cases e with
  | none => rfl
  | some e => exact Step.failure_dot rfl

@[simp] theorem expression_links (name : String) (e : Option String) :
    (Alert.condition name e).links = expression name e := by
  cases e with
  | none => rfl
  | some e => exact Step.links_dot rfl (by simp [Argument.isZero])

theorem ofNat_inj {m n : Nat} (hm : m < 2 ^ 63) (hn : n < 2 ^ 63) :
    Int64.ofNat m = Int64.ofNat n ↔ m = n := by
  rw [← Int64.toInt_inj, Int64.toInt_ofNat_of_lt hm, Int64.toInt_ofNat_of_lt hn, Int.ofNat_inj]

theorem ofNat_eq_zero_iff {n : Nat} (h : n < 2 ^ 63) : Int64.ofNat n = 0 ↔ n = 0 :=
  ofNat_inj h (by decide)

theorem byte_lt (n : UInt8) : n.toNat < 2 ^ 63 := Nat.lt_trans n.toNat_lt (by decide)

theorem mode_lt (n : UInt32) : n.toNat < 2 ^ 63 := Nat.lt_trans n.toNat_lt (by decide)

@[simp] theorem byte_failure (name : String) (n : UInt8) :
    (Step.dot name [.int (.ofNat n.toNat)]).failure = none := Step.failure_dot rfl

@[simp] theorem byte_links (name : String) (n : UInt8) :
    (Step.dot name [.int (.ofNat n.toNat)]).links = number name n.toNat :=
  Step.links_dot rfl (by simp [Argument.isZero, ofNat_eq_zero_iff (byte_lt n)])

theorem encode_octal {n : Nat} (h : n < 2 ^ 63) :
    Argument.encodeAll [.number (.int (.ofNat n) .octal)] =
      .ok [.number (.int (.ofNat n) .octal)] := by
  have hn : ¬ Int64.ofNat n < 0 := by
    rw [Int64.lt_iff_toInt_lt, Int64.toInt_ofNat_of_lt h]
    simp
  simp only [Argument.encodeAll, Argument.encode, hn, and_false, ↓reduceIte]
  rfl

@[simp] theorem mode_failure (name : String) (n : UInt32) :
    (Step.dot name [.number (.int (.ofNat n.toNat) .octal)]).failure = none :=
  Step.failure_dot (encode_octal (mode_lt n))

@[simp] theorem mode_links (name : String) (n : UInt32) :
    (Step.dot name [.number (.int (.ofNat n.toNat) .octal)]).links =
      when True name [.number (.int (.ofNat n.toNat) .octal)] :=
  Step.links_dot (encode_octal (mode_lt n)) (by simp [Argument.isZero])

namespace Handler

/-- No handler makes a conversion fail. -/
theorem failure_steps (h : Handler) : ∀ s ∈ h.steps, s.failure = none := by
  cases h with
  | httpPost h =>
    simp only [steps, List.mem_append, List.mem_cons, List.mem_map, List.not_mem_nil, or_false]
    rintro s ((rfl | rfl) | ⟨e, -, rfl⟩) <;> simp
  | _ => simp [steps, or_imp, forall_and]

/-- **The steps of a handler add its calls.** -/
theorem links_steps (h : Handler) : h.steps.flatMap Step.links = h.calls := by
  cases h with
  | httpPost h => simp [steps, method, calls, HttpPost.calls, List.flatMap_map]
  | tcp h => simp [steps, method, calls, Tcp.calls]
  | email h => simp [steps, method, calls, Email.calls, List.flatMap_map]
  | exec h => simp [steps, method, calls, Exec.calls]
  | log h => simp [steps, method, calls, Log.calls]
  | victorOps h => simp [steps, method, calls, VictorOps.calls]
  | pagerDuty h => simp [steps, method, calls, PagerDuty.calls]
  | pushover h => simp [steps, method, calls, Pushover.calls]
  | sensu h => simp [steps, method, calls, Sensu.calls]
  | slack h => simp [steps, method, calls, Slack.calls]
  | telegram h => simp [steps, method, calls, Telegram.calls]
  | hipChat h => simp [steps, method, calls, HipChat.calls]
  | alerta h => simp [steps, method, calls, Alerta.calls]
  | opsGenie h => simp [steps, method, calls, OpsGenie.calls]
  | talk h => simp [steps, method, calls, Talk.calls]
  | mqtt h => simp [steps, method, calls, Mqtt.calls]
  | snmpTrap h => simp [steps, method, calls, SnmpTrap.calls, List.flatMap_map]

end Handler

namespace Alert

theorem handlerCalls_eq (a : Alert) : a.handlerCalls = a.handlers.flatMap Handler.calls := by
  unfold handlerCalls handlers
  simp [List.flatMap_map, Handler.calls]

theorem links_handlers (a : Alert) :
    (a.handlers.flatMap Handler.steps).flatMap Step.links = a.handlerCalls := by
  simp only [List.flatMap_assoc, handlerCalls_eq, Handler.links_steps]

theorem encode_history {n : UInt64} (h : n.toNat < 2 ^ 63) :
    Argument.encodeAll [.uint n] = .ok [.number (.int (.ofNat n.toNat) .decimal)] := by
  have h' : n.toNat < Nat.pow 2 63 := h
  simp only [Argument.encodeAll, Argument.encode, if_pos h']
  rfl

theorem encode_history_overflow {n : UInt64} (h : ¬ n.toNat < 2 ^ 63) :
    Argument.encodeAll [.uint n] = .error (.integerOverflow n) := by
  have h' : ¬ n.toNat < Nat.pow 2 63 := h
  simp only [Argument.encodeAll, Argument.encode, if_neg h']
  rfl

/-- What can go wrong with the number of former states. -/
theorem history_failure (n : UInt64) : (Step.dot "history" [.uint n]).failure =
    if n.toNat < 2 ^ 63 then none else some ⟨"history", .integerOverflow n⟩ := by
  by_cases h : n.toNat < 2 ^ 63
  · rw [if_pos h]
    exact Step.failure_dot (encode_history h)
  · have hz : n ≠ 0 := by
      rintro rfl
      simp at h
    rw [if_neg h]
    exact Step.failure_dot_of_error (by simp [Argument.isZero, hz]) (encode_history_overflow h)

theorem history_links {n : UInt64} (h : n.toNat < 2 ^ 63) :
    (Step.dot "history" [.uint n]).links = number "history" n.toNat :=
  Step.links_dot (encode_history h) (by simp [Argument.isZero, ← UInt64.toNat_inj])

theorem encode_duration {d : Duration} (h : d.nanoseconds < 2 ^ 63) :
    Argument.encodeAll [.duration d] = .ok [.duration (.ofNat d.nanoseconds)] := by
  have h' : d.nanoseconds < Nat.pow 2 63 := h
  simp only [Argument.encodeAll, Argument.encode, if_pos h']
  rfl

theorem encode_duration_overflow {d : Duration} (h : ¬ d.nanoseconds < 2 ^ 63) :
    Argument.encodeAll [.duration d] = .error (.durationOverflow d.seconds) := by
  have h' : ¬ d.nanoseconds < Nat.pow 2 63 := h
  simp only [Argument.encodeAll, Argument.encode, if_neg h']
  rfl

/-- What can go wrong with the duration of an unchanged state. -/
theorem firstFailure_stateSteps (a : Alert) : Step.firstFailure a.stateSteps =
    if a.stateChangesOnly ∧ 2 ^ 63 ≤ a.stateChangesOnlyDuration.nanoseconds then
      some ⟨"stateChangesOnly", .durationOverflow a.stateChangesOnlyDuration.seconds⟩
    else none := by
  unfold stateSteps
  by_cases hs : a.stateChangesOnly
  · rw [if_pos hs]
    by_cases h0 : a.stateChangesOnlyDuration.nanoseconds = 0
    · have hlt : ¬ (a.stateChangesOnly ∧ 2 ^ 63 ≤ a.stateChangesOnlyDuration.nanoseconds) := by omega
      rw [if_pos h0, if_neg hlt, Step.firstFailure_cons, opening_failure, Step.firstFailure_nil,
        Option.none_or]
    · rw [if_neg h0, Step.firstFailure_cons, Step.firstFailure_nil, Option.or_none]
      by_cases h : a.stateChangesOnlyDuration.nanoseconds < 2 ^ 63
      · rw [if_neg fun hd => Nat.not_le.2 h hd.2]
        exact Step.failure_dot (encode_duration h)
      · rw [if_pos ⟨hs, Nat.le_of_not_lt h⟩]
        exact Step.failure_dot_of_error (by simp [Argument.isZero, h0]) (encode_duration_overflow h)
  · rw [if_neg hs, if_neg fun hd => hs hd.1, Step.firstFailure_nil]

theorem links_stateSteps {a : Alert}
    (h : a.stateChangesOnly → a.stateChangesOnlyDuration.nanoseconds < 2 ^ 63) :
    a.stateSteps.flatMap Step.links =
      when a.stateChangesOnly "stateChangesOnly"
        (if a.stateChangesOnlyDuration.nanoseconds = 0 then []
          else [.duration (.ofNat a.stateChangesOnlyDuration.nanoseconds)]) := by
  unfold stateSteps
  by_cases hs : a.stateChangesOnly
  · by_cases h0 : a.stateChangesOnlyDuration.nanoseconds = 0
    · simp [hs, h0, opening, when]
    · have hl : (Step.dot "stateChangesOnly" [.duration a.stateChangesOnlyDuration]).links = _ :=
        Step.links_dot (p := True) (encode_duration (h hs)) (by simp [Argument.isZero, h0])
      simp [hs, h0, hl, when]
  · simp [hs, when]

/-- The failure of a threshold. -/
def thresholdFailure (x : Binary64) : Option BuildError :=
  if x.isFinite then none else some ⟨"flapping", .nonFiniteFloat x⟩

/-- What can go wrong with the thresholds of flapping. -/
theorem firstFailure_flappingSteps (a : Alert) : Step.firstFailure a.flappingSteps =
    if a.useFlapping then (thresholdFailure a.flapLow).or (thresholdFailure a.flapHigh)
    else none := by
  unfold flappingSteps thresholdFailure
  by_cases hu : a.useFlapping
  · by_cases hl : a.flapLow.isFinite <;> by_cases hh : a.flapHigh.isFinite <;>
    · simp only [hu, ↓reduceIte, Step.firstFailure_cons, Step.failure, Step.attempt,
        Attempt.encode, Argument.encodeAll, Argument.encode, Argument.encodeFloat, hl, hh]
      rfl
  · simp [hu]

theorem links_flappingSteps {a : Alert}
    (h : a.useFlapping → a.flapLow.isFinite ∧ a.flapHigh.isFinite) :
    a.flappingSteps.flatMap Step.links =
      when a.useFlapping "flapping" [.number (.float a.flapLow), .number (.float a.flapHigh)] := by
  unfold flappingSteps
  by_cases hu : a.useFlapping
  · obtain ⟨hl, hh⟩ := h hu
    simp only [hu, ↓reduceIte, List.flatMap_cons, List.flatMap_nil, Step.links, Step.attempt,
      Option.map_some, Attempt.encode, Argument.encodeAll, Argument.encode, Argument.encodeFloat,
      hl, hh, when]
    rfl
  · simp [hu, when]

/-- No setting but the number of former states makes a conversion fail. -/
theorem firstFailure_propertySteps (a : Alert) : Step.firstFailure a.propertySteps =
    if a.history.toNat < 2 ^ 63 then none else some ⟨"history", .integerOverflow a.history⟩ := by
  simp [propertySteps, Step.firstFailure_cons, history_failure]

theorem links_propertySteps {a : Alert} (h : a.history.toNat < 2 ^ 63) :
    a.propertySteps.flatMap Step.links = a.eventCalls ++ a.conditionCalls ++
      (number "history" a.history.toNat ++ text "levelTag" a.levelTag
        ++ text "levelField" a.levelField ++ text "messageField" a.messageField
        ++ text "durationField" a.durationField ++ text "idTag" a.idTag
        ++ text "idField" a.idField ++ flag "all" a.all ++ flag "noRecoveries" a.noRecoveries) := by
  simp [propertySteps, history_links h, eventCalls, conditionCalls]

/-- What can go wrong with an alert: the first of three settings that no literal can hold. -/
theorem firstFailure_steps (a : Alert) : Step.firstFailure a.steps =
    ((Step.firstFailure a.propertySteps).or (Step.firstFailure a.stateSteps)).or
      (Step.firstFailure a.flappingSteps) := by
  have hp : (Step.pipe "alert" []).failure = none := rfl
  have hh : Step.firstFailure (a.handlers.flatMap Handler.steps) = none := by
    refine Step.firstFailure_eq_none ?_
    intro s hs
    obtain ⟨h, -, hs⟩ := List.mem_flatMap.1 hs
    exact h.failure_steps s hs
  simp only [steps, Step.firstFailure_append, Step.firstFailure_cons, hp, hh, Option.none_or,
    Option.or_none]

/-- Every value that the alert makes use of has a literal. -/
structure Encodable (a : Alert) : Prop where
  history : a.history.toNat < 2 ^ 63
  duration : a.stateChangesOnly → a.stateChangesOnlyDuration.nanoseconds < 2 ^ 63
  thresholds : a.useFlapping → a.flapLow.isFinite ∧ a.flapHigh.isFinite

theorem thresholdFailure_eq_none {x : Binary64} : thresholdFailure x = none ↔ x.isFinite := by
  cases h : x.isFinite <;> simp [thresholdFailure, h]

theorem firstFailure_steps_eq_none {a : Alert} :
    Step.firstFailure a.steps = none ↔ a.Encodable := by
  rw [firstFailure_steps, firstFailure_propertySteps, firstFailure_stateSteps,
    firstFailure_flappingSteps]
  constructor
  · intro h
    simp only [Option.or_eq_none_iff, ite_eq_left_iff, ite_eq_right_iff, reduceCtorEq, imp_false,
      not_not, not_and, Nat.not_le, thresholdFailure_eq_none] at h
    exact ⟨h.1.1, h.1.2, h.2⟩
  · rintro ⟨hh, hd, ht⟩
    simp only [Option.or_eq_none_iff, ite_eq_left_iff, ite_eq_right_iff, reduceCtorEq, imp_false,
      not_not, not_and, Nat.not_le, thresholdFailure_eq_none]
    exact ⟨⟨hh, hd⟩, ht⟩

/-- **The steps of an alert add its calls.** -/
theorem links_steps {a : Alert} (h : a.Encodable) : a.steps.flatMap Step.links = a.calls := by
  have hp : (Step.pipe "alert" []).links = [⟨.pipe, ⟨"alert", []⟩⟩] := rfl
  simp only [steps, calls, outputCalls, List.flatMap_append, List.flatMap_cons, hp,
    links_propertySteps h.history, links_stateSteps h.duration, links_flappingSteps h.thresholds,
    links_handlers, List.append_assoc, List.cons_append, List.nil_append]

theorem convert_ok_iff {parent c : Chain} {a : Alert} :
    (a.convert parent).result = .ok c ↔
      a.Encodable ∧ c = ⟨parent.root, parent.links ++ a.calls⟩ := by
  rw [convert_eq_ok_iff, firstFailure_steps_eq_none]
  exact and_congr_right fun h => by rw [links_steps h]

/-- **The chain of an alert is its parent with the calls of the alert behind it.**  The numbers
    among the calls are the ones of the alert, for both are within the range of literals. -/
theorem convert_links {parent c : Chain} {a : Alert} (h : (a.convert parent).result = .ok c) :
    c.root = parent.root ∧ c.links = parent.links ++ a.calls ∧ a.history.toNat < 2 ^ 63 ∧
      (a.stateChangesOnly → a.stateChangesOnlyDuration.nanoseconds < 2 ^ 63) := by
  obtain ⟨he, rfl⟩ := convert_ok_iff.1 h
  exact ⟨rfl, rfl, he.history, he.duration⟩

/-- An alert with an empty list and a zero among its settings, on top of a chain with calls of
    its own. -/
theorem convert_links_mqtt :
    let parent : Chain := ⟨"stream", [⟨.pipe, ⟨"from", []⟩⟩]⟩
    let a : Alert := {
      topic := "cpu"
      stateChangesOnly := true
      useFlapping := true
      execHandlers := [{}]
      mqttHandlers := [{ topic := "t", qos := 1 }] }
    let c : Chain := ⟨"stream", parent.links ++ a.calls⟩
    (a.convert parent).result = .ok c ∧ c.root = "stream" ∧
      c.callNames = ["from", "alert", "topic", "stateChangesOnly", "flapping", "mqtt", "topic", "qos"] := by
  intro parent a c
  have h : (a.convert parent).result = .ok c :=
    convert_ok_iff.2 ⟨⟨by decide, fun _ => by decide, fun _ => by decide⟩, rfl⟩
  exact ⟨h, (convert_links h).1, by decide⟩

end Alert

end Tickscript
