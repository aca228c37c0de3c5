/-
  The text of an alert determines its calls.

  Every call of an alert is legible but those with an expression, which is
  written as it is and may look like anything.

  * `Handler.legible_calls`, `Alert.legible_outputCalls`: the calls with all other
    settings are legible;
  * `Alert.render_convert_injective`: alerts with the same expressions and the same
    text have the same calls, whatever their strings hold.
-/
import Tickscript.Proofs.Calls
import Tickscript.Proofs.Lines

namespace Tickscript

open Setting

/-! ## Legible settings -/

/-- All of the links are legible. -/
def Legible (ls : List Link) : Prop := ∀ l ∈ ls, l.Legible

/-- The name of a call whose arguments stand in it one by one. -/
def PlainName (n : String) : Prop := '(' ∉ n.toList ∧ n ∉ spreadNames

instance (n : String) : Decidable (PlainName n) := inferInstanceAs (Decidable (_ ∧ _))

/-- The name of a call whose arguments are a list. -/
def SpreadName (n : String) : Prop := '(' ∉ n.toList ∧ n ∈ spreadNames

instance (n : String) : Decidable (SpreadName n) := inferInstanceAs (Decidable (_ ∧ _))

@[simp] theorem legible_append {ls ms : List Link} :
    Legible (ls ++ ms) ↔ Legible ls ∧ Legible ms := by
  simp [Legible, or_imp, forall_and]

theorem legible_flatMap {α : Type} {f : α → List Link} (h : ∀ x, Legible (f x)) (xs : List α) :
    Legible (xs.flatMap f) := by
  intro l hl
  obtain ⟨x, -, hx⟩ := List.mem_flatMap.1 hl
  exact h x l hx

section
variable {n : String}

theorem legible_when {p : Prop} [Decidable p] {args : List Literal} (hn : PlainName n)
    (hargs : p → ∀ l ∈ args, l.IsAtom) : Legible (when p n args) := by
  intro l hl
  by_cases hp : p
  · rw [when, if_pos hp, List.mem_singleton] at hl
    subst hl
    exact ⟨hn.1, args, hargs hp, (if_neg hn.2).symm⟩
  · simp [when, hp] at hl

@[simp] theorem legible_text (hn : PlainName n) (s : String) : Legible (text n s) :=
  legible_when hn fun _ => by simp [Literal.IsAtom.text]

theorem legible_word (hn : PlainName n) {p : Prop} [Decidable p] {l : Literal} (hl : l.IsWord) :
    Legible (when p n [l]) := legible_when hn fun _ => by simp [Literal.IsAtom.word hl]

@[simp] theorem legible_number (hn : PlainName n) (k : Nat) : Legible (number n k) :=
  legible_word hn (.int ..)

@[simp] theorem legible_flag (hn : PlainName n) (b : Bool) : Legible (flag n b) :=
  legible_when hn fun _ => by simp

@[simp] theorem legible_opening (hn : PlainName n) : Legible (opening n) :=
  legible_when hn fun _ => by simp

@[simp] theorem legible_texts (hn : SpreadName n) (ss : List String) : Legible (texts n ss) := by
  intro l hl
  by_cases hs : ss = []
  · simp [texts, when, hs] at hl
  · rw [texts, when, if_pos hs, List.mem_singleton] at hl
    subst hl
    refine ⟨hn.1, ss.map .text, ?_, (if_pos hn.2).symm⟩
    intro l hl
    obtain ⟨s, -, rfl⟩ := List.mem_map.1 hl
    exact .text s

end

@[simp] theorem legible_headerCalls (es : List (String × String)) :
    Legible (es.flatMap Handler.headerCalls) :=
  legible_flatMap (fun _ => legible_when (by decide) fun _ => by simp [Literal.IsAtom.text]) es

@[simp] theorem legible_dataCalls (ds : List Handler.SnmpData) :
    Legible (ds.flatMap Handler.SnmpData.calls) :=
  legible_flatMap (fun _ => legible_when (by decide) fun _ => by simp [Literal.IsAtom.text]) ds

/-! ## Legible calls -/

/-- **The calls of a handler are legible.** -/
theorem Handler.legible_calls (h : Handler) : Legible h.calls := by
  cases h with
  | httpPost h => simp +decide [calls, HttpPost.calls]
  | tcp h => simp +decide [calls, Tcp.calls]
  | email h => simp +decide [calls, Email.calls, legible_flatMap]
  | exec h => exact legible_texts (by decide) h.command
  | log h => simp +decide [calls, Log.calls, legible_word, Literal.IsWord.int]
  | victorOps h => simp +decide [calls, VictorOps.calls]
  | pagerDuty h => simp +decide [calls, PagerDuty.calls]
  | pushover h => simp +decide [calls, Pushover.calls]
  | sensu h => simp +decide [calls, Sensu.calls]
  | slack h => simp +decide [calls, Slack.calls]
  | telegram h => simp +decide [calls, Telegram.calls]
  | hipChat h => simp +decide [calls, HipChat.calls]
  | alerta h => simp +decide [calls, Alerta.calls]
  | opsGenie h => simp +decide [calls, OpsGenie.calls]
  | talk h => exact legible_opening (by decide)
  | mqtt h => simp +decide [calls, Mqtt.calls, legible_word, Literal.IsWord.bool]
  | snmpTrap h => simp +decide [calls, SnmpTrap.calls]

namespace Alert

variable {a b : Alert}

theorem legible_handlerCalls (a : Alert) : Legible a.handlerCalls := by
  rw [handlerCalls_eq]
  exact legible_flatMap Handler.legible_calls a.handlers

/-- **The calls behind the conditions are legible**, for the thresholds of flapping are finite. -/
theorem legible_outputCalls (h : a.Encodable) : Legible a.outputCalls := by
  have hstate : Legible (when a.stateChangesOnly "stateChangesOnly"
      (if a.stateChangesOnlyDuration.nanoseconds = 0 then []
        else [.duration (.ofNat a.stateChangesOnlyDuration.nanoseconds)])) := by
    refine legible_when (by decide) fun _ => ?_
    split_ifs
    · simp
    · simp [Literal.IsAtom.word (.duration _)]
  have hflapping : Legible (when a.useFlapping "flapping"
      [.number (.float a.flapLow), .number (.float a.flapHigh)]) := by
    refine legible_when (by decide) fun hu => ?_
    obtain ⟨hl, hh⟩ := h.thresholds hu
    simp [Literal.IsAtom.word (.float hl), Literal.IsAtom.word (.float hh)]
  simp +decide [outputCalls, hstate, hflapping]

/-- The node and what the events say. -/
def firstCalls (a : Alert) : List Link := ⟨.pipe, ⟨"alert", []⟩⟩ :: a.eventCalls

theorem calls_eq_around (a : Alert) :
    a.calls = a.firstCalls ++ a.conditionCalls ++ (a.outputCalls ++ a.handlerCalls) := by
  simp [calls, firstCalls]

/-- The names of the conditions. -/
def conditionNames : List String := ["info", "warn", "crit", "infoReset", "warnReset", "critReset"]

theorem name_mem_conditionNames {l : Link} (h : l ∈ a.conditionCalls) :
    l.call.name ∈ conditionNames := by
  have hexp : ∀ {n : String} {e : Option String}, l ∈ expression n e → l.call.name = n := by
    intro n e he
    cases e with
    | none => cases he
    | some e =>
      by_cases h0 : e = ""
      · simp [expression, when, h0] at he
      · rw [expression, when, if_pos h0, List.mem_singleton] at he
        rw [he]
  simp only [conditionCalls, List.mem_append] at h
  rcases h with ((((h | h) | h) | h) | h) | h <;> rw [hexp h] <;> decide

theorem bracket_notMem_conditionNames : ∀ n ∈ conditionNames, '(' ∉ n.toList := by decide

theorem name_mem_firstCalls {l : Link} (h : l ∈ a.firstCalls) :
    l.call.name ∈ ["alert", "topic", "id", "message", "details"] := by
  have htext : ∀ {n s : String}, l ∈ text n s → l.call.name = n := by
    intro n s hs
    by_cases h0 : s = ""
    · simp [text, when, h0] at hs
    · rw [text, when, if_pos h0, List.mem_singleton] at hs
      rw [hs]
  rw [firstCalls, List.mem_cons] at h
  rcases h with rfl | h
  · decide
  simp only [eventCalls, List.mem_append] at h
  rcases h with ((h | h) | h) | h <;> rw [htext h] <;> decide

/-- The calls in front of the conditions are apart from these. -/
theorem apart_firstCalls {l : Link} (h : l ∈ a.firstCalls) : Chain.Apart b.conditionCalls l := by
  have hlegible : Legible a.firstCalls := by
    have halert : Link.Legible ⟨.pipe, ⟨"alert", []⟩⟩ := ⟨by decide, [], by simp, by decide⟩
    have hevents : Legible a.eventCalls := by simp +decide [eventCalls]
    intro l hl
    rcases List.mem_cons.1 hl with rfl | hl
    · exact halert
    · exact hevents l hl
  refine ⟨hlegible l h, fun m hm heq => ?_⟩
  have hnames : ∀ n ∈ ["alert", "topic", "id", "message", "details"], n ∉ conditionNames := by decide
  exact hnames _ (name_mem_firstCalls h) (heq ▸ name_mem_conditionNames hm)

/-- **The text of an alert determines its calls**, down to the signs of zeros, if the expressions
    are given: whatever the other strings hold, none of them passes for a call. -/
theorem render_convert_injective {name : String} {c d : Chain} (hinfo : a.info = b.info)
    (hwarn : a.warn = b.warn) (hcrit : a.crit = b.crit) (hinfoReset : a.infoReset = b.infoReset)
    (hwarnReset : a.warnReset = b.warnReset) (hcritReset : a.critReset = b.critReset)
    (ha : (a.convert (.identifier name)).result = .ok c)
    (hb : (b.convert (.identifier name)).result = .ok d) (h : c.render = d.render) : c = d := by
  obtain ⟨hea, rfl⟩ := convert_ok_iff.1 ha
  obtain ⟨heb, rfl⟩ := convert_ok_iff.1 hb
  have hconditions : a.conditionCalls = b.conditionCalls := by
    simp only [conditionCalls, hinfo, hwarn, hcrit, hinfoReset, hwarnReset, hcritReset]
  have hlines : Chain.renderLinks false a.calls = Chain.renderLinks false b.calls :=
    List.cons_injective (List.append_cancel_left h)
  have hrest : ∀ {e : Alert}, e.Encodable → Legible (e.outputCalls ++ e.handlerCalls) := by
    intro e he
    exact legible_append.2 ⟨legible_outputCalls he, legible_handlerCalls e⟩
  have hcalls : a.calls = b.calls := by
    rw [calls_eq_around, calls_eq_around b, ← hconditions] at hlines ⊢
    refine Chain.renderLinks_around_injective ?_ (hrest hea) (hrest heb)
      (fun _ hl => apart_firstCalls hl) (fun _ hl => apart_firstCalls hl) hlines
    exact fun m hm => bracket_notMem_conditionNames _ (name_mem_conditionNames hm)
  rw [hcalls]

/-- A message that looks like the end of its literal and another call, in front of an expression.
    A program without a name leaves no trace. -/
theorem render_convert_injective_message :
    let a : Alert := { message := "it's \\ over')\n    .topic('x", warn := some "TRUE)\n" }
    let b : Alert := { a with execHandlers := [{}] }
    let c : Chain := ⟨"stream", a.calls⟩
    let d : Chain := ⟨"stream", b.calls⟩
    (a.convert (.identifier "stream")).result = .ok c ∧
      (b.convert (.identifier "stream")).result = .ok d ∧ c.render = d.render ∧ c = d := by
  intro a b c d
  have ha : (a.convert (.identifier "stream")).result = .ok c :=
    convert_ok_iff.2 ⟨⟨by decide, by decide, by decide⟩, rfl⟩
  have hb : (b.convert (.identifier "stream")).result = .ok d :=
    convert_ok_iff.2 ⟨⟨by decide, by decide, by decide⟩, rfl⟩
  have hhandlers : a.handlerCalls = b.handlerCalls := rfl
  have h : c.render = d.render := by
    simp only [c, d, calls, hhandlers]
    rfl
  have heq : c = d :=
    render_convert_injective (a := a) (b := b) rfl rfl rfl rfl rfl rfl ha hb h
  exact ⟨ha, hb, h, heq⟩

end Alert

end Tickscript
