/-
  Records of settings: alerts, handlers and the values that go with traps.

  In each of them every field has a default (`Settings.lenient`).  So a text is read as
  what it says of the fields, in whichever order it says that and whatever else it says.

  * `Settings.parse_object`: members in another order, unknown members, members that say
    the default, and members that come a second time.
-/
import Tickscript.Alert.Document
import Tickscript.Proofs.Json.Positions

namespace Tickscript

open Json

/-- The records in which every field has a default. -/
inductive Settings : {σ : Type} → Record σ σ → Prop
  | alert : Settings Alert.record
  | httpPost : Settings Handler.HttpPost.record
  | tcp : Settings Handler.Tcp.record
  | email : Settings Handler.Email.record
  | exec : Settings Handler.Exec.record
  | log : Settings Handler.Log.record
  | victorOps : Settings Handler.VictorOps.record
  | pagerDuty : Settings Handler.PagerDuty.record
  | pushover : Settings Handler.Pushover.record
  | sensu : Settings Handler.Sensu.record
  | slack : Settings Handler.Slack.record
  | telegram : Settings Handler.Telegram.record
  | hipChat : Settings Handler.HipChat.record
  | alerta : Settings Handler.Alerta.record
  | opsGenie : Settings Handler.OpsGenie.record
  | talk : Settings Handler.Talk.record
  | mqtt : Settings Handler.Mqtt.record
  | snmpData : Settings Handler.SnmpData.record
  | snmpTrap : Settings Handler.SnmpTrap.record

namespace Settings

open Handler

variable {σ : Type} {r : Record σ σ}

/-- No two fields of a record of settings have to do with each other, and the written form of each
    default is read as the default. -/
theorem fields_lawful (h : Settings r) : r.fields.Pairwise Field.Apart ∧
    ∀ f ∈ r.fields, ∀ levels, f.Agrees r.blank (levels + 1) (f.write r.blank).document := by
  cases h <;>
    simp only [Alert.record, HttpPost.record, Tcp.record, Email.record, Exec.record, Log.record,
      VictorOps.record, PagerDuty.record, Pushover.record, Sensu.record, Slack.record,
      Telegram.record, HipChat.record, Alerta.record, OpsGenie.record, Talk.record, Mqtt.record,
      SnmpData.record, SnmpTrap.record, Record.defaulted, List.pairwise_cons, List.forall_mem_cons,
      List.not_mem_nil, false_implies, implies_true, and_true, true_and, List.Pairwise.nil]
  -- what is left is one goal for each two fields, and one for each field
  all_goals and_intros <;>
    first
    | exact Field.apart_of fun _ _ _ => rfl
    | exact fun _ => ⟨_, rfl, rfl⟩

theorem lenient (h : Settings r) : r.Lenient where
  defaulted := by cases h <;> rfl
  keys := by cases h <;> decide
  apart := h.fields_lawful.1
  blank := h.fields_lawful.2

/-- A member whose key no field has, and whose value is a value, gives nothing. -/
theorem taken_of_unknown {levels : Nat} {m : Key × Document}
    (hkey : ∃ name, m.1 = .name (some name) ∧ name ∉ r.keys) (hvalue : m.2.Intact) :
    Record.Taken r.fields levels m none := by
  obtain ⟨key, d⟩ := m
  obtain ⟨name, rfl, hname⟩ := hkey
  exact .unknown hname hvalue

section
variable {text : List Char} {members : List (Key × Document)} {a : σ}

theorem parse_of_spells_object (h : Spells text (.object members none)) :
    r.codec.parse text = r.read Reader.maxLevels (.object members none) :=
  Reader.parse_of_spells _ h

/-- **What is read depends on what a text says of the fields, and on nothing else.**  Of a text that
    is accepted, the members may be put into another order and others be put among them that no
    field knows; a member that says the default may be left out, and the written default be put
    in for a field that is missing.  But a field that comes a second time is refused. -/
theorem parse_object (hr : Settings r) (htext : Spells text (.object members none))
    (ha : r.codec.parse text = .ok a) :
    (∀ text' members' extra, (members ++ extra).Perm members' →
      (∀ m ∈ extra, ∃ name, m.1 = .name (some name) ∧ name ∉ r.keys) →
      Spells text' (.object members' none) → r.codec.parse text' = .ok a) ∧
    (∀ text' front back d, ∀ f ∈ r.fields, members = front ++ (.name (some f.key), d) :: back →
      f.Agrees r.blank (Reader.maxLevels - 1) d →
      Spells text' (.object (front ++ back) none) → r.codec.parse text' = .ok a) ∧
    (∀ text' front back, ∀ f ∈ r.fields, members = front ++ back →
      Key.name (some f.key) ∉ members.map Prod.fst →
      Spells text' (.object
        (front ++ (.name (some f.key), (f.write r.blank).document) :: back) none) →
      r.codec.parse text' = .ok a) ∧
    (∀ text' front back d change, ∀ f ∈ r.fields, members = front ++ back →
      Key.name (some f.key) ∈ members.map Prod.fst →
      f.read (Reader.maxLevels - 1) d = .ok change →
      Spells text' (.object (front ++ (.name (some f.key), d) :: back) none) →
      r.codec.parse text' = .error .mismatched) := by
  rw [parse_of_spells_object htext] at ha
  refine ⟨?_, ?_, ?_, ?_⟩
  · intro text' members' extra hperm hextra htext'
    have hvalues : ∀ m ∈ extra, m.2.Intact := fun m hm =>
      (htext'.intact_object m (hperm.subset (List.mem_append_right _ hm))).2
    rw [parse_of_spells_object htext']
    exact Record.read_object_perm hr.lenient.closed hr.lenient.keys ha
      (fun m hm => taken_of_unknown (hextra m hm) (hvalues m hm)) hperm
  · rintro text' front back d f hf rfl hd htext'
    rw [parse_of_spells_object htext']
    exact hr.lenient.read_remove_of_agrees ha hf hd
  · rintro text' front back f hf rfl hnew htext'
    rw [parse_of_spells_object htext']
    exact hr.lenient.read_insert_of_agrees ha hf hnew (hr.lenient.blank f hf _)
  · rintro text' front back d change f hf rfl hold hd htext'
    rw [parse_of_spells_object htext']
    exact hr.lenient.read_repeated ha hf hold hd

end

/-- A log handler whose mode is the default, which can be left out, but not be said twice. -/
theorem parse_object_log :
    let log : Log := { filePath := "a" }
    let mode : String × Json := ("mode", .int 384)
    let path : String × Json := ("filePath", .text "a")
    let parse (members : List (String × Json)) := Log.record.codec.parse (Json.object members).compact
    parse [mode, path] = .ok log ∧
      parse [path, ("colour", .array [.null]), mode] = .ok log ∧
      parse [path] = .ok log ∧
      parse [path, mode] = .ok log ∧
      parse [mode, path, mode] = .error .mismatched := by
  intro log mode path parse
  let modeField : Json.Field Log := .of "mode" .uint32 (·.mode) fun h n => { h with mode := n }
  have hspells (members : List (String × Json)) :
      Spells (Json.object members).compact (.object (memberDocuments members) none) :=
    spells_compact (.object members)
  have hmode : modeField ∈ Log.record.fields := List.mem_cons_of_mem _ List.mem_cons_self
  have hboth : parse [mode, path] = .ok log := (parse_of_spells_object (hspells _)).trans rfl
  have hpath : parse [path] = .ok log := (parse_of_spells_object (hspells _)).trans rfl
  obtain ⟨horder, hless, -, htwice⟩ := parse_object .log (hspells _) hboth
  obtain ⟨-, -, hmore, -⟩ := parse_object .log (hspells _) hpath
  refine ⟨hboth, ?_, ?_, ?_, ?_⟩
  · refine horder _ _ [(.name (some "colour"), .array [.scalar .null] none)] ?_ ?_ (hspells _)
    · exact (List.perm_append_singleton _ _).symm
    · intro m hm
      obtain rfl := List.mem_singleton.1 hm
      exact ⟨"colour", rfl, by decide⟩
  · exact hless _ [] _ _ modeField hmode rfl ⟨_, rfl, rfl⟩ (hspells _)
  · refine hmore _ [_] [] modeField hmode rfl ?_ (hspells _)
    simp [memberDocuments, path, modeField, Json.Field.of]
  · refine htwice _ [_, _] [] _ _ modeField hmode rfl ?_ rfl (hspells _)
    exact List.mem_cons_self

end Settings

end Tickscript
