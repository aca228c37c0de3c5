/-
  Alerts in documents and back.

  What is written for an alert with finite thresholds is read as the same alert, and
  whatever is read has finite thresholds.

  * `Duration.faithful`: durations, put together from seconds and nanoseconds;
  * `Alert.faithful`, `Alert.depth_codec_le`: alerts are recovered, and are nowhere near
    the levels that a reader goes down;
  * `Alert.finite_of_read`: whatever is read, the thresholds are finite;
  * `Alert.parse_print_stable`: so writing and reading again changes nothing.
-/
import Tickscript.Alert.Document
import Tickscript.Proofs.Documents.Handler

namespace Tickscript

open Json (Codec Field Reader Record)

/-! ## Durations -/

namespace Duration

theorem ofParts?_parts (d : Duration) :
    ofParts? (.ofNat d.seconds) (.ofNat d.fraction) = some d := by
  have hseconds : d.seconds < UInt64.size :=
    Nat.div_lt_of_lt_mul (Nat.mul_comm _ _ ▸ d.bounded)
  have hfraction : d.fraction < UInt32.size :=
    Nat.lt_trans (Nat.mod_lt _ (by decide)) (by decide : Nat.pow 10 9 < UInt32.size)
  have htotal : (UInt64.ofNat d.seconds).toNat * Nat.pow 10 9 + (UInt32.ofNat d.fraction).toNat
      = d.nanoseconds := by
    rw [UInt64.toNat_ofNat_of_lt' hseconds, UInt32.toNat_ofNat_of_lt' hfraction, Nat.mul_comm]
    exact Nat.div_add_mod d.nanoseconds _
  simp only [ofParts?, htotal, d.bounded, dif_pos]

theorem faithful (d : Duration) : Duration.codec.Faithful d :=
  Record.faithful (by decide)
    (.cons (.of (Codec.faithful_uint64 _)) (.cons (.of (Codec.faithful_uint32 _)) .nil))
    (ofParts?_parts d)

end Duration

/-! ## Alerts -/

namespace Alert

/-- Both thresholds are finite. -/
def Finite (a : Alert) : Prop := a.flapLow.isFinite ∧ a.flapHigh.isFinite

/-- **What is written for an alert with finite thresholds is recovered.** -/
theorem faithful {a : Alert} (h : a.Finite) : Alert.codec.Faithful a := by
  have hevent (e : Option String) : (Codec.optional .text).Faithful e :=
    Codec.faithful_optional (fun s _ => Codec.faithful_text s) fun _ => nofun
  refine Record.faithful (by decide) (.cons .text <| .cons .text <| .cons .text <| .cons .text
    <| .cons (.of (hevent _)) <| .cons (.of (hevent _)) <| .cons (.of (hevent _))
    <| .cons (.of (hevent _)) <| .cons (.of (hevent _)) <| .cons (.of (hevent _))
    <| .cons (.of (Codec.faithful_uint64 _))
    <| .cons .text <| .cons .text <| .cons .text <| .cons .text <| .cons .text <| .cons .text
    <| .cons .bool <| .cons .bool <| .cons .bool
    <| .cons (.of (Duration.faithful _)) <| .cons .bool
    <| .cons (.of (Codec.faithful_float h.1)) <| .cons (.of (Codec.faithful_float h.2))
    <| .cons (.list Handler.HttpPost.faithful) <| .cons (.list Handler.Tcp.faithful)
    <| .cons (.list Handler.Email.faithful) <| .cons (.list Handler.Exec.faithful)
    <| .cons (.list Handler.Log.faithful) <| .cons (.list Handler.VictorOps.faithful)
    <| .cons (.list Handler.PagerDuty.faithful) <| .cons (.list Handler.Pushover.faithful)
    <| .cons (.list Handler.Sensu.faithful) <| .cons (.list Handler.Slack.faithful)
    <| .cons (.list Handler.Telegram.faithful) <| .cons (.list Handler.HipChat.faithful)
    <| .cons (.list Handler.Alerta.faithful) <| .cons (.list Handler.OpsGenie.faithful)
    <| .cons (.list Handler.Talk.faithful) <| .cons (.list Handler.Mqtt.faithful)
    <| .cons (.list Handler.SnmpTrap.faithful) .nil) rfl

/-- A document of an alert holds at most a list of records that hold lists of records. -/
theorem depth_codec_le (a : Alert) : (Alert.codec.write a).depth ≤ 5 := by
  simp [codec, record, Record.defaulted, Duration.codec, Duration.parts,
    Handler.HttpPost.record, Handler.Tcp.record, Handler.Email.record, Handler.Exec.record,
    Handler.Log.record, Handler.VictorOps.record, Handler.PagerDuty.record,
    Handler.Pushover.record, Handler.Sensu.record, Handler.Slack.record,
    Handler.Telegram.record, Handler.HipChat.record, Handler.Alerta.record,
    Handler.OpsGenie.record, Handler.Talk.record, Handler.Mqtt.record,
    Handler.SnmpData.record, Handler.SnmpTrap.record]

/-- **Whatever is read, the thresholds are finite.** -/
theorem finite_of_read {levels : Nat} {d : Json.Document} {a : Alert}
    (h : Alert.codec.read levels d = .ok a) : a.Finite := by
  have hlow : Field.Keeps Finite (.of "flapLow" .float (·.flapLow)
      fun a x => { a with flapLow := x }) :=
    Field.keeps_of_iff.2 fun _ _ _ hx _ ha => ⟨Reader.isFinite_of_float hx, ha.2⟩
  have hhigh : Field.Keeps Finite (.of "flapHigh" .float (·.flapHigh)
      fun a x => { a with flapHigh := x }) :=
    Field.keeps_of_iff.2 fun _ _ _ hx _ ha => ⟨ha.1, Reader.isFinite_of_float hx⟩
  -- the other fields leave both thresholds as they are
  have hfields : ∀ f ∈ record.fields, f.Keeps Finite := by
    simp only [record, Record.defaulted, List.forall_mem_cons, hlow, hhigh]
    simp [Field.keeps_of_iff, Finite]
  obtain ⟨b, hb, hab⟩ := Record.read_invariant ⟨rfl, rfl⟩ hfields h
  obtain rfl : b = a := Option.some.inj hab
  exact hb

theorem finite_of_parse {text : List Char} {a : Alert} (h : Alert.codec.parse text = .ok a) :
    a.Finite := by
  obtain ⟨b, hread, hb⟩ := Json.of_bind_eq_ok h
  split at hb
  · cases hb
  · obtain rfl : b = a := Except.ok.inj hb
    exact finite_of_read hread

theorem parse_printed {a : Alert} (h : a.Finite) :
    Alert.codec.parse (Alert.codec.print a) = .ok a := by
  have hdepth : (Alert.codec.write a).depth ≤ Reader.maxLevels :=
    Nat.le_trans a.depth_codec_le (by decide)
  rw [(faithful h).parse_print, if_pos hdepth]

/-- **Writing and reading again changes nothing.**  An alert with finite thresholds is read back
    from its text as it is, headers in their order, and an expression that is empty is not taken
    for one that is missing.  So is every alert that was read from some text, and if it is written
    again, the text is the same. -/
theorem parse_print_stable :
    (∀ a : Alert, a.flapLow.isFinite → a.flapHigh.isFinite →
      codec.parse (codec.print a) = .ok a) ∧
    (∀ text a, codec.parse text = .ok a → codec.parse (codec.print a) = .ok a ∧
      ∀ b, codec.parse (codec.print a) = .ok b → codec.print b = codec.print a) := by
  refine ⟨fun a hlow hhigh => parse_printed ⟨hlow, hhigh⟩, fun text a h => ?_⟩
  have hprint := parse_printed (finite_of_parse h)
  refine ⟨hprint, fun b hb => ?_⟩
  rw [hprint] at hb
  rw [Except.ok.inj hb]

/-- Two headers out of order, an expression that is empty and a negative zero. -/
theorem parse_print_stable_headers :
    let a : Alert := {
      message := "it's \"x\"\n"
      info := some ""
      history := 18446744073709551615
      stateChangesOnlyDuration := ⟨1500000000, by decide⟩
      flapLow := .zero true
      httpPostHandlers := [{ headers := (Headers.empty.insert "b" "1").insert "a" "2" }]
      snmpTrapHandlers := [{ dataList := [{ kind := "i" }] }] }
    a.flapLow.isFinite ∧ a.flapHigh.isFinite ∧ codec.parse (codec.print a) = .ok a ∧
      ∀ b, codec.parse (codec.print a) = .ok b → codec.print b = codec.print a := by
  intro a
  have hprint : codec.parse (codec.print a) = .ok a := parse_print_stable.1 a rfl rfl
  exact ⟨rfl, rfl, parse_print_stable.2 _ a hprint⟩

end Alert

end Tickscript
