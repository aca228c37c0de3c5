/-
  Handlers in documents and back.

  What is written for a handler is read as the same handler, whichever kind it is
  of and whatever its settings are.

  * `Headers.faithful`: headers, in the order in which they are;
  * a lemma for each kind of handler, in which the proof names the kinds of its
    fields.
-/
import Tickscript.Handler.Document
import Tickscript.Proofs.Json.Record

namespace Tickscript

open Json (Codec Reader Record)

/-! ## Headers -/

namespace Headers

theorem put_of_not_mem {name value : String} : ∀ {es : List (String × String)},
    name ∉ es.map Prod.fst → put name value es = es ++ [(name, value)]
  | [], _ => rfl
  | (n, v) :: rest, h => by
    rw [List.map_cons, List.mem_cons, not_or] at h
    rw [put, if_neg (Ne.symm h.1), put_of_not_mem h.2, List.cons_append]

/-- Members with new names are put behind the headers that are there. -/
theorem readMembers_written (levels : Nat) : ∀ (back front : List (String × String))
    (hfront : (front.map Prod.fst).Nodup) (hall : ((front ++ back).map Prod.fst).Nodup),
    readMembers levels ⟨front, hfront⟩
      (Json.memberDocuments (back.map fun e => (e.1, .text e.2))) = .ok ⟨front ++ back, hall⟩
  | [], front, hfront, hall => by simp [Json.memberDocuments, readMembers]
  | (name, value) :: back, front, hfront, hall => by
    have hnew : name ∉ front.map Prod.fst := by
      rw [List.map_append, List.nodup_append] at hall
      intro hmem
      exact hall.2.2 name hmem name List.mem_cons_self rfl
    have hput : put name value front = front ++ [(name, value)] := put_of_not_mem hnew
    have hread := readMembers_written levels back (front ++ [(name, value)])
      (hput ▸ nodup_names_put hfront) (by simpa using hall)
    simp only [List.map_cons, Json.memberDocuments, Json.document, readMembers, Json.Key.read,
      Reader.text, bind, Except.bind, insert, hput, hread, List.append_assoc, List.singleton_append]

@[simp] theorem depth_codec_le {n : Nat} (h : Headers) :
    (Headers.codec.write h).depth ≤ n + 1 := by
  refine Nat.succ_le_succ (Json.depthMembers_le_iff.2 fun m hm => ?_)
  obtain ⟨e, -, rfl⟩ := List.mem_map.1 hm
  exact Nat.zero_le n

theorem faithful (h : Headers) : Headers.codec.Faithful h
  | 0 => rfl
  | levels + 1 => by
    have hread := readMembers_written levels h.entries [] .nil h.distinct
    rw [if_pos (depth_codec_le h)]
    simp only [codec, Json.document, read, empty, hread]
    rfl

end Headers

/-! ## Kinds of handlers -/

namespace Handler

theorem HttpPost.faithful (h : HttpPost) : HttpPost.record.codec.Faithful h :=
  Record.faithful (by decide)
    (.cons .text (.cons .text (.cons (.of (Headers.faithful _)) .nil))) rfl

theorem Tcp.faithful (h : Tcp) : Tcp.record.codec.Faithful h :=
  Record.faithful (by decide) (.cons .text .nil) rfl

theorem Email.faithful (h : Email) : Email.record.codec.Faithful h :=
  Record.faithful (by decide) (.cons .texts .nil) rfl

theorem Exec.faithful (h : Exec) : Exec.record.codec.Faithful h :=
  Record.faithful (by decide) (.cons .texts .nil) rfl

theorem Log.faithful (h : Log) : Log.record.codec.Faithful h :=
  Record.faithful (by decide) (.cons .text (.cons (.of (Codec.faithful_uint32 _)) .nil)) rfl

theorem VictorOps.faithful (h : VictorOps) : VictorOps.record.codec.Faithful h :=
  Record.faithful (by decide) (.cons .text .nil) rfl

theorem PagerDuty.faithful (h : PagerDuty) : PagerDuty.record.codec.Faithful h :=
  Record.faithful (by decide) (.cons .text .nil) rfl

theorem Pushover.faithful (h : Pushover) : Pushover.record.codec.Faithful h :=
  Record.faithful (by decide) (.cons .text <| .cons .text <| .cons .text <|
    .cons .text <| .cons .text <| .cons .text .nil) rfl

theorem Sensu.faithful (h : Sensu) : Sensu.record.codec.Faithful h :=
  Record.faithful (by decide) (.cons .text (.cons .texts .nil)) rfl

theorem Slack.faithful (h : Slack) : Slack.record.codec.Faithful h :=
  Record.faithful (by decide) (.cons .text (.cons .text (.cons .text .nil))) rfl

theorem Telegram.faithful (h : Telegram) : Telegram.record.codec.Faithful h :=
  Record.faithful (by decide) (.cons .text (.cons .text (.cons .bool (.cons .bool .nil)))) rfl

theorem HipChat.faithful (h : HipChat) : HipChat.record.codec.Faithful h :=
  Record.faithful (by decide) (.cons .text (.cons .text .nil)) rfl

theorem Alerta.faithful (h : Alerta) : Alerta.record.codec.Faithful h :=
  Record.faithful (by decide) (.cons .text <| .cons .text <| .cons .text <| .cons .text <|
    .cons .text <| .cons .text <| .cons .text <| .cons .texts .nil) rfl

theorem OpsGenie.faithful (h : OpsGenie) : OpsGenie.record.codec.Faithful h :=
  Record.faithful (by decide) (.cons .texts (.cons .texts .nil)) rfl

theorem Talk.faithful (h : Talk) : Talk.record.codec.Faithful h :=
  Record.faithful (by decide) .nil rfl

theorem Mqtt.faithful (h : Mqtt) : Mqtt.record.codec.Faithful h :=
  Record.faithful (by decide) (.cons .text <| .cons .text <|
    .cons (.of (Codec.faithful_uint8 _)) <| .cons .bool .nil) rfl

theorem SnmpData.faithful (h : SnmpData) : SnmpData.record.codec.Faithful h :=
  Record.faithful (by decide) (.cons .text (.cons .text (.cons .text .nil))) rfl

theorem SnmpTrap.faithful (h : SnmpTrap) : SnmpTrap.record.codec.Faithful h :=
  Record.faithful (by decide) (.cons .text (.cons (.list SnmpData.faithful) .nil)) rfl

end Handler

end Tickscript
