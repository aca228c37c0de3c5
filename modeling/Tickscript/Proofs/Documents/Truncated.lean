/-
  Documents that break off.

  The text of an alert or of a chain may be cut anywhere: inside an escape, a number, a
  word or a key, or between two tokens.  What is left is always refused because it ends
  too early, and not because of a field that is missing or a number that is no longer
  what it was.

  * `Headers.awaits`, `Alert.awaits`: alerts with all that is in them;
  * `Literal.awaits`, `Chain.awaits`: literals and chains, by the same recursion as they
    are written;
  * `parse_of_isPrefix_print`: so of each text, only the whole is read.
-/
import Tickscript.Proofs.Documents.Alert
import Tickscript.Proofs.Documents.Chain
import Tickscript.Proofs.Json.Awaits

namespace Tickscript

open Json (Codec Field Reader Record Stub)

/-! ## Alerts -/

namespace Headers

theorem readMembers_of_brokenMembers {levels : Nat} {es : List (String × String)}
    {ds : List (Json.Key × Json.Document)}
    (hds : Json.BrokenMembers Stub (es.map fun e => (e.1, .text e.2)) ds) : ∀ {h : Headers} {f},
    readMembers levels h ds = .error f → f = .truncated := by
  induction es generalizing ds with
  | nil =>
    intro h f hfault
    cases hds
    cases hfault
  | cons e es ih =>
    intro h f hfault
    rw [List.map_cons] at hds
    cases hds with
    | nil => cases hfault
    | key => exact (Except.error.inj hfault).symm
    | cut _ _ hd =>
      obtain ⟨name, -, hfault⟩ := (Json.of_bind_eq_error hfault).resolve_left (by simp [Json.Key.read])
      rcases Json.of_bind_eq_error hfault with hfault | ⟨value, -, hfault⟩
      · exact Codec.awaits_text e.2 levels _ _ _ rfl hd hfault
      · cases hfault
    | cons _ _ hds => exact ih hds hfault

theorem awaits : Headers.codec.Awaits := by
  intro h levels a d f hread hstub hfault
  cases levels with
  | zero => cases hread
  | succ levels =>
    cases hstub with
    | absent => exact (Except.error.inj hfault).symm
    | scalar hs => cases hs
    | object hds =>
      rcases Json.of_bind_eq_error hfault with hfault | ⟨_, -, hfault⟩
      · exact readMembers_of_brokenMembers hds hfault
      · exact (Except.error.inj hfault).symm

end Headers

theorem Duration.awaits : Duration.codec.Awaits :=
  Record.awaits_codec (by decide) (by simp [parts])

open Handler in
theorem Alert.awaits : Alert.codec.Awaits := by
  have hdata : SnmpData.record.codec.Awaits :=
    Record.awaits_codec (by decide) (by simp [SnmpData.record, Record.defaulted])
  refine Record.awaits_codec (by decide) ?_
  simp only [record, Record.defaulted, List.forall_mem_cons]
  -- a field of an alert holds a scalar, an optional text, a duration or a list of handlers
  and_intros <;> first
    | exact Field.awaits_of (by simp [Duration.awaits])
    | refine Field.awaits_of (Codec.awaits_list (Record.awaits_codec (by decide) ?_))
      simp [HttpPost.record, Tcp.record, Email.record, Exec.record, Log.record,
        VictorOps.record, PagerDuty.record, Pushover.record, Sensu.record, Slack.record,
        Telegram.record, HipChat.record, Alerta.record, OpsGenie.record, Talk.record, Mqtt.record,
        SnmpTrap.record, Record.defaulted, Headers.awaits, hdata]
    | simp

/-- The text of an alert with finite thresholds ends too early where it breaks off. -/
theorem Alert.parse_of_isPrefix {a : Alert} (h : a.Finite) {p : List Char}
    (hp : p <+: Alert.codec.print a) :
    Alert.codec.parse p = if p = Alert.codec.print a then .ok a else .error .truncated :=
  Codec.parse_of_isPrefix (Alert.awaits a) (fun _ b hd => Record.read_ne_ok_of_stub hd b)
    (Alert.parse_printed h) hp

/-! ## Literals -/

theorem Base.awaits : Base.codec.Awaits := by
  intro b
  cases b <;> exact Json.Variant.awaits_tag

namespace Number

theorem based_awaits : based.codec.Awaits :=
  Record.awaits_codec (by decide) (by simp [based, Record.complete, Base.awaits])

theorem awaits : Number.codec.Awaits := by
  intro n
  cases n with
  | int value base =>
    have hbased := (based_awaits (value, base)).map fun p => int p.1 p.2
    exact Json.Variant.awaits_write rfl hbased
  | float x => exact Json.Variant.awaits_write rfl ((Codec.awaits_float x).map float)

end Number

namespace Literal

/-- It is enough to look at the literal itself. -/
theorem awaits_of_layer {l : Literal} (h : (layer Literal.codec.read).Awaits l.json) :
    Literal.codec.read.Awaits l.json := by
  rw [read_eq_layer]
  exact h

mutual

theorem awaits : ∀ l : Literal, Literal.codec.read.Awaits l.json
  | text s => awaits_of_layer (Json.Variant.awaits_write rfl ((Codec.awaits_text s).map text))
  | number n => awaits_of_layer (Json.Variant.awaits_write rfl ((Number.awaits n).map number))
  | bool b => awaits_of_layer (Json.Variant.awaits_write rfl ((Codec.awaits_bool b).map bool))
  | duration n =>
    awaits_of_layer (Json.Variant.awaits_write rfl ((Codec.awaits_int64 n).map duration))
  | lambda e => awaits_of_layer (Json.Variant.awaits_write rfl ((Codec.awaits_text e).map lambda))
  | list items => by
    have hitems : (Reader.list Literal.codec.read).Awaits (.array (jsonAll items)) :=
      Reader.awaits_list (awaitsAll items)
    exact awaits_of_layer (Json.Variant.awaits_write rfl (hitems.map list))

theorem awaitsAll : ∀ items : List Literal, ∀ j ∈ jsonAll items, Literal.codec.read.Awaits j
  | [], _ => fun h => absurd h List.not_mem_nil
  | l :: rest, _ => List.forall_mem_cons.2 ⟨awaits l, awaitsAll rest⟩ _

end

end Literal

/-! ## Chains -/

theorem Operator.awaits : Operator.codec.Awaits := by
  intro o
  cases o <;> exact Json.Variant.awaits_tag

theorem Call.awaits : Call.codec.Awaits := by
  have hargs : (Codec.list Literal.codec).Awaits := Codec.awaits_list Literal.awaits
  exact Record.awaits_codec (by decide) (by simp [record, Record.complete, Field.awaits_of, hargs])

namespace Chain

theorem awaits (c : Chain) : Chain.codec.read.Awaits c.json := by
  obtain ⟨root, links⟩ := c
  -- the last call is the outermost object, and what it holds is the chain without it
  induction links using List.reverseRecOn with
  | nil =>
    rw [read_eq_layer]
    exact Json.Variant.awaits_write rfl ((Codec.awaits_text root).map identifier)
  | append_singleton links l ih =>
    have hsegment : (segment codec.read).codec.read.Awaits
        ((segment codec.read).codec.write (⟨root, links⟩, l)) := by
      refine Record.awaits (by decide) ?_
      simp only [segment, Record.complete, List.forall_mem_cons]
      refine ⟨ih.map _, (Operator.awaits l.operator).map _, (Call.awaits l.call).map _, ?_⟩
      exact List.forall_mem_nil _
    have hwrite : json ⟨root, links ++ [l]⟩
        = Json.Variant.write "Chain" ((segment codec.read).codec.write (⟨root, links⟩, l)) :=
      List.foldl_append
    rw [read_eq_layer, hwrite]
    exact Json.Variant.awaits_write rfl (hsegment.map fun s => s.1.append s.2)

/-- A chain without calls is an object, and so is one that ends with a call. -/
theorem exists_json_eq_object (c : Chain) : ∃ members, c.json = .object members := by
  obtain ⟨root, links⟩ := c
  cases links using List.reverseRecOn with
  | nil => exact ⟨_, rfl⟩
  | append_singleton links l => exact ⟨_, List.foldl_append⟩

theorem read_ne_ok_of_stub {c : Chain} {levels : Nat} {d : Json.Document} (hd : Stub c.json d)
    (b : Chain) : Chain.codec.read levels d ≠ .ok b := by
  obtain ⟨members, hmembers⟩ := c.exists_json_eq_object
  rw [hmembers] at hd
  rw [read_eq_layer]
  exact Json.Variant.read_ne_ok_of_stub hd b

/-- The text of a chain that can be read back ends too early where it breaks off. -/
theorem parse_of_isPrefix {c : Chain} (h : c.Finite) (hdepth : c.json.depth ≤ Reader.maxLevels)
    {p : List Char} (hp : p <+: Chain.codec.print c) :
    Chain.codec.parse p = if p = Chain.codec.print c then .ok c else .error .truncated := by
  have hparse : Chain.codec.parse (Chain.codec.print c) = .ok c :=
    (faithful c h).parse_print.trans (if_pos hdepth)
  exact Codec.parse_of_isPrefix c.awaits (fun _ b hd => read_ne_ok_of_stub hd b) hparse hp

end Chain

/-! ## Both kinds of documents -/

/-- **A document that breaks off is never taken for a whole one.**  Of the text of an alert with
    finite thresholds, and of a chain without infinities and NaNs that is not nested deeper than
    127 levels, the whole is read back, and everything else that the text starts with, nothing
    included, is refused because it ends too early. -/
theorem parse_of_isPrefix_print :
    (∀ a : Alert, a.flapLow.isFinite → a.flapHigh.isFinite →
      ∀ p, p <+: Alert.codec.print a →
        Alert.codec.parse p = if p = Alert.codec.print a then .ok a else .error .truncated) ∧
    (∀ c : Chain, c.Finite → c.json.depth ≤ 127 →
      ∀ p, p <+: Chain.codec.print c →
        Chain.codec.parse p = if p = Chain.codec.print c then .ok c else .error .truncated) :=
  ⟨fun _ hlow hhigh _ hp => Alert.parse_of_isPrefix ⟨hlow, hhigh⟩ hp,
    fun _ hfinite hdepth _ hp => Chain.parse_of_isPrefix hfinite hdepth hp⟩

/-- An alert that breaks off inside a key, and a chain that breaks off behind the first digit of a
    negative number. -/
theorem parse_of_isPrefix_print_digit :
    let a : Alert := { history := 21, flapLow := .zero true }
    let c : Chain := ⟨"a", [⟨.pipe, ⟨"shift", [.list [.number (.int (-12) .octal)]]⟩⟩]⟩
    let key := "\x7b\"topic\":\"\",\"id\":\"\",\"mess".toList
    let digit := (Chain.codec.print c).take 122
    a.flapLow.isFinite ∧ a.flapHigh.isFinite ∧ key <+: Alert.codec.print a ∧
      Alert.codec.parse key = .error .truncated ∧ c.Finite ∧ c.json.depth ≤ 127 ∧
      digit.reverse.take 2 = ['1', '-'] ∧ Chain.codec.parse digit = .error .truncated := by
  intro a c key digit
  have hkey : key <+: Alert.codec.print a := ⟨_, rfl⟩
  have hfinite : c.Finite := by
    simp [c, Chain.Finite, Call.Finite, Literal.Finite, Literal.flatten, Literal.flattenAll,
      Number.Finite]
  have hdepth : c.json.depth ≤ 127 := by decide
  have hdigit : digit <+: Chain.codec.print c := List.take_prefix _ _
  refine ⟨rfl, rfl, hkey, ?_, hfinite, hdepth, by decide, ?_⟩
  · exact (parse_of_isPrefix_print.1 a rfl rfl key hkey).trans (if_neg (by decide))
  · exact (parse_of_isPrefix_print.2 c hfinite hdepth digit hdigit).trans (if_neg (by decide))

end Tickscript
