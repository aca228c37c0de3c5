/-
  The interval after which an unchanged state is sent again, from the document to the call.

  Three widths meet in it: full seconds are carried out of a word of 32 bits into one of
  64, and a literal holds 63 bits of nanoseconds.

  * `Duration.read_of_spelled`: a duration is read as the sum of its parts, in either form;
  * `Duration.ofParts?_eq_none_iff`: the sum is refused if its seconds do not fit a word;
  * `Alert.named_stateChangesOnly`: the one call that holds the interval;
  * `Alert.parse_interval`: what comes of the interval in a document.
-/
import Mathlib.Data.List.Permutation
import Tickscript.Proofs.Documents.Alert
import Tickscript.Proofs.Documents.Settings
import Tickscript.Proofs.Failure
import Tickscript.Proofs.Literal
import Tickscript.Proofs.Recovery.Handler

namespace Tickscript

open Json

/-! ## Durations -/

namespace Duration

variable {s : UInt64} {n : UInt32} {t : Duration} {d : Document}

/-- A document that says seconds and nanoseconds, in order or under their keys. -/
inductive Spelled (s : UInt64) (n : UInt32) : Document → Prop
  | array {ds dn : Document} : (∀ levels, Codec.uint64.read levels ds = .ok s) →
      (∀ levels, Codec.uint32.read levels dn = .ok n) → Spelled s n (.array [ds, dn] none)
  | object {ds dn : Document} {members : List (Key × Document)} :
      (∀ levels, Codec.uint64.read levels ds = .ok s) →
      (∀ levels, Codec.uint32.read levels dn = .ok n) →
      members.Perm [(.name (some "secs"), ds), (.name (some "nanos"), dn)] →
      Spelled s n (.object members none)

/-- What comes of both parts, in whichever order they are found. -/
theorem build_parts {found : Record.Found (UInt64 × UInt32)}
    (hs : found.lookup "secs" = some fun p => (s, p.2))
    (hn : found.lookup "nanos" = some fun p => (p.1, n)) :
    parts.build found = (ofParts? s n).elim (.error .mismatched) .ok := by
  have hgives : Record.Gives found parts.fields [fun p => (s, p.2), fun p => (p.1, n)] :=
    .cons hs (.cons hn .nil)
  rw [Record.build_of_gives hgives]
  rfl

/-- **A duration is read as the sum of its parts**, if there is one. -/
theorem read_of_spelled (h : Spelled s n d) (levels : Nat) :
    codec.read (levels + 1) d = (ofParts? s n).elim (.error .mismatched) .ok := by
  cases h with
  | @array ds dn hs hn =>
    have hitems : Record.readItems (parts.readers levels) [ds, dn]
        = .ok ([("secs", fun p => (s, p.2)), ("nanos", fun p => (p.1, n))], []) := by
      simp only [Record.readers, parts, List.map_cons, List.map_nil, Record.readItems, Field.of, hs, hn]
      rfl
    have hread : codec.read (levels + 1) (.array [ds, dn] none) = _ :=
      Record.read_array_eq (Nat.le_refl 2)
    simp only [hread, hitems, Except.bind]
    exact build_parts List.lookup_cons_self
      ((lookup_cons_of_ne (by decide) _ _).trans List.lookup_cons_self)
  | @object ds dn members hs hn hperm =>
    obtain ⟨found, hmembers, hsecs, hnanos⟩ : ∃ found : Record.Found (UInt64 × UInt32),
        Record.readMembers parts.closed (parts.readers levels) [] members = .ok found ∧
        (found.lookup "secs" = some fun p => (s, p.2)) ∧
        found.lookup "nanos" = some fun p => (p.1, n) := by
      rcases List.perm_pair.1 hperm with rfl | rfl
      · refine ⟨[("nanos", fun p => (p.1, n)), ("secs", fun p => (s, p.2))], ?_,
          (lookup_cons_of_ne (by decide) _ _).trans List.lookup_cons_self, List.lookup_cons_self⟩
        simp [Record.readMembers, Record.readers, parts, Field.of, Key.read, hs, hn, List.lookup_cons,
          bind, Except.bind, Except.map]
      · refine ⟨[("secs", fun p => (s, p.2)), ("nanos", fun p => (p.1, n))], ?_,
          List.lookup_cons_self, (lookup_cons_of_ne (by decide) _ _).trans List.lookup_cons_self⟩
        simp [Record.readMembers, Record.readers, parts, Field.of, Key.read, hs, hn, List.lookup_cons,
          bind, Except.bind, Except.map]
    simp only [codec, Record.codec, Record.read, Record.readObject, hmembers, unbroken, bind,
      Except.bind]
    exact build_parts hsecs hnanos

theorem ofParts?_eq_none_iff :
    ofParts? s n = none ↔ UInt64.size ≤ s.toNat + n.toNat / 10 ^ 9 := by
  have hbound : s.toNat * Nat.pow 10 9 + n.toNat < UInt64.size * Nat.pow 10 9 ↔
      s.toNat + n.toNat / 10 ^ 9 < UInt64.size := by
    simp only [Nat.pow_eq]
    omega
  simp only [ofParts?]
  split
  · next h => simpa using hbound.1 h
  · next h => simpa using Nat.le_of_not_lt fun hlt => h (hbound.2 hlt)

/-- The nanoseconds of the sum, and its full seconds. -/
theorem of_ofParts?_eq_some (h : ofParts? s n = some t) :
    t.nanoseconds = s.toNat * 10 ^ 9 + n.toNat ∧ t.seconds = s.toNat + n.toNat / 10 ^ 9 := by
  simp only [ofParts?] at h
  split at h
  · obtain rfl := Option.some.inj h
    refine ⟨rfl, ?_⟩
    simp only [seconds, Nat.pow_eq]
    omega
  · cases h

end Duration

/-! ## The call -/

namespace Alert

/-- No handler has a call of this name. -/
theorem named_stateChangesOnly_handler (h : Handler) : named "stateChangesOnly" h.calls = [] := by
  cases h <;> simp [Handler.calls, Handler.HttpPost.calls, Handler.Tcp.calls, Handler.Email.calls,
    Handler.Exec.calls, Handler.Log.calls, Handler.VictorOps.calls, Handler.PagerDuty.calls,
    Handler.Pushover.calls, Handler.Sensu.calls, Handler.Slack.calls, Handler.Telegram.calls,
    Handler.HipChat.calls, Handler.Alerta.calls, Handler.OpsGenie.calls, Handler.Talk.calls,
    Handler.Mqtt.calls, Handler.SnmpTrap.calls]

/-- **The calls of an alert hold the interval once**, if it is in use. -/
theorem named_stateChangesOnly (a : Alert) : named "stateChangesOnly" a.calls =
    Setting.when a.stateChangesOnly "stateChangesOnly"
      (if a.stateChangesOnlyDuration.nanoseconds = 0 then []
        else [.duration (.ofNat a.stateChangesOnlyDuration.nanoseconds)]) := by
  have hhandlers : named "stateChangesOnly" a.handlerCalls = [] := by
    rw [handlerCalls_eq, named, List.filter_flatMap]
    exact List.flatMap_eq_nil_iff.2 fun h _ => named_stateChangesOnly_handler h
  have hpipe (ls : List Link) : named "stateChangesOnly" (⟨.pipe, ⟨"alert", []⟩⟩ :: ls)
      = named "stateChangesOnly" ls := rfl
  rw [calls, hpipe]
  simp [eventCalls, conditionCalls, outputCalls, hhandlers]

/-- The conversion succeeds, and among the calls that it adds there is one of the name, which has
    these arguments. -/
def Emits (a : Alert) (parent : Chain) (name : String) (args : List Literal) : Prop :=
  ∃ links, (a.convert parent).result = .ok ⟨parent.root, parent.links ++ links⟩ ∧
    named name links = [⟨.dot, ⟨name, args⟩⟩]

/-- What comes of an interval in use: no argument for nothing, a literal as long as one is large
    enough, and a failure beyond. -/
theorem convert_interval {a : Alert} {total seconds : Nat} (hfinite : a.Finite)
    (hhistory : a.history.toNat < 2 ^ 63) (hstate : a.stateChangesOnly)
    (htotal : a.stateChangesOnlyDuration.nanoseconds = total)
    (hseconds : a.stateChangesOnlyDuration.seconds = seconds) (parent : Chain) :
    (total = 0 → a.Emits parent "stateChangesOnly" []) ∧
    (0 < total → total < 2 ^ 63 →
      a.Emits parent "stateChangesOnly" [.duration (.ofNat total)] ∧
      (Int64.ofNat total).toInt = total ∧
      ∀ m, Duration.Denotes (Literal.duration (.ofNat total)).render m ↔ m = total) ∧
    (2 ^ 63 ≤ total →
      (a.convert parent).result = .error ⟨"stateChangesOnly", .durationOverflow seconds⟩) := by
  have hemits (hlt : total < 2 ^ 63) : a.Emits parent "stateChangesOnly"
      (if total = 0 then [] else [.duration (.ofNat total)]) := by
    refine ⟨a.calls, convert_ok_iff.2 ⟨⟨hhistory, fun _ => htotal ▸ hlt, fun _ => hfinite⟩, rfl⟩, ?_⟩
    rw [named_stateChangesOnly, Setting.when, if_pos hstate, htotal]
  refine ⟨fun hzero => ?_, fun hpos hlt => ⟨?_, ?_, fun m => ?_⟩, fun hlarge => ?_⟩
  · have hlt : total < 2 ^ 63 := by omega
    rw [if_pos hzero] at hemits
    exact hemits hlt
  · rw [if_neg (Nat.ne_of_gt hpos)] at hemits
    exact hemits hlt
  · exact Int64.toInt_ofNat_of_lt hlt
  · rw [Literal.render_duration, Int64.toInt_ofNat_of_lt hlt, Duration.denotes_render_iff]
  · rw [convert_eq_error_iff, ← failure_eq, failure, if_neg (Nat.not_le.2 hhistory), htotal, hseconds,
      if_pos ⟨hstate, hlarge⟩]

/-- The interval of an alert in a document is read on its own. -/
theorem read_interval {front back : List (Key × Document)} {d : Document} {s : UInt64} {n : UInt32}
    {a : Alert} (hspelled : Duration.Spelled s n d)
    (hread : codec.read Reader.maxLevels (.object (front ++ back) none) = .ok a)
    (hnew : Key.name (some "stateChangesOnlyDuration") ∉ (front ++ back).map Prod.fst) :
    codec.read Reader.maxLevels
        (.object (front ++ (.name (some "stateChangesOnlyDuration"), d) :: back) none)
      = (Duration.ofParts? s n).elim (.error .mismatched)
          fun t => .ok { a with stateChangesOnlyDuration := t } := by
  let interval : Json.Field Alert := .of "stateChangesOnlyDuration" Duration.codec
    (·.stateChangesOnlyDuration) fun a t => { a with stateChangesOnlyDuration := t }
  have hinsert := Settings.alert.lenient.read_insert (f := interval) hread
    (List.mem_of_getElem? (i := 20) rfl) hnew d
  have hduration := Duration.read_of_spelled hspelled 125
  refine hinsert.trans ?_
  simp only [interval, Field.of, hduration]
  cases Duration.ofParts? s n <;> rfl

/-- **An interval from the document to the call.**  Whatever else an object says of an alert that
    sends changes of the state only, an interval of seconds and nanoseconds, in either form, is
    refused if the seconds that it comes to do not fit a word.  Otherwise the call has no argument
    for an interval of nothing and holds the very number of nanoseconds as long as a literal can;
    beyond, the conversion fails and says how many seconds there are. -/
theorem parse_interval {text : List Char} {front back : List (Key × Document)} {d : Document}
    {s : UInt64} {n : UInt32} {a : Alert}
    (htext : Spells text
      (.object (front ++ (.name (some "stateChangesOnlyDuration"), d) :: back) none))
    (hspelled : Duration.Spelled s n d)
    (hread : codec.read Reader.maxLevels (.object (front ++ back) none) = .ok a)
    (hnew : Key.name (some "stateChangesOnlyDuration") ∉ (front ++ back).map Prod.fst)
    (hstate : a.stateChangesOnly) (hhistory : a.history.toNat < 2 ^ 63) :
    let seconds := s.toNat + n.toNat / 10 ^ 9
    let total := s.toNat * 10 ^ 9 + n.toNat
    (2 ^ 64 ≤ seconds → codec.parse text = .error .mismatched) ∧
    (seconds < 2 ^ 64 → ∃ t : Duration, t.nanoseconds = total ∧
      codec.parse text = .ok { a with stateChangesOnlyDuration := t } ∧
      ∀ parent, let b := { a with stateChangesOnlyDuration := t }
        (total = 0 → b.Emits parent "stateChangesOnly" []) ∧
        (0 < total → total < 2 ^ 63 →
          b.Emits parent "stateChangesOnly" [.duration (.ofNat total)] ∧
          (Int64.ofNat total).toInt = total ∧
          ∀ m, Duration.Denotes (Literal.duration (.ofNat total)).render m ↔ m = total) ∧
        (2 ^ 63 ≤ total → (b.convert parent).result
          = .error ⟨"stateChangesOnly", .durationOverflow seconds⟩)) := by
  intro seconds total
  have hparse : codec.parse text = (Duration.ofParts? s n).elim (.error .mismatched)
      fun t => .ok { a with stateChangesOnlyDuration := t } := by
    rw [← read_interval hspelled hread hnew]
    exact Reader.parse_of_spells codec.read htext
  refine ⟨fun hseconds => ?_, fun hseconds => ?_⟩
  · rw [hparse, Duration.ofParts?_eq_none_iff.2 hseconds]
    rfl
  · cases ht : Duration.ofParts? s n with
    | none => exact absurd (Duration.ofParts?_eq_none_iff.1 ht) (Nat.not_le.2 hseconds)
    | some t =>
      obtain ⟨htotal, hsum⟩ := Duration.of_ofParts?_eq_some ht
      rw [ht] at hparse
      have hfinite : a.Finite := finite_of_read hread
      exact ⟨t, htotal, hparse, fun parent =>
        convert_interval (a := { a with stateChangesOnlyDuration := t }) hfinite hhistory hstate
          htotal hsum parent⟩

/-- The largest seconds with one to carry, the largest interval of a literal, and one nanosecond
    more. -/
theorem parse_interval_limits :
    let text (s : UInt64) (n : UInt32) := (Json.object [("stateChangesOnly", .bool true),
      ("stateChangesOnlyDuration", .array [.int s.toNat, .int n.toNat])]).compact
    codec.parse (text 18446744073709551615 1000000000) = .error .mismatched ∧
      (∃ a, codec.parse (text 9223372036 854775807) = .ok a ∧
        a.Emits (.identifier "stream") "stateChangesOnly" [.duration 9223372036854775807]) ∧
      ∃ a, codec.parse (text 9223372036 854775808) = .ok a ∧
        (a.convert (.identifier "stream")).result
          = .error ⟨"stateChangesOnly", .durationOverflow 9223372036⟩ := by
  intro text
  let a : Alert := { stateChangesOnly := true }
  have hspelled (s : UInt64) (n : UInt32) :
      Duration.Spelled s n (Json.document (.array [.int s.toNat, .int n.toNat])) :=
    .array (fun levels => (Codec.faithful_uint64 s levels).trans (if_pos (Nat.zero_le _)))
      fun levels => (Codec.faithful_uint32 n levels).trans (if_pos (Nat.zero_le _))
  have hread : codec.read Reader.maxLevels
      (.object ([(.name (some "stateChangesOnly"), .scalar (.bool true))] ++ []) none) = .ok a := rfl
  have htext (s : UInt64) (n : UInt32) : Spells (text s n) (.object
      ([(.name (some "stateChangesOnly"), .scalar (.bool true))] ++
        (.name (some "stateChangesOnlyDuration"),
          Json.document (.array [.int s.toNat, .int n.toNat])) :: []) none) := spells_compact _
  have hlimits (s : UInt64) (n : UInt32) :=
    parse_interval (htext s n) (hspelled s n) hread (by simp) rfl (by decide)
  refine ⟨(hlimits _ _).1 (by decide), ?_, ?_⟩
  · obtain ⟨t, -, hparse, hconvert⟩ := (hlimits 9223372036 854775807).2 (by decide)
    exact ⟨_, hparse, ((hconvert _).2.1 (by decide) (by decide)).1⟩
  · obtain ⟨t, -, hparse, hconvert⟩ := (hlimits 9223372036 854775808).2 (by decide)
    exact ⟨_, hparse, (hconvert _).2.2 (by decide)⟩

end Alert

end Tickscript
