/-
  Documents in other spellings.

  Records may be arrays or objects in any order, with members that nobody knows, and a tag
  may stand alone or in front of a null; what is written has one form.  Going from any
  spelling to that form loses nothing: what is read holds no infinities and NaNs, and the
  form written is nested no deeper than the reader was allowed to go.

  * `Json.Variant.exists_case_of_read`: what an alternative is read from;
  * `Literal.finite_depth_of_read`, `Call.finite_depth_of_read`,
    `Chain.finite_depth_of_read`: what can be said of whatever is read, by induction on the
    levels;
  * `Chain.canonical`: so chains, literals and calls that were read from any text can be
    written and read again.
-/
import Tickscript.Proofs.Documents.Converted

namespace Tickscript

namespace Json

variable {α β : Type}

/-! ## Alternatives -/

/-- What a case may give at some levels: the value that it stands for, or one that is read from a
    content one level down. -/
inductive Body.Gives : Nat → Body α → α → Prop
  | bare (levels : Nat) (a : α) : Gives levels (.bare a) a
  | content {n : Nat} {r : Reader α} {d : Document} {a : α} :
      r n d = .ok a → Gives (n + 1) (.content r) a

theorem Body.gives_of_read {body : Body α} {n : Nat} {d : Document} {a : α}
    (h : body.read n d = .ok a) : body.Gives (n + 1) a := by
  cases body with
  | bare b =>
    simp only [Body.read, Reader.null] at h
    split at h
    · rw [← Except.ok.inj h]
      exact .bare (n + 1) b
    · cases h
  | content r => exact .content h

theorem Case.exists_of_gives {tag : String} {r : Reader β} {make : β → α} {levels : Nat} {a : α}
    (h : (Case.holding tag r make).body.Gives levels a) :
    ∃ n d b, levels = n + 1 ∧ r n d = .ok b ∧ a = make b := by
  obtain ⟨levels, a⟩ | @⟨n, _, d, a, hread⟩ := h
  cases hr : r n d with
  | error f => simp [hr, Except.map] at hread
  | ok b =>
    obtain rfl : make b = a := by simpa [hr, Except.map] using hread
    exact ⟨n, d, b, rfl, hr, rfl⟩

namespace Variant

variable {cases : List (Case α)} {levels : Nat} {a : α}

theorem exists_case_of_bodyOf {tag : String} {body : Body α} (h : bodyOf cases tag = some body) :
    ∃ c ∈ cases, c.body = body := by
  obtain ⟨c, hc, rfl⟩ := Option.map_eq_some_iff.1 h
  exact ⟨c, List.mem_of_find?_eq_some hc, rfl⟩

/-- **A value of one of the cases was given by one of them.** -/
theorem exists_case_of_read {d : Document} (h : read cases levels d = .ok a) :
    ∃ c ∈ cases, c.body.Gives levels a := by
  unfold read at h
  split at h
  · cases h
  · next tag =>
    unfold readTag at h
    split at h
    · next b hbody =>
      obtain rfl : b = a := Except.ok.inj h
      obtain ⟨c, hc, hb⟩ := exists_case_of_bodyOf hbody
      exact ⟨c, hc, hb ▸ .bare levels b⟩
    · cases h
  · cases h
  · next n members fault =>
    rcases members with _ | ⟨⟨key, d⟩, rest⟩
    · cases h
    · obtain ⟨tag, -, h⟩ := of_bind_eq_ok h
      cases hbody : bodyOf cases tag with
      | none => simp [hbody] at h
      | some body =>
        simp only [hbody] at h
        obtain ⟨b, hb, h⟩ := of_bind_eq_ok h
        split at h
        · obtain rfl := of_unbroken_eq_ok h
          obtain ⟨c, hc, rfl⟩ := exists_case_of_bodyOf hbody
          exact ⟨c, hc, Body.gives_of_read hb⟩
        · cases h
  · cases h

end Variant

/-- The items of a list are read one level down. -/
theorem Reader.exists_of_mem_list {r : Reader α} {levels : Nat} {d : Document} {as : List α}
    (h : r.list levels d = .ok as) : ∃ n, levels = n + 1 ∧ ∀ a ∈ as, ∃ e, r n e = .ok a := by
  obtain ⟨n, items, rfl, -, hread⟩ := forall₂_of_list h
  refine ⟨n, rfl, fun a ha => ?_⟩
  obtain ⟨i, hi, rfl⟩ := List.getElem_of_mem ha
  exact ⟨_, hread.get (hread.length_eq ▸ hi) hi⟩

namespace Codec

/-- Whatever text a value is read from, the text that is written for it is read as the same value,
    for which nothing else would be written. -/
def Canonical (c : Codec α) : Prop :=
  ∀ text a, c.parse text = .ok a → c.parse (c.print a) = .ok a ∧
    ∀ b, c.parse (c.print a) = .ok b → c.print b = c.print a

theorem exists_read_of_parse {c : Codec α} {text : List Char} {a : α} (h : c.parse text = .ok a) :
    ∃ d, c.read Reader.maxLevels d = .ok a := by
  obtain ⟨b, hread, hb⟩ := of_bind_eq_ok h
  split at hb
  · cases hb
  · rw [← Except.ok.inj hb]
    exact ⟨_, hread⟩

/-- It is enough that whatever is read can be recovered, at no more levels. -/
theorem canonical_of_read {c : Codec α} (h : ∀ {levels d a}, c.read levels d = .ok a →
    c.Faithful a ∧ (c.write a).depth ≤ levels) : c.Canonical := by
  intro text a ha
  obtain ⟨d, hread⟩ := exists_read_of_parse ha
  obtain ⟨hfaithful, hdepth⟩ := h hread
  have hprint : c.parse (c.print a) = .ok a := by rw [hfaithful.parse_print, if_pos hdepth]
  refine ⟨hprint, fun b hb => ?_⟩
  rw [hprint] at hb
  rw [Except.ok.inj hb]

end Codec

end Json

open Json (Codec Reader Record)

/-! ## Literals -/

variable {levels : Nat} {d : Json.Document}

theorem Number.finite_depth_of_read {n : Number} (h : Number.codec.read levels d = .ok n) :
    n.Finite ∧ (Number.codec.write n).depth ≤ levels := by
  obtain ⟨c, hc, hgives⟩ := Json.Variant.exists_case_of_read h
  simp only [List.mem_cons, List.not_mem_nil, or_false] at hc
  rcases hc with rfl | rfl
  · obtain ⟨m, e, p, rfl, hp, rfl⟩ := Json.Case.exists_of_gives hgives
    obtain ⟨k, found, rfl, -⟩ := Record.exists_found_of_read hp
    exact ⟨trivial, (Number.depth_codec_le _).trans (Nat.le_add_left 2 k)⟩
  · obtain ⟨m, e, x, rfl, hx, rfl⟩ := Json.Case.exists_of_gives hgives
    exact ⟨Reader.isFinite_of_float hx, Nat.le_add_left 1 m⟩

namespace Literal

theorem finite_list {items : List Literal} (h : ∀ l ∈ items, l.Finite) : (list items).Finite := by
  intro n hn
  obtain ⟨l, hl, hn⟩ := mem_flattenAll.1 hn
  exact h l hl n hn

/-- **A literal that is read is finite, and is nested no deeper than it was read.** -/
theorem finite_depth_of_read {l : Literal} (h : codec.read levels d = .ok l) :
    l.Finite ∧ l.json.depth ≤ levels := by
  induction levels using Nat.strongRecOn generalizing d l with
  | ind levels ih =>
    rw [read_eq_layer] at h
    obtain ⟨c, hc, hgives⟩ := Json.Variant.exists_case_of_read h
    simp only [plainCases, List.cons_append, List.nil_append, List.mem_cons, List.not_mem_nil,
      or_false] at hc
    rcases hc with rfl | rfl | rfl | rfl | rfl | rfl <;>
      obtain ⟨n, e, a, rfl, ha, rfl⟩ := Json.Case.exists_of_gives hgives
    · exact ⟨(Simple.text a).finite, Nat.le_add_left 1 n⟩
    · obtain ⟨hfinite, hdepth⟩ := Number.finite_depth_of_read ha
      exact ⟨(Simple.number hfinite).finite,
        (Json.Variant.depth_write _).trans_le (Nat.succ_le_succ hdepth)⟩
    · exact ⟨(Simple.bool a).finite, Nat.le_add_left 1 n⟩
    · exact ⟨(Simple.duration a).finite, Nat.le_add_left 1 n⟩
    · exact ⟨(Simple.lambda a).finite, Nat.le_add_left 1 n⟩
    · -- the items are two levels further down
      obtain ⟨m, rfl, hitems⟩ := Reader.exists_of_mem_list ha
      have hread (l : Literal) (hl : l ∈ a) : l.Finite ∧ l.json.depth ≤ m := by
        obtain ⟨e', he'⟩ := hitems l hl
        exact ih m (by omega) he'
      refine ⟨finite_list fun l hl => (hread l hl).1, ?_⟩
      rw [json, Json.Variant.depth_write, jsonAll_eq_map]
      have hlist : ((Codec.list codec).write a).depth ≤ m + 1 :=
        Codec.depth_list_le_iff.2 fun l hl => (hread l hl).2
      exact Nat.succ_le_succ hlist

end Literal

/-! ## Chains -/

theorem Call.finite_depth_of_read {c : Call} (h : Call.codec.read levels d = .ok c) :
    c.Finite ∧ (Call.codec.write c).depth ≤ levels := by
  obtain ⟨n, changes, rfl, hchanges, hfinish⟩ :=
    Record.exists_changes_of_read rfl (by decide) h
  obtain _ | ⟨⟨_, h₁⟩, _ | ⟨⟨_, h₂⟩, _ | _⟩⟩ := hchanges
  obtain ⟨name, -, rfl⟩ := Json.Field.exists_of_read h₁
  obtain ⟨args, hargs, rfl⟩ := Json.Field.exists_of_read h₂
  obtain rfl : ⟨name, args⟩ = c := Option.some.inj hfinish
  obtain ⟨m, rfl, hitems⟩ := Reader.exists_of_mem_list hargs
  have hread (l : Literal) (hl : l ∈ args) : l.Finite ∧ l.json.depth ≤ m := by
    obtain ⟨e, he⟩ := hitems l hl
    exact Literal.finite_depth_of_read he
  refine ⟨fun l hl => (hread l hl).1, ?_⟩
  have hdepth : ∀ l ∈ args, (Literal.codec.write l).depth ≤ m := fun l hl => (hread l hl).2
  simpa [codec, record, Record.complete] using hdepth

namespace Chain

/-- **A chain that is read is finite, and is nested no deeper than it was read.** -/
theorem finite_depth_of_read {c : Chain} (h : codec.read levels d = .ok c) :
    c.Finite ∧ c.json.depth ≤ levels := by
  induction levels using Nat.strongRecOn generalizing d c with
  | ind levels ih =>
    rw [read_eq_layer] at h
    obtain ⟨k, hk, hgives⟩ := Json.Variant.exists_case_of_read h
    simp only [List.cons_append, List.nil_append, List.mem_cons, List.not_mem_nil, or_false] at hk
    rcases hk with rfl | rfl <;> obtain ⟨n, e, s, rfl, hs, rfl⟩ := Json.Case.exists_of_gives hgives
    · exact ⟨fun l hl => absurd hl List.not_mem_nil, Nat.le_add_left 1 n⟩
    · -- what stands on the left is two levels further down, as the call is
      obtain ⟨m, changes, rfl, hchanges, hfinish⟩ :=
        Record.exists_changes_of_read rfl (by decide) hs
      obtain _ | ⟨⟨_, h₁⟩, _ | ⟨⟨_, h₂⟩, _ | ⟨⟨_, h₃⟩, _ | _⟩⟩⟩ := hchanges
      obtain ⟨left, hleft, rfl⟩ := Json.Field.exists_of_read h₁
      obtain ⟨operator, -, rfl⟩ := Json.Field.exists_of_read h₂
      obtain ⟨call, hcall, rfl⟩ := Json.Field.exists_of_read h₃
      obtain rfl : (left, ⟨operator, call⟩) = s := Option.some.inj hfinish
      obtain ⟨hleft, hleftDepth⟩ := ih m (by omega) hleft
      obtain ⟨hcall, hcallDepth⟩ := Call.finite_depth_of_read hcall
      refine ⟨?_, ?_⟩
      · simpa [Finite, append, or_imp, forall_and] using ⟨hleft, hcall⟩
      · rw [depth_append]
        exact Nat.add_le_add_right (Nat.max_le.2 ⟨hleftDepth, hcallDepth⟩) 2

/-- **Whatever the spelling, a chain, a literal or a call that is read can be written and read
    again**, and nothing is lost: neither is the form written nested too deep, nor is there a
    number in it that cannot be written. -/
theorem canonical : codec.Canonical ∧ Literal.codec.Canonical ∧ Call.codec.Canonical := by
  refine ⟨Codec.canonical_of_read fun h => ?_, Codec.canonical_of_read fun h => ?_,
    Codec.canonical_of_read fun h => ?_⟩
  · exact (finite_depth_of_read h).imp_left (faithful _)
  · exact (Literal.finite_depth_of_read h).imp_left Literal.faithful
  · exact (Call.finite_depth_of_read h).imp_left Call.faithful

/-- Lines and blanks, arrays for objects, a null behind a tag and members out of order, with an
    unknown one among them. -/
theorem canonical_spellings :
    let number (content : Json) : Json := .object [("Number", content)]
    let text := (Json.object [("Chain", .array [
      .object [("Identifier", .text "stream")],
      .object [("Pipe", .null)],
      .object [("x", .array [.array []]), ("args", .array [
        number (.object [("Int", .array [.int (-8), .object [("Octal", .null)]])]),
        number (.object [("Float", .float (.zero true))])]), ("name", .text "f")]])]).pretty ++ ['\n']
    let c : Chain := ⟨"stream", [⟨.pipe, ⟨"f",
      [.number (.int (-8) .octal), .number (.float (.zero true))]⟩⟩]⟩
    codec.parse text = .ok c ∧ codec.parse (codec.print c) = .ok c ∧
      ∀ b, codec.parse (codec.print c) = .ok b → codec.print b = codec.print c := by
  intro number text c
  have hparse : codec.parse text = .ok c := (Reader.parse_pretty _ _).trans rfl
  exact ⟨hparse, canonical.1 text c hparse⟩

end Chain

end Tickscript
