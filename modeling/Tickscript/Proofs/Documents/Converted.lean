/-
  Converted alerts in documents and back.

  Each call of a chain lies two containers deeper in its document than the call in
  front of it, and a reader goes down 127 levels.  So the chain of an alert can be
  read back if its calls are not too many.

  * `Step.simple_of_mem_links`: the calls of an alert have simple arguments;
  * `Chain.depth_bounds`: how deep a chain is nested whose calls have such literals;
  * `Alert.parse_print_converted`: the chain of an alert on top of a name is read back
    up to 62 calls, and refused beyond;
  * `Alert.not_parse_print_recipients`: an alert with more.
-/
import Tickscript.Chain.Render
import Tickscript.Proofs.Calls
import Tickscript.Proofs.Documents.Chain
import Tickscript.Proofs.WellFormed

namespace Tickscript

open Json (Record)

/-! ## Literals of arguments -/

/-- The literals that arguments have: no lists but those of texts, and finite doubles only. -/
inductive Literal.Simple : Literal → Prop
  | text (s : String) : Simple (.text s)
  | number {n : Number} : n.Finite → Simple (.number n)
  | bool (b : Bool) : Simple (.bool b)
  | duration (n : Int64) : Simple (.duration n)
  | lambda (e : String) : Simple (.lambda e)
  | list (items : List String) : Simple (.list (items.map .text))

theorem Literal.WellFormed.simple {l : Literal} (h : l.WellFormed) : l.Simple := by
  cases h with
  | text s => exact .text s
  | decimal | based => exact .number trivial
  | float hx => exact .number hx
  | bool b => exact .bool b
  | duration => exact .duration _
  | lambda e => exact .lambda e
  | list items => exact .list items

/-- Each argument of a link that a step adds is simple. -/
theorem Step.simple_of_mem_links {s : Step} {l : Link} (hl : l ∈ s.links) :
    ∀ x ∈ l.call.args, x.Simple := fun x hx => (wellFormed_of_mem_links hl x hx).simple

theorem Literal.Simple.finite {l : Literal} (h : l.Simple) : l.Finite := by
  intro n hn
  cases h with
  | number hm =>
    obtain rfl : n = _ := by simpa [flatten] using hn
    exact hm
  | list items =>
    obtain ⟨l, hl, hn⟩ := mem_flattenAll.1 hn
    obtain ⟨s, -, rfl⟩ := List.mem_map.1 hl
    simp [flatten] at hn
  | _ => simp [flatten] at hn

/-! ## Nesting of chains -/

theorem Number.depth_codec_le (n : Number) : (Number.codec.write n).depth ≤ 2 := by
  cases n with
  | int value base =>
    have hbase : (Base.codec.write base).depth = 0 := by cases base <;> rfl
    have hbased : (based.codec.write (value, base)).depth ≤ 1 := by
      simp [based, Record.complete, hbase]
    exact (Json.Variant.depth_write _).trans_le (Nat.succ_le_succ hbased)
  | float x => exact Nat.succ_le_succ (Nat.zero_le 1)

theorem Literal.Simple.depth_le {l : Literal} (h : l.Simple) : l.json.depth ≤ 3 := by
  cases h with
  | @number n _ =>
    have hn := n.depth_codec_le
    rw [json, Json.Variant.depth_write]
    omega
  | list items =>
    have hitems : Json.depthItems (jsonAll (items.map .text)) ≤ 1 := by
      simp [jsonAll_eq_map, Json.depthItems_le_iff, json, Json.depth]
    rw [json, Json.Variant.depth_write, Json.depth]
    omega
  | _ => simp [json, Json.depth]

/-- A call lies two levels above its deepest argument. -/
theorem Call.depth_codec_le {c : Call} (h : ∀ l ∈ c.args, l.Simple) :
    (Call.codec.write c).depth ≤ 5 := by
  have hargs : ∀ l ∈ c.args, (Literal.codec.write l).depth ≤ 3 := fun l hl => (h l hl).depth_le
  simpa [Call.codec, Call.record, Record.complete] using hargs

namespace Chain

theorem depth_append (c : Chain) (l : Link) :
    (c.append l).json.depth = max c.json.depth (Call.codec.write l.call).depth + 2 := by
  have hjson : (c.append l).json = jsonLink c.json l := List.foldl_append
  have hoperator : (Operator.codec.write l.operator).depth = 0 := by cases l.operator <;> rfl
  simp [hjson, jsonLink, Json.Variant.write, Json.depth, Json.depthMembers, hoperator]

/-- Two levels for each call behind the first, and one more if a call is deep itself. -/
theorem depth_bounds (root : String) (first : Link) {rest : List Link}
    (hfirst : (Call.codec.write first.call).depth = 2)
    (hrest : ∀ l ∈ rest, (Call.codec.write l.call).depth ≤ 5) :
    2 * rest.length + 4 ≤ (⟨root, first :: rest⟩ : Chain).json.depth ∧
      (⟨root, first :: rest⟩ : Chain).json.depth ≤ 2 * rest.length + 5 := by
  induction rest using List.reverseRecOn with
  | nil =>
    have hdepth : (⟨root, [first]⟩ : Chain).json.depth = _ :=
      depth_append (identifier root) first
    have hroot : (identifier root).json.depth = 1 := rfl
    rw [hdepth, hroot, hfirst]
    decide
  | append_singleton rest l ih =>
    have hdepth := depth_append ⟨root, first :: rest⟩ l
    have hl := hrest l (List.mem_append_right _ List.mem_cons_self)
    have ih := ih fun m hm => hrest m (List.mem_append_left _ hm)
    -- the chain in front is at least four deep, so a call decides at most the first step
    simp only [append, List.cons_append] at hdepth
    rw [hdepth, List.length_append, List.length_singleton]
    omega

end Chain

/-! ## Conversion -/

namespace Alert

variable {p : String} {a : Alert}

theorem convert_identifier_ok_iff {c : Chain} :
    (a.convert (.identifier p)).result = .ok c ↔ a.Encodable ∧ c = ⟨p, a.calls⟩ :=
  convert_ok_iff

theorem simple_of_mem_calls (h : a.Encodable) : ∀ l ∈ a.calls, ∀ x ∈ l.call.args, x.Simple := by
  intro l hl
  rw [← links_steps h] at hl
  obtain ⟨s, -, hs⟩ := List.mem_flatMap.1 hl
  exact Step.simple_of_mem_links hs

theorem faithful_calls (h : a.Encodable) : Chain.codec.Faithful ⟨p, a.calls⟩ :=
  Chain.faithful _ fun l hl x hx => (simple_of_mem_calls h l hl x hx).finite

/-- Two levels for each call, and two or three more. -/
theorem depth_calls (h : a.Encodable) :
    2 * a.calls.length + 2 ≤ (⟨p, a.calls⟩ : Chain).json.depth ∧
      (⟨p, a.calls⟩ : Chain).json.depth ≤ 2 * a.calls.length + 3 := by
  have hcalls := simple_of_mem_calls h
  obtain ⟨rest, hrest⟩ : ∃ rest, a.calls = ⟨.pipe, ⟨"alert", []⟩⟩ :: rest := ⟨_, rfl⟩
  rw [hrest] at hcalls ⊢
  have hfirst : (Call.codec.write ⟨"alert", []⟩).depth = 2 := rfl
  have hbounds := Chain.depth_bounds p ⟨.pipe, ⟨"alert", []⟩⟩ hfirst
    fun l hl => Call.depth_codec_le (hcalls l (List.mem_cons_of_mem _ hl))
  rw [List.length_cons]
  omega

theorem parse_print_calls (p : String) (h : a.Encodable) :
    Chain.codec.parse (Chain.codec.print ⟨p, a.calls⟩)
      = if a.calls.length ≤ 62 then .ok ⟨p, a.calls⟩ else .error .malformed := by
  have hdepth : (⟨p, a.calls⟩ : Chain).json.depth ≤ 127 ↔ a.calls.length ≤ 62 := by
    obtain ⟨hmin, hmax⟩ := depth_calls (p := p) h
    omega
  have hparse : Chain.codec.parse (Chain.codec.print ⟨p, a.calls⟩)
      = if (⟨p, a.calls⟩ : Chain).json.depth ≤ 127 then .ok ⟨p, a.calls⟩ else .error .malformed :=
    (faithful_calls h).parse_print
  simp only [hparse, hdepth]

/-- **The chain of an alert on top of a name is read back from its text as it is, and gives the
    same script, as long as it has 62 calls at most; with more it is refused for its nesting.** -/
theorem parse_print_converted {c : Chain} (h : (a.convert (.identifier p)).result = .ok c) :
    (c.links.length ≤ 62 → ∃ b, Chain.codec.parse (Chain.codec.print c) = .ok b ∧
      b = c ∧ b.render = c.render) ∧
    (62 < c.links.length →
      Chain.codec.parse (Chain.codec.print c) = .error .malformed) := by
  obtain ⟨he, rfl⟩ := convert_identifier_ok_iff.1 h
  refine ⟨fun hlength => ⟨_, ?_, rfl, rfl⟩, fun hlength => ?_⟩
  · exact (parse_print_calls p he).trans (if_pos hlength)
  · exact (parse_print_calls p he).trans (if_neg (Nat.not_le.2 hlength))

theorem parse_print_converted_log :
    let a : Alert := { topic := "cpu", logHandlers := [{}] }
    let c : Chain := ⟨"stream", a.calls⟩
    c.callNames = ["alert", "topic", "mode"] ∧
      (a.convert (.identifier "stream")).result = .ok c ∧
      ∃ b, Chain.codec.parse (Chain.codec.print c) = .ok b ∧ b = c ∧ b.render = c.render := by
  intro a c
  have h : (a.convert (.identifier "stream")).result = .ok c :=
    convert_identifier_ok_iff.2 ⟨⟨by decide, fun _ => by decide, fun _ => by decide⟩, rfl⟩
  exact ⟨by decide, h, (parse_print_converted h).1 (by decide)⟩

/-- An e-mail to 61 recipients makes a chain that cannot be read back. -/
theorem not_parse_print_recipients :
    let a : Alert := { emailHandlers := [{ toList := List.replicate 61 "a" }] }
    let c : Chain := ⟨"stream", a.calls⟩
    (a.convert (.identifier "stream")).result = .ok c ∧
      Chain.codec.parse (Chain.codec.print c) = .error .malformed := by
  intro a c
  have he : a.Encodable := ⟨by decide, fun _ => by decide, fun _ => by decide⟩
  have hlength : ¬ a.calls.length ≤ 62 := by decide
  have hparse := parse_print_calls "stream" he
  rw [if_neg hlength] at hparse
  exact ⟨convert_identifier_ok_iff.2 ⟨he, rfl⟩, hparse⟩

end Alert

end Tickscript
