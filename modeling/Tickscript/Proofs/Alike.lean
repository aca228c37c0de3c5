/-
  Equal alerts are converted alike.

  Equality of alerts does not look at the order of headers and at the signs of zeros, but
  their calls show both.  So this is where the calls of equal alerts may differ, and they
  differ nowhere else.

  * `Link.beq_of_eq`: links without NaNs that are the same but for the signs of zeros are
    equal;
  * `Headers.perm_of_beq`: equal headers are the same in some order;
  * `Alert.eq_of_beq`: equal alerts are the same but for the thresholds and the post handlers;
  * `Alert.convert_congr`: their conversions fail alike, or give chains that agree but for
    the order of the headers of each post handler.
-/
import Mathlib.Data.List.Nodup
import Mathlib.Data.List.Perm.Subperm
import Tickscript.Proofs.Documents.Converted
import Tickscript.Proofs.Failure
import Tickscript.Proofs.Recovery.Alert

namespace Tickscript

open Setting

/-! ## Links -/

namespace Literal

mutual

/-- A literal without NaNs is equal to what is the same but for the signs of zeros. -/
theorem equals_of_eq : ∀ {l m : Literal}, l.Finite → l.dropZeroSign = m.dropZeroSign → l.equals m
  | .text s, m, _, h => by cases m <;> simp_all [dropZeroSign, equals]
  | .number (.int v b), m, _, h => by
    rcases m with _ | (_ | _) | _ | _ | _ | _ <;>
      simp_all [dropZeroSign, Number.dropZeroSign, equals, BEq.beq, instBEqNumber.beq]
  | .number (.float x), m, hl, h => by
    have hx : x.isFinite := hl (.float x) (by simp [flatten])
    rcases m with _ | (_ | y) | _ | _ | _ | _ <;>
      simp only [dropZeroSign, Number.dropZeroSign, number.injEq, Number.float.injEq,
        reduceCtorEq] at h
    exact Binary64.equals_of_isFinite hx h
  | .bool b, m, _, h => by cases m <;> simp_all [dropZeroSign, equals]
  | .duration n, m, _, h => by cases m <;> simp_all [dropZeroSign, equals]
  | .lambda e, m, _, h => by cases m <;> simp_all [dropZeroSign, equals]
  | .list ls, m, hl, h => by
    cases m <;> simp only [dropZeroSign, list.injEq, reduceCtorEq] at h
    exact equalsAll_of_eq (fun l hmem => finite_of_mem hl hmem) h

theorem equalsAll_of_eq : ∀ {ls ms : List Literal}, (∀ l ∈ ls, l.Finite) →
    dropZeroSigns ls = dropZeroSigns ms → equalsAll ls ms
  | [], [], _, _ => rfl
  | [], _ :: _, _, h => by simp [dropZeroSigns] at h
  | _ :: _, [], _, h => by simp [dropZeroSigns] at h
  | l :: ls, m :: ms, hl, h => by
    rw [List.forall_mem_cons] at hl
    simp only [dropZeroSigns, List.cons.injEq] at h
    rw [equalsAll, equals_of_eq hl.1 h.1, equalsAll_of_eq hl.2 h.2, Bool.and_self]

end

end Literal

/-- Lists that agree in what makes their items equal are equal. -/
theorem beq_of_map_eq {α β : Type} [BEq α] {f : α → β} : ∀ {as bs : List α},
    (∀ a ∈ as, ∀ b, f a = f b → a == b) → as.map f = bs.map f → as == bs
  | [], [], _, _ => rfl
  | [], _ :: _, _, h => by simp at h
  | _ :: _, [], _, h => by simp at h
  | a :: as, b :: bs, hf, h => by
    rw [List.forall_mem_cons] at hf
    rw [List.map_cons, List.map_cons, List.cons.injEq] at h
    rw [List.cons_beq_cons, hf.1 b h.1, beq_of_map_eq hf.2 h.2, Bool.and_self]

theorem forall₂_of_beq {α : Type} [BEq α] {R : α → α → Prop} (hR : ∀ {a b : α}, a == b → R a b) :
    ∀ {as bs : List α}, as == bs → List.Forall₂ R as bs
  | [], [], _ => .nil
  | [], _ :: _, h => by simp at h
  | _ :: _, [], h => by simp at h
  | a :: as, b :: bs, h => by
    rw [List.cons_beq_cons, Bool.and_eq_true] at h
    exact .cons (hR h.1) (forall₂_of_beq hR h.2)

theorem append_beq_append {α : Type} [BEq α] (front as bs : List α) :
    (front ++ as == front ++ bs) = (front == front && as == bs) := by
  induction front with
  | nil => simp
  | cons a front ih => simp only [List.cons_append, List.cons_beq_cons, ih, Bool.and_assoc]

/-- **A link without NaNs is equal to what is the same but for the signs of zeros.** -/
theorem Link.beq_of_eq {l m : Link} (hl : l.call.Finite) (h : l.dropZeroSign = m.dropZeroSign) :
    l == m := by
  obtain ⟨o, n, as⟩ := l
  obtain ⟨o', n', bs⟩ := m
  simp only [dropZeroSign, Link.mk.injEq, Call.mk.injEq] at h
  obtain ⟨rfl, rfl, hargs⟩ := h
  have hequal : as == bs := beq_of_map_eq (fun a ha _ => Literal.equals_of_eq (hl a ha)) hargs
  show (o == o && (n == n && as == bs)) = true
  rw [hequal, beq_self_eq_true, beq_self_eq_true]
  rfl

/-- A chain without infinities and NaNs is equal to itself. -/
theorem Chain.beq_self {c : Chain} (h : c.Finite) : c == c := by
  have hlinks : c.links == c.links := beq_of_map_eq (fun l hl _ => Link.beq_of_eq (h l hl)) rfl
  show (c.root == c.root && c.links == c.links) = true
  rw [hlinks, beq_self_eq_true]
  rfl

/-- Chains on top of the same one with equal links behind it are equal, as far as that one is equal
    to itself. -/
theorem Chain.append_beq_append (parent : Chain) {ls ms : List Link} (h : ls == ms) :
    ((⟨parent.root, parent.links ++ ls⟩ : Chain) == ⟨parent.root, parent.links ++ ms⟩)
      = (parent == parent) := by
  show (parent.root == parent.root && (parent.links ++ ls == parent.links ++ ms))
    = (parent.root == parent.root && (parent.links == parent.links))
  rw [Tickscript.append_beq_append, h, Bool.and_true]

/-! ## Headers -/

/-- **Equal headers are the same in some order.** -/
theorem Headers.perm_of_beq {g h : Headers} (heq : g == h) : g.entries.Perm h.entries := by
  have hparts : g.entries.length = h.entries.length ∧ ∀ e ∈ g.entries, e ∈ h.entries := by
    simpa [BEq.beq, Headers.equals] using heq
  have hnodup : g.entries.Nodup := g.distinct.of_map _
  exact (List.subperm_of_subset hnodup hparts.2).perm_of_length_le (Nat.le_of_eq hparts.1.symm)

namespace Handler

/-- The same calls but for the order of the headers. -/
structure HttpPost.Alike (g h : HttpPost) : Prop where
  opening : text "post" g.url ++ text "endpoint" g.endpoint
    = text "post" h.url ++ text "endpoint" h.endpoint
  headers : (g.headers.entries.flatMap headerCalls).Perm (h.headers.entries.flatMap headerCalls)

theorem HttpPost.parts_of_beq {g h : HttpPost} (heq : g == h) :
    g.url = h.url ∧ g.endpoint = h.endpoint ∧ g.headers == h.headers := by
  cases g
  cases h
  simpa [BEq.beq, instBEqHttpPost.beq] using heq

/-- **Equal post handlers make the same calls but for the order of the headers.** -/
theorem HttpPost.alike_of_beq {g h : HttpPost} (heq : g == h) : g.Alike h := by
  obtain ⟨hurl, hendpoint, hheaders⟩ := parts_of_beq heq
  exact ⟨by rw [hurl, hendpoint], (Headers.perm_of_beq hheaders).flatMap_right _⟩

theorem HttpPost.Alike.length_calls {g h : HttpPost} (hgh : g.Alike h) :
    g.calls.length = h.calls.length := by
  have hopening := congrArg List.length hgh.opening
  have hheaders := hgh.headers.length_eq
  simp only [List.length_append] at hopening
  simp only [HttpPost.calls, List.length_append]
  omega

theorem HttpPost.length_flatMap_calls {gs hs : List HttpPost} (h : List.Forall₂ Alike gs hs) :
    (gs.flatMap (·.calls)).length = (hs.flatMap (·.calls)).length := by
  induction h with
  | nil => rfl
  | cons hgh _ ih =>
    rw [List.flatMap_cons, List.flatMap_cons, List.length_append, List.length_append,
      hgh.length_calls, ih]

/-- Equal post handlers with their headers in the same order are the same. -/
theorem HttpPost.eq_of_beq {g h : HttpPost} (heq : g == h)
    (horder : g.headers.entries = h.headers.entries) : g = h := by
  obtain ⟨hurl, hendpoint, -⟩ := parts_of_beq heq
  obtain ⟨url, endpoint, ⟨entries, _⟩⟩ := g
  obtain ⟨url', endpoint', ⟨entries', _⟩⟩ := h
  simp_all

deriving instance LawfulBEq for Tcp, Email, Exec, Log, VictorOps, PagerDuty, Pushover, Sensu, Slack
deriving instance LawfulBEq for Telegram, HipChat, Alerta, OpsGenie, Talk, Mqtt, SnmpData
deriving instance LawfulBEq for SnmpTrap

end Handler

/-! ## Alerts -/

namespace Alert

variable {a b : Alert}

/-- Equal alerts are the same but for what equality does not look at. -/
theorem eq_of_beq (h : a == b) :
    b = { a with
      flapLow := b.flapLow
      flapHigh := b.flapHigh
      httpPostHandlers := b.httpPostHandlers } ∧
    a.flapLow == b.flapLow ∧ a.flapHigh == b.flapHigh ∧ a.httpPostHandlers == b.httpPostHandlers := by
  cases a
  cases b
  have hparts : instBEqAlert.beq _ _ = true := h
  simp only [instBEqAlert.beq, Bool.and_eq_true, beq_iff_eq] at hparts
  simp_all

/-- What is not finite has no sign to lose. -/
theorem failure_dropZeroSigns (a : Alert) : a.dropZeroSigns.failure = a.failure := by
  have hsame {x : Binary64} (hx : x.isFinite = false) : x.dropZeroSign = x := by
    cases x with
    | finite => cases hx
    | _ => rfl
  simp only [failure, dropZeroSigns, Binary64.isFinite_dropZeroSign]
  split_ifs with _ _ hlow hhigh
  · rfl
  · rfl
  · rw [hsame hlow.2]
  · rw [hsame hhigh.2]
  · rfl

/-- **Equal alerts fail alike.** -/
theorem failure_eq_of_beq (h : a == b) : a.failure = b.failure := by
  obtain ⟨hb, hlow, hhigh, -⟩ := eq_of_beq h
  have hlow' := (Binary64.equals_iff.1 hlow).2
  have hhigh' := (Binary64.equals_iff.1 hhigh).2
  have hlimits : a.dropZeroSigns.SameLimits b.dropZeroSigns := by
    rw [hb]
    exact ⟨rfl, rfl, fun _ => rfl, rfl, fun _ => ⟨hlow', hhigh'⟩⟩
  rw [← failure_dropZeroSigns, failure_congr hlimits, failure_dropZeroSigns]

/-- **Equal alerts have the same calls behind those of the post handlers.** -/
theorem exists_calls_of_beq (h : a == b) : ∃ back,
    a.calls = a.settingCalls ++ a.httpPostHandlers.flatMap (·.calls) ++ back ∧
      b.calls = b.settingCalls ++ b.httpPostHandlers.flatMap (·.calls) ++ back := by
  have hsplit : ∃ others, a.handlers = a.httpPostHandlers.map .httpPost ++ others ∧
      b.handlers = b.httpPostHandlers.map .httpPost ++ others := by
    rw [(eq_of_beq h).1]
    simp only [handlers, List.append_assoc]
    exact ⟨_, rfl, rfl⟩
  obtain ⟨others, ha, hb⟩ := hsplit
  refine ⟨others.flatMap Handler.calls, ?_, ?_⟩
  · rw [calls_eq, ha, List.flatMap_append, List.flatMap_map, List.append_assoc]
    rfl
  · rw [calls_eq, hb, List.flatMap_append, List.flatMap_map, List.append_assoc]
    rfl

theorem settingCalls_eq_of_beq (h : a == b) :
    a.settingCalls.map Link.dropZeroSign = b.settingCalls.map Link.dropZeroSign := by
  obtain ⟨hb, hlow, hhigh, -⟩ := eq_of_beq h
  have hlow' := (Binary64.equals_iff.1 hlow).2
  have hhigh' := (Binary64.equals_iff.1 hhigh).2
  rw [settingCalls_dropZeroSigns, settingCalls_dropZeroSigns, hb]
  simp only [dropZeroSigns, hlow', hhigh']
  rfl

theorem httpPostHandlers_eq_of_beq (h : a == b)
    (horder : a.httpPostHandlers.map (·.headers.entries) = b.httpPostHandlers.map (·.headers.entries)) :
    a.httpPostHandlers = b.httpPostHandlers := by
  have hposts : List.Forall₂ (fun g h => g == h) a.httpPostHandlers b.httpPostHandlers :=
    forall₂_of_beq (fun hgh => hgh) (eq_of_beq h).2.2.2
  generalize a.httpPostHandlers = gs, b.httpPostHandlers = hs at hposts horder
  induction hposts with
  | nil => rfl
  | cons hgh _ ih =>
    rw [List.map_cons, List.map_cons, List.cons.injEq] at horder
    rw [Handler.HttpPost.eq_of_beq hgh horder.1, ih horder.2]

theorem finite_of_mem_calls (he : a.Encodable) : ∀ l ∈ a.calls, l.call.Finite :=
  fun l hl x hx => (simple_of_mem_calls he l hl x hx).finite

theorem settingCalls_beq (he : a.Encodable) (h : a == b) : a.settingCalls == b.settingCalls := by
  refine beq_of_map_eq (fun l hl _ => Link.beq_of_eq ?_) (settingCalls_eq_of_beq h)
  exact finite_of_mem_calls he l (calls_eq a ▸ List.mem_append_left _ hl)

/-- Equal alerts with all headers in the same order have equal calls. -/
theorem calls_beq (he : a.Encodable) (h : a == b)
    (horder : a.httpPostHandlers.map (·.headers.entries) = b.httpPostHandlers.map (·.headers.entries)) :
    a.calls == b.calls := by
  refine beq_of_map_eq (fun l hl _ => Link.beq_of_eq (finite_of_mem_calls he l hl)) ?_
  obtain ⟨back, ha, hb⟩ := exists_calls_of_beq h
  rw [ha, hb, httpPostHandlers_eq_of_beq h horder]
  simp only [List.map_append, settingCalls_eq_of_beq h]

/-- **Equal alerts are converted alike.**  Either both conversions fail, and with the same failure;
    or both give chains with links that are equal position by position, except that the headers of
    each post handler may come in another order.  With the headers in the same order, the chains are
    equal, just as the parent is equal to itself, which a parent with a NaN in it is not. -/
theorem convert_congr (parent : Chain) (h : a == b) :
    (∃ e, (a.convert parent).result = .error e ∧ (b.convert parent).result = .error e) ∨
    ∃ c d : Chain, (a.convert parent).result = .ok c ∧ (b.convert parent).result = .ok d ∧
      c.root = d.root ∧ c.links.length = d.links.length ∧
      (∃ back,
        c.links = parent.links ++ (a.settingCalls ++ a.httpPostHandlers.flatMap (·.calls) ++ back) ∧
        d.links = parent.links ++ (b.settingCalls ++ b.httpPostHandlers.flatMap (·.calls) ++ back) ∧
        a.settingCalls == b.settingCalls ∧
        List.Forall₂ Handler.HttpPost.Alike a.httpPostHandlers b.httpPostHandlers) ∧
      (a.httpPostHandlers.map (·.headers.entries) = b.httpPostHandlers.map (·.headers.entries) →
        (c == d) = (parent == parent) ∧ (parent.Finite → c == d)) := by
  have hfailure := failure_eq_of_beq h
  cases ha : a.failure with
  | some e =>
    refine Or.inl ⟨e, ?_, ?_⟩
    · rw [convert_eq_error_iff, ← failure_eq, ha]
    · rw [convert_eq_error_iff, ← failure_eq, ← hfailure, ha]
  | none =>
    have hea : a.Encodable := by rw [← firstFailure_steps_eq_none, ← failure_eq, ha]
    have heb : b.Encodable := by rw [← firstFailure_steps_eq_none, ← failure_eq, ← hfailure, ha]
    obtain ⟨back, hcalls, hcalls'⟩ := exists_calls_of_beq h
    have hposts : List.Forall₂ Handler.HttpPost.Alike a.httpPostHandlers b.httpPostHandlers :=
      forall₂_of_beq Handler.HttpPost.alike_of_beq (eq_of_beq h).2.2.2
    have hfront : a.settingCalls.length = b.settingCalls.length := by
      simpa using congrArg List.length (settingCalls_eq_of_beq h)
    have hlength : a.calls.length = b.calls.length := by
      rw [hcalls, hcalls']
      simp only [List.length_append, hfront, Handler.HttpPost.length_flatMap_calls hposts]
    refine Or.inr ⟨_, _, convert_ok_iff.2 ⟨hea, rfl⟩, convert_ok_iff.2 ⟨heb, rfl⟩, rfl, ?_, ?_, ?_⟩
    · rw [List.length_append, List.length_append, hlength]
    · exact ⟨back, congrArg _ hcalls, congrArg _ hcalls', settingCalls_beq hea h, hposts⟩
    · intro horder
      have hequal := Chain.append_beq_append parent (calls_beq hea h horder)
      exact ⟨hequal, fun hparent => hequal.trans (Chain.beq_self hparent)⟩

/-- Two headers in either order, and a zero of either sign: the headers change places, and nothing
    else does. -/
theorem convert_congr_headers :
    let one : Handler.HttpPost := {
      url := "u", headers := (Headers.empty.insert "a" "1").insert "b" "2" }
    let other : Handler.HttpPost := {
      url := "u", headers := (Headers.empty.insert "b" "2").insert "a" "1" }
    let a : Alert := {
      useFlapping := true, flapLow := .zero true, httpPostHandlers := [one], logHandlers := [{}] }
    let b : Alert := { a with flapLow := .zero false, httpPostHandlers := [other] }
    a == b ∧ ∃ c d : Chain, (a.convert (.identifier "stream")).result = .ok c ∧
      (b.convert (.identifier "stream")).result = .ok d ∧ c.links.length = d.links.length ∧
      a.settingCalls == b.settingCalls ∧ one.Alike other ∧ (one.calls == other.calls) = false := by
  intro one other a b
  have hab : a == b := by decide
  have ha : (a.convert (.identifier "stream")).result = .ok ⟨"stream", a.calls⟩ :=
    convert_ok_iff.2 ⟨⟨by decide, by decide, fun _ => by decide⟩, rfl⟩
  rcases convert_congr (.identifier "stream") hab with
    ⟨e, he, -⟩ | ⟨c, d, hc, hd, -, hlength, ⟨back, -, -, hsettings, hposts⟩, -⟩
  · rw [ha] at he
    cases he
  · cases hposts with
    | cons hpost _ => exact ⟨hab, c, d, hc, hd, hlength, hsettings, hpost, by decide⟩

end Alert

end Tickscript
