/-
  Recovery of handlers from their calls.

  The calls of a handler are a list in which a setting that is not set leaves no
  trace.  Still nothing is lost of a handler in normal form (`Handler.Normal`): its
  calls have different names, but for the items of a list, so that each setting is
  found by its name (`named`); and every handler starts with the name of its kind,
  which is the name of no setting.

  * `Handler.calls_injective`: a handler is recovered from its calls;
  * `Handler.flatMap_calls_injective`: so is a list of handlers, although nothing
    marks where the calls of one end.
-/
import Mathlib.Data.List.Basic
import Tickscript.Proofs.Calls
import Tickscript.Proofs.Words

namespace Tickscript

open Setting

/-! ## Calls by name -/

/-- The links whose calls have the given name. -/
def named (name : String) (ls : List Link) : List Link := ls.filter (·.call.name == name)

section
variable (m n : String)

@[simp] theorem named_append (ls ms : List Link) :
    named n (ls ++ ms) = named n ls ++ named n ms := List.filter_append ..

@[simp] theorem named_when (p : Prop) [Decidable p] (args : List Literal) :
    named m (when p n args) = if n = m then when p n args else [] := by
  by_cases hp : p <;> by_cases hn : n = m <;> simp [named, when, hp, hn]

@[simp] theorem named_text (s : String) :
    named m (text n s) = if n = m then text n s else [] := named_when ..

@[simp] theorem named_texts (ss : List String) :
    named m (texts n ss) = if n = m then texts n ss else [] := named_when ..

@[simp] theorem named_number (k : Nat) :
    named m (number n k) = if n = m then number n k else [] := named_when ..

@[simp] theorem named_flag (b : Bool) :
    named m (flag n b) = if n = m then flag n b else [] := named_when ..

@[simp] theorem named_opening : named m (opening n) = if n = m then opening n else [] :=
  named_when ..

@[simp] theorem named_expression (e : Option String) :
    named m (expression n e) = if n = m then expression n e else [] := by
  cases e with
  | none => simp [expression, named]
  | some e => exact named_when ..

theorem named_flatMap {α : Type} {f : α → List Link}
    (hf : ∀ x m, named m (f x) = if n = m then f x else []) (xs : List α) :
    named m (xs.flatMap f) = if n = m then xs.flatMap f else [] := by
  induction xs with
  | nil => simp [named]
  | cons x xs ih =>
    rw [List.flatMap_cons, named_append, hf, ih]
    split <;> simp

@[simp] theorem named_flatMap_text (ss : List String) :
    named m (ss.flatMap (text n)) = if n = m then ss.flatMap (text n) else [] :=
  named_flatMap m n (fun s m => named_text m n s) ss

@[simp] theorem named_headerCalls (es : List (String × String)) :
    named m (es.flatMap Handler.headerCalls) =
      if "header" = m then es.flatMap Handler.headerCalls else [] :=
  named_flatMap m "header" (fun _ m => named_when m ..) es

@[simp] theorem named_dataCalls (ds : List Handler.SnmpData) :
    named m (ds.flatMap Handler.SnmpData.calls) =
      if "data" = m then ds.flatMap Handler.SnmpData.calls else [] :=
  named_flatMap m "data" (fun _ m => named_when m ..) ds

end

/-! ## Settings from their calls -/

section
variable {n : String}

theorem text_injective {s t : String} (h : text n s = text n t) : s = t := by
  by_cases hs : s = "" <;> by_cases ht : t = "" <;> simp_all [text, when]

theorem texts_injective {ss ts : List String} (h : texts n ss = texts n ts) : ss = ts := by
  have hinj : Function.Injective Literal.text := fun s t h => Literal.text.inj h
  by_cases hs : ss = [] <;> by_cases ht : ts = [] <;>
    simp_all [texts, when, List.map_inj_right (fun s t h => hinj h)]

theorem number_injective {j k : Nat} (hj : j < 2 ^ 63) (hk : k < 2 ^ 63)
    (h : number n j = number n k) : j = k := by
  by_cases h0 : j = 0 <;> by_cases h1 : k = 0
  · rw [h0, h1]
  · simp [number, when, h0, h1] at h
  · simp [number, when, h0, h1] at h
  · exact (ofNat_inj hj hk).1 (by simpa [number, when, h0, h1] using h)

theorem when_injective {p q : Prop} [Decidable p] [Decidable q] {args args' : List Literal}
    (h : when p n args = when q n args') : (p ↔ q) ∧ (p → args = args') := by
  by_cases hp : p <;> by_cases hq : q <;> simp_all [when]

/-- A list is recovered from its calls, if every item has one of its own. -/
theorem items_injective {α : Type} {p : α → Prop} {f : α → List Link} {g : α → Link}
    (hf : ∀ x, p x → f x = [g x]) (hg : Function.Injective g) {xs ys : List α}
    (hxs : ∀ x ∈ xs, p x) (hys : ∀ y ∈ ys, p y) (h : xs.flatMap f = ys.flatMap f) : xs = ys := by
  have hmap : ∀ zs : List α, (∀ z ∈ zs, p z) → zs.flatMap f = zs.map g := by
    intro zs hzs
    rw [List.map_eq_flatMap]
    exact List.flatMap_congr fun z hz => hf z (hzs z hz)
  rw [hmap xs hxs, hmap ys hys] at h
  exact List.map_injective_iff.2 hg h

theorem flatMap_text_injective {ss ts : List String} (hs : ∀ s ∈ ss, s ≠ "")
    (ht : ∀ t ∈ ts, t ≠ "") (h : ss.flatMap (text n) = ts.flatMap (text n)) : ss = ts :=
  items_injective (g := fun s => ⟨.dot, ⟨n, [.text s]⟩⟩) (fun _ hs => if_pos hs)
    (fun s t he => by simpa using he) hs ht h

theorem headerCalls_injective {es fs : List (String × String)}
    (he : ∀ e ∈ es, e.1 ≠ "" ∧ e.2 ≠ "") (hf : ∀ f ∈ fs, f.1 ≠ "" ∧ f.2 ≠ "")
    (h : es.flatMap Handler.headerCalls = fs.flatMap Handler.headerCalls) : es = fs :=
  items_injective (f := Handler.headerCalls)
    (g := fun e => ⟨.dot, ⟨"header", [.text e.1, .text e.2]⟩⟩)
    (fun _ he => if_pos he) (fun e f he => by simpa [Prod.ext_iff] using he) he hf h

theorem dataCalls_injective {ds es : List Handler.SnmpData}
    (hd : ∀ d ∈ ds, d.oid ≠ "" ∧ d.kind ≠ "" ∧ d.value ≠ "")
    (he : ∀ e ∈ es, e.oid ≠ "" ∧ e.kind ≠ "" ∧ e.value ≠ "")
    (h : ds.flatMap Handler.SnmpData.calls = es.flatMap Handler.SnmpData.calls) : ds = es :=
  items_injective (f := Handler.SnmpData.calls)
    (g := fun d => ⟨.dot, ⟨"data", [.text d.oid, .text d.kind, .text d.value]⟩⟩)
    (fun _ hd => if_pos hd) (fun d e he => by cases d; cases e; simpa using he) hd he h

theorem flag_injective {b c : Bool} (h : flag n b = flag n c) : b = c :=
  Bool.eq_iff_iff.2 (when_injective h).1

theorem expression_injective {e f : Option String} (he : e ≠ some "") (hf : f ≠ some "")
    (h : expression n e = expression n f) : e = f := by
  cases e with
  | none =>
    cases f with
    | none => rfl
    | some f =>
      have hf' : f ≠ "" := by
        rintro rfl
        exact hf rfl
      simp [expression, when, hf'] at h
  | some e =>
    have he' : e ≠ "" := by
      rintro rfl
      exact he rfl
    cases f with
    | none => simp [expression, when, he'] at h
    | some f =>
      have hf' : f ≠ "" := by
        rintro rfl
        exact hf rfl
      simpa [expression, when, he', hf'] using h

end

/-! ## Handlers -/

namespace Handler

/-- A handler in normal form: it is opened by a call, and none of its lists has an item that
    leaves no trace. -/
def Normal : Handler → Prop
  | httpPost h => h.url ≠ "" ∧ ∀ e ∈ h.headers.entries, e.1 ≠ "" ∧ e.2 ≠ ""
  | email h => ∀ s ∈ h.toList, s ≠ ""
  | exec h => h.command ≠ []
  | log h => h.filePath ≠ ""
  | snmpTrap h => h.trapOid ≠ "" ∧ ∀ d ∈ h.dataList, d.oid ≠ "" ∧ d.kind ≠ "" ∧ d.value ≠ ""
  | _ => True

theorem HttpPost.calls_injective {g h : HttpPost} (hg : (httpPost g).Normal)
    (hh : (httpPost h).Normal) (heq : g.calls = h.calls) : g = h := by
  have field n : named n g.calls = named n h.calls := by rw [heq]
  simp only [calls] at field
  have hurl : g.url = h.url := text_injective (by simpa using field "post")
  have hendpoint : g.endpoint = h.endpoint := text_injective (by simpa using field "endpoint")
  have hheaders : g.headers.entries = h.headers.entries :=
    headerCalls_injective hg.2 hh.2 (by simpa using field "header")
  obtain ⟨_, _, _, _⟩ := g
  obtain ⟨_, _, _, _⟩ := h
  simp_all

theorem Tcp.calls_injective {g h : Tcp} (heq : g.calls = h.calls) : g = h := by
  have field n : named n g.calls = named n h.calls := by rw [heq]
  simp only [calls] at field
  have haddress : g.address = h.address := text_injective (by simpa using field "address")
  cases g; cases h; simp_all

theorem Email.calls_injective {g h : Email} (hg : (email g).Normal) (hh : (email h).Normal)
    (heq : g.calls = h.calls) : g = h := by
  have field n : named n g.calls = named n h.calls := by rw [heq]
  simp only [calls] at field
  have hto : g.toList = h.toList :=
    flatMap_text_injective hg hh (by simpa using field "to")
  cases g; cases h; simp_all

theorem Exec.calls_injective {g h : Exec} (heq : g.calls = h.calls) : g = h := by
  have hcommand : g.command = h.command := texts_injective heq
  cases g; cases h; simp_all

theorem Log.calls_injective {g h : Log} (heq : g.calls = h.calls) : g = h := by
  have field n : named n g.calls = named n h.calls := by rw [heq]
  simp only [calls] at field
  have hpath : g.filePath = h.filePath := text_injective (by simpa using field "log")
  have hmode : g.mode = h.mode := by
    have hargs := (when_injective (by simpa using field "mode")).2 trivial
    have hints : Int64.ofNat g.mode.toNat = Int64.ofNat h.mode.toNat := by simpa using hargs
    exact UInt32.toNat_inj.1 ((ofNat_inj (mode_lt g.mode) (mode_lt h.mode)).1 hints)
  cases g; cases h; simp_all

theorem VictorOps.calls_injective {g h : VictorOps} (heq : g.calls = h.calls) : g = h := by
  have field n : named n g.calls = named n h.calls := by rw [heq]
  simp only [calls] at field
  have hkey : g.routingKey = h.routingKey := text_injective (by simpa using field "routingKey")
  cases g; cases h; simp_all

theorem PagerDuty.calls_injective {g h : PagerDuty} (heq : g.calls = h.calls) : g = h := by
  have field n : named n g.calls = named n h.calls := by rw [heq]
  simp only [calls] at field
  have hkey : g.serviceKey = h.serviceKey := text_injective (by simpa using field "serviceKey")
  cases g; cases h; simp_all

theorem Pushover.calls_injective {g h : Pushover} (heq : g.calls = h.calls) : g = h := by
  have field n : named n g.calls = named n h.calls := by rw [heq]
  simp only [calls] at field
  have hkey : g.userKey = h.userKey := text_injective (by simpa using field "userKey")
  have hdevice : g.device = h.device := text_injective (by simpa using field "device")
  have htitle : g.title = h.title := text_injective (by simpa using field "title")
  have hurl : g.url = h.url := text_injective (by simpa using field "url")
  have hurlTitle : g.urlTitle = h.urlTitle := text_injective (by simpa using field "urlTitle")
  have hsound : g.sound = h.sound := text_injective (by simpa using field "sound")
  cases g; cases h; simp_all

theorem Sensu.calls_injective {g h : Sensu} (heq : g.calls = h.calls) : g = h := by
  have field n : named n g.calls = named n h.calls := by rw [heq]
  simp only [calls] at field
  have hsource : g.source = h.source := text_injective (by simpa using field "source")
  have hhandlers : g.handlersList = h.handlersList :=
    texts_injective (by simpa using field "handlers")
  cases g; cases h; simp_all

theorem Slack.calls_injective {g h : Slack} (heq : g.calls = h.calls) : g = h := by
  have field n : named n g.calls = named n h.calls := by rw [heq]
  simp only [calls] at field
  have hchannel : g.channel = h.channel := text_injective (by simpa using field "channel")
  have husername : g.username = h.username := text_injective (by simpa using field "username")
  have hicon : g.iconEmoji = h.iconEmoji := text_injective (by simpa using field "iconEmoji")
  cases g; cases h; simp_all

theorem Telegram.calls_injective {g h : Telegram} (heq : g.calls = h.calls) : g = h := by
  have field n : named n g.calls = named n h.calls := by rw [heq]
  simp only [calls] at field
  have hchat : g.chatId = h.chatId := text_injective (by simpa using field "chatId")
  have hmode : g.parseMode = h.parseMode := text_injective (by simpa using field "parseMode")
  have hpreview : g.disableWebPagePreview = h.disableWebPagePreview :=
    flag_injective (by simpa using field "disableWebPagePreview")
  have hnotification : g.disableNotification = h.disableNotification :=
    flag_injective (by simpa using field "disableNotification")
  cases g; cases h; simp_all

theorem HipChat.calls_injective {g h : HipChat} (heq : g.calls = h.calls) : g = h := by
  have field n : named n g.calls = named n h.calls := by rw [heq]
  simp only [calls] at field
  have hroom : g.room = h.room := text_injective (by simpa using field "room")
  have htoken : g.token = h.token := text_injective (by simpa using field "token")
  cases g; cases h; simp_all

theorem Alerta.calls_injective {g h : Alerta} (heq : g.calls = h.calls) : g = h := by
  have field n : named n g.calls = named n h.calls := by rw [heq]
  simp only [calls] at field
  have htoken : g.token = h.token := text_injective (by simpa using field "token")
  have hresource : g.resource = h.resource := text_injective (by simpa using field "resource")
  have hevent : g.event = h.event := text_injective (by simpa using field "event")
  have henvironment : g.environment = h.environment :=
    text_injective (by simpa using field "environment")
  have hgroup : g.group = h.group := text_injective (by simpa using field "group")
  have hvalue : g.value = h.value := text_injective (by simpa using field "value")
  have horigin : g.origin = h.origin := text_injective (by simpa using field "origin")
  have hservices : g.services = h.services := texts_injective (by simpa using field "services")
  cases g; cases h; simp_all

theorem OpsGenie.calls_injective {g h : OpsGenie} (heq : g.calls = h.calls) : g = h := by
  have field n : named n g.calls = named n h.calls := by rw [heq]
  simp only [calls] at field
  have hteams : g.teamsList = h.teamsList := texts_injective (by simpa using field "teams")
  have hrecipients : g.recipientsList = h.recipientsList :=
    texts_injective (by simpa using field "recipients")
  cases g; cases h; simp_all

theorem Mqtt.calls_injective {g h : Mqtt} (heq : g.calls = h.calls) : g = h := by
  have field n : named n g.calls = named n h.calls := by rw [heq]
  simp only [calls] at field
  have hbroker : g.brokerName = h.brokerName := text_injective (by simpa using field "brokerName")
  have htopic : g.topic = h.topic := text_injective (by simpa using field "topic")
  have hqos : g.qos = h.qos := UInt8.toNat_inj.1
    (number_injective (byte_lt g.qos) (byte_lt h.qos) (by simpa using field "qos"))
  have hretained : g.retained = h.retained :=
    Bool.eq_iff_iff.2 (when_injective (by simpa using field "retained")).1
  cases g; cases h; simp_all

theorem SnmpTrap.calls_injective {g h : SnmpTrap} (hg : (snmpTrap g).Normal)
    (hh : (snmpTrap h).Normal) (heq : g.calls = h.calls) : g = h := by
  have field n : named n g.calls = named n h.calls := by rw [heq]
  simp only [calls] at field
  have hoid : g.trapOid = h.trapOid := text_injective (by simpa using field "snmpTrap")
  have hdata : g.dataList = h.dataList :=
    dataCalls_injective hg.2 hh.2 (by simpa using field "data")
  cases g; cases h; simp_all

/-! ### Lists of handlers -/

/-- The names of the calls that open handlers. -/
def methods : List String := [
  "post", "tcp", "email", "exec", "log", "victorOps", "pagerDuty", "pushover", "sensu", "slack",
  "telegram", "hipChat", "alerta", "opsGenie", "talk", "mqtt", "snmpTrap"]

theorem method_mem_methods (h : Handler) : h.method ∈ methods := by
  cases h <;> simp [method, methods]

/-- None of the links opens a handler. -/
def Inner (ls : List Link) : Prop := ∀ l ∈ ls, l.call.name ∉ methods

section
variable {n : String}

@[simp] theorem inner_nil : Inner [] := by simp [Inner]

@[simp] theorem inner_append {ls ms : List Link} : Inner (ls ++ ms) ↔ Inner ls ∧ Inner ms := by
  simp [Inner, or_imp, forall_and]

theorem inner_when (hn : n ∉ methods) {p : Prop} [Decidable p] {args : List Literal} :
    Inner (when p n args) := by
  by_cases hp : p <;> simp [Inner, when, hp, hn]

@[simp] theorem inner_text (hn : n ∉ methods) (s : String) : Inner (text n s) := inner_when hn

@[simp] theorem inner_texts (hn : n ∉ methods) (ss : List String) : Inner (texts n ss) :=
  inner_when hn

@[simp] theorem inner_number (hn : n ∉ methods) (k : Nat) : Inner (number n k) := inner_when hn

@[simp] theorem inner_flag (hn : n ∉ methods) (b : Bool) : Inner (flag n b) := inner_when hn

@[simp] theorem inner_expression (hn : n ∉ methods) (e : Option String) :
    Inner (expression n e) := by
  cases e with
  | none => exact inner_nil
  | some e => exact inner_when hn

theorem inner_flatMap {α : Type} {f : α → List Link} (hf : ∀ x, Inner (f x)) (xs : List α) :
    Inner (xs.flatMap f) := by
  intro l hl
  obtain ⟨x, -, hl⟩ := List.mem_flatMap.1 hl
  exact hf x l hl

@[simp] theorem inner_flatMap_text (hn : n ∉ methods) (ss : List String) :
    Inner (ss.flatMap (text n)) := inner_flatMap (fun s => inner_text hn s) ss

@[simp] theorem inner_headerCalls (es : List (String × String)) :
    Inner (es.flatMap headerCalls) := inner_flatMap (fun _ => inner_when (by decide)) es

@[simp] theorem inner_dataCalls (ds : List SnmpData) : Inner (ds.flatMap SnmpData.calls) :=
  inner_flatMap (fun _ => inner_when (by decide)) ds

end

/-- **A handler in normal form is opened by its method**, and no other call of it opens a
    handler. -/
theorem Normal.calls_eq_cons {h : Handler} (hn : h.Normal) :
    ∃ args rest, h.calls = ⟨.dot, ⟨h.method, args⟩⟩ :: rest ∧ Inner rest := by
  have hopening : ∀ (n : String) (ls : List Link), opening n ++ ls = ⟨.dot, ⟨n, []⟩⟩ :: ls :=
    fun _ _ => rfl
  have htext : ∀ {n s : String}, s ≠ "" → text n s = [⟨.dot, ⟨n, [.text s]⟩⟩] := fun hs => if_pos hs
  cases h with
  | httpPost h =>
    simp only [calls, HttpPost.calls, htext hn.1, List.singleton_append]
    exact ⟨_, _, rfl, by simp [methods]⟩
  | exec h => exact ⟨_, [], if_pos hn, inner_nil⟩
  | log h =>
    simp only [calls, Log.calls, htext hn, List.singleton_append]
    exact ⟨_, _, rfl, inner_when (by decide)⟩
  | snmpTrap h =>
    simp only [calls, SnmpTrap.calls, htext hn.1, List.singleton_append]
    exact ⟨_, _, rfl, inner_dataCalls _⟩
  | talk h => exact ⟨_, [], rfl, inner_nil⟩
  | _ =>
    -- All other kinds are opened without an argument.
    simp only [calls, Tcp.calls, Email.calls, VictorOps.calls, PagerDuty.calls, Pushover.calls,
      Sensu.calls, Slack.calls, Telegram.calls, HipChat.calls, Alerta.calls, OpsGenie.calls,
      Mqtt.calls, List.append_assoc, hopening]
    exact ⟨_, _, rfl, by simp [methods, inner_when]⟩

/-- A list splits in one way only into links that open nothing, and a rest that is empty or opens
    a handler. -/
theorem split_unique {ls ms rs ts : List Link} (hl : Inner ls) (hm : Inner ms)
    (hr : ∀ r ∈ rs.head?, r.call.name ∈ methods) (ht : ∀ t ∈ ts.head?, t.call.name ∈ methods)
    (h : ls ++ rs = ms ++ ts) : ls = ms ∧ rs = ts :=
  append_unique hl hm (fun r hmem hn => hn (hr r hmem)) (fun t hmem hn => hn (ht t hmem)) h

/-- The calls of handlers start with an opening. -/
theorem opens_head_flatMap_calls : ∀ {hs : List Handler}, (∀ h ∈ hs, h.Normal) →
    ∀ l ∈ (hs.flatMap calls).head?, l.call.name ∈ methods
  | [], _, l, hl => by simp at hl
  | h :: hs, hn, l, hl => by
    obtain ⟨args, rest, hc, -⟩ := (hn h List.mem_cons_self).calls_eq_cons
    simp only [List.flatMap_cons, hc, List.cons_append, List.head?_cons, Option.mem_some] at hl
    subst hl
    exact h.method_mem_methods

/-- **A handler is recovered from its calls.** -/
theorem calls_injective {g h : Handler} (hg : g.Normal) (hh : h.Normal) (heq : g.calls = h.calls) :
    g = h := by
  have hmethod : g.method = h.method := by
    obtain ⟨args, rest, hgc, -⟩ := hg.calls_eq_cons
    obtain ⟨args', rest', hhc, -⟩ := hh.calls_eq_cons
    rw [hgc, hhc] at heq
    simp only [List.cons.injEq, Link.mk.injEq, Call.mk.injEq] at heq
    exact heq.1.2.1
  cases g with
  | httpPost g =>
    cases h with
    | httpPost h => rw [HttpPost.calls_injective hg hh heq]
    | _ => simp [method] at hmethod
  | tcp g =>
    cases h with
    | tcp h => rw [Tcp.calls_injective heq]
    | _ => simp [method] at hmethod
  | email g =>
    cases h with
    | email h => rw [Email.calls_injective hg hh heq]
    | _ => simp [method] at hmethod
  | exec g =>
    cases h with
    | exec h => rw [Exec.calls_injective heq]
    | _ => simp [method] at hmethod
  | log g =>
    cases h with
    | log h => rw [Log.calls_injective heq]
    | _ => simp [method] at hmethod
  | victorOps g =>
    cases h with
    | victorOps h => rw [VictorOps.calls_injective heq]
    | _ => simp [method] at hmethod
  | pagerDuty g =>
    cases h with
    | pagerDuty h => rw [PagerDuty.calls_injective heq]
    | _ => simp [method] at hmethod
  | pushover g =>
    cases h with
    | pushover h => rw [Pushover.calls_injective heq]
    | _ => simp [method] at hmethod
  | sensu g =>
    cases h with
    | sensu h => rw [Sensu.calls_injective heq]
    | _ => simp [method] at hmethod
  | slack g =>
    cases h with
    | slack h => rw [Slack.calls_injective heq]
    | _ => simp [method] at hmethod
  | telegram g =>
    cases h with
    | telegram h => rw [Telegram.calls_injective heq]
    | _ => simp [method] at hmethod
  | hipChat g =>
    cases h with
    | hipChat h => rw [HipChat.calls_injective heq]
    | _ => simp [method] at hmethod
  | alerta g =>
    cases h with
    | alerta h => rw [Alerta.calls_injective heq]
    | _ => simp [method] at hmethod
  | opsGenie g =>
    cases h with
    | opsGenie h => rw [OpsGenie.calls_injective heq]
    | _ => simp [method] at hmethod
  | talk g =>
    cases h with
    | talk h => rfl
    | _ => simp [method] at hmethod
  | mqtt g =>
    cases h with
    | mqtt h => rw [Mqtt.calls_injective heq]
    | _ => simp [method] at hmethod
  | snmpTrap g =>
    cases h with
    | snmpTrap h => rw [SnmpTrap.calls_injective hg hh heq]
    | _ => simp [method] at hmethod

/-- **A list of handlers is recovered from its calls**, although nothing marks where the calls of
    a handler end. -/
theorem flatMap_calls_injective : ∀ {gs hs : List Handler}, (∀ g ∈ gs, g.Normal) →
    (∀ h ∈ hs, h.Normal) → gs.flatMap calls = hs.flatMap calls → gs = hs
  | [], [], _, _, _ => rfl
  | [], h :: hs, _, hh, heq => by
    obtain ⟨args, rest, hc, -⟩ := (hh h List.mem_cons_self).calls_eq_cons
    simp [hc] at heq
  | g :: gs, [], hg, _, heq => by
    obtain ⟨args, rest, hc, -⟩ := (hg g List.mem_cons_self).calls_eq_cons
    simp [hc] at heq
  | g :: gs, h :: hs, hg, hh, heq => by
    obtain ⟨args, rest, hgc, hgi⟩ := (hg g List.mem_cons_self).calls_eq_cons
    obtain ⟨args', rest', hhc, hhi⟩ := (hh h List.mem_cons_self).calls_eq_cons
    have hgs : ∀ g' ∈ gs, g'.Normal := fun g' hm => hg g' (List.mem_cons_of_mem g hm)
    have hhs : ∀ h' ∈ hs, h'.Normal := fun h' hm => hh h' (List.mem_cons_of_mem h hm)
    simp only [List.flatMap_cons, hgc, hhc, List.cons_append, List.cons.injEq] at heq
    obtain ⟨hlink, htail⟩ := heq
    obtain ⟨hrest, hothers⟩ := split_unique hgi hhi (opens_head_flatMap_calls hgs)
      (opens_head_flatMap_calls hhs) htail
    have hcalls : g.calls = h.calls := by rw [hgc, hhc, hlink, hrest]
    rw [calls_injective (hg g List.mem_cons_self) (hh h List.mem_cons_self) hcalls,
      flatMap_calls_injective hgs hhs hothers]

end Handler

end Tickscript
