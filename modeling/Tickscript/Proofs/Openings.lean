/-
  Where the handlers of an alert begin in its chain.

  A handler is opened by a call with the name of its kind, and four kinds are opened with a
  setting of their own.  If that is empty the opening is left out, but not the calls behind it.

  * `Handler.calls_eq_append`, `Handler.inner_properties`: the calls of a handler are its opening,
    unless that is left out, and calls that open nothing;
  * `Handler.filter_opens_flatMap_calls`: so the openings among the calls of handlers are those of
    the handlers that are opened, in order;
  * `Alert.convert_openings`: the same for a chain, and what stands between two openings.
-/
import Tickscript.Proofs.Recovery.Alert

namespace Tickscript

open Setting

namespace Handler

/-- The arguments that a handler is opened with. -/
def openingArgs : Handler → List Literal
  | httpPost h => [.text h.url]
  | exec h => [.list (h.command.map .text)]
  | log h => [.text h.filePath]
  | snmpTrap h => [.text h.trapOid]
  | _ => []

/-- The call that opens a handler. -/
def openingCall (h : Handler) : Link := ⟨.dot, ⟨h.method, h.openingArgs⟩⟩

/-- A handler is opened unless it is opened with something that is empty. -/
def isOpened : Handler → Bool
  | httpPost h => h.url ≠ ""
  | exec h => h.command ≠ []
  | log h => h.filePath ≠ ""
  | snmpTrap h => h.trapOid ≠ ""
  | _ => true

/-- The links of a handler behind its opening. -/
def properties (h : Handler) : List Link := h.steps.tail.flatMap Step.links

/-- Whether a link has the name of an opening. -/
def opens (l : Link) : Bool := l.call.name ∈ methods

/-- **The calls of a handler are its opening, if it is opened, and its properties.** -/
theorem calls_eq_append (h : Handler) :
    h.calls = (if h.isOpened then [h.openingCall] else []) ++ h.properties := by
  have htext : ∀ n s : String, text n s = if s ≠ "" then [⟨.dot, ⟨n, [.text s]⟩⟩] else [] :=
    fun _ _ => rfl
  rw [← links_steps]
  cases h with
  | httpPost h => simp [steps, properties, isOpened, openingCall, openingArgs, method, htext]
  | exec h => simp [steps, properties, isOpened, openingCall, openingArgs, method, texts, when]
  | log h => simp [steps, properties, isOpened, openingCall, openingArgs, method, htext]
  | snmpTrap h => simp [steps, properties, isOpened, openingCall, openingArgs, method, htext]
  | _ => rfl

/-- No property has the name of an opening. -/
theorem inner_properties (h : Handler) : Inner h.properties := by
  cases h <;> simp [properties, steps, methods, inner_when, List.flatMap_map]

theorem calls_of_isOpened {h : Handler} (ho : h.isOpened) :
    h.calls = h.openingCall :: h.properties := by
  rw [calls_eq_append, if_pos ho, List.singleton_append]

theorem calls_of_not_isOpened {h : Handler} (ho : h.isOpened = false) : h.calls = h.properties := by
  rw [calls_eq_append, if_neg (by simp [ho]), List.nil_append]

theorem flatMap_calls_of_not_isOpened {hs : List Handler} (ho : ∀ h ∈ hs, h.isOpened = false) :
    hs.flatMap calls = hs.flatMap properties :=
  List.flatMap_congr fun h hh => calls_of_not_isOpened (ho h hh)

/-! ## Openings among links -/

theorem opens_openingCall (h : Handler) : opens h.openingCall :=
  decide_eq_true h.method_mem_methods

theorem not_opens_of_inner {ls : List Link} (h : Inner ls) : ∀ l ∈ ls, ¬ opens l :=
  fun l hl ho => h l hl (of_decide_eq_true ho)

theorem filter_opens_of_inner {ls : List Link} (h : Inner ls) : ls.filter opens = [] :=
  List.filter_eq_nil_iff.2 (not_opens_of_inner h)

theorem filter_opens_calls (h : Handler) :
    h.calls.filter opens = if h.isOpened then [h.openingCall] else [] := by
  cases ho : h.isOpened with
  | false => simp [calls_of_not_isOpened ho, filter_opens_of_inner h.inner_properties]
  | true =>
    rw [calls_of_isOpened ho, List.filter_cons_of_pos h.opens_openingCall,
      filter_opens_of_inner h.inner_properties]
    rfl

/-- **The openings among the calls of handlers** are those of the handlers that are opened. -/
theorem filter_opens_flatMap_calls (hs : List Handler) :
    (hs.flatMap calls).filter opens = (hs.filter isOpened).map openingCall := by
  induction hs with
  | nil => rfl
  | cons h hs ih =>
    rw [List.flatMap_cons, List.filter_append, ih, filter_opens_calls]
    cases ho : h.isOpened <;> simp [ho]

theorem head?_flatMap_calls {hs : List Handler} (ho : ∀ h ∈ hs.head?, h.isOpened) :
    (hs.flatMap calls).head? = hs.head?.map openingCall := by
  cases hs with
  | nil => rfl
  | cons h hs => rw [List.flatMap_cons, calls_of_isOpened (ho h rfl)]; rfl

end Handler

namespace Alert

open Handler

/-- **The openings in the chain of an alert** are those of its handlers, but for the handlers that
    are opened with something empty, one for each and in order.  Behind the opening of a handler
    stand its properties, then those of the handlers behind it that are not opened, and then the
    next opening or the end. -/
theorem convert_openings {p : String} {a : Alert} {c : Chain}
    (h : (a.convert (.identifier p)).result = .ok c) :
    c.links.filter opens = (a.handlers.filter isOpened).map openingCall ∧
    ∀ front g closed rest, a.handlers = front ++ g :: (closed ++ rest) → g.isOpened →
      (∀ k ∈ closed, k.isOpened = false) → (∀ k ∈ rest.head?, k.isOpened) →
      ∃ before after,
        c.links = before ++ g.openingCall :: (g.properties ++ closed.flatMap properties) ++ after ∧
        before.filter opens = (front.filter isOpened).map openingCall ∧
        (∀ l ∈ g.properties ++ closed.flatMap properties, ¬ opens l) ∧
        after.head? = rest.head?.map openingCall ∧
        after.filter opens = (rest.filter isOpened).map openingCall := by
  obtain ⟨-, rfl⟩ := convert_ok_iff.1 h
  have hsettings := filter_opens_of_inner a.inner_settingCalls
  show a.calls.filter opens = _ ∧ _
  refine ⟨?_, fun front g closed rest hsplit hg hclosed hrest => ?_⟩
  · rw [calls_eq, List.filter_append, hsettings, filter_opens_flatMap_calls, List.nil_append]
  · refine ⟨a.settingCalls ++ front.flatMap Handler.calls, rest.flatMap Handler.calls, ?_, ?_, ?_,
      head?_flatMap_calls hrest, filter_opens_flatMap_calls rest⟩
    · show a.calls = _
      rw [calls_eq, hsplit, List.flatMap_append, List.flatMap_cons, List.flatMap_append,
        calls_of_isOpened hg, flatMap_calls_of_not_isOpened hclosed]
      simp only [List.append_assoc, List.cons_append]
    · rw [List.filter_append, hsettings, filter_opens_flatMap_calls, List.nil_append]
    · have hinner : Inner (g.properties ++ closed.flatMap properties) :=
        inner_append.2 ⟨g.inner_properties, inner_flatMap inner_properties closed⟩
      exact not_opens_of_inner hinner

/-- The permissions of a file without a path stand behind the address of the handler in front. -/
theorem convert_openings_log :
    let a : Alert := {
      tcpHandlers := [{ address := "db:1" }]
      logHandlers := [{}]
      talkHandlers := [{}] }
    let c : Chain := ⟨"stream", a.calls⟩
    (a.convert (.identifier "stream")).result = .ok c ∧
      c.links.filter opens = [⟨.dot, ⟨"tcp", []⟩⟩, ⟨.dot, ⟨"talk", []⟩⟩] ∧
      ∃ before after, c.links = before ++ ⟨.dot, ⟨"tcp", []⟩⟩
          :: [⟨.dot, ⟨"address", [.text "db:1"]⟩⟩,
              ⟨.dot, ⟨"mode", [.number (.int 384 .octal)]⟩⟩] ++ after ∧
        after.head? = some ⟨.dot, ⟨"talk", []⟩⟩ := by
  intro a c
  have h : (a.convert (.identifier "stream")).result = .ok c :=
    convert_ok_iff.2 ⟨⟨by decide, fun _ => by decide, fun _ => by decide⟩, rfl⟩
  have hhandlers : a.handlers = [.tcp { address := "db:1" }, .log {}, .talk {}] := by
    simp [a, handlers]
  obtain ⟨hopenings, hbetween⟩ := convert_openings h
  rw [hhandlers] at hopenings
  obtain ⟨before, after, hlinks, -, -, hnext, -⟩ :=
    hbetween [] _ [.log {}] [.talk {}] hhandlers rfl (by simp [isOpened]) (by simp [isOpened])
  exact ⟨h, hopenings, before, after, hlinks, hnext⟩

end Alert

end Tickscript
