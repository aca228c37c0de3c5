/-
  Headers, from documents to calls.

  The members of a headers object are put into headers one after another
  (`Headers.collect`).  A name that comes again keeps its place and takes the new value.

  * `Headers.names_collect`, `Headers.lookup_of_mem_collect`: the names are those of the members,
    each where it comes first, and have the values that they have last;
  * `Headers.shown_empty`: a value that is emptied in the end takes the header of its name away,
    and no other;
  * `Alert.parse_headers`: the calls that a handler makes of its headers.
-/
import Mathlib.Data.List.Induction
import Tickscript.Proofs.Documents.Handler
import Tickscript.Proofs.Documents.Settings
import Tickscript.Proofs.Recovery.Alert

namespace Tickscript

open Json

/-! ## Members put together -/

namespace Headers

/-- Members put into headers one after another. -/
def collect (ms : List (String × String)) : Headers :=
  ms.foldl (fun h m => h.insert m.1 m.2) empty

/-- The object that has these members. -/
def document (ms : List (String × String)) : Document :=
  .object (ms.map fun m => (.name (some m.1), .scalar (.text (some m.2)))) none

theorem collect_append_singleton (ms : List (String × String)) (m : String × String) :
    collect (ms ++ [m]) = (collect ms).insert m.1 m.2 := List.foldl_append

theorem readMembers_texts (levels : Nat) : ∀ (ms : List (String × String)) (h : Headers),
    readMembers levels h (ms.map fun m => (.name (some m.1), .scalar (.text (some m.2))))
      = .ok (ms.foldl (fun h m => h.insert m.1 m.2) h)
  | [], _ => rfl
  | m :: ms, h => readMembers_texts levels ms (h.insert m.1 m.2)

/-- The members of an object of texts are put together. -/
theorem read_document (levels : Nat) (ms : List (String × String)) :
    codec.read (levels + 1) (document ms) = .ok (collect ms) := by
  simp only [codec, read, document, readMembers_texts]
  rfl

theorem mem_put {name value : String} {e : String × String} : ∀ {es : List (String × String)},
    (es.map Prod.fst).Nodup → e ∈ put name value es → e = (name, value) ∨ e ∈ es ∧ e.1 ≠ name
  | [], _, h => Or.inl (List.mem_singleton.1 h)
  | (n, v) :: es, hes, h => by
    rw [List.map_cons, List.nodup_cons] at hes
    by_cases hn : n = name
    · subst hn
      rw [put, if_pos rfl, List.mem_cons] at h
      rcases h with rfl | h
      · exact Or.inl rfl
      · have hname : e.1 ≠ n := fun hsame => hes.1 (List.mem_map.2 ⟨e, h, hsame⟩)
        exact Or.inr ⟨List.mem_cons_of_mem _ h, hname⟩
    · rw [put, if_neg hn, List.mem_cons] at h
      rcases h with rfl | h
      · exact Or.inr ⟨List.mem_cons_self, hn⟩
      · exact (mem_put hes.2 h).imp_right fun h => ⟨List.mem_cons_of_mem _ h.1, h.2⟩

theorem names_put_of_mem {name value : String} : ∀ {es : List (String × String)},
    name ∈ es.map Prod.fst → (put name value es).map Prod.fst = es.map Prod.fst
  | (n, v) :: es, h => by
    by_cases hn : n = name
    · rw [put, if_pos hn, List.map_cons, List.map_cons]
    · have hmem : name ∈ es.map Prod.fst := (List.mem_cons.1 h).resolve_left (Ne.symm hn)
      rw [put, if_neg hn, List.map_cons, names_put_of_mem hmem, List.map_cons]

/-- **Each name is there once, where it comes first.** -/
theorem names_collect (ms : List (String × String)) :
    (collect ms).entries.map Prod.fst = (ms.map Prod.fst).eraseDups := by
  induction ms using List.reverseRecOn with
  | nil => rfl
  | append_singleton ms m ih =>
    have hentries : (collect (ms ++ [m])).entries = put m.1 m.2 (collect ms).entries := by
      rw [collect_append_singleton, insert]
    rw [hentries, List.map_append, List.map_singleton, List.eraseDups_append]
    by_cases hm : m.1 ∈ ms.map Prod.fst
    · have hold : m.1 ∈ (collect ms).entries.map Prod.fst := by rwa [ih, List.mem_eraseDups]
      rw [names_put_of_mem hold, ih]
      simp [List.removeAll, hm]
    · have hnew : m.1 ∉ (collect ms).entries.map Prod.fst := by rwa [ih, List.mem_eraseDups]
      rw [put_of_not_mem hnew, List.map_append, ih]
      simp [List.removeAll, hm, List.eraseDups_cons]

/-- **Each name has the value that it has last.** -/
theorem lookup_of_mem_collect (ms : List (String × String)) :
    ∀ e ∈ (collect ms).entries, ms.reverse.lookup e.1 = some e.2 := by
  induction ms using List.reverseRecOn with
  | nil => exact fun _ he => absurd he List.not_mem_nil
  | append_singleton ms m ih =>
    intro e he
    rw [collect_append_singleton] at he
    rw [List.reverse_append, List.reverse_singleton, List.singleton_append]
    rcases mem_put (collect ms).distinct he with rfl | ⟨he, hne⟩
    · exact List.lookup_cons_self
    · rw [lookup_cons_of_ne hne]
      exact ih e he

/-! ## Headers without one of their names -/

theorem filter_put_self {name value : String} (es : List (String × String)) :
    (put name value es).filter (·.1 ≠ name) = es.filter (·.1 ≠ name) := by
  induction es with
  | nil => simp [put]
  | cons e es ih =>
    by_cases he : e.1 = name
    · simp [put, he]
    · simp only [put, he, if_false, List.filter_cons, ih]

theorem filter_put_of_ne {name value k : String} (h : name ≠ k) (es : List (String × String)) :
    (put name value es).filter (·.1 ≠ k) = put name value (es.filter (·.1 ≠ k)) := by
  induction es with
  | nil => simp [put, h]
  | cons e es ih =>
    obtain ⟨n, v⟩ := e
    by_cases hn : n = name
    · simp [put, hn, h]
    · rw [put, if_neg hn]
      by_cases hk : n = k
      · rw [List.filter_cons_of_neg (by simpa using hk), List.filter_cons_of_neg (by simpa using hk),
          ih]
      · rw [List.filter_cons_of_pos (by simpa using hk), List.filter_cons_of_pos (by simpa using hk),
          ih, put, if_neg hn]

/-- Members of one name have no part in what is collected under other names. -/
theorem filter_collect (k : String) (ms : List (String × String)) :
    (collect ms).entries.filter (·.1 ≠ k) = (collect (ms.filter (·.1 ≠ k))).entries := by
  induction ms using List.reverseRecOn with
  | nil => rfl
  | append_singleton ms m ih =>
    rw [collect_append_singleton, List.filter_append]
    by_cases hm : m.1 = k
    · subst hm
      simp only [insert, filter_put_self, ih]
      simp
    · have hkept : [m].filter (·.1 ≠ k) = [m] := by simp [hm]
      rw [hkept, collect_append_singleton, insert, insert, filter_put_of_ne hm, ih]

/-- The headers of members that calls are made of: those with a name and a value. -/
def shown (ms : List (String × String)) : List (String × String) :=
  (collect ms).entries.filter fun e => e.1 ≠ "" ∧ e.2 ≠ ""

/-- **A value that is empty in the end takes the header of its name away, and no other.** -/
theorem shown_empty {front back : List (String × String)} {k : String}
    (h : k ∉ back.map Prod.fst) :
    shown (front ++ (k, "") :: back) = (shown (front ++ back)).filter (·.1 ≠ k) := by
  have hsame : (front ++ (k, "") :: back).filter (·.1 ≠ k) = (front ++ back).filter (·.1 ≠ k) := by
    simp
  have hgone : ∀ e ∈ shown (front ++ (k, "") :: back), e.1 ≠ k := by
    rintro ⟨n, v⟩ he rfl
    obtain ⟨he, hshown⟩ := List.mem_filter.1 he
    have hlast := lookup_of_mem_collect _ _ he
    have hback : back.reverse.lookup n = none := by
      rw [lookup_eq_none_iff_not_mem, List.map_reverse, List.mem_reverse]
      exact h
    rw [List.reverse_append, List.reverse_cons, List.append_assoc, List.lookup_append, hback,
      Option.none_or, List.singleton_append, List.lookup_cons_self] at hlast
    have hv : v = "" := (Option.some.inj hlast).symm
    simp [hv] at hshown
  calc shown (front ++ (k, "") :: back)
      = (shown (front ++ (k, "") :: back)).filter (·.1 ≠ k) := by
        rw [eq_comm, List.filter_eq_self]
        simpa using hgone
    _ = (shown (front ++ back)).filter (·.1 ≠ k) := by
        rw [shown, shown, List.filter_comm, filter_collect, hsame, ← filter_collect, List.filter_comm]

end Headers

/-! ## Calls -/

namespace Handler

/-- The call of a header. -/
def headerLink (e : String × String) : Link := ⟨.dot, ⟨"header", [.text e.1, .text e.2]⟩⟩

theorem flatMap_headerCalls (es : List (String × String)) :
    es.flatMap headerCalls = (es.filter fun e => e.1 ≠ "" ∧ e.2 ≠ "").map headerLink := by
  induction es with
  | nil => rfl
  | cons e es ih =>
    rw [List.flatMap_cons, ih, List.filter_cons]
    by_cases he : e.1 ≠ "" ∧ e.2 ≠ "" <;> simp [headerCalls, Setting.when, he, headerLink]

end Handler

namespace Alert

/-- The calls of an HTTP handler stand between those of the handlers in front of it and behind it. -/
theorem calls_httpPost {a : Alert} {i : Nat} {h : Handler.HttpPost}
    (hi : a.httpPostHandlers[i]? = some h) : a.calls = a.settingCalls
      ++ (a.handlers.take i).flatMap Handler.calls ++ h.calls
      ++ (a.handlers.drop (i + 1)).flatMap Handler.calls := by
  obtain ⟨others, hall⟩ : ∃ others, a.handlers = a.httpPostHandlers.map .httpPost ++ others := by
    simp only [handlers, List.append_assoc]
    exact ⟨_, rfl⟩
  have hhandler : a.handlers[i]? = some (.httpPost h) := by
    obtain ⟨hlt, -⟩ := List.getElem?_eq_some_iff.1 hi
    rw [hall, List.getElem?_append_left (by rwa [List.length_map]), List.getElem?_map, hi]
    rfl
  obtain ⟨hlt, hget⟩ := List.getElem?_eq_some_iff.1 hhandler
  have hsplit : a.handlers = a.handlers.take i ++ .httpPost h :: a.handlers.drop (i + 1) := by
    rw [← hget, ← List.drop_eq_getElem_cons hlt, List.take_append_drop]
  have hcalls : a.handlers.flatMap Handler.calls = (a.handlers.take i).flatMap Handler.calls
      ++ (h.calls ++ (a.handlers.drop (i + 1)).flatMap Handler.calls) := by
    conv_lhs => rw [hsplit, List.flatMap_append, List.flatMap_cons]
    rfl
  rw [calls_eq, hcalls]
  simp only [List.append_assoc]

section
open Handler (HttpPost)

variable {text : List Char} {d item : Document} {items : List Document} {i : Nat} {a : Alert}
  {ms : List (String × String)}

/-- The headers of a handler are read from the object that the text has for them. -/
theorem headers_of_parse (htext : Spells text d) (ha : codec.parse text = .ok a)
    (hlist : record.Holds "httpPostHandlers" (.array items none) d) (hitem : items[i]? = some item)
    (hheaders : HttpPost.record.Holds "headers" (Headers.document ms) item) :
    ∃ h, a.httpPostHandlers[i]? = some h ∧ h.headers = .collect ms := by
  have hread : record.read Reader.maxLevels d = .ok a := by
    rw [← ha]
    exact (Reader.parse_of_spells codec.read htext).symm
  have hhandlers : (Codec.list HttpPost.record.codec).read 126 (.array items none)
      = .ok a.httpPostHandlers :=
    Settings.alert.lenient.read_of_holds hread (List.mem_of_getElem? (i := 24) rfl)
      (fun _ _ => rfl) hlist
  obtain ⟨h, hi, hhandler⟩ := Reader.exists_of_list hhandlers hitem
  have hcollect : Headers.codec.read 124 (Headers.document ms) = .ok h.headers :=
    Settings.httpPost.lenient.read_of_holds hhandler (List.mem_of_getElem? (i := 2) rfl)
      (fun _ _ => rfl) hheaders
  rw [Headers.read_document] at hcollect
  exact ⟨h, hi, (Except.ok.inj hcollect).symm⟩

/-- **Headers from the document to the calls.**  An object of texts is read as its names, each where
    it comes first and with the value that it has last.  In the chain of the alert, a call for each
    name and value that are not empty follows the URL and the endpoint of the handler, in this order;
    so a value that is empty in the end takes the call of its name away, and no other. -/
theorem parse_headers (ms : List (String × String)) :
    (∀ levels, Headers.codec.read (levels + 1) (Headers.document ms) = .ok (.collect ms)) ∧
    (Headers.collect ms).entries.map Prod.fst = (ms.map Prod.fst).eraseDups ∧
    (∀ e ∈ (Headers.collect ms).entries, ms.reverse.lookup e.1 = some e.2) ∧
    (∀ text d items item i a, Spells text d → codec.parse text = .ok a →
      record.Holds "httpPostHandlers" (.array items none) d → items[i]? = some item →
      HttpPost.record.Holds "headers" (Headers.document ms) item →
      ∃ h, a.httpPostHandlers[i]? = some h ∧ h.headers = .collect ms ∧
        ∀ parent c, (a.convert parent).result = .ok c →
          c.links = parent.links ++ a.settingCalls ++ (a.handlers.take i).flatMap Handler.calls
            ++ (Setting.text "post" h.url ++ Setting.text "endpoint" h.endpoint
              ++ (Headers.shown ms).map Handler.headerLink)
            ++ (a.handlers.drop (i + 1)).flatMap Handler.calls) ∧
    ∀ front back k, ms = front ++ (k, "") :: back → k ∉ back.map Prod.fst →
      Headers.shown ms = (Headers.shown (front ++ back)).filter (·.1 ≠ k) := by
  refine ⟨fun levels => Headers.read_document levels ms, Headers.names_collect ms,
    Headers.lookup_of_mem_collect ms, ?_, ?_⟩
  · intro text d items item i a htext ha hlist hitem hheaders
    obtain ⟨h, hi, hcollect⟩ := headers_of_parse htext ha hlist hitem hheaders
    refine ⟨h, hi, hcollect, fun parent c hc => ?_⟩
    obtain ⟨-, rfl⟩ := convert_ok_iff.1 hc
    have hblock : h.calls = Setting.text "post" h.url ++ Setting.text "endpoint" h.endpoint
        ++ (Headers.shown ms).map Handler.headerLink := by
      rw [HttpPost.calls, hcollect, Handler.flatMap_headerCalls, Headers.shown]
    rw [← hblock, calls_httpPost hi]
    simp only [List.append_assoc]
  · rintro front back k rfl hback
    exact Headers.shown_empty hback

/-- A header that is set twice and emptied in the end, with another one in between. -/
theorem parse_headers_emptied :
    let ms : List (String × String) := [("a", "1"), ("b", "2"), ("a", "")]
    let j : Json := .object [("httpPostHandlers", .array [.object [
      ("headers", .object [("a", .text "1"), ("b", .text "2"), ("a", .text "")]),
      ("url", .text "u")]])]
    let a : Alert := { httpPostHandlers := [{ url := "u", headers := .collect ms }] }
    let c : Chain := ⟨"stream", a.calls⟩
    (Headers.collect ms).entries = [("a", ""), ("b", "2")] ∧ codec.parse j.compact = .ok a ∧
      (a.convert (.identifier "stream")).result = .ok c ∧
      c.links = [⟨.pipe, ⟨"alert", []⟩⟩, ⟨.dot, ⟨"post", [.text "u"]⟩⟩,
        Handler.headerLink ("b", "2")] := by
  intro ms j a c
  let item : Document := .object [(.name (some "headers"), Headers.document ms),
    (.name (some "url"), .scalar (.text (some "u")))] none
  have hparse : codec.parse j.compact = .ok a :=
    (Reader.parse_of_spells codec.read (spells_compact j)).trans rfl
  have hconvert : (a.convert (.identifier "stream")).result = .ok c :=
    convert_ok_iff.2 ⟨⟨by decide, fun _ => by decide, fun _ => by decide⟩, rfl⟩
  have hlist : record.Holds "httpPostHandlers" (.array [item] none) j.document :=
    .member List.mem_cons_self
  have hheaders : HttpPost.record.Holds "headers" (Headers.document ms) item :=
    .member List.mem_cons_self
  obtain ⟨h, hi, -, hlinks⟩ :=
    (parse_headers ms).2.2.2.1 j.compact j.document [item] item 0 a (spells_compact j) hparse hlist
      rfl hheaders
  obtain rfl : a.httpPostHandlers[0] = h := Option.some.inj hi
  have hshown : Headers.shown ms = [("b", "2")] := by decide
  refine ⟨rfl, hparse, hconvert, ?_⟩
  rw [hlinks _ c hconvert, hshown]
  simp [Chain.identifier, settingCalls, eventCalls, conditionCalls, outputCalls, handlers, a,
    Setting.text, Setting.expression, Setting.flag, Setting.number, Setting.when]

end

end Alert

end Tickscript
