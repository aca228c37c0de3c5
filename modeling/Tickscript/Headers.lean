/-
  Headers: names with values, in the order in which the names first came.

  * `Headers.insert` replaces the value of a name that is there, or puts the name
    at the end;
  * `Headers.equals`, also written `==`, disregards the order;
  * `Headers.codec` is their form in documents, an object in which a name may
    come again.
-/
import Tickscript.Json.Reader

namespace Tickscript

/-- Values under names, each name once. -/
structure Headers where
  entries : List (String × String)
  distinct : (entries.map Prod.fst).Nodup

namespace Headers

def empty : Headers := ⟨[], .nil⟩

instance : Inhabited Headers := ⟨empty⟩

/-! ## Insertion -/

/-- Entries with a value put under a name. -/
def put (name value : String) : List (String × String) → List (String × String)
  | [] => [(name, value)]
  | (n, v) :: rest => if n = name then (n, value) :: rest else (n, v) :: put name value rest

theorem mem_names_put {name value m : String} {es : List (String × String)} :
    m ∈ (put name value es).map Prod.fst ↔ m = name ∨ m ∈ es.map Prod.fst := by
  induction es with
  | nil => simp [put]
  | cons e rest ih =>
    obtain ⟨n, v⟩ := e
    by_cases h : n = name
    · simp [put, h]
    · simp only [put, h, ↓reduceIte, List.map_cons, List.mem_cons, ih]
      exact ⟨fun h => by rcases h with h | h | h <;> simp [h],
        fun h => by rcases h with h | h | h <;> simp [h]⟩

theorem nodup_names_put {name value : String} {es : List (String × String)}
    (h : (es.map Prod.fst).Nodup) : ((put name value es).map Prod.fst).Nodup := by
  induction es with
  | nil => simp [put]
  | cons e rest ih =>
    obtain ⟨n, v⟩ := e
    simp only [List.map_cons, List.nodup_cons] at h
    by_cases hn : n = name
    · simpa [put, hn] using h
    · rw [put, if_neg hn, List.map_cons, List.nodup_cons, mem_names_put, not_or]
      exact ⟨⟨hn, h.1⟩, ih h.2⟩

/-- The headers with a value put under a name: in the place of the name, or at the end. -/
def insert (h : Headers) (name value : String) : Headers :=
  ⟨put name value h.entries, nodup_names_put h.distinct⟩

/-! ## Equality -/

/-- Equality regardless of order. -/
def equals (g h : Headers) : Bool :=
  g.entries.length == h.entries.length && g.entries.all fun e => h.entries.contains e

instance : BEq Headers := ⟨equals⟩

/-! ## Documents -/

open Json (Key Document Fault Reader)

/-- Members of an object, in order, put into headers. -/
def readMembers (levels : Nat) (h : Headers) : List (Key × Document) → Except Fault Headers
  | [] => .ok h
  | (key, d) :: rest => do
    let name ← key.read
    let value ← Reader.text levels d
    readMembers levels (h.insert name value) rest

/-- An object of strings as headers. -/
def read : Reader Headers
  | 0, .object _ _ => .error .malformed
  | levels + 1, .object members fault => do
    let h ← readMembers levels empty members
    Json.unbroken fault h
  | _, d => .error d.mismatch

def codec : Json.Codec Headers where
  read := read
  write h := .object (h.entries.map fun e => (e.1, .text e.2))

end Headers

end Tickscript
