/-
  Records in documents.

  A record is an object with a member for each field, or an array of the values
  of its first fields in order.  An object may hold its members in any order, may
  leave out fields that have a default and may have members that the record does
  not know; no field may come twice.

  * `Field` is one field, made by `Field.of` from a codec and a way to look at
    and to change the field;
  * `Record` lists the fields; `Record.codec` reads both forms and writes the
    object with all fields in order;
  * `Record.assemble` puts the values found into the blank record, in the order
    of the fields and not of the text.
-/
import Tickscript.Json.Reader

namespace Tickscript.Json

/-- A field of `σ`: the key, what the value read does to a record, and the value to write. -/
structure Field (σ : Type) where
  key : String
  read : Reader (σ → σ)
  write : σ → Json

/-- The field with the given codec, looked at by `get` and changed by `set`. -/
def Field.of {σ α : Type} (key : String) (c : Codec α) (get : σ → α) (set : σ → α → σ) : Field σ where
  key := key
  read levels d := (c.read levels d).map fun a s => set s a
  write s := c.write (get s)

/-- The fields of `σ` in order, from which an `α` is made.  Fields that are not in the document
    keep the value of `blank`, unless all are `required`; unknown members are passed over, unless
    the record is `closed`. -/
structure Record (σ α : Type) where
  fields : List (Field σ)
  blank : σ
  required : Bool
  closed : Bool
  finish : σ → Option α
  parts : α → σ

namespace Record

variable {σ α : Type}

/-- A record in which each field has a default. -/
def defaulted (blank : σ) (fields : List (Field σ)) : Record σ σ :=
  ⟨fields, blank, false, false, some, id⟩

/-- A record in which each field has to be there; `blank` is only a place to put them. -/
def complete (blank : σ) (fields : List (Field σ)) : Record σ σ :=
  ⟨fields, blank, true, false, some, id⟩

/-- The keys of the fields. -/
def keys (r : Record σ α) : List String := r.fields.map Field.key

/-- How the value of each field is read, given the levels that are left. -/
def readers (r : Record σ α) (levels : Nat) : List (String × (Document → Except Fault (σ → σ))) :=
  r.fields.map fun f => (f.key, f.read levels)

/-- What has been found: keys, each once, with what their values do to a record. -/
abbrev Found (σ : Type) := List (String × (σ → σ))

/-- The record of the values found, put in in the order of the fields. -/
def assemble (r : Record σ α) (found : Found σ) : σ :=
  r.keys.foldl (fun s key => match found.lookup key with | some set => set s | none => s) r.blank

/-- The result, if no required field is missing and the parts fit together. -/
def build (r : Record σ α) (found : Found σ) : Except Fault α :=
  if r.required && !r.keys.all fun key => (found.lookup key).isSome then .error .mismatched
  else match r.finish (r.assemble found) with
    | some a => .ok a
    | none => .error .mismatched

/-- The values of known members on top of those found before, latest first.  That a key has come
    before is noticed before its value is looked at. -/
def readMembers (closed : Bool) (readers : List (String × (Document → Except Fault (σ → σ))))
    (found : Found σ) : List (Key × Document) → Except Fault (Found σ)
  | [] => .ok found
  | (key, d) :: rest => do
    let name ← key.read
    match readers.lookup name with
    | some reader =>
      if (found.lookup name).isSome then .error .mismatched
      else
        let set ← reader d
        readMembers closed readers ((name, set) :: found) rest
    | none =>
      if closed then .error .mismatched
      else
        d.skip
        readMembers closed readers found rest

/-- The values of the fields in order, until the fields or the items run out; and the items that
    are left. -/
def readItems : List (String × (Document → Except Fault (σ → σ))) → List Document →
    Except Fault (Found σ × List Document)
  | (key, reader) :: readers, d :: items => do
    let set ← reader d
    let (found, left) ← readItems readers items
    .ok ((key, set) :: found, left)
  | _, items => .ok ([], items)

/-- An array as a record.  Fields are wanted until the array ends; behind the last one the array
    has to end. -/
def readArray (r : Record σ α) (levels : Nat) (items : List Document) (fault : Option Fault) :
    Except Fault α := do
  let (found, left) ← readItems (r.readers levels) items
  if found.length < r.keys.length then unbroken fault ()
  let a ← r.build found
  if left.isEmpty then unbroken fault a else .error .malformed

/-- An object as a record. -/
def readObject (r : Record σ α) (levels : Nat) (members : List (Key × Document))
    (fault : Option Fault) : Except Fault α := do
  let found ← readMembers r.closed (r.readers levels) [] members
  unbroken fault ()
  r.build found

def read (r : Record σ α) : Reader α
  | 0, .array _ _ => .error .malformed
  | 0, .object _ _ => .error .malformed
  | levels + 1, .array items fault => r.readArray levels items fault
  | levels + 1, .object members fault => r.readObject levels members fault
  | _, d => .error d.mismatch

/-- The object with all fields in order. -/
def write (r : Record σ α) (a : α) : Json :=
  .object (r.fields.map fun f => (f.key, f.write (r.parts a)))

def codec (r : Record σ α) : Codec α := ⟨r.read, r.write⟩

end Record

end Tickscript.Json
