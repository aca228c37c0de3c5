/-
  Literals in documents: an object with one member that names the kind of the
  literal, and in it the value.

  * `Literal.codec` is the form of a literal; the items of a list are literals
    again, so its reader is the fixed point of `Literal.layer`.
-/
import Tickscript.Json.Record
import Tickscript.Json.Variant
import Tickscript.Literal.Basic

namespace Tickscript

open Json (Codec Reader Record)

def Base.codec : Codec Base where
  read := Json.Variant.read [.bare "Decimal" .decimal, .bare "Octal" .octal, .bare "Hex" .hex]
  write
    | .decimal => .text "Decimal"
    | .octal => .text "Octal"
    | .hex => .text "Hex"

/-- An integer with its base. -/
def Number.based : Record (Int64 × Base) (Int64 × Base) := .complete (0, .decimal) [
  .of "value" .int64 (·.1) fun p v => (v, p.2),
  .of "base" Base.codec (·.2) fun p b => (p.1, b)]

def Number.codec : Codec Number where
  read := Json.Variant.read [
    .holding "Int" based.read fun p => .int p.1 p.2,
    .holding "Float" Reader.float .float]
  write
    | .int value base => Json.Variant.write "Int" (based.write (value, base))
    | .float x => Json.Variant.write "Float" (.float x)

namespace Literal

/-- The literals that hold no others. -/
def plainCases : List (Json.Case Literal) := [
  .holding "String" Reader.text text,
  .holding "Number" Number.codec.read number,
  .holding "Bool" Reader.bool bool,
  .holding "Duration" Codec.int64.read duration,
  .holding "Lambda" Reader.text lambda]

/-- How a literal is read, given how the items of a list are. -/
def layer (item : Reader Literal) : Reader Literal :=
  Json.Variant.read (plainCases ++ [.holding "List" item.list list])

mutual

/-- A literal as an object with one member. -/
def json : Literal → Json
  | text s => Json.Variant.write "String" (.text s)
  | number n => Json.Variant.write "Number" (Number.codec.write n)
  | bool b => Json.Variant.write "Bool" (.bool b)
  | duration n => Json.Variant.write "Duration" (.int n.toInt)
  | lambda e => Json.Variant.write "Lambda" (.text e)
  | list items => Json.Variant.write "List" (.array (jsonAll items))

def jsonAll : List Literal → List Json
  | [] => []
  | l :: rest => json l :: jsonAll rest

end

def codec : Codec Literal := ⟨Reader.fix layer, json⟩

theorem layer_descends : Reader.Descends layer := fun _ _ _ h =>
  Json.Variant.read_snoc_congr plainCases "List" list fun _ hm =>
    Reader.list_congr fun _ hk => h _ (Nat.lt_trans hk hm)

theorem read_eq_layer : codec.read = layer codec.read := Reader.fix_eq layer_descends

end Literal

end Tickscript
