/-
  Durations.

  * A `Duration` is a whole number of nanoseconds whose seconds fit a word of 64
    bits; `Duration.ofParts?` carries a full second out of the nanoseconds and
    refuses what no longer fits;
  * `Duration.codec` is its form in documents, the two parts of that sum;
  * `Duration.render` writes a number of nanoseconds, of either sign, in the
    largest unit that measures it exactly.
-/
import Tickscript.Integer
import Tickscript.Json.Record

namespace Tickscript

/-- A length of time in nanoseconds. -/
structure Duration where
  nanoseconds : Nat
  bounded : nanoseconds < UInt64.size * Nat.pow 10 9
deriving DecidableEq

namespace Duration

/-! ## Parts -/

def zero : Duration := ⟨0, by decide⟩

instance : Inhabited Duration := ⟨zero⟩

/-- Whole seconds. -/
def seconds (d : Duration) : Nat := d.nanoseconds / Nat.pow 10 9

/-- The nanoseconds beyond the whole seconds. -/
def fraction (d : Duration) : Nat := d.nanoseconds % Nat.pow 10 9

/-- The sum of seconds and nanoseconds, if its seconds fit a word. -/
def ofParts? (seconds : UInt64) (nanoseconds : UInt32) : Option Duration :=
  let total := seconds.toNat * Nat.pow 10 9 + nanoseconds.toNat
  if h : total < UInt64.size * Nat.pow 10 9 then some ⟨total, h⟩ else none

/-- A duration in documents: both parts have to be there, and nothing else. -/
def parts : Json.Record (UInt64 × UInt32) Duration where
  fields := [
    .of "secs" .uint64 (·.1) fun p s => (s, p.2),
    .of "nanos" .uint32 (·.2) fun p n => (p.1, n)]
  blank := (0, 0)
  required := true
  closed := true
  finish p := ofParts? p.1 p.2
  parts d := (.ofNat d.seconds, .ofNat d.fraction)

def codec : Json.Codec Duration := parts.codec

/-! ## Units -/

/-- A unit of time and its size in nanoseconds. -/
structure Scale where
  suffix : String
  size : Nat

def nanosecond : Scale := ⟨"ns", 1⟩

/-- The units above the nanosecond, largest first. -/
def scales : List Scale := [
  ⟨"w", 7 * 24 * 60 * 60 * Nat.pow 10 9⟩,
  ⟨"d", 24 * 60 * 60 * Nat.pow 10 9⟩,
  ⟨"h", 60 * 60 * Nat.pow 10 9⟩,
  ⟨"m", 60 * Nat.pow 10 9⟩,
  ⟨"s", Nat.pow 10 9⟩,
  ⟨"ms", Nat.pow 10 6⟩,
  ⟨"u", Nat.pow 10 3⟩]

/-- The largest unit that measures a number of nanoseconds exactly. -/
def scaleOf (n : Int) : Scale := (scales.find? fun u => n % u.size == 0).getD nanosecond

/-- A number of nanoseconds as scripts write it; nothing takes no seconds. -/
def render (n : Int) : List Char :=
  if n = 0 then "0s".toList
  else Integer.decimal (n / (scaleOf n).size) ++ (scaleOf n).suffix.toList

end Duration

end Tickscript
