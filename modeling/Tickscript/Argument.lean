/-
  Arguments: the values that calls are made with, before they become literals.

  * `Argument.isZero` holds of the zero value of each kind, by which a property
    that is not set is recognised;
  * `Argument.encode` is the literal of an argument, or the reason why it has
    none (`LiteralError`).
-/
import Tickscript.Binary64.Shortest
import Tickscript.Duration
import Tickscript.Literal.Basic

namespace Tickscript

inductive Argument where
  | text (s : String)
  | bool (b : Bool)
  | int (n : Int64)
  | uint (n : UInt64)
  | float (x : Binary64)
  | duration (d : Duration)
  | list (items : List String)
  | lambda (expression : String)
  | number (n : Number)
  | absent

/-- Why an argument has no literal. -/
inductive LiteralError where
  | integerOverflow (value : UInt64)
  | nonFiniteFloat (value : Binary64)
  | durationOverflow (seconds : Nat)
  | negativeBasedInteger (value : Int64) (base : Base)
  | absent

/-- The reason in words. -/
def LiteralError.message : LiteralError → List Char
  | integerOverflow value =>
    "integer ".toList ++ Integer.decimal value.toNat ++ " overflows a 64-bit integer literal".toList
  | nonFiniteFloat value => "float ".toList ++ value.name ++ " has no literal form".toList
  | durationOverflow seconds =>
    "duration of ".toList ++ Integer.decimal seconds ++ "s overflows a duration literal".toList
  | negativeBasedInteger value base =>
    "negative value ".toList ++ Integer.decimal value.toInt ++ " cannot be written in base ".toList
      ++ Integer.decimal base.radix
  | absent => "absent value has no literal form".toList

namespace Argument

/-- Whether the argument is the zero value of its kind.  An integer in a base of its own is never
    zero. -/
def isZero : Argument → Bool
  | text s => s.isEmpty
  | bool b => !b
  | int n => n == 0
  | uint n => n == 0
  | float x => x.isZero
  | duration d => d.nanoseconds == 0
  | list items => items.isEmpty
  | lambda e => e.isEmpty
  | number (.int n base) => base == .decimal && n == 0
  | number (.float x) => x.isZero
  | absent => true

/-- The literal of a double. -/
def encodeFloat (x : Binary64) : Except LiteralError Literal :=
  if x.isFinite then .ok (.number (.float x)) else .error (.nonFiniteFloat x)

/-- The literal of an argument. -/
def encode : Argument → Except LiteralError Literal
  | text s => .ok (.text s)
  | bool b => .ok (.bool b)
  | int n => .ok (.number (.int n .decimal))
  | uint n =>
    if n.toNat < Nat.pow 2 63 then .ok (.number (.int (.ofNat n.toNat) .decimal))
    else .error (.integerOverflow n)
  | float x => encodeFloat x
  | duration d =>
    if d.nanoseconds < Nat.pow 2 63 then .ok (.duration (.ofNat d.nanoseconds))
    else .error (.durationOverflow d.seconds)
  | list items => .ok (.list (items.map .text))
  | lambda e => .ok (.lambda e)
  | number (.int n base) =>
    if base ≠ .decimal ∧ n < 0 then .error (.negativeBasedInteger n base)
    else .ok (.number (.int n base))
  | number (.float x) => encodeFloat x
  | absent => .error .absent

end Argument

end Tickscript
