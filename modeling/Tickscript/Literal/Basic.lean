/-
  Literals: the constant arguments of calls.

  * A `Number` is an integer with the base in which it is written, or a double;
  * `Literal.equals`, also written `==`, compares literals part by part, doubles
    as numbers;
  * `Literal.flatten` is the sequence of literals without lists that a literal
    stands for in an argument list.
-/
import Tickscript.Binary64.Basic

namespace Tickscript

/-- The base in which an integer is written. -/
inductive Base where
  | decimal
  | octal
  | hex
deriving DecidableEq

namespace Base

instance : Inhabited Base := ⟨decimal⟩

def radix : Base → Nat
  | decimal => 10
  | octal => 8
  | hex => 16

end Base

inductive Number where
  | int (value : Int64) (base : Base)
  | float (x : Binary64)
deriving BEq

/-- A constant argument.  A duration is a number of nanoseconds; a lambda is the source text of an
    expression; a list stands for its items. -/
inductive Literal where
  | text (s : String)
  | number (n : Number)
  | bool (b : Bool)
  | duration (nanoseconds : Int64)
  | lambda (expression : String)
  | list (items : List Literal)

namespace Literal

/-! ## Equality -/

mutual

/-- Equality part by part. -/
def equals : Literal → Literal → Bool
  | text s, text t => s == t
  | number m, number n => m == n
  | bool a, bool b => a == b
  | duration m, duration n => m == n
  | lambda s, lambda t => s == t
  | list as, list bs => equalsAll as bs
  | _, _ => false

def equalsAll : List Literal → List Literal → Bool
  | [], [] => true
  | a :: as, b :: bs => equals a b && equalsAll as bs
  | _, _ => false

end

instance : BEq Literal := ⟨equals⟩

/-! ## Lists -/

mutual

/-- The literals that a literal stands for, without their lists. -/
def flatten : Literal → List Literal
  | list items => flattenAll items
  | l => [l]

def flattenAll : List Literal → List Literal
  | [] => []
  | l :: rest => flatten l ++ flattenAll rest

end

end Literal

end Tickscript
