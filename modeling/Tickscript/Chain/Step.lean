/-
  The calls that a chain is built from.

  * A `Step` is a call that is asked for.  Whether it is attempted depends on its
    arguments alone (`Step.attempt`): properties with a zero argument are left
    out, unless they are wanted even so;
  * `Attempt.encode` is the link of an attempt, or the reason why the first of
    the arguments that have no literal has none.
-/
import Tickscript.Argument
import Tickscript.Chain.Basic

namespace Tickscript

/-- A call that a builder is asked for. -/
inductive Step where
  /-- A node. -/
  | pipe (name : String) (args : List Argument)
  /-- A property, unless an argument is zero. -/
  | dot (name : String) (args : List Argument)
  /-- A property, if the condition holds and no argument is zero. -/
  | dotIf (name : String) (condition : Bool) (args : List Argument)
  /-- A property, zero or not. -/
  | dotAlways (name : String) (args : List Argument)

/-- A call that is tried. -/
structure Attempt where
  operator : Operator
  name : String
  args : List Argument

/-- The literals of arguments, or the reason why the first of those that have none has none. -/
def Argument.encodeAll : List Argument → Except LiteralError (List Literal)
  | [] => .ok []
  | a :: rest => do
    let l ← a.encode
    let ls ← encodeAll rest
    .ok (l :: ls)

/-- The link of an attempt. -/
def Attempt.encode (a : Attempt) : Except LiteralError Link :=
  (Argument.encodeAll a.args).map fun args => ⟨a.operator, ⟨a.name, args⟩⟩

/-- A property that is tried unless an argument is zero. -/
def Attempt.property? (name : String) (args : List Argument) : Option Attempt :=
  if args.any Argument.isZero then none else some ⟨.dot, name, args⟩

/-- The call that a step tries, if it does. -/
def Step.attempt : Step → Option Attempt
  | pipe name args => some ⟨.pipe, name, args⟩
  | dot name args => Attempt.property? name args
  | dotIf name condition args => if condition then Attempt.property? name args else none
  | dotAlways name args => some ⟨.dot, name, args⟩

end Tickscript
