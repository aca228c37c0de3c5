/-
  What happens until a chain is built: the failure that ends the building, and
  the events that are worth logging.
-/
import Tickscript.Argument

namespace Tickscript

/-- The first argument without a literal, and the name of its call. -/
structure BuildError where
  property : String
  cause : LiteralError

/-- The failure in words. -/
def BuildError.message (e : BuildError) : List Char :=
  "cannot encode argument of .".toList ++ e.property.toList ++ "(): ".toList ++ e.cause.message

/-- How much an event matters. -/
inductive Level where
  | warn
  | debug
  | trace
deriving DecidableEq

def Level.name : Level → List Char
  | warn => "WARN".toList
  | debug => "DEBUG".toList
  | trace => "TRACE".toList

/-- What is worth logging. -/
inductive Event where
  /-- An alert with that many handlers is read. -/
  | loaded (handlers : Nat)
  /-- An argument has no literal. -/
  | rejected (e : BuildError)
  /-- A call came after the failure. -/
  | skipped (property : String)
  /-- An alert with that many handlers is converted. -/
  | converted (handlers : Nat)

namespace Event

def level : Event → Level
  | loaded _ => .debug
  | rejected _ => .warn
  | skipped _ => .trace
  | converted _ => .debug

/-- The event without its level. -/
def description : Event → List Char
  | loaded handlers => "loaded alert configuration handlers=".toList ++ Integer.decimal handlers
  | rejected e =>
    "cannot encode argument property=".toList ++ e.property.toList ++ " error=".toList
      ++ e.cause.message
  | skipped property => "chain already failed, skipping call property=".toList ++ property.toList
  | converted handlers => "converted alert handlers=".toList ++ Integer.decimal handlers

/-- The line of an event in a log. -/
def render (e : Event) : List Char := e.level.name ++ ' ' :: e.description

end Event

end Tickscript
