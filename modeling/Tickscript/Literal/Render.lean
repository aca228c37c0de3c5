/-
  Literals as scripts write them.

  * `Literal.quoted` puts a string into single quotes, with a backslash in front
    of every quote and every backslash;
  * `Number.render` writes the base of an integer as its prefix: nothing, `0` or
    `0x`;
  * `Literal.render` writes the items of a list side by side.
-/
import Tickscript.Binary64.Shortest
import Tickscript.Duration
import Tickscript.Literal.Basic

namespace Tickscript

/-- What stands in front of the digits of an integer. -/
def Base.lead : Base → List Char
  | decimal => []
  | octal => ['0']
  | hex => ['0', 'x']

/-- A number, with the sign in front of the base. -/
def Number.render : Number → List Char
  | int value base =>
    Integer.sign (value < 0) ++ base.lead ++ Nat.toDigits base.radix value.toInt.natAbs
  | float x => x.script

namespace Literal

/-- The written form of a character of a string. -/
def escape (c : Char) : List Char := if c = '\\' ∨ c = '\'' then ['\\', c] else [c]

/-- A string in single quotes. -/
def quoted (s : String) : List Char := '\'' :: s.toList.flatMap escape ++ ['\'']

/-- What stands between arguments and between the items of a list. -/
def separator : List Char := [',', ' ']

mutual

/-- A literal as scripts write it. -/
def render : Literal → List Char
  | text s => quoted s
  | number n => n.render
  | bool b => (if b then "TRUE" else "FALSE").toList
  | duration n => Duration.render n.toInt
  | lambda e => "lambda: ".toList ++ e.toList
  | list items => separator.intercalate (renderAll items)

def renderAll : List Literal → List (List Char)
  | [] => []
  | l :: rest => render l :: renderAll rest

end

end Literal

end Tickscript
