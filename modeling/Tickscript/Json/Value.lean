/-
  JSON values as this library writes them, and the two forms of their text.

  * `Json.compact` has no white space; `Json.pretty` puts every item and every
    member on a line of its own, two more blanks in than its container;
  * `Json.escape` is the written form of one character of a string;
  * `Json.depth` is the nesting of arrays and objects.
-/
import Tickscript.Binary64.Shortest

namespace Tickscript

/-- A value of a document.  The members of an object are in written order. -/
inductive Json where
  | null
  | bool (b : Bool)
  | int (n : Int)
  | float (x : Binary64)
  | text (s : String)
  | array (items : List Json)
  | object (members : List (String × Json))

namespace Json

/-! ## Scalars -/

/-- The written form of a character: quotes, backslashes and control characters are escaped. -/
def escape (c : Char) : List Char :=
  if c = '"' then ['\\', '"']
  else if c = '\\' then ['\\', '\\']
  else if c = '\x08' then ['\\', 'b']
  else if c = '\t' then ['\\', 't']
  else if c = '\n' then ['\\', 'n']
  else if c = '\x0c' then ['\\', 'f']
  else if c = '\r' then ['\\', 'r']
  else if c < ' ' then '\\' :: 'u' :: (Nat.toDigits 16 c.toNat).leftpad 4 '0'
  else [c]

/-- A string in quotes. -/
def quoted (s : String) : List Char := '"' :: s.toList.flatMap escape ++ ['"']

def word (b : Bool) : List Char := if b then "true".toList else "false".toList

/-! ## Compact text -/

mutual

/-- The text of a value without white space. -/
def compact : Json → List Char
  | null => "null".toList
  | bool b => word b
  | int n => Integer.decimal n
  | float x => x.json
  | text s => quoted s
  | array items => '[' :: [','].intercalate (compactItems items) ++ [']']
  | object members => '{' :: [','].intercalate (compactMembers members) ++ ['}']

def compactItems : List Json → List (List Char)
  | [] => []
  | j :: rest => compact j :: compactItems rest

def compactMembers : List (String × Json) → List (List Char)
  | [] => []
  | (key, j) :: rest => (quoted key ++ ':' :: compact j) :: compactMembers rest

end

/-! ## Pretty text -/

/-- The start of a line `level` containers deep. -/
def newline (level : Nat) : List Char := '\n' :: List.replicate (2 * level) ' '

/-- A container `level` deep with its parts on lines of their own; an empty one stays together. -/
def framed (left right : Char) (level : Nat) : List (List Char) → List Char
  | [] => [left, right]
  | parts => left :: newline (level + 1) ++ (',' :: newline (level + 1)).intercalate parts
      ++ newline level ++ [right]

mutual

/-- The text of a value that stands `level` containers deep. -/
def prettyAt (level : Nat) : Json → List Char
  | array items => framed '[' ']' level (prettyItems (level + 1) items)
  | object members => framed '{' '}' level (prettyMembers (level + 1) members)
  | null => "null".toList
  | bool b => word b
  | int n => Integer.decimal n
  | float x => x.json
  | text s => quoted s

def prettyItems (level : Nat) : List Json → List (List Char)
  | [] => []
  | j :: rest => prettyAt level j :: prettyItems level rest

def prettyMembers (level : Nat) : List (String × Json) → List (List Char)
  | [] => []
  | (key, j) :: rest => (quoted key ++ ':' :: ' ' :: prettyAt level j) :: prettyMembers level rest

end

/-- The text of a value over several lines. -/
def pretty (j : Json) : List Char := prettyAt 0 j

/-! ## Nesting -/

mutual

/-- The greatest number of arrays and objects around a place of the value. -/
def depth : Json → Nat
  | array items => depthItems items + 1
  | object members => depthMembers members + 1
  | _ => 0

def depthItems : List Json → Nat
  | [] => 0
  | j :: rest => max (depth j) (depthItems rest)

def depthMembers : List (String × Json) → Nat
  | [] => 0
  | (_, j) :: rest => max (depth j) (depthMembers rest)

end

end Json

end Tickscript
