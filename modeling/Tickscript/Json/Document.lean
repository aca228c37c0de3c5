/-
  The tree that the tokens of a document spell, up to the first fault.

  A fault does not throw the tree away: what stands before it keeps its place,
  and the container in which the fault lies ends with it.  So a reader that walks
  the tree from the left meets its own objections and the faults of the text in
  the order of the text, and the first of them decides.

  * `State.next` is the automaton that builds the tree, with the open containers
    on a stack;
  * `Document.ofTokens` runs it, and also says whether tokens follow the value;
  * `Document.mismatch` is the fault of a value of the wrong kind, and
    `Document.skip` passes over a value that nobody wants.
-/
import Tickscript.Json.Token

namespace Tickscript.Json

/-- What stands in the place of a key: a string, of which the text is missing where the halves of
    characters do not pair up; or a fault inside or in front of the string, for one who reads the key
    and for one who passes over it. -/
inductive Key where
  | name (s : Option String)
  | broken (read passed : Fault)

/-- A value up to its first fault: nothing but a fault, a value that is no container, or a
    container with the fault that ends it too early, if one does. -/
inductive Document where
  | absent (f : Fault)
  | scalar (s : Scalar)
  | array (items : List Document) (fault : Option Fault)
  | object (members : List (Key × Document)) (fault : Option Fault)

/-! ## Faults of values -/

/-- The fault of a scalar where another kind of value is wanted: its own, if it has one. -/
def Scalar.mismatch : Scalar → Fault
  | null | bool _ => .mismatched
  | number n => if n.float?.isSome then .mismatched else .malformed
  | text s => if s.isSome then .mismatched else .malformed
  | brokenWord f | brokenNumber f | brokenText f _ => f

/-- The fault of a value where another kind of value is wanted.  Containers are not looked into. -/
def Document.mismatch : Document → Fault
  | absent f => f
  | scalar s => s.mismatch
  | array _ _ | object _ _ => .mismatched

/-- `a`, unless there is a fault. -/
def unbroken {α : Type} (fault : Option Fault) (a : α) : Except Fault α :=
  match fault with
  | some f => .error f
  | none => .ok a

/-- Passes over a scalar.  The halves of characters and the size of numbers do not matter. -/
def Scalar.skip : Scalar → Except Fault Unit
  | brokenWord f | brokenText _ f => .error f
  | brokenNumber _ => .error .malformed
  | _ => .ok ()

/-- Passes over a key. -/
def Key.skip : Key → Except Fault Unit
  | name _ => .ok ()
  | broken _ f => .error f

mutual

/-- Passes over a value: the first fault of the text in it, if there is one. -/
def Document.skip : Document → Except Fault Unit
  | .absent f => .error f
  | .scalar s => s.skip
  | .array items fault => do skipItems items; unbroken fault ()
  | .object members fault => do skipMembers members; unbroken fault ()

def Document.skipItems : List Document → Except Fault Unit
  | [] => .ok ()
  | d :: rest => do d.skip; skipItems rest

def Document.skipMembers : List (Key × Document) → Except Fault Unit
  | [] => .ok ()
  | (key, d) :: rest => do key.skip; d.skip; skipMembers rest

end

/-! ## Building the tree -/

/-- An open container with what it holds so far, latest first. -/
inductive Frame where
  | array (items : List Document)
  | member (members : List (Key × Document)) (key : Key)

/-- What may come next, inside the given open containers. -/
inductive State where
  /-- A value. -/
  | value (outer : List Frame)
  /-- The first item of an array, or its end. -/
  | firstItem (outer : List Frame)
  /-- A comma, or the end of the array. -/
  | afterItem (items : List Document) (outer : List Frame)
  /-- The first key of an object, or its end.  Nothing but a string is a key, whoever reads the
      object. -/
  | firstKey (outer : List Frame)
  /-- A key. -/
  | nextKey (members : List (Key × Document)) (outer : List Frame)
  /-- The colon behind a key. -/
  | colon (members : List (Key × Document)) (key : Key) (outer : List Frame)
  /-- A comma, or the end of the object. -/
  | afterMember (members : List (Key × Document)) (outer : List Frame)
  /-- Nothing but white space. -/
  | done (d : Document)

namespace State

/-- A complete value goes to the innermost open container. -/
def deliver (d : Document) : List Frame → State
  | [] => done d
  | .array items :: outer => afterItem (d :: items) outer
  | .member members key :: outer => afterMember ((key, d) :: members) outer

/-- The first token of a value. -/
def start (outer : List Frame) : Token → Option State
  | .scalar s => some (deliver (.scalar s) outer)
  | .openArray => some (firstItem outer)
  | .openObject => some (firstKey outer)
  | _ => none

/-- The key that a token is. -/
def keyOf : Token → Option Key
  | .scalar (.text s) => some (.name s)
  | .scalar (.brokenText read passed) => some (.broken read passed)
  | _ => none

/-- The state behind a token, if the token may come. -/
def next : State → Token → Option State
  | value outer, t => start outer t
  | firstItem outer, .closeArray => some (deliver (.array [] none) outer)
  | firstItem outer, t => start (.array [] :: outer) t
  | afterItem items outer, .comma => some (value (.array items :: outer))
  | afterItem items outer, .closeArray => some (deliver (.array items.reverse none) outer)
  | firstKey outer, .closeObject => some (deliver (.object [] none) outer)
  | firstKey outer, t => (keyOf t).map (colon [] · outer)
  | nextKey members outer, t => (keyOf t).map (colon members · outer)
  | colon members key outer, .colon => some (value (.member members key :: outer))
  | afterMember members outer, .comma => some (nextKey members outer)
  | afterMember members outer, .closeObject => some (deliver (.object members.reverse none) outer)
  | _, _ => none

/-- The whole tree when its innermost unfinished value is `d`.  The text behind the fault in `d` is
    not looked at, so the containers around it end there too. -/
def unwind (d : Document) : List Frame → Document
  | [] => d
  | .array items :: outer => unwind (.array (items.reverse ++ [d]) (some .truncated)) outer
  | .member members key :: outer =>
    unwind (.object (members.reverse ++ [(key, d)]) (some .truncated)) outer

/-- The whole tree when the text has a fault here. -/
def halt (f : Fault) : State → Document
  | value outer => unwind (.absent f) outer
  | firstItem outer => unwind (.array [] (some f)) outer
  | afterItem items outer => unwind (.array items.reverse (some f)) outer
  | firstKey outer => unwind (.object [] (some f)) outer
  | nextKey members outer =>
    unwind (.object (members.reverse ++ [(.broken f f, .absent f)]) (some f)) outer
  | colon members key outer =>
    unwind (.object (members.reverse ++ [(key, .absent f)]) (some f)) outer
  | afterMember members outer => unwind (.object members.reverse (some f)) outer
  | done d => d

/-- The tree of the tokens from a state on, and whether tokens follow it. -/
def run : State → List Token → Document × Bool
  | done d, ts => (d, !ts.isEmpty)
  | s, [] => (s.halt .truncated, false)
  | s, t :: ts =>
    match s.next t with
    | some s' => run s' ts
    | none => (s.halt .malformed, false)

end State

/-- The tree of the tokens of a text, and whether tokens follow it. -/
def Document.ofTokens (ts : List Token) : Document × Bool := (State.value []).run ts

end Tickscript.Json
