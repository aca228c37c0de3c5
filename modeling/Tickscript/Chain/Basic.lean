/-
  Chains of calls.

  * A `Chain` is the name of its root and the links behind it, from left to
    right; a `Link` is a `Call` with the `Operator` in front of it;
  * `Chain.append` puts a link at the end;
  * `Chain.callNames` are the names of the calls in order.
-/
import Tickscript.Literal.Basic

namespace Tickscript

/-- How a call attaches to what stands on its left: as a new node of the pipeline, or as a property
    of the node. -/
inductive Operator where
  | pipe
  | dot
deriving DecidableEq

/-- A name with literal arguments. -/
structure Call where
  name : String
  args : List Literal
deriving BEq

structure Link where
  operator : Operator
  call : Call
deriving BEq

/-- A root with the calls that follow it. -/
structure Chain where
  root : String
  links : List Link
deriving BEq

namespace Chain

/-- The chain without calls. -/
def identifier (name : String) : Chain := ⟨name, []⟩

instance : Inhabited Chain := ⟨identifier ""⟩

def append (c : Chain) (l : Link) : Chain := ⟨c.root, c.links ++ [l]⟩

def callNames (c : Chain) : List String := c.links.map (·.call.name)

end Chain

end Tickscript
