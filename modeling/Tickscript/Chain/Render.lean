/-
  Chains as scripts write them: the root on the first line, and one call on each
  of the others.

  * `Call.render` is `name(arg, ...)`;
  * `Link.render` has the operator in front;
  * `Chain.render` indents nodes once, and properties once or, behind a node,
    twice.
-/
import Tickscript.Chain.Basic
import Tickscript.Literal.Render

namespace Tickscript

def Operator.token : Operator → Char
  | pipe => '|'
  | dot => '.'

def Call.render (c : Call) : List Char :=
  c.name.toList ++ '(' :: Literal.separator.intercalate (c.args.map Literal.render) ++ [')']

def Link.render (l : Link) : List Char := l.operator.token :: l.call.render

namespace Chain

/-- Four blanks for each level. -/
def indentation (level : Nat) : List Char := List.replicate (4 * level) ' '

/-- Where a call stands: properties stand one level below the node that they belong to, if there
    is one. -/
def level (afterNode : Bool) : Operator → Nat
  | .pipe => 1
  | .dot => if afterNode then 2 else 1

/-- The lines of calls, the first of which stands behind a node or not. -/
def renderLinks (afterNode : Bool) : List Link → List Char
  | [] => []
  | l :: rest =>
    indentation (level afterNode l.operator) ++ l.render ++ '\n' ::
      renderLinks (afterNode || l.operator == .pipe) rest

/-- A chain, one call on each line. -/
def render (c : Chain) : List Char := c.root.toList ++ '\n' :: renderLinks false c.links

end Chain

end Tickscript
