/-
  Building chains call by call.

  A builder holds the chain so far and the first failure.  An attempted call
  whose arguments have literals becomes a link; one with an argument that has
  none is the failure, and all later attempts are passed over.

  * `Builder.apply` and `Builder.run` take one step and a list of steps, with the
    events they cause;
  * `Builder.finish` is the chain, or the failure.
-/
import Tickscript.Chain.Event
import Tickscript.Chain.Step

namespace Tickscript

structure Builder where
  tip : Chain
  failure : Option BuildError

namespace Builder

/-- The builder on top of a chain. -/
def start (parent : Chain) : Builder := ⟨parent, none⟩

/-- An attempted call. -/
def link (b : Builder) (a : Attempt) : Builder × List Event :=
  match b.failure with
  | some _ => (b, [.skipped a.name])
  | none =>
    match a.encode with
    | .ok l => ({ b with tip := b.tip.append l }, [])
    | .error cause =>
      let e : BuildError := ⟨a.name, cause⟩
      ({ b with failure := some e }, [.rejected e])

/-- One step. -/
def apply (b : Builder) (s : Step) : Builder × List Event :=
  match s.attempt with
  | some a => b.link a
  | none => (b, [])

/-- Steps in order. -/
def run (b : Builder) : List Step → Builder × List Event
  | [] => (b, [])
  | s :: rest =>
    let (b, events) := b.apply s
    let (b, later) := b.run rest
    (b, events ++ later)

/-- The chain, unless there was a failure. -/
def finish (b : Builder) : Except BuildError Chain :=
  match b.failure with
  | some e => .error e
  | none => .ok b.tip

end Builder

end Tickscript
