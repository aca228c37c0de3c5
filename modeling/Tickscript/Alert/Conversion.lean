/-
  Alerts as chains.

  * `Alert.steps` are the calls of an alert: the node, a property for each
    setting, and the calls of the handlers;
  * `Alert.convert` builds them on top of a parent and keeps the log, which ends
    with the number of handlers whether or not the building failed.
-/
import Tickscript.Alert.Basic
import Tickscript.Chain.Builder
import Tickscript.Handler.Steps

namespace Tickscript.Alert

open Handler (property)

/-- A property with an expression that may be missing. -/
def condition (name : String) (e : Option String) : Step :=
  .dot name [match e with | some e => .lambda e | none => .absent]

/-- The settings that do not depend on another one. -/
def propertySteps (a : Alert) : List Step := [
  property "topic" a.topic,
  property "id" a.id,
  property "message" a.message,
  property "details" a.details,
  condition "info" a.info,
  condition "warn" a.warn,
  condition "crit" a.crit,
  condition "infoReset" a.infoReset,
  condition "warnReset" a.warnReset,
  condition "critReset" a.critReset,
  .dot "history" [.uint a.history],
  property "levelTag" a.levelTag,
  property "levelField" a.levelField,
  property "messageField" a.messageField,
  property "durationField" a.durationField,
  property "idTag" a.idTag,
  property "idField" a.idField,
  .dotIf "all" a.all [],
  .dotIf "noRecoveries" a.noRecoveries []]

/-- Events for changes of the state only; without a duration an unchanged state is never sent
    again. -/
def stateSteps (a : Alert) : List Step :=
  if a.stateChangesOnly then
    if a.stateChangesOnlyDuration.nanoseconds = 0 then [.dot "stateChangesOnly" []]
    else [.dot "stateChangesOnly" [.duration a.stateChangesOnlyDuration]]
  else []

/-- Both thresholds of flapping, zero or not. -/
def flappingSteps (a : Alert) : List Step :=
  if a.useFlapping then [.dotAlways "flapping" [.float a.flapLow, .float a.flapHigh]] else []

/-- All calls of an alert, in order. -/
def steps (a : Alert) : List Step :=
  .pipe "alert" [] :: a.propertySteps ++ a.stateSteps ++ a.flappingSteps
    ++ a.handlers.flatMap Handler.steps

/-- What comes of a conversion: the chain or the failure, and the events. -/
structure Conversion where
  result : Except BuildError Chain
  log : List Event

/-- The alert on top of a chain. -/
def convert (parent : Chain) (a : Alert) : Conversion :=
  let (b, events) := (Builder.start parent).run a.steps
  ⟨b.finish, events ++ [.converted a.handlers.length]⟩

end Tickscript.Alert
