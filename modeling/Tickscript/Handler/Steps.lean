/-
  The calls of a handler: the one that opens it, and one for each of its
  settings.

  * `Handler.steps` are the calls of a handler of any kind.  Four kinds are opened
    with a setting of their own and the others with nothing.
-/
import Tickscript.Chain.Step
import Tickscript.Handler.Basic

namespace Tickscript.Handler

/-- A property with a text. -/
def property (name s : String) : Step := .dot name [.text s]

/-- A header with its value. -/
def header (e : String × String) : Step := .dot "header" [.text e.1, .text e.2]

/-- A value that goes with a trap. -/
def SnmpData.step (d : SnmpData) : Step := .dot "data" [.text d.oid, .text d.kind, .text d.value]

/-- The calls of a handler, in order. -/
def steps (handler : Handler) : List Step :=
  let name := handler.method
  match handler with
  | .httpPost h =>
    [property name h.url, property "endpoint" h.endpoint] ++ h.headers.entries.map header
  | .tcp h => [.dot name [], property "address" h.address]
  | .email h => .dot name [] :: h.toList.map (property "to")
  | .exec h => [.dot name [.list h.command]]
  | .log h =>
    [property name h.filePath, .dot "mode" [.number (.int (.ofNat h.mode.toNat) .octal)]]
  | .victorOps h => [.dot name [], property "routingKey" h.routingKey]
  | .pagerDuty h => [.dot name [], property "serviceKey" h.serviceKey]
  | .pushover h => [
      .dot name [],
      property "userKey" h.userKey,
      property "device" h.device,
      property "title" h.title,
      property "url" h.url,
      property "urlTitle" h.urlTitle,
      property "sound" h.sound]
  | .sensu h => [.dot name [], property "source" h.source, .dot "handlers" [.list h.handlersList]]
  | .slack h => [
      .dot name [],
      property "channel" h.channel,
      property "username" h.username,
      property "iconEmoji" h.iconEmoji]
  | .telegram h => [
      .dot name [],
      property "chatId" h.chatId,
      property "parseMode" h.parseMode,
      .dotIf "disableWebPagePreview" h.disableWebPagePreview [],
      .dotIf "disableNotification" h.disableNotification []]
  | .hipChat h => [.dot name [], property "room" h.room, property "token" h.token]
  | .alerta h => [
      .dot name [],
      property "token" h.token,
      property "resource" h.resource,
      property "event" h.event,
      property "environment" h.environment,
      property "group" h.group,
      property "value" h.value,
      property "origin" h.origin,
      .dot "services" [.list h.services]]
  | .opsGenie h => [
      .dot name [],
      .dot "teams" [.list h.teamsList],
      .dot "recipients" [.list h.recipientsList]]
  | .talk _ => [.dot name []]
  | .mqtt h => [
      .dot name [],
      property "brokerName" h.brokerName,
      property "topic" h.topic,
      .dot "qos" [.int (.ofNat h.qos.toNat)],
      .dot "retained" [.bool h.retained]]
  | .snmpTrap h => property name h.trapOid :: h.dataList.map SnmpData.step

end Tickscript.Handler
