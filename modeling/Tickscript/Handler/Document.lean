/-
  Handlers in documents: a record for each kind, in which every field has a
  default.
-/
import Tickscript.Handler.Basic
import Tickscript.Json.Record

namespace Tickscript.Handler

open Json (Codec Record)

def HttpPost.record : Record HttpPost HttpPost := .defaulted {} [
  .of "url" .text (·.url) fun h s => { h with url := s },
  .of "endpoint" .text (·.endpoint) fun h s => { h with endpoint := s },
  .of "headers" Headers.codec (·.headers) fun h hs => { h with headers := hs }]

def Tcp.record : Record Tcp Tcp := .defaulted {} [
  .of "address" .text (·.address) fun h s => { h with address := s }]

def Email.record : Record Email Email := .defaulted {} [
  .of "toList" (.list .text) (·.toList) fun h ss => { h with toList := ss }]

def Exec.record : Record Exec Exec := .defaulted {} [
  .of "command" (.list .text) (·.command) fun h ss => { h with command := ss }]

def Log.record : Record Log Log := .defaulted {} [
  .of "filePath" .text (·.filePath) fun h s => { h with filePath := s },
  .of "mode" .uint32 (·.mode) fun h n => { h with mode := n }]

def VictorOps.record : Record VictorOps VictorOps := .defaulted {} [
  .of "routingKey" .text (·.routingKey) fun h s => { h with routingKey := s }]

def PagerDuty.record : Record PagerDuty PagerDuty := .defaulted {} [
  .of "serviceKey" .text (·.serviceKey) fun h s => { h with serviceKey := s }]

def Pushover.record : Record Pushover Pushover := .defaulted {} [
  .of "userKey" .text (·.userKey) fun h s => { h with userKey := s },
  .of "device" .text (·.device) fun h s => { h with device := s },
  .of "title" .text (·.title) fun h s => { h with title := s },
  .of "url" .text (·.url) fun h s => { h with url := s },
  .of "urlTitle" .text (·.urlTitle) fun h s => { h with urlTitle := s },
  .of "sound" .text (·.sound) fun h s => { h with sound := s }]

def Sensu.record : Record Sensu Sensu := .defaulted {} [
  .of "source" .text (·.source) fun h s => { h with source := s },
  .of "handlersList" (.list .text) (·.handlersList) fun h ss => { h with handlersList := ss }]

def Slack.record : Record Slack Slack := .defaulted {} [
  .of "channel" .text (·.channel) fun h s => { h with channel := s },
  .of "username" .text (·.username) fun h s => { h with username := s },
  .of "iconEmoji" .text (·.iconEmoji) fun h s => { h with iconEmoji := s }]

def Telegram.record : Record Telegram Telegram := .defaulted {} [
  .of "chatId" .text (·.chatId) fun h s => { h with chatId := s },
  .of "parseMode" .text (·.parseMode) fun h s => { h with parseMode := s },
  .of "disableWebPagePreview" .bool (·.disableWebPagePreview)
    fun h b => { h with disableWebPagePreview := b },
  .of "disableNotification" .bool (·.disableNotification)
    fun h b => { h with disableNotification := b }]

def HipChat.record : Record HipChat HipChat := .defaulted {} [
  .of "room" .text (·.room) fun h s => { h with room := s },
  .of "token" .text (·.token) fun h s => { h with token := s }]

def Alerta.record : Record Alerta Alerta := .defaulted {} [
  .of "token" .text (·.token) fun h s => { h with token := s },
  .of "resource" .text (·.resource) fun h s => { h with resource := s },
  .of "event" .text (·.event) fun h s => { h with event := s },
  .of "environment" .text (·.environment) fun h s => { h with environment := s },
  .of "group" .text (·.group) fun h s => { h with group := s },
  .of "value" .text (·.value) fun h s => { h with value := s },
  .of "origin" .text (·.origin) fun h s => { h with origin := s },
  .of "services" (.list .text) (·.services) fun h ss => { h with services := ss }]

def OpsGenie.record : Record OpsGenie OpsGenie := .defaulted {} [
  .of "teamsList" (.list .text) (·.teamsList) fun h ss => { h with teamsList := ss },
  .of "recipientsList" (.list .text) (·.recipientsList) fun h ss => { h with recipientsList := ss }]

def Talk.record : Record Talk Talk := .defaulted {} []

def Mqtt.record : Record Mqtt Mqtt := .defaulted {} [
  .of "brokerName" .text (·.brokerName) fun h s => { h with brokerName := s },
  .of "topic" .text (·.topic) fun h s => { h with topic := s },
  .of "qos" .uint8 (·.qos) fun h n => { h with qos := n },
  .of "retained" .bool (·.retained) fun h b => { h with retained := b }]

def SnmpData.record : Record SnmpData SnmpData := .defaulted {} [
  .of "oid" .text (·.oid) fun d s => { d with oid := s },
  .of "type" .text (·.kind) fun d s => { d with kind := s },
  .of "value" .text (·.value) fun d s => { d with value := s }]

def SnmpTrap.record : Record SnmpTrap SnmpTrap := .defaulted {} [
  .of "trapOid" .text (·.trapOid) fun h s => { h with trapOid := s },
  .of "dataList" (.list SnmpData.record.codec) (·.dataList) fun h ds => { h with dataList := ds }]

end Tickscript.Handler
