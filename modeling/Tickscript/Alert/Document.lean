/-
  Alerts in documents: a record in which every field has a default.
-/
import Tickscript.Alert.Basic
import Tickscript.Handler.Document

namespace Tickscript.Alert

open Json (Codec Record)

def record : Record Alert Alert := .defaulted {} [
  .of "topic" .text (·.topic) fun a s => { a with topic := s },
  .of "id" .text (·.id) fun a s => { a with id := s },
  .of "message" .text (·.message) fun a s => { a with message := s },
  .of "details" .text (·.details) fun a s => { a with details := s },
  .of "info" (.optional .text) (·.info) fun a e => { a with info := e },
  .of "warn" (.optional .text) (·.warn) fun a e => { a with warn := e },
  .of "crit" (.optional .text) (·.crit) fun a e => { a with crit := e },
  .of "infoReset" (.optional .text) (·.infoReset) fun a e => { a with infoReset := e },
  .of "warnReset" (.optional .text) (·.warnReset) fun a e => { a with warnReset := e },
  .of "critReset" (.optional .text) (·.critReset) fun a e => { a with critReset := e },
  .of "history" .uint64 (·.history) fun a n => { a with history := n },
  .of "levelTag" .text (·.levelTag) fun a s => { a with levelTag := s },
  .of "levelField" .text (·.levelField) fun a s => { a with levelField := s },
  .of "messageField" .text (·.messageField) fun a s => { a with messageField := s },
  .of "durationField" .text (·.durationField) fun a s => { a with durationField := s },
  .of "idTag" .text (·.idTag) fun a s => { a with idTag := s },
  .of "idField" .text (·.idField) fun a s => { a with idField := s },
  .of "all" .bool (·.all) fun a b => { a with all := b },
  .of "noRecoveries" .bool (·.noRecoveries) fun a b => { a with noRecoveries := b },
  .of "stateChangesOnly" .bool (·.stateChangesOnly) fun a b => { a with stateChangesOnly := b },
  .of "stateChangesOnlyDuration" Duration.codec (·.stateChangesOnlyDuration)
    fun a d => { a with stateChangesOnlyDuration := d },
  .of "useFlapping" .bool (·.useFlapping) fun a b => { a with useFlapping := b },
  .of "flapLow" .float (·.flapLow) fun a x => { a with flapLow := x },
  .of "flapHigh" .float (·.flapHigh) fun a x => { a with flapHigh := x },
  .of "httpPostHandlers" (.list Handler.HttpPost.record.codec) (·.httpPostHandlers)
    fun a hs => { a with httpPostHandlers := hs },
  .of "tcpHandlers" (.list Handler.Tcp.record.codec) (·.tcpHandlers)
    fun a hs => { a with tcpHandlers := hs },
  .of "emailHandlers" (.list Handler.Email.record.codec) (·.emailHandlers)
    fun a hs => { a with emailHandlers := hs },
  .of "execHandlers" (.list Handler.Exec.record.codec) (·.execHandlers)
    fun a hs => { a with execHandlers := hs },
  .of "logHandlers" (.list Handler.Log.record.codec) (·.logHandlers)
    fun a hs => { a with logHandlers := hs },
  .of "victorOpsHandlers" (.list Handler.VictorOps.record.codec) (·.victorOpsHandlers)
    fun a hs => { a with victorOpsHandlers := hs },
  .of "pagerDutyHandlers" (.list Handler.PagerDuty.record.codec) (·.pagerDutyHandlers)
    fun a hs => { a with pagerDutyHandlers := hs },
  .of "pushoverHandlers" (.list Handler.Pushover.record.codec) (·.pushoverHandlers)
    fun a hs => { a with pushoverHandlers := hs },
  .of "sensuHandlers" (.list Handler.Sensu.record.codec) (·.sensuHandlers)
    fun a hs => { a with sensuHandlers := hs },
  .of "slackHandlers" (.list Handler.Slack.record.codec) (·.slackHandlers)
    fun a hs => { a with slackHandlers := hs },
  .of "telegramHandlers" (.list Handler.Telegram.record.codec) (·.telegramHandlers)
    fun a hs => { a with telegramHandlers := hs },
  .of "hipChatHandlers" (.list Handler.HipChat.record.codec) (·.hipChatHandlers)
    fun a hs => { a with hipChatHandlers := hs },
  .of "alertaHandlers" (.list Handler.Alerta.record.codec) (·.alertaHandlers)
    fun a hs => { a with alertaHandlers := hs },
  .of "opsGenieHandlers" (.list Handler.OpsGenie.record.codec) (·.opsGenieHandlers)
    fun a hs => { a with opsGenieHandlers := hs },
  .of "talkHandlers" (.list Handler.Talk.record.codec) (·.talkHandlers)
    fun a hs => { a with talkHandlers := hs },
  .of "mqttHandlers" (.list Handler.Mqtt.record.codec) (·.mqttHandlers)
    fun a hs => { a with mqttHandlers := hs },
  .of "snmpTrapHandlers" (.list Handler.SnmpTrap.record.codec) (·.snmpTrapHandlers)
    fun a hs => { a with snmpTrapHandlers := hs }]

def codec : Codec Alert := record.codec

end Tickscript.Alert
