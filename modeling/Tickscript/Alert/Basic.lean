/-
  The configuration of an alert: when it is raised, what its events say, and
  which handlers get them.

  * `Alert.handlers` are all handlers, kind by kind in a fixed order and in list
    order within a kind;
  * `==` is equality part by part, with doubles compared as numbers and headers
    regardless of their order.
-/
import Tickscript.Duration
import Tickscript.Handler.Basic

namespace Tickscript

/-- An alert.  A setting that is empty, zero, false or missing is not set. -/
structure Alert where
  /-- Where the events are published. -/
  topic : String := ""
  id : String := ""
  message : String := ""
  details : String := ""
  info : Option String := none
  warn : Option String := none
  crit : Option String := none
  infoReset : Option String := none
  warnReset : Option String := none
  critReset : Option String := none
  /-- The number of former states that flapping is judged by. -/
  history : UInt64 := 0
  levelTag : String := ""
  levelField : String := ""
  messageField : String := ""
  durationField : String := ""
  idTag : String := ""
  idField : String := ""
  /-- Raised by every point. -/
  all : Bool := false
  noRecoveries : Bool := false
  stateChangesOnly : Bool := false
  /-- When an unchanged state is sent again. -/
  stateChangesOnlyDuration : Duration := .zero
  useFlapping : Bool := false
  flapLow : Binary64 := .zero false
  flapHigh : Binary64 := .zero false
  httpPostHandlers : List Handler.HttpPost := []
  tcpHandlers : List Handler.Tcp := []
  emailHandlers : List Handler.Email := []
  execHandlers : List Handler.Exec := []
  logHandlers : List Handler.Log := []
  victorOpsHandlers : List Handler.VictorOps := []
  pagerDutyHandlers : List Handler.PagerDuty := []
  pushoverHandlers : List Handler.Pushover := []
  sensuHandlers : List Handler.Sensu := []
  slackHandlers : List Handler.Slack := []
  telegramHandlers : List Handler.Telegram := []
  hipChatHandlers : List Handler.HipChat := []
  alertaHandlers : List Handler.Alerta := []
  opsGenieHandlers : List Handler.OpsGenie := []
  talkHandlers : List Handler.Talk := []
  mqttHandlers : List Handler.Mqtt := []
  snmpTrapHandlers : List Handler.SnmpTrap := []
deriving BEq

namespace Alert

/-- All handlers in order. -/
def handlers (a : Alert) : List Handler :=
  a.httpPostHandlers.map .httpPost ++ a.tcpHandlers.map .tcp ++ a.emailHandlers.map .email
    ++ a.execHandlers.map .exec ++ a.logHandlers.map .log ++ a.victorOpsHandlers.map .victorOps
    ++ a.pagerDutyHandlers.map .pagerDuty ++ a.pushoverHandlers.map .pushover
    ++ a.sensuHandlers.map .sensu ++ a.slackHandlers.map .slack
    ++ a.telegramHandlers.map .telegram ++ a.hipChatHandlers.map .hipChat
    ++ a.alertaHandlers.map .alerta ++ a.opsGenieHandlers.map .opsGenie
    ++ a.talkHandlers.map .talk ++ a.mqttHandlers.map .mqtt ++ a.snmpTrapHandlers.map .snmpTrap

end Alert

end Tickscript
