/-
  Alert handlers: where the events of an alert go.

  Each kind of handler has a structure with its settings; `Handler` is a handler
  of any kind, and `Handler.method` is the name of the call that opens it.  A
  setting that is empty, zero or false is not set.
-/
import Tickscript.Headers

namespace Tickscript

namespace Handler

/-- Posts the event to a URL. -/
structure HttpPost where
  url : String := ""
  /-- An endpoint that the server knows by name. -/
  endpoint : String := ""
  headers : Headers := .empty
deriving BEq

/-- Sends the event to a network address. -/
structure Tcp where
  address : String := ""
deriving BEq

structure Email where
  toList : List String := []
deriving BEq

/-- Runs a program that reads the event. -/
structure Exec where
  /-- The program and its arguments. -/
  command : List String := []
deriving BEq

/-- Appends the event to a file. -/
structure Log where
  filePath : String := ""
  /-- The permissions of a file that is created. -/
  mode : UInt32 := 0o600
deriving BEq

structure VictorOps where
  routingKey : String := ""
deriving BEq

structure PagerDuty where
  serviceKey : String := ""
deriving BEq

structure Pushover where
  userKey : String := ""
  device : String := ""
  title : String := ""
  url : String := ""
  urlTitle : String := ""
  sound : String := ""
deriving BEq

structure Sensu where
  source : String := ""
  handlersList : List String := []
deriving BEq

structure Slack where
  channel : String := ""
  username : String := ""
  iconEmoji : String := ""
deriving BEq

structure Telegram where
  chatId : String := ""
  parseMode : String := ""
  disableWebPagePreview : Bool := false
  disableNotification : Bool := false
deriving BEq

structure HipChat where
  room : String := ""
  token : String := ""
deriving BEq

structure Alerta where
  token : String := ""
  resource : String := ""
  event : String := ""
  environment : String := ""
  group : String := ""
  value : String := ""
  origin : String := ""
  services : List String := []
deriving BEq

structure OpsGenie where
  teamsList : List String := []
  recipientsList : List String := []
deriving BEq

/-- Talk has no settings. -/
structure Talk where
deriving BEq

structure Mqtt where
  brokerName : String := ""
  topic : String := ""
  qos : UInt8 := 0
  retained : Bool := false
deriving BEq

/-- A value that goes with an SNMP trap. -/
structure SnmpData where
  oid : String := ""
  /-- The letter of the type, such as `i` for an integer. -/
  kind : String := ""
  value : String := ""
deriving BEq

structure SnmpTrap where
  trapOid : String := ""
  dataList : List SnmpData := []
deriving BEq

end Handler

/-- A handler of any kind. -/
inductive Handler where
  | httpPost (h : Handler.HttpPost)
  | tcp (h : Handler.Tcp)
  | email (h : Handler.Email)
  | exec (h : Handler.Exec)
  | log (h : Handler.Log)
  | victorOps (h : Handler.VictorOps)
  | pagerDuty (h : Handler.PagerDuty)
  | pushover (h : Handler.Pushover)
  | sensu (h : Handler.Sensu)
  | slack (h : Handler.Slack)
  | telegram (h : Handler.Telegram)
  | hipChat (h : Handler.HipChat)
  | alerta (h : Handler.Alerta)
  | opsGenie (h : Handler.OpsGenie)
  | talk (h : Handler.Talk)
  | mqtt (h : Handler.Mqtt)
  | snmpTrap (h : Handler.SnmpTrap)

namespace Handler

/-- The name of the call that opens a handler. -/
def method : Handler → String
  | httpPost _ => "post"
  | tcp _ => "tcp"
  | email _ => "email"
  | exec _ => "exec"
  | log _ => "log"
  | victorOps _ => "victorOps"
  | pagerDuty _ => "pagerDuty"
  | pushover _ => "pushover"
  | sensu _ => "sensu"
  | slack _ => "slack"
  | telegram _ => "telegram"
  | hipChat _ => "hipChat"
  | alerta _ => "alerta"
  | opsGenie _ => "opsGenie"
  | talk _ => "talk"
  | mqtt _ => "mqtt"
  | snmpTrap _ => "snmpTrap"

end Handler

end Tickscript
