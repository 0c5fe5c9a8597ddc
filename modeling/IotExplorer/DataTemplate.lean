import IotExplorer.Connection
import IotExplorer.TemplateJson

/-!
The data template client: requests that wait for a reply of the cloud, posted
events that wait for theirs, the actions that the cloud can call, and the status
word of the subscriptions. Callbacks and contexts are numbers. A list walk goes
from the tail over the nodes that are in the list when it starts; a callback can
send requests, which are appended. Undefined behaviour halts the client. The
serial numbers of requests and events stand for their list nodes, and a request
remembers the token of its document.
-/
namespace IotExplorer.DataTemplate

open Basis.JsonText Protocol PublishPacket ClientState JsonParser TemplateJson

def maxSizeOfClientToken : ℕ := 90

/-- `MAX_APPENDING_REQUEST_AT_ANY_GIVEN_TIME`. -/
def maxAppendingRequest : ℕ := 10

def cloudIotJsonRxBufLen : ℕ := mqttRxBufLen + 1

/-- `ReplyAck`, without the value for no answer yet. -/
inductive ReplyAck where
  | timeout | accepted | rejected
  deriving DecidableEq

inductive Method where
  | get | report | rinfo | reply | clear
  deriving DecidableEq

def Method.text : Method → List UInt8
  | .get => ascii "get_status"
  | .report => ascii "report"
  | .rinfo => ascii "report_info"
  | .reply => ascii "control_reply"
  | .clear => ascii "clear_control"

/-- `Request`; the token is the string that starts at its field, and the timer is a deadline. -/
structure Request where
  serial : ℕ
  sentToken : List UInt8
  clientToken : List UInt8
  method : Method
  userContext : Option ℕ
  timer : ℕ
  callback : Option ℕ
  deriving DecidableEq

/-- `sEventReply`. -/
structure EventReply where
  serial : ℕ
  clientToken : List UInt8
  timer : ℕ
  callback : Option ℕ
  deriving DecidableEq

/-- The types of an action input that can be read. -/
inductive InputType where
  | int32 | int16 | int8 | uint32 | uint16 | uint8 | boolean | float | string | unsupported
  deriving DecidableEq

/-- What is stored at the data pointer of an action input. -/
inductive InputData where
  | int (value : ℤ)
  | uint (value : ℕ)
  | boolean (value : Bool)
  | float (bits : UInt32)
  | string (bytes : List UInt8)
  deriving DecidableEq

/-- `DeviceProperty` as an input of an action. -/
structure ActionInput where
  key : List UInt8
  type : InputType
  dataBuffLen : ℕ
  data : InputData
  deriving DecidableEq

structure DeviceAction where
  actionId : List UInt8
  timestamp : ℕ
  input : List ActionInput
  deriving DecidableEq

/-- `ActionHandler`; the action is an address. -/
structure ActionHandler where
  action : ℕ
  callback : Option ℕ
  deriving DecidableEq

/-- `Qcloud_IoT_Template`, and the static buffers of its message handler. -/
structure Template where
  mqtt : Client
  eventHandle : Bool
  usrControlHandle : Option ℕ
  syncStatus : ℤ
  eventList : List EventReply
  replyList : List Request
  actionHandleList : List ActionHandler
  actions : ℕ → DeviceAction
  cloudRcvBuf : List UInt8
  controlClientToken : List UInt8
  accepted : ℕ
  halted : Bool

/-- A message as a handler gets it: the payload is the memory from its pointer on. -/
structure Payload where
  memory : Ptr
  payloadLen : ℕ
  topicLen : ℕ
  deriving DecidableEq

inductive Notice where
  | accepted (request : Request)
  | called (request : Request) (ack : ReplyAck) (document : List UInt8)
  | control (handler : Option ℕ) (control : List UInt8) (getStatus : Bool)
  | eventReply (reply : EventReply) (message : Payload)
  | action (callback : ℕ) (clientToken : List UInt8) (action : DeviceAction)
  | mqtt (event : Event)
  deriving DecidableEq

/-- What a call of `send_template_request` is given, and what the environment decides
during it: the memory behind the document, the result of the publish, the allocations,
the time, and the memory behind the token field. -/
structure RequestCall where
  method : Method
  timeoutSec : ℕ
  requestCallback : Option ℕ
  userContext : Option ℕ
  jsonDoc : List UInt8
  sizeOfBuffer : ℕ
  behind : Ptr
  publish : ReturnCode
  requestOk : Bool
  nodeOk : Bool
  now : ℕ
  beyond : List UInt8

inductive TemplateCode where
  | success | inval | failure | maxAppendingRequest
  | mqtt (rc : ReturnCode)
  deriving DecidableEq

/-- `IOT_Template_ConstructWithMqtt` after its subscriptions. -/
def Template.init (mqtt : Client) (eventHandle : Bool) (usrControlHandle : Option ℕ) :
    Template where
  mqtt := mqtt
  eventHandle := eventHandle
  usrControlHandle := usrControlHandle
  syncStatus := 0
  eventList := []
  replyList := []
  actionHandleList := []
  actions := fun _ => ⟨[], 0, []⟩
  cloudRcvBuf := []
  controlClientToken := []
  accepted := 0
  halted := false

section Requests

/-- `_set_template_json_type`: the document with its method, if there is room. -/
def setTemplateJsonType (jsonDoc : List UInt8) (sizeOfBuffer : ℕ) (method : Method) :
    Option (List UInt8) :=
  let remainSize := toSizeT ((sizeOfBuffer : ℤ) - jsonDoc.length)
  let node := ascii "\"method\":\"" ++ method.text ++ ascii "\", "
  if toSizeT ((remainSize : ℤ) - 1) ≤ node.length then none
  else some (jsonDoc.take 1 ++ node ++ jsonDoc.drop 1)

/-- The string at the token field after `strncpy`. -/
def storedToken (clientToken beyond : List UInt8) : List UInt8 :=
  if clientToken.length < maxSizeOfClientToken then clientToken
  else clientToken.take maxSizeOfClientToken ++ beyond

def addRequestToTemplateList (clientToken : List UInt8) (call : RequestCall) (t : Template) :
    TemplateCode × Template × List Notice :=
  if t.replyList.length ≥ maxAppendingRequest then (.maxAppendingRequest, t, [])
  else if !call.requestOk then (.failure, t, [])
  else if !call.nodeOk then (.failure, t, [])
  else
    let request : Request :=
      { serial := t.accepted
        sentToken := clientToken
        clientToken := storedToken clientToken call.beyond
        method := call.method
        userContext := call.userContext
        timer := call.now + call.timeoutSec * 1000
        callback := call.requestCallback }
    (.success, { t with replyList := t.replyList ++ [request], accepted := t.accepted + 1 },
      [.accepted request])

def sendTemplateRequest (call : RequestCall) (t : Template) :
    TemplateCode × Template × List Notice :=
  match parseClientToken (call.jsonDoc ++ 0 :: call.behind) with
  | .error _ => (.failure, { t with halted := true }, [])
  | .ok none => (.inval, t, [])
  | .ok (some clientToken) =>
      match setTemplateJsonType call.jsonDoc call.sizeOfBuffer call.method with
      | none => (.inval, t, [])
      | some _ =>
          if call.publish ≠ .success then (.mqtt call.publish, t, [])
          else if call.requestCallback = none then (.success, t, [])
          else addRequestToTemplateList clientToken call t

/-- The requests that the application sends from inside its callback. -/
abbrev Reaction := Notice → List RequestCall

def sendAll : List RequestCall → Template → Template × List Notice
  | [], t => (t, [])
  | call :: calls, t =>
      let sent := sendTemplateRequest call t
      let rest := sendAll calls sent.2.1
      (rest.1, sent.2.2 ++ rest.2)

/-- A call of the application. -/
def tell (react : Reaction) (notice : Notice) (t : Template) : Template × List Notice :=
  let sent := sendAll (react notice) t
  (sent.1, notice :: sent.2)

end Requests

section Walks

/-- The loop of a list walk, over the nodes that are left. -/
def walkNodes {α : Type} (handle : α → Template → Template × List Notice) :
    List α → Template → Template × List Notice
  | [], t => (t, [])
  | node :: nodes, t =>
      if t.halted then (t, [])
      else
        let handled := handle node t
        let rest := walkNodes handle nodes handled.1
        (rest.1, handled.2 ++ rest.2)

/-- `qcloud_list_remove` on the reply list. -/
def Template.removeRequest (request : Request) (t : Template) : Template :=
  { t with replyList := t.replyList.filter fun waiting => waiting.serial != request.serial }

def handleTemplateExpiredReplyCallback (react : Reaction) (clock : ℕ → ℕ) (request : Request)
    (t : Template) : Template × List Notice :=
  if clock request.serial < request.timer then (t, [])
  else if request.callback = none then (t.removeRequest request, [])
  else
    let told := tell react (.called request .timeout t.cloudRcvBuf) t
    (told.1.removeRequest request, told.2)

def handleTemplateExpiredReply (react : Reaction) (iterOk : Bool) (clock : ℕ → ℕ) (t : Template) :
    Template × List Notice :=
  if t.replyList.isEmpty ∨ !iterOk then (t, [])
  else walkNodes (handleTemplateExpiredReplyCallback react clock) t.replyList.reverse t

/-- The control data of a `get_status_reply`: the application's handler, or the one for
registered properties, gets it, and the user context of the request is set. -/
def handleGetControl (react : Reaction) (behind : Ptr) (clientToken : List UInt8)
    (request : Request) (t : Template) : Template × List Notice :=
  match parseTemplateGetControl (t.cloudRcvBuf ++ 0 :: behind) with
  | .error _ => ({ t with halted := true }, [])
  | .ok none => (t, [])
  | .ok (some control) =>
      let told := tell react (.control t.usrControlHandle control true)
        { t with controlClientToken := clientToken.take maxSizeOfClientToken }
      if request.userContext = none then ({ told.1 with halted := true }, told.2) else told

def handleTemplateReplyCallback (react : Reaction) (behind : Ptr) (clientToken type : List UInt8)
    (request : Request) (t : Template) : Template × List Notice :=
  if request.clientToken ≠ clientToken then (t, [])
  else
    match parseCodeReturn (t.cloudRcvBuf ++ 0 :: behind) with
    | .error _ => ({ t with halted := true }, [])
    | .ok none => (t.removeRequest request, [])
    | .ok (some replyCode) =>
        let status : ReplyAck := if replyCode = 0 then .accepted else .rejected
        let control :=
          if type = ascii "get_status_reply" ∧ status = .accepted then
            handleGetControl react behind clientToken request t
          else (t, [])
        if control.1.halted then control
        else if request.callback = none then (control.1.removeRequest request, control.2)
        else
          let told := tell react (.called request status control.1.cloudRcvBuf) control.1
          (told.1.removeRequest request, control.2 ++ told.2)

/-- What the environment decides while a message is handled: the allocation of a list
iterator, the memory behind a text that was copied, and how a float is read. -/
structure MessageEnv where
  react : Reaction
  iterOk : Bool
  behind : Ptr
  scanFloat : List UInt8 → Option UInt32

/-- The control branch of the message handler. -/
def handleControlMessage (env : MessageEnv) (clientToken : List UInt8) (t : Template) :
    Template × List Notice :=
  match parseParams (t.cloudRcvBuf ++ 0 :: env.behind) with
  | .error _ => ({ t with halted := true }, [])
  | .ok none => (t, [])
  | .ok (some control) =>
      tell env.react (.control t.usrControlHandle control false)
        { t with controlClientToken := clientToken.take maxSizeOfClientToken }

/-- What the message handler does with the text in its buffer. -/
def handleDownstreamText (env : MessageEnv) (t : Template) : Template × List Notice :=
  match parseTemplateMethodType (t.cloudRcvBuf ++ 0 :: env.behind) with
  | .error _ => ({ t with halted := true }, [])
  | .ok none => (t, [])
  | .ok (some type) =>
      match parseClientToken (t.cloudRcvBuf ++ 0 :: env.behind) with
      | .error _ => ({ t with halted := true }, [])
      | .ok none => (t, [])
      | .ok (some clientToken) =>
          if type = ascii "control" then handleControlMessage env clientToken t
          else if t.replyList.isEmpty ∨ !env.iterOk then (t, [])
          else
            walkNodes (handleTemplateReplyCallback env.react env.behind clientToken type)
              t.replyList.reverse t

/-- The text that the message handler copies from a payload. -/
def copiedText (message : Payload) : List UInt8 :=
  (message.memory.take (min (cloudIotJsonRxBufLen - 1) message.payloadLen)).takeWhile (· ≠ 0)

def onTemplateDownstreamTopicHandler (env : MessageEnv) (message : Payload) (t : Template) :
    Template × List Notice :=
  if message.topicLen = 0 then (t, [])
  else if message.payloadLen > cloudIotJsonRxBufLen then (t, [])
  else handleDownstreamText env { t with cloudRcvBuf := copiedText message }

end Walks

section Events

def handleTemplateExpiredEvent (iterOk : Bool) (clock : ℕ → ℕ) (t : Template) : Template :=
  if !iterOk then t
  else { t with eventList := t.eventList.filter fun reply => clock reply.serial < reply.timer }

/-- The reply case of the loop in `_traverse_event_list`. -/
def handleEventReply (react : Reaction) (clientToken : List UInt8) (message : Payload)
    (reply : EventReply) (t : Template) : Template × List Notice :=
  if reply.clientToken ≠ clientToken ∨ reply.callback = none then (t, [])
  else
    let told := tell react (.eventReply reply message) t
    ({ told.1 with
        eventList := told.1.eventList.filter fun waiting => waiting.serial != reply.serial },
          told.2)

def onEventReplyCallback (env : MessageEnv) (message : Payload) (t : Template) :
    Template × List Notice :=
  match parseClientToken message.memory with
  | .error _ => ({ t with halted := true }, [])
  | .ok none => (t, [])
  | .ok (some clientToken) =>
      match parseCodeReturn message.memory with
      | .error _ => ({ t with halted := true }, [])
      | .ok none => (t, [])
      | .ok (some _) =>
          match parseStatusReturn message.memory with
          | .error _ => ({ t with halted := true }, [])
          | .ok _ =>
              if !env.iterOk then (t, [])
              else
                walkNodes (handleEventReply env.react clientToken message) t.eventList.reverse t

end Events

section Actions

/-- `strncpy` of a string into a field of this size. -/
def strncpy (size : ℕ) (text : List UInt8) : List UInt8 :=
  (text ++ List.replicate size 0).take size

/-- The value of an action input that is read from its text, or nothing. -/
def readInput (scanFloat : List UInt8 → Option UInt32) (input : ActionInput) (text : List UInt8) :
    Option InputData :=
  match input.type with
  | .string => some (.string (strncpy input.dataBuffLen text))
  | .int32 => (scanInt 32 text).map .int
  | .int16 => (scanInt 16 text).map .int
  | .int8 => (scanInt 8 text).map .int
  | .uint32 => (scanUint 32 text).map .uint
  | .uint16 => (scanUint 16 text).map .uint
  | .uint8 => (scanUint 8 text).map .uint
  | .boolean => some (.boolean (text != falseText))
  | .float => (scanFloat text).map .float
  | .unsupported => none

/-- `_parse_action_input`: the inputs as they are left, and whether all could be read. -/
def parseActionInput (scanFloat : List UInt8 → Option UInt32) (doc : Ptr) :
    List ActionInput → Except Overrun (List ActionInput × Bool)
  | [] => .ok ([], true)
  | input :: rest =>
      match JsonLookup.liteJsonValueOf input.key doc with
      | .error e => .error e
      | .ok none => .ok (input :: rest, false)
      | .ok (some text) =>
          match readInput scanFloat input text with
          | none => .ok (input :: rest, false)
          | some data =>
              match parseActionInput scanFloat doc rest with
              | .error e => .error e
              | .ok (inputs, ok) => .ok ({ input with data := data } :: inputs, ok)

def Template.setAction (addr : ℕ) (action : DeviceAction) (t : Template) : Template :=
  { t with actions := fun other => if other = addr then action else t.actions other }

/-- The loop body of `_handle_action`. -/
def handleActionNode (env : MessageEnv) (clientToken actionId : List UInt8) (timestamp : ℕ)
    (input : List UInt8) (handler : ActionHandler) (t : Template) : Template × List Notice :=
  match handler.callback with
  | none => (t, [])
  | some callback =>
      let action := t.actions handler.action
      if actionId ≠ action.actionId then (t, [])
      else
        match parseActionInput env.scanFloat (input ++ 0 :: env.behind) action.input with
        | .error _ => ({ t with halted := true }, [])
        | .ok (inputs, false) => (t.setAction handler.action { action with input := inputs }, [])
        | .ok (inputs, true) =>
            let action := { action with input := inputs, timestamp := timestamp }
            tell env.react (.action callback clientToken action) (t.setAction handler.action action)

def onActionHandleCallback (env : MessageEnv) (message : Payload) (t : Template) :
    Template × List Notice :=
  match parseTemplateMethodType message.memory with
  | .error _ => ({ t with halted := true }, [])
  | .ok none => (t, [])
  | .ok (some type) =>
      if type ≠ ascii "action" then (t, [])
      else
        match parseClientToken message.memory with
        | .error _ => ({ t with halted := true }, [])
        | .ok none => (t, [])
        | .ok (some clientToken) =>
            match parseActionId message.memory with
            | .error _ => ({ t with halted := true }, [])
            | .ok none => (t, [])
            | .ok (some actionId) =>
                match parseTimeStamp message.memory with
                | .error _ => ({ t with halted := true }, [])
                | .ok none => (t, [])
                | .ok (some timestamp) =>
                    match parseParams message.memory with
                    | .error _ => ({ t with halted := true }, [])
                    | .ok none => (t, [])
                    | .ok (some input) =>
                        if !env.iterOk then (t, [])
                        else
                          walkNodes (handleActionNode env clientToken actionId timestamp input)
                            t.actionHandleList.reverse t

end Actions

end IotExplorer.DataTemplate
