import IotExplorer.Basis.Runs
import IotExplorer.TemplateJson
import Mathlib.Data.List.MinMax
import Mathlib.Order.Nat

/-!
The gateway client: the sessions of its sub-devices, the list of those that are bound,
and the handler of the messages from the server, which also runs while a call of the
application waits for its answer. The objects of the session list have places in
memory, so that a pointer that is kept over such a wait can be told from its object;
the strings that are copied out of a message are followed until they are released.
The channel to the server is taken by its outcomes.
-/
namespace IotExplorer.GatewayClient

open Basis.Runs Basis.JsonText JsonParser JsonLookup TemplateJson

section Sessions

inductive SessionStatus
  | init
  | online
  | offline
  deriving DecidableEq, Repr

/-- The names fit into the arrays of a session. -/
def Fits (productId deviceName : List UInt8) : Prop :=
  productId.length ≤ 10 ∧ deviceName.length ≤ 48

instance (productId deviceName : List UInt8) : Decidable (Fits productId deviceName) :=
  inferInstanceAs (Decidable (_ ∧ _))

/-- `SubdevSession`, with its place in memory. -/
structure Session where
  address : ℕ
  productId : List UInt8
  deviceName : List UInt8
  status : SessionStatus
  fits : Fits productId deviceName
  deriving DecidableEq

def Session.named (productId deviceName : List UInt8) (session : Session) : Bool :=
  session.productId == productId && session.deviceName == deviceName

/-- A session list, whose objects are apart in memory. -/
structure Sessions where
  list : List Session
  apart : (list.map Session.address).Nodup
  deriving DecidableEq

def Sessions.empty : Sessions := ⟨[], List.nodup_nil⟩

/-- A place where no object of the list is. -/
def Sessions.place (sessions : Sessions) : ℕ :=
  (sessions.list.map Session.address).foldr max 0 + 1

theorem Sessions.place_notMem (sessions : Sessions) :
    sessions.place ∉ sessions.list.map Session.address := by
  intro h
  have hle : sessions.place ≤ (sessions.list.map Session.address).foldr max 0 :=
    List.le_max_of_le h (Nat.le_refl _)
  rw [Sessions.place] at hle
  omega

def Sessions.created (sessions : Sessions) {productId deviceName : List UInt8}
    (h : Fits productId deviceName) : Session :=
  ⟨sessions.place, productId, deviceName, .init, h⟩

def subdevFindSession (productId deviceName : List UInt8) (sessions : Sessions) : Option Session :=
  if productId = [] ∨ deviceName = [] then none
  else sessions.list.find? (Session.named productId deviceName)

/-- What comes of adding a session: no object, names that are written beyond the arrays of one, or
the place of an object in front of the others. -/
inductive Added
  | failed
  | overflow
  | session (address : ℕ) (sessions : Sessions)

def subdevAddSession (alloc : Bool) (productId deviceName : List UInt8) (sessions : Sessions) :
    Added :=
  if productId = [] ∨ deviceName = [] then .failed
  else if !alloc then .failed
  else if h : Fits productId deviceName then
    .session sessions.place
      ⟨sessions.created h :: sessions.list,
        List.nodup_cons.mpr ⟨sessions.place_notMem, sessions.apart⟩⟩
  else .overflow

/-- `strncmp` of two texts, where no more than so many bytes count. -/
def strncmp (n : ℕ) (text text' : List UInt8) : Bool := text.take n == text'.take n

/-- The session that `subdev_remove_session` looks for. -/
def Session.matches (productId deviceName : List UInt8) (session : Session) : Bool :=
  strncmp 10 session.productId productId && strncmp 48 session.deviceName deviceName

def subdevRemoveSession (productId deviceName : List UInt8) (sessions : Sessions) : Sessions :=
  if productId = [] ∨ deviceName = [] then sessions
  else
    ⟨sessions.list.eraseP (Session.matches productId deviceName),
      sessions.apart.sublist (List.eraseP_sublist.map _)⟩

/-- The object at a place becomes a session that is online. -/
def Session.online (address : ℕ) (session : Session) : Session :=
  if session.address = address then { session with status := .online } else session

theorem Session.online_address (address : ℕ) (session : Session) :
    (session.online address).address = session.address := by
  rw [Session.online]
  split_ifs <;> rfl

def Sessions.setOnline (address : ℕ) (sessions : Sessions) : Sessions :=
  ⟨sessions.list.map (Session.online address), by
    rw [List.map_map, show Session.address ∘ Session.online address = Session.address from
      funext (Session.online_address address)]
    exact sessions.apart⟩

end Sessions

section Gateways

/-- `SubdevBindInfo`. -/
structure BindInfo where
  productId : List UInt8
  deviceName : List UInt8
  deriving DecidableEq, Repr

structure ReplyData where
  result : ℤ
  clientId : List UInt8
  deriving DecidableEq, Repr

/-- `Gateway`, without its receive buffer. -/
structure Gateway where
  sessionList : Sessions
  bindList : List BindInfo
  bindNum : ℤ
  online : ReplyData
  offline : ReplyData
  bind : ReplyData
  unbind : ReplyData
  getBindlist : ReplyData
  deriving DecidableEq

/-- What `IOT_Gateway_Construct` starts with. -/
def construct : Gateway := ⟨.empty, [], 0, ⟨0, []⟩, ⟨0, []⟩, ⟨0, []⟩, ⟨0, []⟩, ⟨0, []⟩⟩

/-- The replies to the server, by what they are made of. -/
inductive Reply
  | unbindAll
  | search (status : ℤ)
  | describe (devices : List BindInfo)
  | change (devices : List UInt8) (status : ℤ)
  deriving DecidableEq, Repr

/-- The strings that are copied out of a message; those of the entries of a list are numbered. -/
inductive Str
  | type
  | devices
  | productId
  | deviceName
  | entry (n : ℕ)
  deriving DecidableEq, Repr

/-- What is seen of a call or of a message: what is sent, what is copied and released, reads behind
a text, names written beyond a session, and a session that is used after it was removed. -/
inductive Event
  | published (topic payload : List UInt8)
  | replied (reply : Reply)
  | extracted (s : Str)
  | released (s : Str)
  | overrun
  | overflow
  | usedAfterFree
  deriving DecidableEq, Repr

end Gateways

section Fields

def getJsonType (doc : Ptr) : Except Overrun (Option (List UInt8)) :=
  liteJsonValueOf (ascii "type") doc

def getJsonDevices (doc : Ptr) : Except Overrun (Option (List UInt8)) :=
  liteJsonValueOf (ascii "payload.devices") doc

def getJsonResult (doc : Ptr) : Except Overrun (Option ℤ) :=
  (liteJsonValueOf (ascii "result") doc).map fun result => result.bind (scanInt 32)

def getJsonPayloadStatus (doc : Ptr) : Except Overrun (Option ℤ) :=
  (liteJsonValueOf (ascii "payload.status") doc).map fun status => status.bind (scanInt 32)

def getJsonProductId (doc : Ptr) : Except Overrun (Option (List UInt8)) :=
  liteJsonValueOf (ascii "product_id") doc

def getJsonDeviceName (doc : Ptr) : Except Overrun (Option (List UInt8)) :=
  liteJsonValueOf (ascii "device_name") doc

end Fields

section Devices

inductive DeviceOp
  | describe
  | bind
  | unbind
  deriving DecidableEq, Repr

def bindInfo (productId deviceName : List UInt8) : BindInfo :=
  ⟨productId.take 10, deviceName.take 48⟩

def subdevAddBindinfo (alloc : Bool) (productId deviceName : List UInt8) (gateway : Gateway) :
    Option Gateway :=
  if productId = [] ∨ deviceName = [] then none
  else if !alloc then none
  else
    some { gateway with
      bindList := bindInfo productId deviceName :: gateway.bindList
      bindNum := gateway.bindNum + 1 }

/-- The entry that `_subdev_unbind_device` looks for. -/
def BindInfo.matches (productId deviceName : List UInt8) (info : BindInfo) : Bool :=
  strncmp 10 productId info.productId && strncmp 48 deviceName info.deviceName

def subdevUnbindDevice (productId deviceName : List UInt8) (gateway : Gateway) : Option Gateway :=
  if gateway.bindList.any (BindInfo.matches productId deviceName) then
    some { gateway with
      bindList := gateway.bindList.eraseP (BindInfo.matches productId deviceName)
      bindNum := gateway.bindNum - 1 }
  else none

/-- What is done with a sub-device of a list; `none` ends the loop. -/
def procDevice (op : DeviceOp) (alloc : Bool) (productId deviceName : List UInt8)
    (gateway : Gateway) :
    Option Gateway :=
  match op with
  | .describe => subdevAddBindinfo alloc productId deviceName gateway
  | .bind => subdevAddBindinfo alloc productId deviceName gateway
  | .unbind => subdevUnbindDevice productId deviceName gateway

/-- The gateway and the locals of `_subdev_proc_devlist`, with how many strings and devices there
have been; a pointer is the number of the string that it was set to, also when that string is
released. -/
structure Devlist where
  gateway : Gateway
  productId : Option ℕ
  deviceName : Option ℕ
  extractions : ℕ
  devices : ℕ

/-- `HAL_Free` of a pointer to a string. -/
def halFree : Option ℕ → List Event
  | none => []
  | some n => [.released (.entry n)]

/-- A round of the loop, and whether it goes on. -/
def procEntry (op : DeviceOp) (alloc : ℕ → Bool) (entry : Entry) (loop : Devlist) :
    Except Overrun ((Devlist × Bool) × List Event) :=
  let text := entry.val.set entry.valLen 0
  match getJsonProductId text with
  | .error e => .error e
  | .ok none => .ok (({ loop with productId := none }, true), halFree loop.deviceName)
  | .ok (some productId) =>
      let n := loop.extractions
      match getJsonDeviceName text with
      | .error e => .error e
      | .ok none =>
          .ok (({ loop with productId := some n, deviceName := none, extractions := n + 1 }, true),
            .extracted (.entry n) :: halFree (some n))
      | .ok (some deviceName) =>
          let k := loop.devices
          let loop := { loop with
            productId := some n
            deviceName := some (n + 1)
            extractions := n + 2
            devices := k + 1 }
          let events := .extracted (.entry n) :: .extracted (.entry (n + 1)) ::
            (halFree loop.productId ++ halFree loop.deviceName)
          match procDevice op (alloc k) productId deviceName loop.gateway with
          | none => .ok ((loop, false), events)
          | some gateway => .ok (({ loop with gateway := gateway }, true), events)

/-- The rounds of the loop. -/
def procEntries (op : DeviceOp) (alloc : ℕ → Bool) (ending : Ending) :
    List Entry → Devlist → Gateway × List Event
  | [], loop => (loop.gateway, if ending = .finished then [] else [.overrun])
  | entry :: entries, loop =>
      match procEntry op alloc entry loop with
      | .error _ => (loop.gateway, [.overrun])
      | .ok ((loop, goesOn), events) =>
          if goesOn then
            let rest := procEntries op alloc ending entries loop
            (rest.1, events ++ rest.2)
          else (loop.gateway, events)

def subdevProcDevlist (op : DeviceOp) (alloc : ℕ → Bool) (devices : List UInt8)
    (gateway : Gateway) :
    Gateway × List Event :=
  let loop := forEach .array (devices ++ [0])
  procEntries op alloc loop.ending loop.entries ⟨gateway, none, none, 0, 0⟩

end Devices

section Messages

/-- A message with the length of its topic; allocations for it may fail. -/
structure Received where
  topicLen : ℕ
  payload : List UInt8
  alloc : ℕ → Bool

/-- The text of a message in the receive buffer. -/
def Received.text (received : Received) : Ptr := received.payload.take 1023 ++ [0]

def clientId (productId deviceName : List UInt8) : List UInt8 :=
  productId ++ (ascii "/" ++ deviceName)

/-- The result of an operation for the client that waits for it. -/
def ReplyData.answered (clientId : List UInt8) (result : ℤ) (reply : ReplyData) : ReplyData :=
  if clientId.isPrefixOf reply.clientId then { reply with result := result } else reply

/-- The part of `_gateway_message_handler` on the result of an operation. -/
def handleResult (type clientId : List UInt8) (result : ℤ) (gateway : Gateway) : Gateway :=
  if (ascii "online").isPrefixOf type then
    { gateway with online := gateway.online.answered clientId result }
  else if (ascii "offline").isPrefixOf type then
    { gateway with offline := gateway.offline.answered clientId result }
  else if (ascii "bind").isPrefixOf type then
    { gateway with bind := gateway.bind.answered clientId result }
  else if (ascii "unbind").isPrefixOf type then
    { gateway with unbind := gateway.unbind.answered clientId result }
  else gateway

/-- The part on what names a sub-device: its result, its product and its name. -/
def handleDevice (type text : List UInt8) (gateway : Gateway) : Gateway × List Event :=
  let doc := text ++ [0]
  match getJsonResult doc with
  | .error _ => (gateway, [.overrun])
  | .ok none => (gateway, [])
  | .ok (some result) =>
      match getJsonProductId doc with
      | .error _ => (gateway, [.overrun])
      | .ok none => (gateway, [])
      | .ok (some productId) =>
          match getJsonDeviceName doc with
          | .error _ => (gateway, [.overrun])
          | .ok none => (gateway, [.extracted .productId, .released .productId])
          | .ok (some deviceName) =>
              (if 80 < (clientId productId deviceName).length then gateway
                else handleResult type (clientId productId deviceName) result gateway,
              [.extracted .productId, .extracted .deviceName, .released .productId,
                .released .deviceName])

def handleDevices (type devices : List UInt8) (received : Received) (gateway : Gateway) :
    Gateway × List Event :=
  if (ascii "change").isPrefixOf type then
    match getJsonPayloadStatus received.text with
    | .error _ => (gateway, [.overrun])
    | .ok none => (gateway, [.replied (.change devices 0)])
    | .ok (some status) =>
        let handled :=
          subdevProcDevlist (if status ≠ 0 then .bind else .unbind) received.alloc devices
          gateway
        (handled.1, handled.2 ++ [.replied (.change devices status)])
  else
    handleDevice type (if devices.head? = some openBracket then devices.tail else devices) gateway

def handleType (type : List UInt8) (received : Received) (gateway : Gateway) :
    Gateway × List Event :=
  if (ascii "unbind_all").isPrefixOf type then
    ({ gateway with sessionList := .empty }, [.replied .unbindAll])
  else if (ascii "search_devices").isPrefixOf type then
    match getJsonPayloadStatus received.text with
    | .error _ => (gateway, [.overrun])
    | .ok none => (gateway, [])
    | .ok (some status) => (gateway, [.replied (.search status)])
  else if (ascii "describe_sub_devices").isPrefixOf type then
    (gateway, [.replied (.describe gateway.bindList)])
  else
    match getJsonDevices received.text with
    | .error _ => (gateway, [.overrun])
    | .ok none => (gateway, [])
    | .ok (some devices) =>
        let handled := handleDevices type devices received gateway
        (handled.1, .extracted .devices :: (handled.2 ++ [.released .devices]))

def gatewayMessageHandler (received : Received) (gateway : Gateway) : Gateway × List Event :=
  if received.topicLen = 0 ∨ 1024 < received.payload.length then (gateway, [])
  else
    match getJsonType received.text with
    | .error _ => (gateway, [.overrun])
    | .ok none => (gateway, [])
    | .ok (some type) =>
        let handled := handleType type received gateway
        (handled.1, .extracted .type :: (handled.2 ++ [.released .type]))

/-- The type of a message that the handler goes into. -/
def messageType (received : Received) : Option (List UInt8) :=
  if received.topicLen = 0 ∨ 1024 < received.payload.length then none
  else (getJsonType received.text).toOption.join

/-- A text does not begin with two words that begin differently. -/
theorem isPrefixOf_other {c c' : UInt8} {word word' text : List UInt8} (hne : c ≠ c')
    (h : (c :: word).isPrefixOf text = true) : (c' :: word').isPrefixOf text = false := by
  cases text with
  | nil => rfl
  | cons first text =>
    rw [List.isPrefixOf_cons_cons, Bool.and_eq_true, beq_iff_eq] at h
    rw [List.isPrefixOf_cons_cons, Bool.and_eq_false_iff, beq_eq_false_iff_ne, ← h.1]
    exact .inl hne.symm

end Messages

section Calls

/-- The loop of `gateway_publish_sync`: each round hands the messages that have arrived to the
handler, up to one behind which the result is another one. -/
def waitForResponse (word : Gateway → ℤ) (res : ℤ) :
    ℕ → List (List Received) → Gateway → Gateway × List Event
  | 0, _, gateway => (gateway, [])
  | rounds + 1, arrivals, gateway =>
      if word gateway ≠ res then (gateway, [])
      else
        let handled := run gatewayMessageHandler (arrivals.headD []) gateway
        let rest := waitForResponse word res rounds arrivals.tail handled.1
        (rest.1, handled.2 ++ rest.2)

/-- What a call comes to; a call that writes beyond an object does not return. -/
structure Exit where
  code : Option ℤ
  gateway : Gateway
  events : List Event

/-- `gateway_publish_sync`, with what becomes of the message that is published. -/
def gatewayPublishSync (topic payload : List UInt8) (word : Gateway → ℤ) (published : Bool)
    (arrivals : List (List Received)) (gateway : Gateway) : Exit :=
  if !published then ⟨some (-1001), gateway, []⟩
  else
    let waited := waitForResponse word (word gateway) 101 arrivals gateway
    ⟨if word waited.1 = word gateway then some (-223)
      else if word waited.1 ≠ 0 then some (-1001) else some 0,
      waited.1, .published topic payload :: waited.2⟩

structure GatewayParam where
  productId : List UInt8
  deviceName : List UInt8
  subdevProductId : List UInt8
  subdevDeviceName : List UInt8

def operationTopic (param : GatewayParam) : List UInt8 :=
  ascii "$gateway/operation/" ++ (param.productId ++ (ascii "/" ++ param.deviceName))

def statusPayload (type : List UInt8) (param : GatewayParam) : List UInt8 :=
  ascii "\x7b\"type\":\"" ++
    (type ++ (ascii "\",\"payload\":\x7b\"devices\":[\x7b\"product_id\":\"" ++
    (param.subdevProductId ++ (ascii "\",\"device_name\":\"" ++
      (param.subdevDeviceName ++ ascii "\"\x7d]\x7d\x7d")))))

/-- `IOT_Gateway_Subdev_Online` with the place of the session. -/
def requestOnline (param : GatewayParam) (published : Bool) (arrivals : List (List Received))
    (session : ℕ) (gateway : Gateway) : Exit :=
  let topic := operationTopic param
  let payload := statusPayload (ascii "online") param
  let client := clientId param.subdevProductId param.subdevDeviceName
  if 128 < topic.length then ⟨some (-1001), gateway, []⟩
  else if 1024 < payload.length then ⟨some (-1001), gateway, []⟩
  else
    let named := { gateway with online := { gateway.online with clientId := client.take 79 } }
    if 80 < client.length then ⟨some (-1001), named, []⟩
    else
      let synced :=
        gatewayPublishSync topic payload (fun gateway => gateway.online.result) published
        arrivals { named with online := { named.online with result := -2 } }
      let sessions := synced.gateway.sessionList
      if synced.code ≠ some 0 then
        { synced with gateway := { synced.gateway with
            sessionList :=
              subdevRemoveSession param.subdevProductId param.subdevDeviceName sessions } }
      else if session ∈ sessions.list.map Session.address then
        { synced with gateway := { synced.gateway with sessionList := sessions.setOnline session } }
      else { synced with events := synced.events ++ [.usedAfterFree] }

/-- `IOT_Gateway_Subdev_Online`. -/
def subdevOnline (param : GatewayParam) (alloc published : Bool) (arrivals : List (List Received))
    (gateway : Gateway) : Exit :=
  if param.productId = [] ∨ param.deviceName = [] ∨ param.subdevProductId = [] ∨
      param.subdevDeviceName = [] then
    ⟨some (-1002), gateway, []⟩
  else
    match subdevFindSession param.subdevProductId param.subdevDeviceName gateway.sessionList with
    | none =>
        match subdevAddSession alloc param.subdevProductId param.subdevDeviceName
            gateway.sessionList with
        | .failed => ⟨some (-221), gateway, []⟩
        | .overflow => ⟨none, gateway, [.overflow]⟩
        | .session address sessions =>
            requestOnline param published arrivals address { gateway with sessionList := sessions }
    | some session =>
        if session.status = .online then ⟨some (-224), gateway, []⟩
        else requestOnline param published arrivals session.address gateway

/-- `IOT_Gateway_Subdev_GetBindList`, with the list that is handed over. -/
def subdevGetBindList (param : GatewayParam) (published : Bool) (arrivals : List (List Received))
    (gateway : Gateway) : Exit × Option (List BindInfo × ℤ) :=
  let topic := operationTopic param
  let payload := ascii "\x7b\"type\":\"" ++ ascii "describe_sub_devices" ++ ascii "\"\x7d"
  let cleared := { gateway with bindList := [], bindNum := 0 }
  if 128 < topic.length then (⟨some (-1001), cleared, []⟩, none)
  else if 1024 < payload.length then (⟨some (-1001), cleared, []⟩, none)
  else
    let synced :=
      gatewayPublishSync topic payload (fun gateway => gateway.getBindlist.result) published
      arrivals { cleared with getBindlist := { cleared.getBindlist with result := -1001 } }
    if synced.code ≠ some 0 then
      ({ synced with code := some synced.gateway.getBindlist.result }, none)
    else
      ({ synced with gateway := { synced.gateway with bindList := [], bindNum := 0 } },
        some (synced.gateway.bindList, synced.gateway.bindNum))

end Calls

end IotExplorer.GatewayClient
