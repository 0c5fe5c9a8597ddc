import IotExplorer.ControlPackets
import IotExplorer.TopicFilter
import IotExplorer.WaitLists

/-!
The requests of the application: publish, subscribe, unsubscribe, the
resubscription after a reconnect and the query for a subscription. Every
request draws its packet id, serializes into the write buffer, appends its wait
node and then sends; a failed send takes the node back.
-/
namespace IotExplorer.Requests

open Basis.Ownership Protocol PacketBytes PublishPacket ControlPackets Network ClientState
open TopicFilter WaitLists

/-- What the environment decides during a request: the time, whether the copy of
the filter and the wait node can be allocated, and how the writes end. -/
structure RequestEnv where
  now : ℕ
  filterOk : Bool
  nodeOk : Bool
  writes : List WriteChoice

def writePacket (packet : List UInt8) (c : Client) : Client :=
  { c with writeBuf := overwrite c.writeBuf packet }

/-- `send_mqtt_packet` on the packet that was serialized last. -/
def sendWritten (packet : List UInt8) (writes : List WriteChoice) (c : Client) :
    ReturnCode × List Event :=
  let r := sendMqttPacket c.writeBuf packet.length writes
  (r.1, [.sent packet r.1 r.2])

/-- `PublishParams`, as far as publish reads them; `payload` may be NULL. -/
structure PublishParams where
  qos : QoS
  retained : UInt8
  id : ℕ
  payload : Option (List UInt8)

/-- The client and the packet id that publish serializes with: a fresh id for
QoS 1, the one in the parameters otherwise. -/
def publishPacketId (params : PublishParams) (c : Client) : Client × ℕ :=
  if params.qos = .qos1 then (c.getNextPacketId, c.getNextPacketId.nextPacketId)
  else (c, params.id)

def qcloudIotMqttPublish (topicName : List UInt8) (params : PublishParams) (env : RequestEnv)
    (c : Client) : Except ReturnCode ℕ × Client × List Event :=
  if topicName = [] then (.error .inval, c, [])
  else if topicName.length > maxSizeOfCloudTopic then (.error .maxTopicLength, c, [])
  else if params.qos = .qos2 then (.error .mqttQosNotSupport, c, [])
  else if !c.isConnected then (.error .mqttNoConn, c, [])
  else
    let c := publishPacketId params c
    let id := c.2
    let c := c.1
    match params.payload with
    | none => (.error .inval, c, [])
    | some payload =>
        match serializePublishPacket mqttTxBufLen 0 params.qos params.retained id topicName
            payload with
        | .error rc => (.error rc, c, [])
        | .ok packet =>
            let c := writePacket packet c
            if params.qos = .qos0 then
              let sent := sendWritten packet env.writes c
              if sent.1 ≠ .success then (.error sent.1, c, sent.2) else (.ok id, c, sent.2)
            else
              match maskPushPubInfoTo env.nodeOk env.now packet.length id c with
              | .error rc => (.error rc, c, [])
              | .ok pushed =>
                  let sent := sendWritten packet env.writes pushed
                  if sent.1 ≠ .success then
                    (.error sent.1,
                      { pushed with listPubWaitAck := pushed.listPubWaitAck.dropLast }, sent.2)
                  else (.ok id, pushed, sent.2)

structure SubscribeParams where
  qos : QoS
  onMessageHandler : Option ℕ
  onSubEventHandler : Option ℕ
  userData : ℕ

/-- The end of a request that keeps a filter string in its wait node: push the
node, send, and on a failure take the node and the string back. -/
def pushAndSend (env : RequestEnv) (type : MessageType) (handler : SubTopicHandle)
    (packet : List UInt8) (c : Client) : Except ReturnCode ℕ × Client × List Event :=
  let id := c.nextPacketId
  match pushSubInfoTo env.nodeOk env.now packet.length id type handler c with
  | .error rc =>
      let freed := halFree c.heap handler.topicFilter
      (.error rc, { c with heap := freed.1 }, freed.2)
  | .ok pushed =>
      let sent := sendWritten packet env.writes pushed
      if sent.1 ≠ .success then
        let freed := halFree pushed.heap handler.topicFilter
        (.error sent.1,
          { pushed with
            listSubWaitAck := pushed.listSubWaitAck.dropLast
            heap := freed.1 },
          sent.2 ++ freed.2)
      else (.ok id, pushed, sent.2)

def qcloudIotMqttSubscribe (topicFilter : List UInt8) (params : SubscribeParams)
    (env : RequestEnv) (c : Client) : Except ReturnCode ℕ × Client × List Event :=
  if topicFilter = [] then (.error .inval, c, [])
  else if topicFilter.length > maxSizeOfCloudTopic then (.error .maxTopicLength, c, [])
  else if params.qos = .qos2 then (.error .mqttQosNotSupport, c, [])
  else if !c.isConnected then (.error .mqttNoConn, c, [])
  else if !env.filterOk then (.error .failure, c, [])
  else
    let stored : FilterString := ⟨c.heap.next, topicFilter⟩
    let c := { c with heap := c.heap.alloc }.getNextPacketId
    match serializeSubscribePacket mqttTxBufLen 0 c.nextPacketId 1 [topicFilter] [params.qos] with
    | .error rc =>
        let freed := halFree c.heap (some stored)
        (.error rc, { c with heap := freed.1 }, freed.2)
    | .ok packet =>
        pushAndSend env .subscribe
          { topicFilter := some stored
            messageHandler := params.onMessageHandler
            subEventHandler := params.onSubEventHandler
            handlerUserData := params.userData
            qos := params.qos }
          packet (writePacket packet c)

/-- `strstr` as a test. -/
def strstr (needle : List UInt8) : List UInt8 → Bool
  | [] => needle.isEmpty
  | c :: cs => needle.isPrefixOf (c :: cs) || strstr needle cs

/-- `strstr(f, "/#") != NULL || strstr(f, "/+") != NULL`. -/
def hasWildcardLevel (topicFilter : List UInt8) : Bool :=
  strstr [slash, hash] topicFilter || strstr [slash, plus] topicFilter

def filterIs (topicFilter : List UInt8) (handle : SubTopicHandle) : Bool :=
  match handle.topicFilter with
  | some filter => filter.text == topicFilter
  | none => false

/-- The condition under which unsubscribe clears an entry. -/
def unsubscribes (topicFilter : List UInt8) (handle : SubTopicHandle) : Bool :=
  filterIs topicFilter handle || hasWildcardLevel topicFilter

/-- The calls and releases of the scan in unsubscribe, entry by entry. -/
def unsubscribeScan (topicFilter : List UInt8) :
    List SubTopicHandle → Heap → Heap × List Event
  | [], heap => (heap, [])
  | handle :: handles, heap =>
      if unsubscribes topicFilter handle then
        let freed := halFree heap handle.topicFilter
        let r := unsubscribeScan topicFilter handles freed.1
        (r.1, handle.raise .unsubscribe ++ freed.2 ++ r.2)
      else unsubscribeScan topicFilter handles heap

/-- The entries after the scan: a cleared entry keeps its handlers. -/
def clearEntry (topicFilter : List UInt8) (handle : SubTopicHandle) : SubTopicHandle :=
  if unsubscribes topicFilter handle then { handle with topicFilter := none } else handle

/-- The table scan at the start of `qcloud_iot_mqtt_unsubscribe`. -/
def removeEntries (topicFilter : List UInt8) (c : Client) : Client × List Event :=
  let r := unsubscribeScan topicFilter c.subHandles.slots c.heap
  ({ c with subHandles := c.subHandles.map (clearEntry topicFilter), heap := r.1 }, r.2)

/-- What `qcloud_iot_mqtt_unsubscribe` sends after its scan. -/
def sendUnsubscribe (topicFilter : List UInt8) (env : RequestEnv) (c : Client) :
    Except ReturnCode ℕ × Client × List Event :=
  if !c.isConnected then (.error .mqttNoConn, c, [])
  else if !env.filterOk then (.error .failure, c, [])
  else
    let stored : FilterString := ⟨c.heap.next, topicFilter⟩
    let c := { c with heap := c.heap.alloc }.getNextPacketId
    match serializeUnsubscribePacket mqttTxBufLen 0 c.nextPacketId 1 [topicFilter] with
    | .error rc =>
        let freed := halFree c.heap (some stored)
        (.error rc, { c with heap := freed.1 }, freed.2)
    | .ok packet =>
        pushAndSend env .unsubscribe { SubTopicHandle.zero with topicFilter := some stored }
          packet (writePacket packet c)

def qcloudIotMqttUnsubscribe (topicFilter : List UInt8) (env : RequestEnv) (c : Client) :
    Except ReturnCode ℕ × Client × List Event :=
  if topicFilter = [] then (.error .inval, c, [])
  else if topicFilter.length > maxSizeOfCloudTopic then (.error .maxTopicLength, c, [])
  else
    let suberExists := c.subHandles.slots.any (unsubscribes topicFilter)
    let scanned := removeEntries topicFilter c
    if !suberExists then (.error .mqttUnsubFail, scanned.1, scanned.2)
    else
      let r := sendUnsubscribe topicFilter env scanned.1
      (r.1, r.2.1, scanned.2 ++ r.2.2)

/-- The parameters with which an entry is subscribed again. -/
def resubscribeParams (handle : SubTopicHandle) : SubscribeParams where
  qos := handle.qos
  onMessageHandler := handle.messageHandler
  onSubEventHandler := handle.subEventHandler
  userData := handle.handlerUserData

/-- The loop of `qcloud_iot_mqtt_resubscribe`; `env i` is met at the i-th entry. -/
def resubscribeLoop (env : ℕ → RequestEnv) :
    ℕ → List SubTopicHandle → Client → ReturnCode × Client × List Event
  | _, [], c => (.success, c, [])
  | i, handle :: handles, c =>
      match handle.topicFilter with
      | none => resubscribeLoop env (i + 1) handles c
      | some filter =>
          match qcloudIotMqttSubscribe filter.text (resubscribeParams handle) (env i) c with
          | (.error rc, c, events) => (rc, c, events)
          | (.ok _, c, events) =>
              let r := resubscribeLoop env (i + 1) handles c
              (r.1, r.2.1, events ++ r.2.2)

def qcloudIotMqttResubscribe (env : ℕ → RequestEnv) (c : Client) :
    ReturnCode × Client × List Event :=
  if !c.isConnected then (.mqttNoConn, c, []) else resubscribeLoop env 0 c.subHandles.slots c

def qcloudIotMqttIsSubReady (topicFilter : List UInt8) (c : Client) : Bool :=
  if topicFilter = [] then false
  else if topicFilter.length > maxSizeOfCloudTopic then false
  else c.subHandles.slots.any fun handle =>
    filterIs topicFilter handle || hasWildcardLevel topicFilter

end IotExplorer.Requests
