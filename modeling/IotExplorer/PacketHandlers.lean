import IotExplorer.DeliverMessage
import IotExplorer.ReadPacket
import IotExplorer.Requests

/-!
The handlers of incoming packets and `cycle_for_read`, which reads one packet
and runs its handler. The environment of a cycle holds the outcomes of its reads
and writes, whether a list iterator can be allocated, and the memory that the
code reads without having written it: the bytes around the copied topic and the
handle that the UNSUBACK handler leaves uninitialised.
-/
namespace IotExplorer.PacketHandlers

open Basis.Ownership Protocol PacketBytes PublishPacket ControlPackets Network ReadPacket
open ClientState DeliverMessage WaitLists Requests

structure CycleEnv where
  reads : List ReadChoice
  writes : List WriteChoice
  iterOk : Bool
  now : ℕ
  garbage : Option FilterString
  before : UInt8
  after : Buffer
  deriving DecidableEq

def handlePubackPacket (env : CycleEnv) (c : Client) : ReturnCode × Client × List Event :=
  match deserializeAckPacket c.readBuf mqttRxBufLen with
  | .error rc => (rc, c, [])
  | .ok (_, _, packetId) =>
      (.success, maskPubInfoFrom env.iterOk packetId c,
        raiseEvent c.eventHandle .publishSuccess packetId)

/-- `_check_handle_is_identical` on an entry in use. -/
def handleIsIdentical (handle entry : SubTopicHandle) : Bool :=
  match entry.topicFilter, handle.topicFilter with
  | some filter, some filter' =>
      filter.text == filter'.text && entry.messageHandler == handle.messageHandler &&
        entry.subEventHandler == handle.subEventHandler
  | _, _ => false

/-- The calls after a granted subscription. -/
def subscribedEvents (eventHandle : Bool) (packetId : ℕ) (handle : SubTopicHandle) : List Event :=
  raiseEvent eventHandle .subcribeSuccess packetId ++ handle.raise .subcribeSuccess

/-- A granted handle enters the table: an identical entry only takes over the
user data, else the first free element takes the whole handle. -/
def installHandle (packetId : ℕ) (handle : SubTopicHandle) (c : Client) :
    ReturnCode × Client × List Event :=
  match c.subHandles.slots.findIdx? (handleIsIdentical handle) with
  | some i =>
      let freed := halFree c.heap handle.topicFilter
      (.success,
        { c with
          subHandles := c.subHandles.modify i fun entry =>
            { entry with handlerUserData := handle.handlerUserData }
          heap := freed.1 },
        freed.2 ++ subscribedEvents c.eventHandle packetId handle)
  | none =>
      match c.subHandles.slots.findIdx? fun entry => entry.topicFilter.isNone with
      | some i =>
          (.success, { c with subHandles := c.subHandles.set i handle },
            subscribedEvents c.eventHandle packetId handle)
      | none => (.failure, c, [])

/-- The SUBACK handler with the handle it looked up. The client's event handler is
called for a refusal, before the lookup and without a test for NULL. -/
def concludeSuback (packetId : ℕ) (nack : Bool) (handle : SubTopicHandle) (c : Client) :
    ReturnCode × Client × List Event :=
  let nacked : List Event :=
    if !nack then []
    else if c.eventHandle then [.mqtt .subcribeNack packetId]
    else [.fault .nullCall]
  if handle.topicFilter = none then (.mqttSub, c, nacked)
  else if nack then
    let freed := halFree c.heap handle.topicFilter
    (.mqttSub, { c with heap := freed.1 }, nacked ++ handle.raise .subcribeNack ++ freed.2)
  else installHandle packetId handle c

/-- What the SUBACK handler does with the packet id and the first return code. -/
def resolveSuback (env : CycleEnv) (packetId : ℕ) (nack : Bool) (c : Client) :
    ReturnCode × Client × List Event :=
  let masked := maskSubInfoFrom env.iterOk packetId .zero c
  concludeSuback packetId nack masked.1 masked.2

def handleSubackPacket (env : CycleEnv) (c : Client) : ReturnCode × Client × List Event :=
  match deserializeSubackPacket 1 c.readBuf mqttRxBufLen with
  | .error rc => (rc, c, [])
  | .ok (packetId, grantedQoS) => resolveSuback env packetId (grantedQoS.head? == some 0x80) c

/-- What the UNSUBACK handler does with the packet id. -/
def resolveUnsuback (env : CycleEnv) (packetId : ℕ) (c : Client) :
    ReturnCode × Client × List Event :=
  let masked := maskSubInfoFrom env.iterOk packetId
    { SubTopicHandle.zero with topicFilter := env.garbage } c
  let freed := halFree masked.2.heap masked.1.topicFilter
  (.success, { masked.2 with heap := freed.1 },
    freed.2 ++ raiseEvent c.eventHandle .unsubcribeSuccess packetId)

def handleUnsubackPacket (env : CycleEnv) (c : Client) : ReturnCode × Client × List Event :=
  match deserializeUnsubackPacket c.readBuf mqttRxBufLen with
  | .error rc => (rc, c, [])
  | .ok packetId => resolveUnsuback env packetId c

def getPacketIdInRepeatBuf (c : Client) (packetId : ℕ) : ℤ :=
  if packetId ∈ c.repeatPacketIdBuf then packetId else -1

def addPacketIdToRepeatBuf (packetId : ℕ) (c : Client) : Client :=
  if getPacketIdInRepeatBuf c packetId > 0 then c
  else
    let cnt := c.currentPacketIdCnt + 1
    { c with
      repeatPacketIdBuf := c.repeatPacketIdBuf.set c.currentPacketIdCnt packetId
      currentPacketIdCnt := if cnt ≥ mqttMaxRepeatBufLen then cnt % mqttMaxRepeatBufLen else cnt }

def resetRepeatPacketIdBuffer (c : Client) : Client :=
  { c with
    repeatPacketIdBuf := List.replicate mqttMaxRepeatBufLen 0
    currentPacketIdCnt := 0 }

/-- `fix_topic`: the copied topic in a zeroed array, and the memory behind it. -/
def fixTopic (readBuf : Buffer) (topicName topicLen : ℕ) (after : Buffer) : Buffer :=
  slice readBuf topicName topicLen ++ List.replicate (maxSizeOfCloudTopic - topicLen) 0 ++ after

/-- The length of the copied topic: a longer one is cut. -/
def fixTopicLen (topicLen : ℕ) : ℕ :=
  if topicLen > maxSizeOfCloudTopic then maxSizeOfCloudTopic - 1 else topicLen

/-- The delivery of a parsed PUBLISH. -/
def deliverPublish (env : CycleEnv) (fields : PublishFields) (c : Client) : List Event :=
  let topicLen := fixTopicLen fields.topicNameLen
  let topic := fixTopic c.readBuf fields.topicName topicLen env.after
  deliverMessage c env.before topic topicLen { fields := fields, ptopic := slice topic 0 topicLen }

def sendPubAck (env : CycleEnv) (packetType : MessageType) (packetId : ℕ) (c : Client) :
    ReturnCode × Client × List Event :=
  match serializePubAckPacket mqttTxBufLen packetType 0 packetId with
  | .error rc => (rc, c, [])
  | .ok packet =>
      let c := writePacket packet c
      let sent := sendWritten packet env.writes c
      (sent.1, c, sent.2)

def handlePublishPacket (env : CycleEnv) (c : Client) : ReturnCode × Client × List Event :=
  match deserializePublishPacket c.readBuf mqttRxBufLen with
  | .error rc => (rc, c, [])
  | .ok fields =>
      if fields.qos = QoS.qos0.code then (.success, c, deliverPublish env fields c)
      else
        let id := fields.packetId.getD 0
        let delivered :=
          if getPacketIdInRepeatBuf c id < 0 then deliverPublish env fields c else []
        let ackType : MessageType := if fields.qos = QoS.qos1.code then .puback else .pubrec
        let r := sendPubAck env ackType id (addPacketIdToRepeatBuf id c)
        (r.1, r.2.1, delivered ++ r.2.2)

def handlePubrecPacket (env : CycleEnv) (c : Client) : ReturnCode × Client × List Event :=
  match deserializeAckPacket c.readBuf mqttRxBufLen with
  | .error rc => (rc, c, [])
  | .ok (_, _, packetId) => sendPubAck env .pubrel packetId c

def handlePingrespPacket (now : ℕ) (c : Client) : Client :=
  { c with isPingOutstanding := 0, pingTimer := now + c.options.keepAliveInterval * 1000 }

/-- `_read_mqtt_packet` on the client. -/
def receive (reads : List ReadChoice) (c : Client) : Except ReturnCode UInt8 × Client :=
  let r := readMqttPacket { readBuf := c.readBuf, choices := reads, pending := c.pending }
  (r.1, { c with readBuf := r.2.readBuf, pending := r.2.pending })

/-- The first switch of `cycle_for_read`. -/
def handlePacket (env : CycleEnv) (packetType : UInt8) (c : Client) :
    ReturnCode × Client × List Event :=
  if packetType = MessageType.puback.code then handlePubackPacket env c
  else if packetType = MessageType.suback.code then handleSubackPacket env c
  else if packetType = MessageType.unsuback.code then handleUnsubackPacket env c
  else if packetType = MessageType.publish.code then handlePublishPacket env c
  else if packetType = MessageType.pubrec.code then handlePubrecPacket env c
  else if packetType = MessageType.connack.code ∨ packetType = MessageType.pubrel.code ∨
      packetType = MessageType.pubcomp.code ∨ packetType = MessageType.pingresp.code then
    (.success, c, [])
  else (.rxMessageInval, c, [])

/-- What every handler keeps, and doing nothing, the switch keeps. -/
theorem handlePacket_rule {motive : ReturnCode × Client × List Event → Prop} (env : CycleEnv)
    (packetType : UInt8) (c : Client) (puback : motive (handlePubackPacket env c))
    (suback : motive (handleSubackPacket env c)) (unsuback : motive (handleUnsubackPacket env c))
    (publish : motive (handlePublishPacket env c)) (pubrec : motive (handlePubrecPacket env c))
    (idle : ∀ rc, motive (rc, c, [])) : motive (handlePacket env packetType c) := by
  unfold handlePacket
  split_ifs
  · exact puback
  · exact suback
  · exact unsuback
  · exact publish
  · exact pubrec
  · exact idle .success
  · exact idle .rxMessageInval

/-- The second switch: acknowledgements count as an answer to a ping, and an
incoming message shows that the link is up. -/
def notePing (now : ℕ) (packetType : UInt8) (c : Client) : Client :=
  if packetType = MessageType.puback.code ∨ packetType = MessageType.suback.code ∨
      packetType = MessageType.unsuback.code ∨ packetType = MessageType.pingresp.code then
    handlePingrespPacket now c
  else if packetType = MessageType.publish.code then { c with isPingOutstanding := 0 }
  else c

/-- `cycle_for_read`: the return code and the type of the packet that was read. -/
def cycleForRead (env : CycleEnv) (c : Client) :
    ReturnCode × Option UInt8 × Client × List Event :=
  match receive env.reads c with
  | (.error rc, c) => (if rc = .mqttNothingToRead then .success else rc, none, c, [])
  | (.ok packetType, c) =>
      let r := handlePacket env packetType c
      (r.1, some packetType, notePing env.now packetType r.2.1, r.2.2)

end IotExplorer.PacketHandlers
