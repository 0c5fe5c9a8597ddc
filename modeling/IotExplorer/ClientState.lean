import IotExplorer.Basis.Ownership
import IotExplorer.ControlPackets
import IotExplorer.Network
import IotExplorer.PublishPacket

/-!
The state of the MQTT client and the events it raises. Timers are deadlines in
milliseconds; handlers and user contexts are numbers. Three things are not in
the C structure and only observe it: the heap of the filter strings, the number
of packet ids drawn so far, and the whole stream of the current connection, of
which `pending` is the part that was not read yet. A node of a wait list
remembers which draw made it.
-/
namespace IotExplorer.ClientState

open Basis.Ownership Protocol PacketBytes PublishPacket ControlPackets

/-- A filter string on the heap: the pointer and the text before the NUL. -/
structure FilterString where
  addr : ℕ
  text : List UInt8
  deriving DecidableEq

structure SubTopicHandle where
  topicFilter : Option FilterString
  messageHandler : Option ℕ
  subEventHandler : Option ℕ
  handlerUserData : ℕ
  qos : QoS
  deriving DecidableEq

def SubTopicHandle.zero : SubTopicHandle := ⟨none, none, none, 0, .qos0⟩

/-- `sub_handles`. -/
structure SubTable where
  slots : List SubTopicHandle
  size : slots.length = maxMessageHandlers
  deriving DecidableEq

def SubTable.empty : SubTable := ⟨List.replicate maxMessageHandlers .zero, List.length_replicate⟩

def SubTable.set (table : SubTable) (i : ℕ) (handle : SubTopicHandle) : SubTable :=
  ⟨table.slots.set i handle, by rw [List.length_set, table.size]⟩

/-- One element of the array changed in place. -/
def SubTable.modify (table : SubTable) (i : ℕ) (f : SubTopicHandle → SubTopicHandle) : SubTable :=
  ⟨table.slots.modify i f, by rw [List.length_modify, table.size]⟩

/-- Every element of the array changed in place. -/
def SubTable.map (table : SubTable) (f : SubTopicHandle → SubTopicHandle) : SubTable :=
  ⟨table.slots.map f, by rw [List.length_map, table.size]⟩

/-- `MQTTNodeState`. -/
inductive NodeState where
  | normal | invalid
  deriving DecidableEq

/-- `QcloudIotPubInfo`; the packet copy is kept but never read. -/
structure PubInfo where
  pubStartTime : ℕ
  nodeState : NodeState
  msgId : ℕ
  buf : List UInt8
  draw : ℕ
  deriving DecidableEq

/-- `QcloudIotSubInfo`; the packet copy is kept but never read. -/
structure SubInfo where
  type : MessageType
  msgId : ℕ
  subStartTime : ℕ
  nodeState : NodeState
  handler : SubTopicHandle
  buf : List UInt8
  draw : ℕ
  deriving DecidableEq

/-- The part of `MQTTConnectParams` that the client reads. -/
structure ConnectParams extends ConnectOptions where
  autoConnectEnable : Bool
  deriving DecidableEq

structure Client where
  isConnected : Bool
  wasManuallyDisconnected : Bool
  isPingOutstanding : ℕ
  nextPacketId : ℕ
  commandTimeoutMs : ℕ
  currentReconnectWaitInterval : ℕ
  counterNetworkDisconnected : ℕ
  writeBuf : Buffer
  readBuf : Buffer
  listPubWaitAck : List PubInfo
  listSubWaitAck : List SubInfo
  eventHandle : Bool
  options : ConnectParams
  pingTimer : ℕ
  reconnectDelayTimer : ℕ
  subHandles : SubTable
  repeatPacketIdBuf : List ℕ
  currentPacketIdCnt : ℕ
  pending : List UInt8
  stream : List UInt8
  heap : Heap
  draws : ℕ

/-- `MQTTEventType`, as far as the client raises it. -/
inductive MqttEventType where
  | disconnect | reconnect
  | subcribeSuccess | subcribeTimeout | subcribeNack
  | unsubcribeSuccess | unsubcribeTimeout
  | publishSuccess | publishTimeout
  | unsubscribe
  deriving DecidableEq

/-- `MQTTMessage`: the fields of the packet, and the topic as the matching sees it. -/
structure Message where
  fields : PublishFields
  ptopic : List UInt8
  deriving DecidableEq

/-- What the C code leaves undefined. -/
inductive Fault where
  | badFree (addr : ℕ)
  | nullCall
  deriving DecidableEq

/-- What an operation does besides changing the state: calls of the application's
handlers, packets handed to the network, and undefined behaviour. `expired`
marks the waiting node that a time-out is about. -/
inductive Event where
  | mqtt (type : MqttEventType) (packetId : ℕ)
  | received (message : Message)
  | delivered (slot handler userData : ℕ) (message : Message)
  | sub (handler : ℕ) (type : MqttEventType) (userData : ℕ)
  | sent (packet : List UInt8) (rc : ReturnCode) (taken : List UInt8)
  | expired (draw : ℕ)
  | fault (fault : Fault)
  deriving DecidableEq

/-- The call of the client's event handler, if one is set. -/
def raiseEvent (eventHandle : Bool) (type : MqttEventType) (packetId : ℕ) : List Event :=
  if eventHandle then [.mqtt type packetId] else []

/-- The call of a subscription's event handler, if one is set. -/
def SubTopicHandle.raise (handle : SubTopicHandle) (type : MqttEventType) : List Event :=
  match handle.subEventHandler with
  | some handler => [.sub handler type handle.handlerUserData]
  | none => []

/-- `HAL_Free` of a filter string: NULL is ignored, any other address must be live. -/
def halFree (heap : Heap) : Option FilterString → Heap × List Event
  | none => (heap, [])
  | some filter =>
      (heap.free filter.addr,
        if filter.addr ∈ heap.live then [] else [.fault (.badFree filter.addr)])

/-- `get_next_packet_id`; the id is the new counter. -/
def Client.getNextPacketId (c : Client) : Client :=
  { c with
    nextPacketId := (if maxPacketId = c.nextPacketId then 1 else c.nextPacketId + 1) % 2 ^ 16
    draws := c.draws + 1 }

/-- `qcloud_iot_mqtt_init`. The start of the counter is `rand() % 65536 + 1`, cut
to 16 bits. -/
def Client.init (random commandTimeout : ℕ) (eventHandle : Bool) (options : ConnectParams) :
    Client where
  isConnected := false
  wasManuallyDisconnected := false
  isPingOutstanding := 0
  nextPacketId := (random % 65536 + 1) % 2 ^ 16
  commandTimeoutMs := min 20000 (max 500 commandTimeout)
  currentReconnectWaitInterval := 0
  counterNetworkDisconnected := 0
  writeBuf := []
  readBuf := []
  listPubWaitAck := []
  listSubWaitAck := []
  eventHandle := eventHandle
  options := options
  pingTimer := 0
  reconnectDelayTimer := 0
  subHandles := .empty
  repeatPacketIdBuf := List.replicate mqttMaxRepeatBufLen 0
  currentPacketIdCnt := 0
  pending := []
  stream := []
  heap := .empty
  draws := 0

/-- Nothing of the session changed: the wait lists, the table, the repeat buffer,
the id counter and the heap. -/
structure SameSession (c c' : Client) : Prop where
  listPubWaitAck : c'.listPubWaitAck = c.listPubWaitAck
  listSubWaitAck : c'.listSubWaitAck = c.listSubWaitAck
  subHandles : c'.subHandles = c.subHandles
  repeatPacketIdBuf : c'.repeatPacketIdBuf = c.repeatPacketIdBuf
  currentPacketIdCnt : c'.currentPacketIdCnt = c.currentPacketIdCnt
  nextPacketId : c'.nextPacketId = c.nextPacketId
  draws : c'.draws = c.draws
  heap : c'.heap = c.heap
  eventHandle : c'.eventHandle = c.eventHandle

theorem SameSession.refl (c : Client) : SameSession c c :=
  ⟨rfl, rfl, rfl, rfl, rfl, rfl, rfl, rfl, rfl⟩

theorem SameSession.trans {c c' c'' : Client} (h : SameSession c c') (h' : SameSession c' c'') :
    SameSession c c'' where
  listPubWaitAck := h'.listPubWaitAck.trans h.listPubWaitAck
  listSubWaitAck := h'.listSubWaitAck.trans h.listSubWaitAck
  subHandles := h'.subHandles.trans h.subHandles
  repeatPacketIdBuf := h'.repeatPacketIdBuf.trans h.repeatPacketIdBuf
  currentPacketIdCnt := h'.currentPacketIdCnt.trans h.currentPacketIdCnt
  nextPacketId := h'.nextPacketId.trans h.nextPacketId
  draws := h'.draws.trans h.draws
  heap := h'.heap.trans h.heap
  eventHandle := h'.eventHandle.trans h.eventHandle

/-- The connection is the same one, at the same place of its stream. -/
structure SameLink (c c' : Client) : Prop where
  isConnected : c'.isConnected = c.isConnected
  pending : c'.pending = c.pending
  stream : c'.stream = c.stream

theorem SameLink.refl (c : Client) : SameLink c c := ⟨rfl, rfl, rfl⟩

theorem SameLink.trans {c c' c'' : Client} (h : SameLink c c') (h' : SameLink c' c'') :
    SameLink c c'' where
  isConnected := h'.isConnected.trans h.isConnected
  pending := h'.pending.trans h.pending
  stream := h'.stream.trans h.stream

end IotExplorer.ClientState
