import IotExplorer.Connection

/-!
What requests and incoming packets can do, said once. A request leaves the
session as it is, draws a packet id, or draws one and appends its node; an
incoming packet is parsed to one of five kinds, each with its own update of the
session. Neither touches the connection, apart from the bytes that are read.
-/
namespace IotExplorer.SessionSteps

open Basis.Ownership Protocol PacketBytes PublishPacket ControlPackets Network ReadPacket
open ClientState DeliverMessage WaitLists Requests PacketHandlers Connection

/-- An event that reports nothing about a request. -/
def Plain : Event → Prop
  | .sent .. | .received _ | .delivered .. => True
  | .mqtt .disconnect _ | .mqtt .reconnect _ => True
  | _ => False

section Requests
variable {c c' : Client} {events : List Event}

/-- A node for the packet id that is drawn now, with a fresh filter string. -/
structure FreshNode (c : Client) (node : SubInfo) : Prop where
  msgId : node.msgId = c.getNextPacketId.nextPacketId
  draw : node.draw = c.draws + 1
  nodeState : node.nodeState = .normal
  filter : ∃ text, node.handler.topicFilter = some ⟨c.heap.next, text⟩ ∧ text ≠ [] ∧
    text.length ≤ maxSizeOfCloudTopic

/-- What a request can do. -/
inductive Requested (c : Client) : Client → Prop
  | same (buf : Buffer) : Requested c { c with writeBuf := buf }
  | drew (buf : Buffer) : Requested c { c.getNextPacketId with writeBuf := buf }
  | published (buf : Buffer) (deadline : ℕ) (copy : List UInt8) :
      Requested c { c.getNextPacketId with
        writeBuf := buf
        listPubWaitAck := c.listPubWaitAck ++
          [⟨deadline, .normal, c.getNextPacketId.nextPacketId, copy, c.draws + 1⟩] }
  | dropped (buf : Buffer) :
      Requested c { c.getNextPacketId with
        writeBuf := buf
        heap := c.heap.alloc.free c.heap.next }
  | pushed (buf : Buffer) (node : SubInfo) (fresh : FreshNode c node) :
      Requested c { c.getNextPacketId with
        writeBuf := buf
        heap := c.heap.alloc
        listSubWaitAck := c.listSubWaitAck ++ [node] }

/-- A request leaves the table alone. -/
theorem Requested.subHandles (h : Requested c c') : c'.subHandles = c.subHandles := by
  cases h <;> rfl

theorem plain_nil : ∀ e ∈ ([] : List Event), Plain e := by simp

theorem plain_sent (packet : List UInt8) (writes : List WriteChoice) (c : Client) :
    ∀ e ∈ (sendWritten packet writes c).2, Plain e := by
  simp [sendWritten, Plain]

/-- A block that was just allocated can be released. -/
theorem halFree_fresh (heap : Heap) (text : List UInt8) :
    halFree heap.alloc (some ⟨heap.next, text⟩) = (heap.alloc.free heap.next, []) := by
  simp [halFree, Heap.alloc]

theorem maskPushPubInfoTo_ok {mallocOk : Bool} {now len msgId : ℕ} {pushed : Client}
    (h : maskPushPubInfoTo mallocOk now len msgId c = .ok pushed) :
    pushed = { c with
      listPubWaitAck := c.listPubWaitAck ++
        [⟨now + c.commandTimeoutMs, .normal, msgId, c.writeBuf.take len, c.draws⟩] } := by
  unfold maskPushPubInfoTo at h
  split_ifs at h
  exact (Except.ok.inj h).symm

theorem pushSubInfoTo_ok {mallocOk : Bool} {now len msgId : ℕ} {type : MessageType}
    {handler : SubTopicHandle} {pushed : Client}
    (h : pushSubInfoTo mallocOk now len msgId type handler c = .ok pushed) :
    pushed = { c with
      listSubWaitAck := c.listSubWaitAck ++
        [⟨type, msgId, now + c.commandTimeoutMs, .normal, handler, c.writeBuf.take len, c.draws⟩]
          } := by
  unfold pushSubInfoTo at h
  split_ifs at h
  exact (Except.ok.inj h).symm

theorem pushSubInfoTo_ok_iff {mallocOk : Bool} {now len msgId : ℕ} {type : MessageType}
    {handler : SubTopicHandle} :
    (∃ pushed, pushSubInfoTo mallocOk now len msgId type handler c = .ok pushed) ↔
      c.listSubWaitAck.length < maxMessageHandlers ∧ mallocOk = true := by
  unfold pushSubInfoTo
  split_ifs with hfull hmalloc
  · simp only [exists_false, false_iff]
    omega
  · have hno : mallocOk = false := by simpa using hmalloc
    simp [hno]
  · exact iff_of_true ⟨_, rfl⟩ ⟨by omega, by simpa using hmalloc⟩

theorem pushSubInfoTo_error {mallocOk : Bool} {now len msgId : ℕ} {type : MessageType}
    {handler : SubTopicHandle} {rc : ReturnCode}
    (h : pushSubInfoTo mallocOk now len msgId type handler c = .error rc) :
    rc ≠ .success ∧ ¬ (c.listSubWaitAck.length < maxMessageHandlers ∧ mallocOk = true) := by
  constructor
  · rintro rfl
    unfold pushSubInfoTo at h
    split_ifs at h <;> cases h
  · intro hpushed
    obtain ⟨pushed, hok⟩ := pushSubInfoTo_ok_iff.mpr hpushed
    rw [h] at hok
    cases hok

/-- What the end of a subscription request reports. -/
theorem pushAndSend_reported (env : RequestEnv) (type : MessageType) (handler : SubTopicHandle)
    (packet : List UInt8) (c : Client) :
    (¬ (c.listSubWaitAck.length < maxMessageHandlers ∧ env.nodeOk = true ∧
          reportsSent packet.length env.writes = true) ∧
        ∃ rc, rc ≠ .success ∧ (pushAndSend env type handler packet c).1 = .error rc) ∨
      (c.listSubWaitAck.length < maxMessageHandlers ∧ env.nodeOk = true ∧
        reportsSent packet.length env.writes = true) ∧
      ∃ node events, pushAndSend env type handler packet c =
        (.ok c.nextPacketId, { c with listSubWaitAck := c.listSubWaitAck ++ [node] }, events) := by
  unfold pushAndSend
  cases hpush : pushSubInfoTo env.nodeOk env.now packet.length c.nextPacketId type handler c with
  | error rc =>
    obtain ⟨hrc, hno⟩ := pushSubInfoTo_error hpush
    refine Or.inl ⟨fun h => hno ⟨h.1, h.2.1⟩, rc, hrc, ?_⟩
    dsimp only
    rw [hpush]
  | ok pushed =>
    obtain ⟨hroom, hnode⟩ := pushSubInfoTo_ok_iff.mp ⟨pushed, hpush⟩
    have hpushed := pushSubInfoTo_ok hpush
    have hsent := @reportsSent_iff pushed.writeBuf packet.length env.writes
    dsimp only
    rw [hpush]
    dsimp only
    split
    next hfailed => exact Or.inl ⟨fun h => hfailed (hsent.mp h.2.2), _, hfailed, rfl⟩
    next hgood =>
      rw [hpushed]
      exact Or.inr ⟨⟨hroom, hnode, hsent.mpr (not_not.mp hgood)⟩, _, _, rfl⟩

theorem pushAndSend_isOk_iff {env : RequestEnv} {type : MessageType} {handler : SubTopicHandle}
    {packet : List UInt8} :
    (pushAndSend env type handler packet c).1.isOk = true ↔
      c.listSubWaitAck.length < maxMessageHandlers ∧ env.nodeOk = true ∧
        reportsSent packet.length env.writes = true := by
  rcases pushAndSend_reported env type handler packet c with ⟨hbad, rc, -, hfailed⟩ |
    ⟨hgood, node, events, heq⟩
  · rw [hfailed]
    exact iff_of_false Bool.false_ne_true hbad
  · rw [heq]
    exact iff_of_true rfl hgood

theorem publish_requested (topicName : List UInt8) (params : PublishParams) (env : RequestEnv)
    (c : Client) :
    Requested c (qcloudIotMqttPublish topicName params env c).2.1 ∧
      ∀ e ∈ (qcloudIotMqttPublish topicName params env c).2.2, Plain e := by
  have hsame : Requested c c ∧ ∀ e ∈ ([] : List Event), Plain e := ⟨.same c.writeBuf, plain_nil⟩
  unfold qcloudIotMqttPublish
  split
  · exact hsame
  split
  · exact hsame
  split
  · exact hsame
  next htwo =>
  split
  · exact hsame
  unfold publishPacketId
  by_cases hone : params.qos = .qos1
  · have hzero : params.qos ≠ .qos0 := by simp [hone]
    simp only [if_pos hone, if_neg hzero]
    split
    · exact ⟨.drew c.writeBuf, plain_nil⟩
    split
    · exact ⟨.drew c.writeBuf, plain_nil⟩
    next packet _ =>
    cases hpush : maskPushPubInfoTo env.nodeOk env.now packet.length c.getNextPacketId.nextPacketId
      (writePacket packet c.getNextPacketId) with
    | error rc => exact ⟨.drew _, plain_nil⟩
    | ok pushed =>
      obtain rfl := maskPushPubInfoTo_ok hpush
      dsimp only
      split_ifs with hsent
      · dsimp only [writePacket, Client.getNextPacketId]
        rw [List.dropLast_concat]
        exact ⟨.drew _, plain_sent packet env.writes _⟩
      · exact ⟨.published _ _ _, plain_sent packet env.writes _⟩
  · have hzero : params.qos = .qos0 := by
      cases hqos : params.qos <;> simp_all
    simp only [if_neg hone, if_pos hzero]
    split
    · exact hsame
    split
    · exact hsame
    split_ifs
    · exact ⟨.same _, plain_sent _ env.writes _⟩
    · exact ⟨.same _, plain_sent _ env.writes _⟩

/-- A request that stored its filter string ends with the string released or in
its node. -/
theorem pushAndSend_requested {packet text : List UInt8} {buf : Buffer} (env : RequestEnv)
    (type : MessageType) (handler : SubTopicHandle)
    (hfilter : handler.topicFilter = some ⟨c.heap.next, text⟩) (hne : text ≠ [])
    (hlen : text.length ≤ maxSizeOfCloudTopic) :
    Requested c (pushAndSend env type handler packet
        { c.getNextPacketId with writeBuf := buf, heap := c.heap.alloc }).2.1 ∧
      ∀ e ∈ (pushAndSend env type handler packet
        { c.getNextPacketId with writeBuf := buf, heap := c.heap.alloc }).2.2, Plain e := by
  unfold pushAndSend
  cases hpush : pushSubInfoTo env.nodeOk env.now packet.length c.getNextPacketId.nextPacketId
    type handler
    { c.getNextPacketId with writeBuf := buf, heap := c.heap.alloc } with
  | error rc =>
    dsimp only
    rw [hpush, hfilter, halFree_fresh]
    exact ⟨.dropped _, plain_nil⟩
  | ok pushed =>
    obtain rfl := pushSubInfoTo_ok hpush
    dsimp only
    rw [hpush]
    dsimp only
    split_ifs with hsent
    · rw [List.dropLast_concat, hfilter, halFree_fresh, List.append_nil]
      exact ⟨.dropped _, plain_sent packet env.writes _⟩
    · exact ⟨.pushed _ _ ⟨rfl, rfl, rfl, text, hfilter, hne, hlen⟩, plain_sent packet env.writes _⟩

theorem subscribe_requested (topicFilter : List UInt8) (params : SubscribeParams)
    (env : RequestEnv) (c : Client) :
    Requested c (qcloudIotMqttSubscribe topicFilter params env c).2.1 ∧
      ∀ e ∈ (qcloudIotMqttSubscribe topicFilter params env c).2.2, Plain e := by
  have hsame : Requested c c ∧ ∀ e ∈ ([] : List Event), Plain e := ⟨.same c.writeBuf, plain_nil⟩
  unfold qcloudIotMqttSubscribe
  split_ifs with hempty hlong htwo hidle halloc
  · exact hsame
  · exact hsame
  · exact hsame
  · exact hsame
  · exact hsame
  dsimp only
  split
  · dsimp only [Client.getNextPacketId]
    rw [halFree_fresh]
    exact ⟨.dropped c.writeBuf, plain_nil⟩
  · exact pushAndSend_requested env .subscribe _ rfl hempty (Nat.le_of_not_lt hlong)

theorem sendUnsubscribe_requested {topicFilter : List UInt8} (env : RequestEnv) (c : Client)
    (hne : topicFilter ≠ []) (hlen : topicFilter.length ≤ maxSizeOfCloudTopic) :
    Requested c (sendUnsubscribe topicFilter env c).2.1 ∧
      ∀ e ∈ (sendUnsubscribe topicFilter env c).2.2, Plain e := by
  have hsame : Requested c c ∧ ∀ e ∈ ([] : List Event), Plain e := ⟨.same c.writeBuf, plain_nil⟩
  unfold sendUnsubscribe
  split_ifs with hidle halloc
  · exact hsame
  · exact hsame
  dsimp only
  split
  · dsimp only [Client.getNextPacketId]
    rw [halFree_fresh]
    exact ⟨.dropped c.writeBuf, plain_nil⟩
  · exact pushAndSend_requested env .unsubscribe _ rfl hne hlen

end Requests

section Incoming

/-- An incoming packet, as far as its handler gets before it acts. -/
inductive Incoming where
  | other
  | puback (packetId : ℕ)
  | suback (packetId : ℕ) (nack : Bool)
  | unsuback (packetId : ℕ)
  | publish (fields : PublishFields)
  deriving DecidableEq

def incomingPacket (packetType : UInt8) (readBuf : Buffer) : Incoming :=
  if packetType = MessageType.puback.code then
    match deserializeAckPacket readBuf mqttRxBufLen with
    | .error _ => .other
    | .ok (_, _, packetId) => .puback packetId
  else if packetType = MessageType.suback.code then
    match deserializeSubackPacket 1 readBuf mqttRxBufLen with
    | .error _ => .other
    | .ok (packetId, grantedQoS) => .suback packetId (grantedQoS.head? == some 0x80)
  else if packetType = MessageType.unsuback.code then
    match deserializeUnsubackPacket readBuf mqttRxBufLen with
    | .error _ => .other
    | .ok packetId => .unsuback packetId
  else if packetType = MessageType.publish.code then
    match deserializePublishPacket readBuf mqttRxBufLen with
    | .error _ => .other
    | .ok fields => .publish fields
  else .other

/-- The packet that the next cycle handles. -/
def incoming (reads : List ReadChoice) (c : Client) : Incoming :=
  match receive reads c with
  | (.error _, _) => .other
  | (.ok packetType, received) => incomingPacket packetType received.readBuf

def applyIncoming (env : CycleEnv) : Incoming → Client → Client × List Event
  | .other, c => (c, [])
  | .puback packetId, c =>
      (maskPubInfoFrom env.iterOk packetId c, raiseEvent c.eventHandle .publishSuccess packetId)
  | .suback packetId nack, c => (resolveSuback env packetId nack c).2
  | .unsuback packetId, c => (resolveUnsuback env packetId c).2
  | .publish fields, c =>
      (if fields.qos = QoS.qos0.code then c
        else addPacketIdToRepeatBuf (fields.packetId.getD 0) c, [])

theorem maskPubInfoFrom_eq (iterOk : Bool) (msgId : ℕ) (c : Client) :
    maskPubInfoFrom iterOk msgId c =
      { c with
        listPubWaitAck :=
          if iterOk then maskPubNodes msgId c.listPubWaitAck else c.listPubWaitAck } := by
  cases iterOk <;> rfl

theorem maskSubInfoFrom_eq (iterOk : Bool) (msgId : ℕ) (record : SubTopicHandle) (c : Client) :
    maskSubInfoFrom iterOk msgId record c =
      (if iterOk then maskedHandler msgId record c.listSubWaitAck else record,
        { c with
          listSubWaitAck :=
            if iterOk then maskSubNodes msgId c.listSubWaitAck else c.listSubWaitAck }) := by
  cases iterOk <;> rfl

/-- Concluding a SUBACK touches the table and the heap only. -/
theorem concludeSuback_frame (packetId : ℕ) (nack : Bool) (handle : SubTopicHandle) (c : Client) :
    ∃ table heap, (concludeSuback packetId nack handle c).2.1 =
      { c with subHandles := table, heap := heap } := by
  unfold concludeSuback installHandle
  dsimp only
  split
  · exact ⟨_, _, rfl⟩
  · split
    · exact ⟨c.subHandles, _, rfl⟩
    · split
      · exact ⟨_, _, rfl⟩
      · split
        · exact ⟨_, c.heap, rfl⟩
        · exact ⟨_, _, rfl⟩

/-- The SUBACK handler touches the pending nodes, the table and the heap only. -/
theorem resolveSuback_frame (env : CycleEnv) (packetId : ℕ) (nack : Bool) (c : Client) :
    ∃ table heap, (resolveSuback env packetId nack c).2.1 =
      { c with
        listSubWaitAck :=
          if env.iterOk then maskSubNodes packetId c.listSubWaitAck else c.listSubWaitAck
        subHandles := table
        heap := heap } := by
  unfold resolveSuback
  obtain ⟨table, heap, heq⟩ := concludeSuback_frame packetId nack
    (maskSubInfoFrom env.iterOk packetId .zero c).1 (maskSubInfoFrom env.iterOk packetId .zero c).2
  refine ⟨table, heap, ?_⟩
  rw [heq, maskSubInfoFrom_eq]

/-- The parts of the session that an incoming packet does not touch. -/
theorem applyIncoming_frame (env : CycleEnv) (packet : Incoming) (c : Client) :
    (applyIncoming env packet c).1.draws = c.draws ∧
      (applyIncoming env packet c).1.nextPacketId = c.nextPacketId ∧
      (applyIncoming env packet c).1.eventHandle = c.eventHandle := by
  cases packet with
  | other => exact ⟨rfl, rfl, rfl⟩
  | puback packetId =>
    dsimp only [applyIncoming]
    rw [maskPubInfoFrom_eq]
    exact ⟨rfl, rfl, rfl⟩
  | suback packetId nack =>
    dsimp only [applyIncoming]
    obtain ⟨table, heap, heq⟩ := resolveSuback_frame env packetId nack c
    rw [heq]
    exact ⟨rfl, rfl, rfl⟩
  | unsuback packetId =>
    dsimp only [applyIncoming, resolveUnsuback]
    rw [maskSubInfoFrom_eq]
    exact ⟨rfl, rfl, rfl⟩
  | publish fields =>
    dsimp only [applyIncoming]
    unfold addPacketIdToRepeatBuf
    split
    · exact ⟨rfl, rfl, rfl⟩
    · split <;> exact ⟨rfl, rfl, rfl⟩

/-- What an incoming packet does to the list of unacknowledged publishes. -/
theorem applyIncoming_listPubWaitAck (env : CycleEnv) (packet : Incoming) (c : Client) :
    (applyIncoming env packet c).1.listPubWaitAck =
      match packet with
      | .puback packetId =>
          if env.iterOk then maskPubNodes packetId c.listPubWaitAck else c.listPubWaitAck
      | _ => c.listPubWaitAck := by
  cases packet with
  | other => rfl
  | puback packetId =>
    dsimp only [applyIncoming]
    rw [maskPubInfoFrom_eq]
  | suback packetId nack =>
    dsimp only [applyIncoming]
    obtain ⟨table, heap, heq⟩ := resolveSuback_frame env packetId nack c
    rw [heq]
  | unsuback packetId =>
    dsimp only [applyIncoming, resolveUnsuback]
    rw [maskSubInfoFrom_eq]
  | publish fields =>
    dsimp only [applyIncoming]
    unfold addPacketIdToRepeatBuf
    split
    · rfl
    · split <;> rfl

/-- What an incoming packet does to the list of unacknowledged subscriptions. -/
theorem applyIncoming_listSubWaitAck (env : CycleEnv) (packet : Incoming) (c : Client) :
    (applyIncoming env packet c).1.listSubWaitAck =
      match packet with
      | .suback packetId _ | .unsuback packetId =>
          if env.iterOk then maskSubNodes packetId c.listSubWaitAck else c.listSubWaitAck
      | _ => c.listSubWaitAck := by
  cases packet with
  | other => rfl
  | puback packetId =>
    dsimp only [applyIncoming]
    rw [maskPubInfoFrom_eq]
  | suback packetId nack =>
    dsimp only [applyIncoming]
    obtain ⟨table, heap, heq⟩ := resolveSuback_frame env packetId nack c
    rw [heq]
  | unsuback packetId =>
    dsimp only [applyIncoming, resolveUnsuback]
    rw [maskSubInfoFrom_eq]
  | publish fields =>
    dsimp only [applyIncoming]
    unfold addPacketIdToRepeatBuf
    split
    · rfl
    · split <;> rfl

def HandsOver : Event → Prop
  | .received _ | .delivered .. => True
  | _ => False

instance (e : Event) : Decidable (HandsOver e) := by
  unfold HandsOver
  split <;> infer_instance

theorem plain_of_handsOver {e : Event} (h : HandsOver e) : Plain e := by
  cases e with
  | received message => trivial
  | delivered slot handler userData message => trivial
  | _ => exact h.elim

/-- A delivery does nothing but hand the message over. -/
theorem deliverPublish_handsOver (env : CycleEnv) (fields : PublishFields) (c : Client) :
    ∀ e ∈ deliverPublish env fields c, HandsOver e := by
  intro e he
  unfold deliverPublish deliverMessage at he
  dsimp only at he
  split at he
  next event hscan =>
    have hevent : ∀ (k : ℕ) (handles : List SubTopicHandle) (topic : Buffer) (len : ℕ)
        (message : Message),
        deliverScan env.before topic len message k handles = some event → HandsOver event := by
      intro k handles topic len message hscan
      induction handles generalizing k with
      | nil => simp [deliverScan] at hscan
      | cons handle handles ih =>
        unfold deliverScan at hscan
        split at hscan
        · split_ifs at hscan
          · obtain rfl := Option.some.inj hscan
            trivial
          · exact ih (k + 1) hscan
        · exact ih (k + 1) hscan
    rw [List.mem_singleton] at he
    rw [he]
    exact hevent _ _ _ _ _ hscan
  next =>
    split_ifs at he with hset
    · rw [List.mem_singleton] at he
      rw [he]
      trivial
    · simp at he

theorem sendPubAck_session (env : CycleEnv) (packetType : MessageType) (packetId : ℕ) (c : Client) :
    SameSession c (sendPubAck env packetType packetId c).2.1 ∧
      ∀ e ∈ (sendPubAck env packetType packetId c).2.2, Plain e := by
  unfold sendPubAck
  split
  · exact ⟨.refl c, plain_nil⟩
  · exact ⟨⟨rfl, rfl, rfl, rfl, rfl, rfl, rfl, rfl, rfl⟩, plain_sent _ env.writes _⟩

/-- The handler of PUBLISH records the id of a message with a quality of service above 0;
the rest of what it does is plain. -/
theorem handlePublishPacket_session (env : CycleEnv) (c : Client) {fields : PublishFields}
    (hparse : deserializePublishPacket c.readBuf mqttRxBufLen = .ok fields) :
    SameSession (applyIncoming env (.publish fields) c).1 (handlePublishPacket env c).2.1 ∧
      ∃ plain, (handlePublishPacket env c).2.2 =
          (applyIncoming env (.publish fields) c).2 ++ plain ∧ ∀ e ∈ plain, Plain e := by
  unfold handlePublishPacket
  rw [hparse]
  by_cases hqos : fields.qos = QoS.qos0.code
  · simp only [applyIncoming, if_pos hqos]
    exact ⟨.refl c, _, rfl, fun e he =>
      plain_of_handsOver (deliverPublish_handsOver env fields c e he)⟩
  · simp only [applyIncoming, if_neg hqos]
    have hack := sendPubAck_session env (if fields.qos = QoS.qos1.code then .puback else .pubrec)
      (fields.packetId.getD 0) (addPacketIdToRepeatBuf (fields.packetId.getD 0) c)
    refine ⟨hack.1, _, rfl, fun e he => ?_⟩
    rcases List.mem_append.mp he with hdelivered | hsent
    · split_ifs at hdelivered
      · exact plain_of_handsOver (deliverPublish_handsOver env fields c e hdelivered)
      · simp at hdelivered
    · exact hack.2 e hsent

/-- A handler does to the session what its packet asks for. -/
theorem handlePacket_session (env : CycleEnv) (packetType : UInt8) (c : Client) :
    SameSession (applyIncoming env (incomingPacket packetType c.readBuf) c).1
        (handlePacket env packetType c).2.1 ∧
      ∃ plain, (handlePacket env packetType c).2.2 =
          (applyIncoming env (incomingPacket packetType c.readBuf) c).2 ++ plain ∧
        ∀ e ∈ plain, Plain e := by
  have hidle : SameSession c c ∧ ∃ plain, ([] : List Event) = [] ++ plain ∧ ∀ e ∈ plain, Plain e :=
    ⟨.refl c, [], rfl, plain_nil⟩
  unfold handlePacket incomingPacket
  by_cases hpuback : packetType = MessageType.puback.code
  · rw [if_pos hpuback, if_pos hpuback]
    unfold handlePubackPacket
    cases deserializeAckPacket c.readBuf mqttRxBufLen with
    | error rc => exact hidle
    | ok ack => exact ⟨.refl _, [], (List.append_nil _).symm, plain_nil⟩
  rw [if_neg hpuback, if_neg hpuback]
  by_cases hsuback : packetType = MessageType.suback.code
  · rw [if_pos hsuback, if_pos hsuback]
    unfold handleSubackPacket
    cases deserializeSubackPacket 1 c.readBuf mqttRxBufLen with
    | error rc => exact hidle
    | ok ack => exact ⟨.refl _, [], (List.append_nil _).symm, plain_nil⟩
  rw [if_neg hsuback, if_neg hsuback]
  by_cases hunsuback : packetType = MessageType.unsuback.code
  · rw [if_pos hunsuback, if_pos hunsuback]
    unfold handleUnsubackPacket
    cases deserializeUnsubackPacket c.readBuf mqttRxBufLen with
    | error rc => exact hidle
    | ok ack => exact ⟨.refl _, [], (List.append_nil _).symm, plain_nil⟩
  rw [if_neg hunsuback, if_neg hunsuback]
  by_cases hpublish : packetType = MessageType.publish.code
  · rw [if_pos hpublish, if_pos hpublish]
    cases hparse : deserializePublishPacket c.readBuf mqttRxBufLen with
    | error rc =>
      unfold handlePublishPacket
      rw [hparse]
      exact hidle
    | ok fields => exact handlePublishPacket_session env c hparse
  rw [if_neg hpublish, if_neg hpublish]
  split
  · unfold handlePubrecPacket
    split
    · exact hidle
    · have hack := sendPubAck_session env .pubrel ‹_› c
      exact ⟨hack.1, _, rfl, hack.2⟩
  · split_ifs
    · exact hidle
    · exact hidle

theorem notePing_session (now : ℕ) (packetType : UInt8) (c : Client) :
    SameSession c (notePing now packetType c) := by
  unfold notePing
  split_ifs
  · exact ⟨rfl, rfl, rfl, rfl, rfl, rfl, rfl, rfl, rfl⟩
  · exact ⟨rfl, rfl, rfl, rfl, rfl, rfl, rfl, rfl, rfl⟩
  · exact .refl c

theorem installHandle_received (packetId : ℕ) (handle : SubTopicHandle) (c : Client)
    (buf : Buffer) (pending : List UInt8) :
    (installHandle packetId handle { c with readBuf := buf, pending := pending }).2 =
      ({ (installHandle packetId handle c).2.1 with readBuf := buf, pending := pending },
        (installHandle packetId handle c).2.2) := by
  unfold installHandle
  dsimp only
  split
  · rfl
  · split <;> rfl

theorem concludeSuback_received (packetId : ℕ) (nack : Bool) (handle : SubTopicHandle)
    (c : Client) (buf : Buffer) (pending : List UInt8) :
    (concludeSuback packetId nack handle { c with readBuf := buf, pending := pending }).2 =
      ({ (concludeSuback packetId nack handle c).2.1 with readBuf := buf, pending := pending },
        (concludeSuback packetId nack handle c).2.2) := by
  unfold concludeSuback
  dsimp only
  by_cases hfilter : handle.topicFilter = none
  · rw [if_pos hfilter, if_pos hfilter]
  · rw [if_neg hfilter, if_neg hfilter]
    cases nack with
    | true => rfl
    | false => exact installHandle_received packetId handle c buf pending

/-- The session update does not look at the receive buffer or the stream. -/
theorem applyIncoming_received (env : CycleEnv) (packet : Incoming) (c : Client) (buf : Buffer)
    (pending : List UInt8) :
    applyIncoming env packet { c with readBuf := buf, pending := pending } =
      ({ (applyIncoming env packet c).1 with readBuf := buf, pending := pending },
        (applyIncoming env packet c).2) := by
  cases packet with
  | other => rfl
  | puback packetId =>
    unfold applyIncoming maskPubInfoFrom
    split_ifs <;> rfl
  | suback packetId nack =>
    unfold applyIncoming resolveSuback maskSubInfoFrom
    cases env.iterOk with
    | true =>
      exact concludeSuback_received packetId nack _
        { c with listSubWaitAck := maskSubNodes packetId c.listSubWaitAck } buf pending
    | false => exact concludeSuback_received packetId nack _ c buf pending
  | unsuback packetId =>
    unfold applyIncoming resolveUnsuback maskSubInfoFrom
    split_ifs <;> rfl
  | publish fields =>
    unfold applyIncoming addPacketIdToRepeatBuf getPacketIdInRepeatBuf
    dsimp only
    split_ifs <;> rfl

end Incoming

section Events

def AboutSub : Event → Prop
  | .sub .. | .fault _ => True
  | .mqtt .subcribeSuccess _ | .mqtt .subcribeTimeout _ | .mqtt .subcribeNack _ => True
  | .mqtt .unsubcribeSuccess _ | .mqtt .unsubcribeTimeout _ | .mqtt .unsubscribe _ => True
  | _ => False

theorem aboutSub_append {events events' : List Event} (h : ∀ e ∈ events, AboutSub e)
    (h' : ∀ e ∈ events', AboutSub e) : ∀ e ∈ events ++ events', AboutSub e := by
  intro e he
  rcases List.mem_append.mp he with he | he
  · exact h e he
  · exact h' e he

theorem raise_aboutSub (handle : SubTopicHandle) (type : MqttEventType) :
    ∀ e ∈ handle.raise type, AboutSub e := by
  unfold SubTopicHandle.raise
  split <;> simp [AboutSub]

theorem halFree_aboutSub (heap : Heap) (filter : Option FilterString) :
    ∀ e ∈ (halFree heap filter).2, AboutSub e := by
  cases filter with
  | none => simp [halFree]
  | some filter =>
    dsimp only [halFree]
    split <;> simp [AboutSub]

theorem unsubscribeScan_aboutSub (topicFilter : List UInt8) (handles : List SubTopicHandle)
    (heap : Heap) : ∀ e ∈ (unsubscribeScan topicFilter handles heap).2, AboutSub e := by
  induction handles generalizing heap with
  | nil => simp [unsubscribeScan]
  | cons handle handles ih =>
    unfold unsubscribeScan
    split
    · exact aboutSub_append (aboutSub_append (raise_aboutSub handle _) (halFree_aboutSub heap _))
        (ih _)
    · exact ih heap

theorem concludeSuback_aboutSub (packetId : ℕ) (nack : Bool) (handle : SubTopicHandle)
    (c : Client) : ∀ e ∈ (concludeSuback packetId nack handle c).2.2, AboutSub e := by
  have hnacked : ∀ e ∈ (if !nack then []
      else if c.eventHandle then [.mqtt .subcribeNack packetId] else [.fault .nullCall] :
        List Event), AboutSub e := by
    split
    · simp
    · split <;> simp [AboutSub]
  have hsubscribed : ∀ e ∈ subscribedEvents c.eventHandle packetId handle, AboutSub e := by
    refine aboutSub_append ?_ (raise_aboutSub handle _)
    unfold raiseEvent
    split <;> simp [AboutSub]
  unfold concludeSuback installHandle
  dsimp only
  split
  · exact hnacked
  · split
    · exact aboutSub_append (aboutSub_append hnacked (raise_aboutSub handle _))
        (halFree_aboutSub _ _)
    · split
      · exact aboutSub_append (halFree_aboutSub _ _) hsubscribed
      · split
        · exact hsubscribed
        · simp

/-- A packet that is no PUBACK raises events about subscriptions only. -/
theorem applyIncoming_events (env : CycleEnv) (packet : Incoming) (c : Client) :
    ∀ e ∈ (applyIncoming env packet c).2, AboutSub e ∨
      ∃ packetId, packet = .puback packetId ∧ c.eventHandle = true ∧
        e = .mqtt .publishSuccess packetId := by
  intro e he
  cases packet with
  | other => exact absurd he List.not_mem_nil
  | puback packetId =>
    dsimp only [applyIncoming, raiseEvent] at he
    split at he
    next hset => exact Or.inr ⟨packetId, rfl, hset, List.mem_singleton.mp he⟩
    · exact absurd he List.not_mem_nil
  | suback packetId nack => exact Or.inl (concludeSuback_aboutSub _ _ _ _ e he)
  | unsuback packetId =>
    refine Or.inl (aboutSub_append (halFree_aboutSub _ _) ?_ e he)
    unfold raiseEvent
    split <;> simp [AboutSub]
  | publish fields => exact absurd he List.not_mem_nil

/-- The walk of the publishes reports waiting nodes only. -/
theorem pubInfoScan_events (isConnected eventHandle : Bool) (clock : ℕ → ℕ) (i : ℕ)
    (nodes : List PubInfo) :
    ∀ e ∈ (pubInfoScan isConnected eventHandle clock i nodes).2,
      ∃ node ∈ nodes, node.nodeState = .normal ∧
        (e = .expired node.draw ∨ e = .mqtt .publishTimeout node.msgId) := by
  induction nodes generalizing i with
  | nil => simp [pubInfoScan]
  | cons node nodes ih =>
    intro e he
    have hlater : ∀ e ∈ (pubInfoScan isConnected eventHandle clock (i + 1) nodes).2,
        ∃ m ∈ node :: nodes, m.nodeState = .normal ∧
          (e = .expired m.draw ∨ e = .mqtt .publishTimeout m.msgId) := by
      intro e he
      obtain ⟨m, hm, hreport⟩ := ih (i + 1) e he
      exact ⟨m, List.mem_cons_of_mem node hm, hreport⟩
    unfold pubInfoScan at he
    dsimp only at he
    split_ifs at he with hstate hidle hyoung
    · exact hlater e he
    · exact hlater e he
    · exact hlater e he
    · have hnormal : node.nodeState = .normal := by
        cases hvalid : node.nodeState with
        | normal => rfl
        | invalid => exact absurd hvalid hstate
      rcases List.mem_cons.mp he with rfl | he
      · exact ⟨node, List.mem_cons_self, hnormal, Or.inl rfl⟩
      rcases List.mem_append.mp he with he | he
      · unfold raiseEvent at he
        split at he
        · exact ⟨node, List.mem_cons_self, hnormal, Or.inr (List.mem_singleton.mp he)⟩
        · exact absurd he List.not_mem_nil
      · exact hlater e he

theorem subTimeoutEvents_aboutSub (eventHandle : Bool) (node : SubInfo) :
    ∀ e ∈ subTimeoutEvents eventHandle node, AboutSub e := by
  unfold subTimeoutEvents
  split
  · split
    · exact aboutSub_append (raise_aboutSub node.handler _) (by simp [AboutSub])
    · simp [AboutSub]
  · simp

/-- The walk of the subscriptions reports waiting nodes only. -/
theorem subInfoScan_events (isConnected eventHandle : Bool) (clock : ℕ → ℕ) (i : ℕ)
    (nodes : List SubInfo) (heap : Heap) :
    ∀ e ∈ (subInfoScan isConnected eventHandle clock i nodes heap).2.2,
      AboutSub e ∨ ∃ node ∈ nodes, node.nodeState = .normal ∧ e = .expired node.draw := by
  induction nodes generalizing i heap with
  | nil => simp [subInfoScan]
  | cons node nodes ih =>
    intro e he
    have hlater : ∀ heap, ∀ e ∈
        (subInfoScan isConnected eventHandle clock (i + 1) nodes heap).2.2,
        AboutSub e ∨ ∃ m ∈ node :: nodes, m.nodeState = .normal ∧ e = .expired m.draw := by
      intro heap e he
      rcases ih (i + 1) heap e he with hsub | ⟨m, hm, hreport⟩
      · exact Or.inl hsub
      · exact Or.inr ⟨m, List.mem_cons_of_mem node hm, hreport⟩
    unfold subInfoScan at he
    dsimp only at he
    split_ifs at he with hstate hkept
    · exact hlater heap e he
    · exact hlater heap e he
    · have hnormal : node.nodeState = .normal := by
        cases hvalid : node.nodeState with
        | normal => rfl
        | invalid => exact absurd hvalid hstate
      rcases List.mem_cons.mp he with rfl | he
      · exact Or.inr ⟨node, List.mem_cons_self, hnormal, rfl⟩
      rcases List.mem_append.mp he with he | he
      · exact Or.inl (aboutSub_append (subTimeoutEvents_aboutSub eventHandle node)
          (halFree_aboutSub heap _) e he)
      · exact hlater _ e he

end Events

section Link
variable {c c' : Client}

theorem Requested.link (h : Requested c c') : SameLink c c' := by
  cases h <;> exact ⟨rfl, rfl, rfl⟩

theorem pubInfoProc_link (iterOk : Bool) (clock : ℕ → ℕ) (c : Client) :
    SameLink c (pubInfoProc iterOk clock c).1 := by
  rw [pubInfoProc_frame]
  exact ⟨rfl, rfl, rfl⟩

theorem subInfoProc_link (iterOk : Bool) (clock : ℕ → ℕ) (c : Client) :
    SameLink c (subInfoProc iterOk clock c).1 := by
  rw [subInfoProc_frame]
  exact ⟨rfl, rfl, rfl⟩

theorem maskPubInfoFrom_link (iterOk : Bool) (msgId : ℕ) (c : Client) :
    SameLink c (maskPubInfoFrom iterOk msgId c) := by
  unfold maskPubInfoFrom
  split <;> exact ⟨rfl, rfl, rfl⟩

theorem maskSubInfoFrom_link (iterOk : Bool) (msgId : ℕ) (record : SubTopicHandle) (c : Client) :
    SameLink c (maskSubInfoFrom iterOk msgId record c).2 := by
  unfold maskSubInfoFrom
  split <;> exact ⟨rfl, rfl, rfl⟩

theorem concludeSuback_link (packetId : ℕ) (nack : Bool) (handle : SubTopicHandle) (c : Client) :
    SameLink c (concludeSuback packetId nack handle c).2.1 := by
  unfold concludeSuback installHandle
  dsimp only
  split
  · exact .refl c
  · split
    · exact ⟨rfl, rfl, rfl⟩
    · split
      · exact ⟨rfl, rfl, rfl⟩
      · split <;> exact ⟨rfl, rfl, rfl⟩

theorem sendPubAck_link (env : CycleEnv) (packetType : MessageType) (packetId : ℕ) (c : Client) :
    SameLink c (sendPubAck env packetType packetId c).2.1 := by
  unfold sendPubAck
  split <;> exact ⟨rfl, rfl, rfl⟩

theorem addPacketIdToRepeatBuf_link (packetId : ℕ) (c : Client) :
    SameLink c (addPacketIdToRepeatBuf packetId c) := by
  unfold addPacketIdToRepeatBuf
  split <;> exact ⟨rfl, rfl, rfl⟩

theorem handlePacket_link (env : CycleEnv) (packetType : UInt8) (c : Client) :
    SameLink c (handlePacket env packetType c).2.1 := by
  apply handlePacket_rule (motive := fun r => SameLink c r.2.1)
  · unfold handlePubackPacket
    split
    · exact .refl c
    · exact maskPubInfoFrom_link _ _ c
  · unfold handleSubackPacket
    split
    · exact .refl c
    · exact (maskSubInfoFrom_link _ _ _ c).trans (concludeSuback_link _ _ _ _)
  · unfold handleUnsubackPacket
    split
    · exact .refl c
    · exact (maskSubInfoFrom_link _ _ _ c).trans ⟨rfl, rfl, rfl⟩
  · unfold handlePublishPacket
    split
    · exact .refl c
    · dsimp only
      split
      · exact .refl c
      · exact (addPacketIdToRepeatBuf_link _ c).trans (sendPubAck_link _ _ _ _)
  · unfold handlePubrecPacket
    split
    · exact .refl c
    · exact sendPubAck_link _ _ _ c
  · intro rc
    exact .refl c

theorem notePing_link (now : ℕ) (packetType : UInt8) (c : Client) :
    SameLink c (notePing now packetType c) := by
  unfold notePing
  split
  · exact ⟨rfl, rfl, rfl⟩
  · split <;> exact ⟨rfl, rfl, rfl⟩

end Link

section Cycle

/-- A cycle takes from the stream what its read takes. -/
theorem cycleForRead_link (env : CycleEnv) (c : Client) :
    SameLink (receive env.reads c).2 (cycleForRead env c).2.2.1 := by
  unfold cycleForRead
  split
  next rc received hread =>
    rw [hread]
    exact .refl received
  next packetType received hread =>
    rw [hread]
    exact (handlePacket_link env packetType received).trans (notePing_link _ _ _)

theorem receive_link (reads : List ReadChoice) (c : Client) :
    (receive reads c).2.isConnected = c.isConnected ∧ (receive reads c).2.stream = c.stream :=
  ⟨rfl, rfl⟩

/-- A cycle does to the session what the packet asks for that it reads. -/
theorem cycleForRead_session (env : CycleEnv) (c : Client) :
    SameSession (applyIncoming env (incoming env.reads c) c).1 (cycleForRead env c).2.2.1 ∧
      ∃ plain, (cycleForRead env c).2.2.2 =
          (applyIncoming env (incoming env.reads c) c).2 ++ plain ∧ ∀ e ∈ plain, Plain e := by
  have hreceived : (receive env.reads c).2 =
      { c with
        readBuf := (receive env.reads c).2.readBuf, pending := (receive env.reads c).2.pending } :=
    rfl
  unfold cycleForRead incoming
  generalize receive env.reads c = r at hreceived ⊢
  obtain ⟨result, received⟩ := r
  dsimp only at hreceived
  cases result with
  | error rc =>
    refine ⟨?_, [], rfl, plain_nil⟩
    rw [hreceived]
    exact ⟨rfl, rfl, rfl, rfl, rfl, rfl, rfl, rfl, rfl⟩
  | ok packetType =>
    obtain ⟨hsame, hevents⟩ := handlePacket_session env packetType received
    have happly := applyIncoming_received env (incomingPacket packetType received.readBuf) c
      received.readBuf received.pending
    rw [← hreceived] at happly
    rw [happly] at hsame hevents
    have hframe : SameSession (applyIncoming env (incomingPacket packetType received.readBuf) c).1
        { (applyIncoming env (incomingPacket packetType received.readBuf) c).1 with
          readBuf := received.readBuf
          pending := received.pending } := ⟨rfl, rfl, rfl, rfl, rfl, rfl, rfl, rfl, rfl⟩
    exact ⟨(hframe.trans hsame).trans (notePing_session env.now packetType _), hevents⟩

end Cycle

end IotExplorer.SessionSteps
