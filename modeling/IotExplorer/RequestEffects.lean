import IotExplorer.SessionSteps

/-!
A publish or a subscribe is all or nothing, in every state of the client: with
an error the wait lists and the table are as before, although the node was
already in its list while the packet was sent, and a successful request has
appended its one node, with a copy of the packet that the network was given.
-/
namespace IotExplorer.RequestEffects

open Basis.Ownership Protocol PacketBytes PublishPacket ControlPackets Network
open ClientState WaitLists Requests SessionSteps

/-- The wait lists and the table are as they were. -/
structure SameRequests (c c' : Client) : Prop where
  listPubWaitAck : c'.listPubWaitAck = c.listPubWaitAck
  listSubWaitAck : c'.listSubWaitAck = c.listSubWaitAck
  subHandles : c'.subHandles = c.subHandles

/-- The packet of a node is the one that `send_mqtt_packet` took from the write
buffer, without an error. -/
structure SentCopy (env : RequestEnv) (buf : List UInt8) (c' : Client) (events : List Event) :
    Prop where
  copied : c'.writeBuf.take buf.length = buf
  wasSent : sendWritten buf env.writes c' = (.success, events)

/-- One publish waits more than before. -/
structure PubAppended (env : RequestEnv) (id : ℕ) (c c' : Client) (events : List Event)
    (node : PubInfo) : Prop where
  listPubWaitAck : c'.listPubWaitAck = c.listPubWaitAck ++ [node]
  msgId : node.msgId = id
  nodeState : node.nodeState = .normal
  copy : SentCopy env node.buf c' events
  listSubWaitAck : c'.listSubWaitAck = c.listSubWaitAck
  subHandles : c'.subHandles = c.subHandles

/-- One subscription request waits more than before. -/
structure SubAppended (env : RequestEnv) (id : ℕ) (c c' : Client) (events : List Event)
    (node : SubInfo) : Prop where
  listSubWaitAck : c'.listSubWaitAck = c.listSubWaitAck ++ [node]
  type : node.type = .subscribe
  msgId : node.msgId = id
  nodeState : node.nodeState = .normal
  copy : SentCopy env node.buf c' events
  listPubWaitAck : c'.listPubWaitAck = c.listPubWaitAck
  subHandles : c'.subHandles = c.subHandles

/-- What the outcome of a publish with this QoS says about the wait lists and
the table. -/
def PublishEffect (env : RequestEnv) (qos : QoS) (c : Client)
    (r : Except ReturnCode ℕ × Client × List Event) : Prop :=
  (∀ rc, r.1 = .error rc → SameRequests c r.2.1) ∧
    ∀ id, r.1 = .ok id → qos = .qos1 → ∃ node, PubAppended env id c r.2.1 r.2.2 node

/-- What the outcome of a subscribe says about the wait lists and the table. -/
def SubscribeEffect (env : RequestEnv) (c : Client)
    (r : Except ReturnCode ℕ × Client × List Event) : Prop :=
  (∀ rc, r.1 = .error rc → SameRequests c r.2.1) ∧
    ∀ id, r.1 = .ok id → ∃ node, SubAppended env id c r.2.1 r.2.2 node

section Outcomes
variable {env : RequestEnv} {c c' : Client} {events : List Event}

/-- An exit with an error that left the lists and the table alone. -/
theorem publishEffect_error {qos : QoS} {rc : ReturnCode} (h : SameRequests c c') :
    PublishEffect env qos c (.error rc, c', events) := by
  refine ⟨fun _ _ => h, ?_⟩
  intro id hid
  cases hid

theorem subscribeEffect_error {rc : ReturnCode} (h : SameRequests c c') :
    SubscribeEffect env c (.error rc, c', events) := by
  refine ⟨fun _ _ => h, ?_⟩
  intro id hid
  cases hid

theorem publishEffect_ok {qos : QoS} {id : ℕ}
    (h : qos = .qos1 → ∃ node, PubAppended env id c c' events node) :
    PublishEffect env qos c (.ok id, c', events) := by
  refine ⟨?_, ?_⟩
  · intro rc hrc
    cases hrc
  · intro got hgot hqos
    obtain rfl := Except.ok.inj hgot
    exact h hqos

theorem subscribeEffect_ok {id : ℕ} {node : SubInfo} (h : SubAppended env id c c' events node) :
    SubscribeEffect env c (.ok id, c', events) := by
  refine ⟨?_, ?_⟩
  · intro rc hrc
    cases hrc
  · intro got hgot
    obtain rfl := Except.ok.inj hgot
    exact ⟨node, h⟩

/-- The packet that was serialized last is at the start of the write buffer. -/
theorem take_overwrite (buf : Buffer) (packet : List UInt8) :
    (overwrite buf packet).take packet.length = packet :=
  List.take_left

end Outcomes

theorem publish_effect (topicName : List UInt8) (params : PublishParams) (env : RequestEnv)
    (c : Client) :
    PublishEffect env params.qos c (qcloudIotMqttPublish topicName params env c) := by
  have hsame : SameRequests c c := ⟨rfl, rfl, rfl⟩
  unfold qcloudIotMqttPublish
  split
  · exact publishEffect_error hsame
  split
  · exact publishEffect_error hsame
  split
  · exact publishEffect_error hsame
  next htwo =>
  split
  · exact publishEffect_error hsame
  unfold publishPacketId
  by_cases hone : params.qos = .qos1
  · have hzero : params.qos ≠ .qos0 := by simp [hone]
    simp only [if_pos hone, if_neg hzero]
    split
    · exact publishEffect_error ⟨rfl, rfl, rfl⟩
    split
    · exact publishEffect_error ⟨rfl, rfl, rfl⟩
    next packet _ =>
    cases hpush : maskPushPubInfoTo env.nodeOk env.now packet.length c.getNextPacketId.nextPacketId
      (writePacket packet c.getNextPacketId) with
    | error rc => exact publishEffect_error ⟨rfl, rfl, rfl⟩
    | ok pushed =>
      obtain rfl := maskPushPubInfoTo_ok hpush
      dsimp only
      split_ifs with hsent
      · -- the node that was appended is the last one, and is taken back
        apply publishEffect_error
        exact ⟨List.dropLast_concat, rfl, rfl⟩
      · apply publishEffect_ok
        intro _
        have hcopy : (writePacket packet c.getNextPacketId).writeBuf.take packet.length = packet :=
          take_overwrite _ _
        refine ⟨_, rfl, rfl, rfl, ?_, rfl, rfl⟩
        dsimp only
        rw [hcopy]
        exact ⟨hcopy, Prod.ext (not_not.mp hsent) rfl⟩
  · have hzero : params.qos = .qos0 := by
      cases hqos : params.qos <;> simp_all
    simp only [if_neg hone, if_pos hzero]
    split
    · exact publishEffect_error hsame
    split
    · exact publishEffect_error hsame
    split_ifs
    · exact publishEffect_error ⟨rfl, rfl, rfl⟩
    · apply publishEffect_ok
      intro hqos
      exact absurd hqos hone

/-- The last steps of a subscribe, from the serialized packet on. -/
theorem pushAndSend_effect (env : RequestEnv) (handler : SubTopicHandle) (packet : List UInt8)
    (c c' : Client) (h : SameRequests c c') (hcopy : c'.writeBuf.take packet.length = packet) :
    SubscribeEffect env c (pushAndSend env .subscribe handler packet c') := by
  unfold pushAndSend
  cases hpush : pushSubInfoTo env.nodeOk env.now packet.length c'.nextPacketId .subscribe handler
    c' with
  | error rc =>
    dsimp only
    rw [hpush]
    exact subscribeEffect_error ⟨h.listPubWaitAck, h.listSubWaitAck, h.subHandles⟩
  | ok pushed =>
    obtain rfl := pushSubInfoTo_ok hpush
    dsimp only
    rw [hpush]
    dsimp only
    split_ifs with hsent
    · -- the node that was appended is the last one, and is taken back
      apply subscribeEffect_error
      refine ⟨h.listPubWaitAck, ?_, h.subHandles⟩
      show (c'.listSubWaitAck ++ [_]).dropLast = c.listSubWaitAck
      rw [List.dropLast_concat]
      exact h.listSubWaitAck
    · apply subscribeEffect_ok
      refine ⟨congrArg (· ++ [_]) h.listSubWaitAck, rfl, rfl, rfl, ?_, h.listPubWaitAck,
        h.subHandles⟩
      dsimp only
      rw [hcopy]
      exact ⟨hcopy, Prod.ext (not_not.mp hsent) rfl⟩

theorem subscribe_effect (topicFilter : List UInt8) (params : SubscribeParams) (env : RequestEnv)
    (c : Client) :
    SubscribeEffect env c (qcloudIotMqttSubscribe topicFilter params env c) := by
  have hsame : SameRequests c c := ⟨rfl, rfl, rfl⟩
  unfold qcloudIotMqttSubscribe
  split_ifs
  · exact subscribeEffect_error hsame
  · exact subscribeEffect_error hsame
  · exact subscribeEffect_error hsame
  · exact subscribeEffect_error hsame
  · exact subscribeEffect_error hsame
  dsimp only
  split
  · exact subscribeEffect_error ⟨rfl, rfl, rfl⟩
  · apply pushAndSend_effect
    · exact ⟨rfl, rfl, rfl⟩
    · exact take_overwrite _ _

/-- A request that fails leaves no trace in the wait lists and the table, and one
that succeeds leaves exactly its node. -/
theorem requests_all_or_nothing (text : List UInt8) (publish : PublishParams)
    (subscribe : SubscribeParams) (env : RequestEnv) (c : Client) :
    PublishEffect env publish.qos c (qcloudIotMqttPublish text publish env c) ∧
      SubscribeEffect env c (qcloudIotMqttSubscribe text subscribe env c) :=
  ⟨publish_effect text publish env c, subscribe_effect text subscribe env c⟩

end IotExplorer.RequestEffects
