import IotExplorer.ClientPackets
import IotExplorer.ClientRuns

/-!
The packets of a run, as the server reads them. Whatever operations a client has gone through,
what it hands to the network is a packet that its last operation asks for: the application's
request with its fields and a fresh id, the acknowledgement of the message that was read, a ping,
or the end of the connection.
-/
namespace IotExplorer.SentPackets

open Basis.Runs Protocol PacketBytes PublishPacket ControlPackets Network ReadPacket ClientState
open DeliverMessage WaitLists Requests PacketHandlers Connection SessionSteps ClientRuns
open PacketLengths ClientPackets

section Asked

/-- The acknowledgement of a packet of this type in the receive buffer. -/
def Answers (packetType : UInt8) (readBuf : Buffer) (p : ClientPacket) : Prop :=
  if packetType = MessageType.publish.code then
    ∃ fields, deserializePublishPacket readBuf mqttRxBufLen = .ok fields ∧
      fields.qos ≠ QoS.qos0.code ∧
      p = .ack (if fields.qos = QoS.qos1.code then .puback else .pubrec) (fields.packetId.getD 0)
  else
    packetType = MessageType.pubrec.code ∧
      ∃ type dup packetId, deserializeAckPacket readBuf mqttRxBufLen = .ok (type, dup, packetId) ∧
        p = .ack .pubrel packetId

/-- The acknowledgement of what a cycle reads. -/
def AnswersCycle (env : CycleEnv) (c : Client) (p : ClientPacket) : Prop :=
  ∃ packetType, (receive env.reads c).1 = .ok packetType ∧
    Answers packetType (receive env.reads c).2.readBuf p

def Asked (c : Client) : Op → ClientPacket → Prop
  | .publish topicName params _, p =>
      ∃ payload ∈ params.payload, p = .publish false (params.retained &&& 1 ≠ 0) params.qos
        (if params.qos = .qos0 then none else some c.getNextPacketId.nextPacketId) topicName payload
  | .subscribe topicFilter params _, p =>
      p = .subscribe c.getNextPacketId.nextPacketId topicFilter params.qos
  | .unsubscribe topicFilter _, p => p = .unsubscribe c.getNextPacketId.nextPacketId topicFilter
  | .connectOpen options env, p =>
      p = .connect (UInt8.ofNat options.mqttVersion) options.cleanSession options.keepAliveInterval
        options.clientId (some (connectUsername options.clientId env.connId)) none
  | .connectRead env, p => AnswersCycle env c p
  | .yieldRead env _, p => AnswersCycle env c p ∨ p = .disconnect
  | .keepAlive _, p => p = .pingreq ∨ p = .disconnect
  | .disconnect _, p | .handleDisconnect _, p => p = .disconnect
  | _, _ => False

/-- A version that the client knows, and numbers of the sizes of their C types. -/
structure SaneOptions (options : ConnectParams) : Prop where
  version : options.mqttVersion = 3 ∨ options.mqttVersion = 4
  keepAlive : options.keepAliveInterval < 2 ^ 16
  clientId : options.clientId.length < 2 ^ 27

/-- The lengths of the arguments do not wrap. -/
def Sane : Op → Prop
  | .publish _ params _ => ∀ payload ∈ params.payload, payload.length < 2 ^ 27
  | .connectOpen options _ => SaneOptions options
  | _ => True

def Sends (asked : ClientPacket → Prop) : Event → Prop
  | .sent packet _ _ => ∃ p, readPacket packet = some p ∧ asked p
  | _ => True

theorem Sends.mono {asked asked' : ClientPacket → Prop} {e : Event} (h : Sends asked e)
    (hle : ∀ p, asked p → asked' p) : Sends asked' e := by
  cases e with
  | sent packet rc taken =>
    obtain ⟨p, hread, hp⟩ := h
    exact ⟨p, hread, hle p hp⟩
  | _ => trivial

end Asked

section Quiet
variable {asked : ClientPacket → Prop} {c : Client}

def Quiet : Event → Prop
  | .sent .. => False
  | _ => True

theorem Quiet.sends {e : Event} (h : Quiet e) : Sends asked e := by
  cases e with
  | sent packet rc taken => exact h.elim
  | _ => trivial

theorem quiet_append {events events' : List Event} (h : ∀ e ∈ events, Quiet e)
    (h' : ∀ e ∈ events', Quiet e) : ∀ e ∈ events ++ events', Quiet e := by
  intro e he
  exact (List.mem_append.mp he).elim (h e) (h' e)

theorem quiet_cons {first : Event} {events : List Event} (h : Quiet first)
    (h' : ∀ e ∈ events, Quiet e) : ∀ e ∈ first :: events, Quiet e := by
  intro e he
  rcases List.mem_cons.mp he with heq | he
  · exact heq ▸ h
  · exact h' e he

theorem quiet_nil : ∀ e ∈ ([] : List Event), Quiet e := by
  simp

theorem raiseEvent_quiet (eventHandle : Bool) (type : MqttEventType) (packetId : ℕ) :
    ∀ e ∈ raiseEvent eventHandle type packetId, Quiet e := by
  unfold raiseEvent
  split <;> simp [Quiet]

theorem raise_quiet (handle : SubTopicHandle) (type : MqttEventType) :
    ∀ e ∈ handle.raise type, Quiet e := by
  unfold SubTopicHandle.raise
  split <;> simp [Quiet]

theorem halFree_quiet (heap : Basis.Ownership.Heap) (filter : Option FilterString) :
    ∀ e ∈ (halFree heap filter).2, Quiet e := by
  unfold halFree
  split
  · exact quiet_nil
  · dsimp only
    split <;> simp [Quiet]

theorem installHandle_quiet (packetId : ℕ) (handle : SubTopicHandle) (c : Client) :
    ∀ e ∈ (installHandle packetId handle c).2.2, Quiet e := by
  have hsubscribed : ∀ e ∈ subscribedEvents c.eventHandle packetId handle, Quiet e :=
    quiet_append (raiseEvent_quiet _ _ _) (raise_quiet _ _)
  unfold installHandle
  split
  · exact quiet_append (halFree_quiet _ _) hsubscribed
  · split
    · exact hsubscribed
    · exact quiet_nil

theorem resolveSuback_quiet (env : CycleEnv) (packetId : ℕ) (nack : Bool) (c : Client) :
    ∀ e ∈ (resolveSuback env packetId nack c).2.2, Quiet e := by
  unfold resolveSuback concludeSuback
  dsimp only
  generalize (maskSubInfoFrom env.iterOk packetId .zero c).1 = handle
  generalize (maskSubInfoFrom env.iterOk packetId .zero c).2 = c'
  have hnacked : ∀ e ∈ (if (!nack) = true then []
      else if c'.eventHandle = true then [Event.mqtt .subcribeNack packetId]
      else [Event.fault .nullCall]), Quiet e := by
    split
    · exact quiet_nil
    · split <;> simp [Quiet]
  split
  · exact hnacked
  · split
    · exact quiet_append (quiet_append hnacked (raise_quiet _ _)) (halFree_quiet _ _)
    · exact installHandle_quiet packetId handle c'

theorem resolveUnsuback_quiet (env : CycleEnv) (packetId : ℕ) (c : Client) :
    ∀ e ∈ (resolveUnsuback env packetId c).2.2, Quiet e :=
  quiet_append (halFree_quiet _ _) (raiseEvent_quiet _ _ _)

theorem deliverPublish_quiet (env : CycleEnv) (fields : PublishFields) (c : Client) :
    ∀ e ∈ deliverPublish env fields c, Quiet e := by
  intro e he
  have hover := deliverPublish_handsOver env fields c e he
  cases e with
  | sent packet rc taken => exact hover.elim
  | _ => trivial

theorem unsubscribeScan_quiet (topicFilter : List UInt8) (handles : List SubTopicHandle)
    (heap : Basis.Ownership.Heap) :
    ∀ e ∈ (unsubscribeScan topicFilter handles heap).2, Quiet e := by
  induction handles generalizing heap with
  | nil => exact quiet_nil
  | cons handle handles ih =>
    unfold unsubscribeScan
    split
    · exact quiet_append (quiet_append (raise_quiet _ _) (halFree_quiet _ _)) (ih _)
    · exact ih heap

theorem pubInfoProc_quiet (iterOk : Bool) (clock : ℕ → ℕ) (c : Client) :
    ∀ e ∈ (pubInfoProc iterOk clock c).2, Quiet e := by
  have hscan : ∀ (i : ℕ) (nodes : List PubInfo),
      ∀ e ∈ (pubInfoScan c.isConnected c.eventHandle clock i nodes).2, Quiet e := by
    intro i nodes
    induction nodes generalizing i with
    | nil => exact quiet_nil
    | cons node nodes ih =>
      unfold pubInfoScan
      dsimp only
      split_ifs
      · exact ih (i + 1)
      · exact ih (i + 1)
      · exact ih (i + 1)
      · exact quiet_append (quiet_cons (by exact trivial) (raiseEvent_quiet _ _ _)) (ih (i + 1))
  unfold pubInfoProc
  split
  · exact hscan 0 _
  · exact quiet_nil

theorem subInfoProc_quiet (iterOk : Bool) (clock : ℕ → ℕ) (c : Client) :
    ∀ e ∈ (subInfoProc iterOk clock c).2, Quiet e := by
  have hnode : ∀ node : SubInfo, ∀ e ∈ subTimeoutEvents c.eventHandle node, Quiet e := by
    intro node
    unfold subTimeoutEvents
    split_ifs
    · exact quiet_append (raise_quiet _ _) (by simp [Quiet])
    · simp [Quiet]
    · exact quiet_nil
  have hscan : ∀ (i : ℕ) (nodes : List SubInfo) (heap : Basis.Ownership.Heap),
      ∀ e ∈ (subInfoScan c.isConnected c.eventHandle clock i nodes heap).2.2, Quiet e := by
    intro i nodes heap
    induction nodes generalizing i heap with
    | nil => exact quiet_nil
    | cons node nodes ih =>
      unfold subInfoScan
      dsimp only
      split_ifs
      · exact ih (i + 1) heap
      · exact ih (i + 1) heap
      · exact quiet_append (quiet_append (quiet_cons (by exact trivial) (hnode node))
          (halFree_quiet _ _)) (ih (i + 1) _)
  unfold subInfoProc
  split
  · exact hscan 0 _ _
  · exact quiet_nil

end Quiet

section Sending
variable {asked : ClientPacket → Prop} {c : Client} {packet : List UInt8} {p : ClientPacket}

theorem sends_nil : ∀ e ∈ ([] : List Event), Sends asked e := by
  simp

theorem sends_append {events events' : List Event} (h : ∀ e ∈ events, Sends asked e)
    (h' : ∀ e ∈ events', Sends asked e) : ∀ e ∈ events ++ events', Sends asked e := by
  intro e he
  exact (List.mem_append.mp he).elim (h e) (h' e)

theorem sends_of_quiet {events : List Event} (h : ∀ e ∈ events, Quiet e) :
    ∀ e ∈ events, Sends asked e :=
  fun e he => (h e he).sends

theorem sendWritten_sends (writes : List WriteChoice) (c : Client)
    (hread : readPacket packet = some p) (hasked : asked p) :
    ∀ e ∈ (sendWritten packet writes c).2, Sends asked e := by
  intro e he
  obtain rfl := List.mem_singleton.mp he
  exact ⟨p, hread, hasked⟩

theorem getNextPacketId_lt (c : Client) : c.getNextPacketId.nextPacketId < 2 ^ 16 :=
  Nat.mod_lt _ (by decide)

theorem publish_sends (topicName : List UInt8) (params : PublishParams) (env : RequestEnv)
    (c : Client) (hsane : Sane (.publish topicName params env)) :
    ∀ e ∈ (qcloudIotMqttPublish topicName params env c).2.2,
      Sends (Asked c (.publish topicName params env)) e := by
  unfold qcloudIotMqttPublish
  split
  · exact sends_nil
  split
  · exact sends_nil
  next htopic =>
  split
  · exact sends_nil
  next htwo =>
  split
  · exact sends_nil
  dsimp only
  split
  · exact sends_nil
  next payload hpayload =>
  split
  · exact sends_nil
  next packet hpacket =>
  have hlen := hsane payload hpayload
  have htopic' : topicName.length ≤ 128 := Nat.le_of_not_lt htopic
  have hbody : publishBodyLen params.qos topicName payload < 2 ^ 28 := by
    unfold publishBodyLen
    split <;> omega
  have hdrawn : params.qos ≠ .qos0 →
      (publishPacketId params c).2 = c.getNextPacketId.nextPacketId := by
    intro hzero
    cases hqos : params.qos with
    | qos0 => exact absurd hqos hzero
    | qos1 => rw [publishPacketId, if_pos hqos]
    | qos2 => exact absurd hqos htwo
  have hread := read_publish (by omega) hbody
    (fun hzero => (hdrawn hzero).trans_lt (getNextPacketId_lt c)) hpacket
  have hid : (if params.qos = .qos0 then none else some (publishPacketId params c).2) =
      if params.qos = .qos0 then none else some c.getNextPacketId.nextPacketId := by
    split
    · rfl
    next hzero => rw [hdrawn hzero]
  rw [hid] at hread
  have hsent (writes : List WriteChoice) (c' : Client) :=
    @sendWritten_sends (Asked c (.publish topicName params env)) _ _ writes c' hread
      ⟨payload, hpayload, rfl⟩
  split
  · split
    · exact hsent _ _
    · exact hsent _ _
  · split
    · exact sends_nil
    · split
      · exact hsent _ _
      · exact hsent _ _

/-- The end of a subscription request sends what was serialized. -/
theorem pushAndSend_sends (env : RequestEnv) (type : MessageType) (handler : SubTopicHandle)
    (c : Client) (hread : readPacket packet = some p) (hasked : asked p) :
    ∀ e ∈ (pushAndSend env type handler packet c).2.2, Sends asked e := by
  unfold pushAndSend
  dsimp only
  split
  · exact sends_of_quiet (halFree_quiet _ _)
  · split
    · exact sends_append (sendWritten_sends env.writes _ hread hasked)
        (sends_of_quiet (halFree_quiet _ _))
    · exact sendWritten_sends env.writes _ hread hasked

theorem subscribe_sends (topicFilter : List UInt8) (params : SubscribeParams) (env : RequestEnv)
    (c : Client) :
    ∀ e ∈ (qcloudIotMqttSubscribe topicFilter params env c).2.2,
      Sends (Asked c (.subscribe topicFilter params env)) e := by
  unfold qcloudIotMqttSubscribe
  split_ifs with hempty hlong htwo hidle halloc
  · exact sends_nil
  · exact sends_nil
  · exact sends_nil
  · exact sends_nil
  · exact sends_nil
  have hlen : topicFilter.length ≤ 128 := Nat.le_of_not_lt hlong
  dsimp only
  split
  · exact sends_of_quiet (halFree_quiet _ _)
  next packet hpacket =>
  exact pushAndSend_sends env .subscribe _ _
    (read_subscribe (by omega) (getNextPacketId_lt c) hpacket) rfl

theorem unsubscribe_sends (topicFilter : List UInt8) (env : RequestEnv) (c : Client) :
    ∀ e ∈ (qcloudIotMqttUnsubscribe topicFilter env c).2.2,
      Sends (Asked c (.unsubscribe topicFilter env)) e := by
  have hscan : ∀ e ∈ (removeEntries topicFilter c).2, Quiet e := unsubscribeScan_quiet _ _ _
  unfold qcloudIotMqttUnsubscribe
  split_ifs with hempty hlong
  · exact sends_nil
  · exact sends_nil
  have hlen : topicFilter.length ≤ 128 := Nat.le_of_not_lt hlong
  dsimp only
  split
  · exact sends_of_quiet hscan
  refine sends_append (sends_of_quiet hscan) ?_
  unfold sendUnsubscribe
  split_ifs
  · exact sends_nil
  · exact sends_nil
  dsimp only
  split
  · exact sends_of_quiet (halFree_quiet _ _)
  next packet hpacket =>
  exact pushAndSend_sends env .unsubscribe _ _
    (read_unsubscribe (by omega) (getNextPacketId_lt c) hpacket) rfl

/-- A connection over TLS sends no password. -/
theorem sendConnect_sends (options : ConnectParams) (env : ConnectEnv) (c : Client)
    (hsane : Sane (.connectOpen options env)) :
    ∀ e ∈ (sendConnect options env c).2.2, Sends (Asked c (.connectOpen options env)) e := by
  obtain ⟨hversion, hkeepAlive, hclient⟩ := hsane
  unfold sendConnect
  dsimp only
  split
  · exact sends_nil
  split
  · exact sends_nil
  next packet hpacket =>
  rw [← serializeConnectPacketFull_tls (fun _ _ => []) _ _ none _ _ true] at hpacket
  exact sendWritten_sends env.writes _
    (read_connect (by decide) hversion hkeepAlive hclient (Nat.zero_le _) rfl hpacket) rfl

theorem mqttReadUint16_lt (buf : Buffer) (pos : ℕ) : mqttReadUint16 buf pos < 2 ^ 16 :=
  Nat.mod_lt _ (by decide)

theorem publish_id_lt {buf : Buffer} {bufLen : ℕ} {fields : PublishFields}
    (h : deserializePublishPacket buf bufLen = .ok fields) : fields.packetId.getD 0 < 2 ^ 16 := by
  have hfields (header : UInt8) (topicName topicNameLen enddata : ℕ) :
      (publishFields buf header topicName topicNameLen enddata).packetId.getD 0 < 2 ^ 16 := by
    dsimp only [publishFields]
    split
    · exact mqttReadUint16_lt buf _
    · decide
  unfold deserializePublishPacket at h
  dsimp only at h
  split_ifs at h
  split at h
  · cases h
  split at h
  · cases h
  split_ifs at h
  obtain rfl := Except.ok.inj h
  exact hfields _ _ _ _

theorem ack_id_lt {buf : Buffer} {bufLen packetId : ℕ} {type dup : UInt8}
    (h : deserializeAckPacket buf bufLen = .ok (type, dup, packetId)) : packetId < 2 ^ 16 := by
  unfold deserializeAckPacket at h
  dsimp only at h
  split_ifs at h
  split at h
  · cases h
  split_ifs at h
  simp only [Except.ok.injEq, Prod.mk.injEq] at h
  exact h.2.2 ▸ mqttReadUint16_lt buf _

theorem sendPubAck_sends (env : CycleEnv) {type : MessageType} {packetId : ℕ} (c : Client)
    (htype : type = .puback ∨ type = .pubrec ∨ type = .pubrel) (hid : packetId < 2 ^ 16)
    (hasked : asked (.ack type packetId)) :
    ∀ e ∈ (sendPubAck env type packetId c).2.2, Sends asked e := by
  unfold sendPubAck
  split
  · exact sends_nil
  next packet hpacket =>
  exact sendWritten_sends env.writes _ (read_ack htype hid hpacket) hasked

theorem handlePublishPacket_sends (env : CycleEnv) (c : Client) :
    ∀ e ∈ (handlePublishPacket env c).2.2,
      Sends (Answers MessageType.publish.code c.readBuf) e := by
  unfold handlePublishPacket
  split
  · exact sends_nil
  next fields hfields =>
  split
  · exact sends_of_quiet (deliverPublish_quiet env fields c)
  next hqos =>
  refine sends_append (sends_of_quiet ?_) (sendPubAck_sends env _ ?_ ?_ ?_)
  · split
    · exact deliverPublish_quiet env fields c
    · exact quiet_nil
  · split
    · exact .inl rfl
    · exact .inr (.inl rfl)
  · exact publish_id_lt hfields
  · rw [Answers, if_pos rfl]
    exact ⟨fields, hfields, hqos, rfl⟩

/-- A packet that is read is answered, or not. -/
theorem handlePacket_sends (env : CycleEnv) (packetType : UInt8) (c : Client) :
    ∀ e ∈ (handlePacket env packetType c).2.2, Sends (Answers packetType c.readBuf) e := by
  unfold handlePacket
  split_ifs with hpuback hsuback hunsuback hpublish hpubrec
  · unfold handlePubackPacket
    split
    · exact sends_nil
    · exact sends_of_quiet (raiseEvent_quiet _ _ _)
  · unfold handleSubackPacket
    split
    · exact sends_nil
    · exact sends_of_quiet (resolveSuback_quiet env _ _ c)
  · unfold handleUnsubackPacket
    split
    · exact sends_nil
    · exact sends_of_quiet (resolveUnsuback_quiet env _ c)
  · rw [hpublish]
    exact handlePublishPacket_sends env c
  · unfold handlePubrecPacket
    split
    · exact sends_nil
    next type dup packetId hack =>
    refine sendPubAck_sends env c (.inr (.inr rfl)) (ack_id_lt hack) ?_
    rw [Answers, if_neg hpublish]
    exact ⟨hpubrec, type, dup, packetId, hack, rfl⟩
  · exact sends_nil
  · exact sends_nil

theorem cycleForRead_sends (env : CycleEnv) (c : Client) :
    ∀ e ∈ (cycleForRead env c).2.2.2, Sends (AnswersCycle env c) e := by
  unfold cycleForRead
  split
  · exact sends_nil
  next packetType received hreceive =>
  intro e he
  refine (handlePacket_sends env packetType received e he).mono fun p hp => ?_
  exact ⟨packetType, by rw [hreceive], by rwa [hreceive]⟩

/-- The end of the connection is the only other packet that yield sends. -/
theorem disconnect_sends (writes : List WriteChoice) (c : Client) :
    ∀ e ∈ (qcloudIotMqttDisconnect writes c).2.2, Sends (· = .disconnect) e := by
  unfold qcloudIotMqttDisconnect
  split
  · exact sends_nil
  split
  · exact sends_nil
  next packet hpacket =>
  have hsent := @sendWritten_sends (· = .disconnect) _ _ writes (writePacket packet c)
    (read_disconnect hpacket) rfl
  dsimp only
  split
  · exact hsent
  · exact hsent

theorem handleDisconnect_sends (writes : List WriteChoice) (c : Client) :
    ∀ e ∈ (handleDisconnect writes c).2.2, Sends (· = .disconnect) e := by
  unfold handleDisconnect
  split
  · exact sends_nil
  · exact sends_append (disconnect_sends writes c) (sends_of_quiet (raiseEvent_quiet _ _ _))

theorem pingTries_sends (packet : List UInt8) (pings : ℕ → List WriteChoice) (c : Client)
    (tries : ℕ) (hread : readPacket packet = some p) (hasked : asked p) :
    ∀ e ∈ (pingTries packet pings c tries).2, Sends asked e := by
  induction tries with
  | zero => exact sends_nil
  | succ tries ih =>
    have hsent := sendWritten_sends (pings tries) c hread hasked
    unfold pingTries
    dsimp only
    split
    · exact sends_append hsent ih
    · exact hsent

theorem keepAlive_sends (env : KeepAliveEnv) (c : Client) :
    ∀ e ∈ (mqttKeepAlive env c).2.2, Sends (fun p => p = .pingreq ∨ p = .disconnect) e := by
  have hdown (c : Client) : ∀ e ∈ (handleDisconnect env.disconnect c).2.2,
      Sends (fun p => p = .pingreq ∨ p = .disconnect) e :=
    fun e he => (handleDisconnect_sends env.disconnect c e he).mono fun _ => Or.inr
  unfold mqttKeepAlive
  split
  · exact sends_nil
  split
  · exact sends_nil
  split
  · exact hdown c
  split
  · exact sends_nil
  next packet hpacket =>
  have hpings := @pingTries_sends (fun p => p = .pingreq ∨ p = .disconnect) _ packet
    env.pings (writePacket packet c) 4 (read_pingreq hpacket) (.inl rfl)
  dsimp only
  split
  · exact sends_append hpings (hdown _)
  · exact hpings

theorem yieldRead_sends (env : CycleEnv) (disconnect : List WriteChoice) (c : Client) :
    ∀ e ∈ (yieldRead env disconnect c).2.2,
      Sends (fun p => AnswersCycle env c p ∨ p = .disconnect) e := by
  have hread : ∀ e ∈ (cycleForRead env c).2.2.2,
      Sends (fun p => AnswersCycle env c p ∨ p = .disconnect) e :=
    fun e he => (cycleForRead_sends env c e he).mono fun _ => Or.inl
  unfold yieldRead
  dsimp only
  split
  · exact sends_append hread fun e he =>
      (handleDisconnect_sends disconnect _ e he).mono fun _ => Or.inr
  · exact hread

end Sending

section Runs

theorem whileConnecting_sends {asked : ClientPacket → Prop}
    {step : Client → ReturnCode × Client × List Event} {c : Client}
    (h : ∀ e ∈ (step c).2.2, Sends asked e) : ∀ e ∈ (whileConnecting step c).2, Sends asked e := by
  unfold whileConnecting
  split
  · exact sends_nil
  · exact h

/-- What an operation sends is what it asks for. -/
theorem exec_sends (op : Op) (c : Client) (hsane : Sane op) :
    ∀ e ∈ (exec op c).2, Sends (Asked c op) e := by
  cases op with
  | publish topicName params env => exact publish_sends topicName params env c hsane
  | subscribe topicFilter params env => exact subscribe_sends topicFilter params env c
  | unsubscribe topicFilter env => exact unsubscribe_sends topicFilter env c
  | connectOpen options env => exact whileConnecting_sends (sendConnect_sends options env c hsane)
  | connectRead env => exact whileConnecting_sends (cycleForRead_sends env c)
  | connectEnd now => exact whileConnecting_sends sends_nil
  | connectTimeout => exact whileConnecting_sends sends_nil
  | yieldRead env disconnect =>
    dsimp only [exec]
    split
    · exact yieldRead_sends env disconnect c
    · exact sends_nil
  | pubInfoProc iterOk clock => exact sends_of_quiet (pubInfoProc_quiet iterOk clock c)
  | subInfoProc iterOk clock => exact sends_of_quiet (subInfoProc_quiet iterOk clock c)
  | keepAlive env => exact keepAlive_sends env c
  | disconnect writes => exact disconnect_sends writes c
  | handleDisconnect writes => exact handleDisconnect_sends writes c
  | schedule counter interval timer => exact sends_nil
  | reconnected => exact sends_of_quiet (raiseEvent_quiet _ _ _)
  | setEventHandler isSet => exact sends_nil
  | resetRepeatBuffer => exact sends_nil

/-- Every packet of a run is read as one that an operation of the run asked for, in the state
that the operations before it had reached. -/
theorem sent_packets_read {ops : List Op} {c : Client} (hsane : ∀ op ∈ ops, Sane op)
    {packet taken : List UInt8} {rc : ReturnCode}
    (hsent : .sent packet rc taken ∈ (run exec ops c).2) :
    ∃ earlier op later p, ops = earlier ++ op :: later ∧ readPacket packet = some p ∧
      Asked (run exec earlier c).1 op p := by
  obtain ⟨earlier, op, later, rfl, hmem⟩ := mem_run hsent
  obtain ⟨p, hread, hasked⟩ := exec_sends op _
    (hsane op (List.mem_append_right _ List.mem_cons_self)) _ hmem
  exact ⟨earlier, op, later, p, rfl, hread, hasked⟩

theorem handshake_sane : ∀ op ∈ handshake [] ++ [subscribeT], Sane op := by
  intro op hop
  simp only [handshake, List.cons_append, List.nil_append, List.mem_cons, List.not_mem_nil,
    or_false] at hop
  rcases hop with rfl | rfl | rfl | rfl
  · exact ⟨by decide, by decide, by decide⟩
  · trivial
  · trivial
  · trivial

theorem subscribeT_sent :
    .sent [0x82, 6, 0, 2, 0, 1, 116, 1] .success [0x82, 6, 0, 2, 0, 1, 116, 1] ∈
      (run exec (handshake [] ++ [subscribeT]) (Client.init 0 5000 true deviceOptions)).2 := by
  decide +kernel

theorem sent_packets_read_subscribe :
    ∃ earlier op later p, handshake [] ++ [subscribeT] = earlier ++ op :: later ∧
      readPacket [0x82, 6, 0, 2, 0, 1, 116, 1] = some p ∧
      Asked (run exec earlier (Client.init 0 5000 true deviceOptions)).1 op p :=
  sent_packets_read handshake_sane subscribeT_sent

end Runs

end IotExplorer.SentPackets
