import IotExplorer.Basis.RecentRing
import IotExplorer.ClientRuns

/-!
The filter of repeated messages. The client keeps the packet ids of messages in
a ring of ten, which starts out filled with zeros, and withholds a message whose
id it finds there. The history of recorded ids says what the ring stands for: an
id is recorded when it is not among the last ten recorded ones. An id 0, which a
server must not use, meets the filler.
-/
namespace IotExplorer.RepeatBuffer

open Basis.Runs Basis.RecentRing Protocol PacketBytes PublishPacket ControlPackets Network
open ReadPacket ClientState DeliverMessage WaitLists Requests PacketHandlers Connection
open SessionSteps ClientRuns

/-- The message with a QoS above 0 that an operation receives, and the environment of
the cycle that handles it. -/
def receivedMessage (c : Client) (op : Op) : Option (CycleEnv × PublishFields) :=
  match op.cycle c with
  | none => none
  | some env =>
      match incoming env.reads c with
      | .publish fields => if fields.qos = QoS.qos0.code then none else some (env, fields)
      | _ => none

def messageId (fields : PublishFields) : ℕ := fields.packetId.getD 0

/-- The ids recorded since the last reset, newest first, after one more operation. -/
def recordStep (c : Client) (op : Op) (ids : List ℕ) : List ℕ :=
  if op matches .resetRepeatBuffer then []
  else
    match receivedMessage c op with
    | none => ids
    | some (_, fields) =>
        if messageId fields ∈ ids.take mqttMaxRepeatBufLen then ids else messageId fields :: ids

/-- The ids recorded in a run since its start or the last reset. -/
def recorded (ops : List Op) (c : Client) : List ℕ := track exec recordStep ops c []

/-- If the operation receives a message with the id 0, no slot of the ring holds a 0. -/
def ZeroIsNew (c : Client) (op : Op) : Prop :=
  ∀ m ∈ receivedMessage c op, messageId m.2 = 0 → 0 ∉ c.repeatPacketIdBuf

instance (c : Client) (op : Op) : Decidable (ZeroIsNew c op) :=
  inferInstanceAs (Decidable (∀ m ∈ receivedMessage c op, messageId m.2 = 0 →
    0 ∉ c.repeatPacketIdBuf))

/-- A message is handed over if and only if its id is not among the last ten recorded
ones, and one with QoS 1 is acknowledged either way. -/
structure RepeatLaw (c : Client) (op : Op) (ids : List ℕ) : Prop where
  withheld : ∀ env fields, receivedMessage c op = some (env, fields) →
    (exec op c).2.filter (fun e => HandsOver e) =
      if messageId fields ∈ ids.take mqttMaxRepeatBufLen then []
      else deliverPublish env fields (receive env.reads c).2
  acknowledged : ∀ env fields, receivedMessage c op = some (env, fields) →
    fields.qos = QoS.qos1.code → ∃ rc taken,
      .sent ([0x40, 2] ++ mqttWriteUint16 (messageId fields)) rc taken ∈ (exec op c).2 ∧
      ∀ more later, env.writes = .accept more :: later → 3 ≤ more →
        rc = .success ∧ taken = [0x40, 2] ++ mqttWriteUint16 (messageId fields)

/-- The write index is inside the ring, and no two slots hold one id; a 0 is the filler
while fewer than ten ids were recorded. -/
structure RingLaw (c : Client) (ids : List ℕ) : Prop where
  length : c.repeatPacketIdBuf.length = mqttMaxRepeatBufLen
  inside : c.currentPacketIdCnt < mqttMaxRepeatBufLen
  unique : ∀ (i j packetId : ℕ), c.repeatPacketIdBuf[i]? = some packetId →
    c.repeatPacketIdBuf[j]? = some packetId →
    packetId ≠ 0 ∨ mqttMaxRepeatBufLen ≤ ids.length → i = j

/-- In a run that starts with an empty ring, every message meets the law for the ids
recorded before it, and the ring is sound in the end. -/
def RepeatsWithheld (c : Client) (ops : List Op) : Prop :=
  (∀ earlier op later, ops = earlier ++ op :: later →
    RepeatLaw (run exec earlier c).1 op (recorded earlier c)) ∧
  RingLaw (run exec ops c).1 (recorded ops c)

section Window
variable {c c' : Client} {ids : List ℕ} {op : Op}

/-- The ring stands for the recorded ids. -/
structure Window (c : Client) (ids : List ℕ) : Prop where
  ring : Remembers mqttMaxRepeatBufLen 0 c.repeatPacketIdBuf c.currentPacketIdCnt ids
  distinct : (ids.take mqttMaxRepeatBufLen).Nodup
  zero : 0 ∈ ids → mqttMaxRepeatBufLen ≤ ids.length

theorem Window.of_same (h : Window c ids) (hbuf : c'.repeatPacketIdBuf = c.repeatPacketIdBuf)
    (hcnt : c'.currentPacketIdCnt = c.currentPacketIdCnt) : Window c' ids :=
  ⟨by rw [hbuf, hcnt]; exact h.ring, h.distinct, h.zero⟩

theorem window_empty (hbuf : c.repeatPacketIdBuf = List.replicate mqttMaxRepeatBufLen 0)
    (hcnt : c.currentPacketIdCnt = 0) : Window c [] where
  ring := by
    rw [hbuf, hcnt]
    exact remembers_empty (by decide)
  distinct := List.nodup_nil
  zero := fun hmem => absurd hmem List.not_mem_nil

theorem Window.law (h : Window c ids) : RingLaw c ids where
  length := h.ring.length
  inside := h.ring.inside
  unique := fun _ _ _ hi hj hid => h.ring.slots_inj h.distinct hid hi hj

/-- An id that is not a 0 meeting a 0 is in the ring when it is among the last ten. -/
theorem Window.mem_iff (h : Window c ids) {packetId : ℕ}
    (hzero : packetId = 0 → 0 ∉ c.repeatPacketIdBuf) :
    packetId ∈ c.repeatPacketIdBuf ↔ packetId ∈ ids.take mqttMaxRepeatBufLen := by
  by_cases hid : packetId = 0
  · subst hid
    exact ⟨fun hmem => absurd hmem (hzero rfl), h.ring.mem_of_recent⟩
  · exact h.ring.mem_iff (Or.inl hid)

theorem getPacketIdInRepeatBuf_neg (c : Client) (packetId : ℕ) :
    getPacketIdInRepeatBuf c packetId < 0 ↔ packetId ∉ c.repeatPacketIdBuf := by
  unfold getPacketIdInRepeatBuf
  split
  next hold => simp [hold]
  next hnew => simp [hnew]

/-- `_add_packet_id_to_repeat_buf` records an id that is not among the last ten. -/
theorem Window.add (h : Window c ids) {packetId : ℕ}
    (hzero : packetId = 0 → 0 ∉ c.repeatPacketIdBuf) :
    Window (addPacketIdToRepeatBuf packetId c)
      (if packetId ∈ ids.take mqttMaxRepeatBufLen then ids else packetId :: ids) := by
  have hiff := h.mem_iff hzero
  unfold addPacketIdToRepeatBuf getPacketIdInRepeatBuf
  by_cases hold : packetId ∈ c.repeatPacketIdBuf
  · have hpos : packetId ≠ 0 := fun hid => hzero hid (hid ▸ hold)
    rw [if_pos hold, if_pos (by omega), if_pos (hiff.mp hold)]
    exact h
  · rw [if_neg hold, if_neg (by omega), if_neg (mt hiff.mpr hold)]
    refine ⟨h.ring.insert packetId, nodup_take_cons h.distinct (mt hiff.mpr hold), fun hmem => ?_⟩
    rw [List.length_cons]
    rcases List.mem_cons.mp hmem with hid | hmem
    · -- the ring was full, or the new 0 would have met the filler
      have hfull : ¬ ids.length < mqttMaxRepeatBufLen := fun hroom =>
        hold (hid ▸ h.ring.filler_mem hroom)
      omega
    · exact Nat.le_succ_of_le (h.zero hmem)

theorem receivedMessage_some {env : CycleEnv} {fields : PublishFields}
    (h : receivedMessage c op = some (env, fields)) :
    op.cycle c = some env ∧ incoming env.reads c = .publish fields ∧
      fields.qos ≠ QoS.qos0.code := by
  unfold receivedMessage at h
  split at h
  · cases h
  next env' hcycle =>
    split at h
    next fields' hpacket =>
      split_ifs at h with hqos
      obtain ⟨rfl, rfl⟩ := Prod.mk.inj (Option.some.inj h)
      exact ⟨hcycle, hpacket, hqos⟩
    · cases h

theorem receivedMessage_none {env : CycleEnv} (hcycle : op.cycle c = some env)
    (h : receivedMessage c op = none) (fields : PublishFields)
    (hpacket : incoming env.reads c = .publish fields) : fields.qos = QoS.qos0.code := by
  by_contra hqos
  unfold receivedMessage at h
  rw [hcycle] at h
  dsimp only at h
  rw [hpacket] at h
  dsimp only at h
  rw [if_neg hqos] at h
  cases h

/-- Only a message with a QoS above 0 touches the ring. -/
theorem applyIncoming_ring (env : CycleEnv) (packet : Incoming) (c : Client)
    (hnone : ∀ fields, packet = .publish fields → fields.qos = QoS.qos0.code) :
    (applyIncoming env packet c).1.repeatPacketIdBuf = c.repeatPacketIdBuf ∧
      (applyIncoming env packet c).1.currentPacketIdCnt = c.currentPacketIdCnt := by
  cases packet with
  | other => exact ⟨rfl, rfl⟩
  | puback packetId =>
    dsimp only [applyIncoming]
    rw [maskPubInfoFrom_eq]
    exact ⟨rfl, rfl⟩
  | suback packetId nack =>
    dsimp only [applyIncoming]
    obtain ⟨table, heap, heq⟩ := resolveSuback_frame env packetId nack c
    rw [heq]
    exact ⟨rfl, rfl⟩
  | unsuback packetId =>
    dsimp only [applyIncoming, resolveUnsuback]
    rw [maskSubInfoFrom_eq]
    exact ⟨rfl, rfl⟩
  | publish fields =>
    dsimp only [applyIncoming]
    rw [if_pos (hnone fields rfl)]
    exact ⟨rfl, rfl⟩

theorem recordStep_idle (hidle : op.NoReceipt c) : recordStep c op ids = ids := by
  have hnone : receivedMessage c op = none := by
    rw [receivedMessage, hidle.1]
  unfold recordStep
  rw [hnone]
  cases op <;> first | rfl | exact absurd rfl hidle.2

theorem recordStep_cycle {env : CycleEnv} (hcycle : op.cycle c = some env) :
    recordStep c op ids =
      match receivedMessage c op with
      | none => ids
      | some (_, fields) =>
          if messageId fields ∈ ids.take mqttMaxRepeatBufLen then ids
          else messageId fields :: ids := by
  unfold recordStep
  cases op <;> first | rfl | cases hcycle

theorem Window.requested (h : Window c ids) (hreq : Requested c c') : Window c' ids := by
  cases hreq <;> exact h.of_same rfl rfl

/-- One operation records the id of the message it receives. -/
theorem Window.step (h : Window c ids) (hzero : ZeroIsNew c op) :
    Window (exec op c).1 (recordStep c op ids) := by
  have hstep := exec_session op c
  generalize (exec op c).1 = c' at hstep ⊢
  generalize (exec op c).2 = events at hstep
  cases hstep with
  | same noReceipt same plain =>
    rw [recordStep_idle noReceipt]
    exact h.of_same same.repeatPacketIdBuf same.currentPacketIdCnt
  | requested noReceipt request plain =>
    rw [recordStep_idle noReceipt]
    exact h.requested request
  | unsubscribed topicFilter env isOp nonempty short request plain =>
    rw [recordStep_idle (by rw [isOp]; exact ⟨rfl, by simp⟩)]
    have hscanned : Window (removeEntries topicFilter c).1 ids := h.of_same rfl rfl
    exact hscanned.requested request
  | received env cycle same plain =>
    rw [recordStep_cycle cycle]
    cases hmessage : receivedMessage c op with
    | none =>
      obtain ⟨hbuf, hcnt⟩ := applyIncoming_ring env (incoming env.reads c) c
        (receivedMessage_none cycle hmessage)
      exact h.of_same (same.repeatPacketIdBuf.trans hbuf) (same.currentPacketIdCnt.trans hcnt)
    | some m =>
      obtain ⟨env', fields⟩ := m
      obtain ⟨hcycle, hpacket, hqos⟩ := receivedMessage_some hmessage
      obtain rfl : env = env' := Option.some.inj (cycle.symm.trans hcycle)
      have hadd := h.add (hzero (env, fields) hmessage)
      rw [hpacket] at same
      dsimp only [applyIncoming] at same
      rw [if_neg hqos] at same
      exact hadd.of_same same.repeatPacketIdBuf same.currentPacketIdCnt
  | pubScan iterOk clock isOp =>
    rw [recordStep_idle (by rw [isOp]; exact ⟨rfl, by simp⟩)]
    refine h.of_same ?_ ?_
    all_goals rw [pubInfoProc_frame]
  | subScan iterOk clock isOp =>
    rw [recordStep_idle (by rw [isOp]; exact ⟨rfl, by simp⟩)]
    refine h.of_same ?_ ?_
    all_goals rw [subInfoProc_frame]
  | setEventHandler isSet isOp =>
    rw [recordStep_idle (by rw [isOp]; exact ⟨rfl, by simp⟩)]
    exact h.of_same rfl rfl
  | resetRepeatBuffer isOp =>
    subst isOp
    exact window_empty rfl rfl

end Window

section Messages
variable {c : Client} {op : Op} {ids : List ℕ} {env : CycleEnv} {fields : PublishFields}

/-- A packet that parses as a PUBLISH goes to the handler of PUBLISH. -/
theorem handlePacket_publish {packetType : UInt8}
    (h : incomingPacket packetType c.readBuf = .publish fields) :
    handlePacket env packetType c = handlePublishPacket env c ∧
      deserializePublishPacket c.readBuf mqttRxBufLen = .ok fields := by
  unfold incomingPacket at h
  unfold handlePacket
  by_cases hpuback : packetType = MessageType.puback.code
  · rw [if_pos hpuback] at h
    split at h <;> cases h
  rw [if_neg hpuback] at h ⊢
  by_cases hsuback : packetType = MessageType.suback.code
  · rw [if_pos hsuback] at h
    split at h <;> cases h
  rw [if_neg hsuback] at h ⊢
  by_cases hunsuback : packetType = MessageType.unsuback.code
  · rw [if_pos hunsuback] at h
    split at h <;> cases h
  rw [if_neg hunsuback] at h ⊢
  by_cases hpublish : packetType = MessageType.publish.code
  · rw [if_pos hpublish] at h ⊢
    refine ⟨rfl, ?_⟩
    split at h
    · cases h
    next parsed hparsed =>
      obtain rfl := Incoming.publish.inj h
      exact hparsed
  · rw [if_neg hpublish] at h
    cases h

/-- What the cycle raises that receives a message: the delivery of a new one, and the
acknowledgement. -/
theorem cycleForRead_publish (hpacket : incoming env.reads c = .publish fields)
    (hqos : fields.qos ≠ QoS.qos0.code) :
    (cycleForRead env c).2.2.2 =
      (if messageId fields ∈ c.repeatPacketIdBuf then []
        else deliverPublish env fields (receive env.reads c).2) ++
      (sendPubAck env (if fields.qos = QoS.qos1.code then .puback else .pubrec)
        (messageId fields)
        (addPacketIdToRepeatBuf (messageId fields) (receive env.reads c).2)).2.2 := by
  have hbuf : (receive env.reads c).2.repeatPacketIdBuf = c.repeatPacketIdBuf := rfl
  unfold incoming at hpacket
  unfold cycleForRead
  generalize receive env.reads c = r at hbuf hpacket ⊢
  obtain ⟨result, received⟩ := r
  cases result with
  | error rc => cases hpacket
  | ok packetType =>
    dsimp only at hpacket hbuf ⊢
    obtain ⟨hhandler, hparsed⟩ := @handlePacket_publish received env fields packetType hpacket
    rw [hhandler]
    unfold handlePublishPacket
    rw [hparsed]
    dsimp only
    rw [if_neg hqos]
    dsimp only
    congr 1
    by_cases hold : messageId fields ∈ c.repeatPacketIdBuf
    · rw [if_pos hold, if_neg (mt (getPacketIdInRepeatBuf_neg _ _).mp (by
        rw [hbuf]
        exact not_not.mpr hold))]
    · rw [if_neg hold, if_pos ((getPacketIdInRepeatBuf_neg _ _).mpr (by
        rw [hbuf]
        exact hold))]

theorem disconnect_handsOver (writes : List WriteChoice) (c : Client) :
    (Connection.handleDisconnect writes c).2.2.filter (fun e => HandsOver e) = [] := by
  have hraised : ∀ eventHandle : Bool,
      (raiseEvent eventHandle .disconnect 0).filter (fun e => HandsOver e) = [] := by decide
  have hsent : (qcloudIotMqttDisconnect writes c).2.2.filter (fun e => HandsOver e) = [] := by
    unfold qcloudIotMqttDisconnect
    split
    · rfl
    · split
      · rfl
      · dsimp only
        split <;> rfl
  unfold Connection.handleDisconnect
  split
  · rfl
  · generalize qcloudIotMqttDisconnect writes c = r at hsent
    dsimp only
    rw [List.filter_append, hsent, hraised]
    rfl

/-- The events of an operation that runs a cycle begin with those of the cycle, and no
other one hands a message over. -/
theorem exec_cycle (hcycle : op.cycle c = some env) :
    ∃ later, (exec op c).2 = (cycleForRead env c).2.2.2 ++ later ∧
      later.filter (fun e => HandsOver e) = [] := by
  cases op with
  | connectRead env' =>
    dsimp only [Op.cycle] at hcycle
    split_ifs at hcycle with hconnected
    obtain rfl := Option.some.inj hcycle
    refine ⟨[], ?_, rfl⟩
    dsimp only [exec, whileConnecting]
    rw [if_neg hconnected, List.append_nil]
    rfl
  | yieldRead env' disconnect =>
    dsimp only [Op.cycle] at hcycle
    split_ifs at hcycle with hconnected
    obtain rfl := Option.some.inj hcycle
    dsimp only [exec]
    rw [if_pos hconnected]
    unfold yieldRead
    dsimp only
    split
    · exact ⟨_, rfl, disconnect_handsOver disconnect _⟩
    · exact ⟨[], (List.append_nil _).symm, rfl⟩
  | _ => cases hcycle

theorem filter_handsOver {events : List Event} (h : ∀ e ∈ events, HandsOver e) :
    events.filter (fun e => HandsOver e) = events :=
  List.filter_eq_self.mpr fun e he => decide_eq_true (h e he)

theorem sendPubAck_handsOver (env : CycleEnv) (packetType : MessageType) (packetId : ℕ)
    (c : Client) :
    (sendPubAck env packetType packetId c).2.2.filter (fun e => HandsOver e) = [] := by
  unfold sendPubAck
  split <;> rfl

/-- The PUBACK for a message. -/
theorem sendPubAck_puback (env : CycleEnv) (packetId : ℕ) (c : Client) :
    ∃ rc taken, (sendPubAck env .puback packetId c).2.2 =
        [.sent ([0x40, 2] ++ mqttWriteUint16 packetId) rc taken] ∧
      ∀ more later, env.writes = .accept more :: later → 3 ≤ more →
        rc = .success ∧ taken = [0x40, 2] ++ mqttWriteUint16 packetId := by
  have hpacket : serializePubAckPacket mqttTxBufLen .puback 0 packetId =
      .ok ([0x40, 2] ++ mqttWriteUint16 packetId) := rfl
  have hlen : ([0x40, 2] ++ mqttWriteUint16 packetId).length = 4 := rfl
  unfold sendPubAck
  rw [hpacket]
  refine ⟨_, _, rfl, fun more later hwrites hmore => ?_⟩
  rw [hwrites, hlen, sendMqttPacket_accept _ 4 more later (by decide) (by decide) (by omega)]
  exact ⟨rfl, slice_block [] _ _ 0 4 rfl hlen⟩

theorem Window.repeatLaw (h : Window c ids) (hzero : ZeroIsNew c op) : RepeatLaw c op ids where
  withheld := by
    intro env fields hmessage
    obtain ⟨hcycle, hpacket, hqos⟩ := receivedMessage_some hmessage
    obtain ⟨later, hevents, hlater⟩ := exec_cycle hcycle
    rw [hevents, List.filter_append, hlater, List.append_nil, cycleForRead_publish hpacket hqos,
      List.filter_append, sendPubAck_handsOver, List.append_nil]
    by_cases hold : messageId fields ∈ c.repeatPacketIdBuf
    · rw [if_pos hold, if_pos ((h.mem_iff (hzero _ hmessage)).mp hold)]
      rfl
    · rw [if_neg hold, if_neg (mt (h.mem_iff (hzero _ hmessage)).mpr hold)]
      exact filter_handsOver (deliverPublish_handsOver env fields _)
  acknowledged := by
    intro env fields hmessage hone
    obtain ⟨hcycle, hpacket, hqos⟩ := receivedMessage_some hmessage
    obtain ⟨later, hevents, -⟩ := exec_cycle hcycle
    rw [hevents, cycleForRead_publish hpacket hqos, if_pos hone]
    obtain ⟨rc, taken, hsent, haccepted⟩ := sendPubAck_puback env (messageId fields)
      (addPacketIdToRepeatBuf (messageId fields) (receive env.reads c).2)
    rw [hsent]
    exact ⟨rc, taken, by simp, haccepted⟩

end Messages

section Runs

/-- The ring stands for the recorded ids in every run in which no 0 meets a 0. -/
theorem window_run {c : Client} (h : Window c []) {ops : List Op}
    (hzero : Along exec ZeroIsNew ops c) : Window (run exec ops c).1 (recorded ops c) :=
  track_invariant (fun _ _ _ h hop => h.step hop) h hzero

/-- Messages are withheld by the law of the last ten ids, in every run in which no
message with the id 0 meets a 0 in the ring. -/
theorem repeats_withheld (random commandTimeout : ℕ) (eventHandle : Bool)
    (options : ConnectParams) (ops : List Op)
    (hzero : Along exec ZeroIsNew ops (Client.init random commandTimeout eventHandle options)) :
    RepeatsWithheld (Client.init random commandTimeout eventHandle options) ops := by
  have hinit : Window (Client.init random commandTimeout eventHandle options) [] :=
    window_empty rfl rfl
  refine ⟨?_, (window_run hinit hzero).law⟩
  rintro earlier op later rfl
  exact (window_run hinit ((along_append exec _ _ _ _).mp hzero).1).repeatLaw hzero.at

/-- A message that comes twice. -/
theorem repeats_withheld_sample :
    RepeatsWithheld (Client.init 5 5000 true deviceOptions)
      (handshake [0x32, 5, 0, 1, 116, 0, 7, 0x32, 5, 0, 1, 116, 0, 7] ++
        [.yieldRead (cycleWith [.deliver, .deliver, .deliver]) [],
          .yieldRead (cycleWith [.deliver, .deliver, .deliver]) []]) :=
  repeats_withheld 5 5000 true deviceOptions _ (by decide)

/-- A message with the id 0 is withheld though no id was recorded. -/
theorem zero_id_withheld :
    ¬ ∀ (random commandTimeout : ℕ) (eventHandle : Bool) (options : ConnectParams) (ops : List Op),
      RepeatsWithheld (Client.init random commandTimeout eventHandle options) ops := by
  intro hclaim
  have hlaw := (hclaim 5 5000 true deviceOptions (handshake [0x32, 5, 0, 1, 116, 0, 0] ++
    [.yieldRead (cycleWith [.deliver, .deliver, .deliver]) []])).1
    (handshake [0x32, 5, 0, 1, 116, 0, 0])
    (.yieldRead (cycleWith [.deliver, .deliver, .deliver]) [])
    [] rfl
  exact absurd (hlaw.withheld (cycleWith [.deliver, .deliver, .deliver])
    ⟨0, 1, 0, some 0, 4, 1, 7, 0⟩ (by decide)) (by decide)

end Runs

end IotExplorer.RepeatBuffer
