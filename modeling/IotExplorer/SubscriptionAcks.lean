import IotExplorer.FilterOwnership

/-!
The acknowledgements of subscriptions. A SUBACK or an UNSUBACK answers the node
that waits for it: the node is resolved by that packet, once and for all, and a
granted handle enters the table; a packet that no node waits for changes nothing.
The handlers keep this law when their lookup is sound and a few packets stay
away that they answer too early, too often or not at all.
-/
namespace IotExplorer.SubscriptionAcks

open Basis.Runs Basis.Ownership Protocol PacketBytes ControlPackets Network ReadPacket
open ClientState WaitLists Requests PacketHandlers Connection SessionSteps ClientRuns PacketIds
open FilterOwnership

section Law

/-- An acknowledgement of a subscription, whether its handler parses it or not. -/
inductive Ack where
  | suback (packetId : ℕ) (nack : Bool)
  | unsuback (packetId : ℕ)
  deriving DecidableEq

def Ack.packetId : Ack → ℕ
  | .suback packetId _ => packetId
  | .unsuback packetId => packetId

/-- The type of the request that is acknowledged. -/
def Ack.request : Ack → MessageType
  | .suback .. => .subscribe
  | .unsuback _ => .unsubscribe

def Ack.incoming : Ack → Incoming
  | .suback packetId nack => .suback packetId nack
  | .unsuback packetId => .unsuback packetId

/-- The acknowledgement in the receive buffer: the id is the first field behind the
remaining length, and the first return code of a SUBACK follows. -/
def ackOf (packetType : UInt8) (readBuf : Buffer) : Option Ack :=
  match mqttReadPacketRemLenFormBuf readBuf 1 with
  | .error _ => none
  | .ok (decodedLen, curdata) =>
      if decodedLen < 2 then none
      else if packetType = MessageType.suback.code then
        some (.suback (mqttReadUint16 readBuf curdata)
          (decide (2 < decodedLen) && byteAt readBuf (curdata + 2) == 0x80))
      else if packetType = MessageType.unsuback.code then
        some (.unsuback (mqttReadUint16 readBuf curdata))
      else none

/-- The acknowledgement that an operation receives, and the environment of its cycle. -/
def receivedAck (c : Client) (op : Op) : Option (CycleEnv × Ack) :=
  match op.cycle c with
  | none => none
  | some env =>
      match receive env.reads c with
      | (.error _, _) => none
      | (.ok packetType, received) =>
          match ackOf packetType received.readBuf with
          | none => none
          | some ack => some (env, ack)

/-- A step that touches no subscription and is silent. -/
structure Untouched (c c' : Client) (events : List Event) : Prop where
  subHandles : c'.subHandles = c.subHandles
  listSubWaitAck : c'.listSubWaitAck = c.listSubWaitAck
  listPubWaitAck : c'.listPubWaitAck = c.listPubWaitAck
  heap : c'.heap = c.heap
  silent : events = []

structure SameHandle (entry handle : SubTopicHandle) : Prop where
  text : entry.topicFilter.map FilterString.text = handle.topicFilter.map FilterString.text
  messageHandler : entry.messageHandler = handle.messageHandler
  subEventHandler : entry.subEventHandler = handle.subEventHandler
  handlerUserData : entry.handlerUserData = handle.handlerUserData
  qos : entry.qos = handle.qos

/-- One entry of the table, which was free or had this filter and these handlers, now is
this handle. -/
def Installed (handle : SubTopicHandle) (table table' : SubTable) : Prop :=
  ∃ (i : ℕ) (old entry : SubTopicHandle), table.slots[i]? = some old ∧
    (old.topicFilter = none ∨ handleIsIdentical handle old = true) ∧
    table'.slots[i]? = some entry ∧ SameHandle entry handle ∧
    ∀ j, j ≠ i → table'.slots[j]? = table.slots[j]?

/-- The node is the only one that stops waiting. -/
structure Resolved (node : SubInfo) (c c' : Client) : Prop where
  listSubWaitAck : c'.listSubWaitAck = c.listSubWaitAck.map fun other =>
    if other = node then { other with nodeState := .invalid } else other
  listPubWaitAck : c'.listPubWaitAck = c.listPubWaitAck

/-- What the acknowledgement does for the node it answers. -/
def Outcome (ack : Ack) (node : SubInfo) (c c' : Client) (events : List Event) : Prop :=
  match ack with
  | .suback packetId true =>
      c'.subHandles = c.subHandles ∧
        events = raiseEvent c.eventHandle .subcribeNack packetId ++ node.handler.raise .subcribeNack
  | .suback packetId false =>
      Installed node.handler c.subHandles c'.subHandles ∧
        events = subscribedEvents c.eventHandle packetId node.handler
  | .unsuback packetId =>
      c'.subHandles = c.subHandles ∧
        events = raiseEvent c.eventHandle .unsubcribeSuccess packetId

structure AckLaw (c : Client) (op : Op) (ack : Ack) : Prop where
  unknown : (∀ node ∈ c.listSubWaitAck, ¬ Waits ack.request ack.packetId node) →
    Untouched c (exec op c).1 (exec op c).2
  known : ∀ node ∈ c.listSubWaitAck, Waits ack.request ack.packetId node →
    Resolved node c (exec op c).1 ∧ Outcome ack node c (exec op c).1 (exec op c).2

/-- In a run from this client every acknowledgement keeps the law, no node that was
answered times out later, and in the end every filter string has one owner. -/
def AcksResolve (c : Client) (ops : List Op) : Prop :=
  (∀ earlier op later, ops = earlier ++ op :: later →
    ∀ env ack, receivedAck (run exec earlier c).1 op = some (env, ack) →
      AckLaw (run exec earlier c).1 op ack ∧
      ∀ node ∈ (run exec earlier c).1.listSubWaitAck, Waits ack.request ack.packetId node →
        Event.expired node.draw ∉ (run exec later (exec op (run exec earlier c).1).1).2) ∧
  FiltersOwned (run exec ops c).1

/-- What the handlers need of an acknowledgement besides a sound lookup: a packet that a
node waits for parses; a refusal meets a node and a client with an event handler; an
entry with the same filter and handlers as the granted handle has the same QoS; and an
UNSUBACK that no node waits for meets a client without an event handler. -/
def Answerable (env : CycleEnv) (ack : Ack) (packet : Incoming) (c : Client) : Prop :=
  ((∃ node ∈ c.listSubWaitAck, Waits ack.request ack.packetId node) → packet ≠ .other) ∧
  match packet with
  | .suback packetId true =>
      lookup env.iterOk packetId c.listSubWaitAck ≠ none ∧ c.eventHandle = true
  | .suback packetId false =>
      ∀ node ∈ lookup env.iterOk packetId c.listSubWaitAck,
        ∀ entry ∈ c.subHandles.slots.find? (handleIsIdentical node.handler),
          entry.qos = node.handler.qos
  | .unsuback packetId =>
      lookup env.iterOk packetId c.listSubWaitAck = none → c.eventHandle = false
  | _ => True

instance (env : CycleEnv) (ack : Ack) (packet : Incoming) (c : Client) :
    Decidable (Answerable env ack packet c) :=
  @instDecidableAnd _ _ inferInstance <|
    match packet with
    | .suback packetId true => inferInstanceAs (Decidable
        (lookup env.iterOk packetId c.listSubWaitAck ≠ none ∧ c.eventHandle = true))
    | .suback packetId false => inferInstanceAs (Decidable
        (∀ node ∈ lookup env.iterOk packetId c.listSubWaitAck,
          ∀ entry ∈ c.subHandles.slots.find? (handleIsIdentical node.handler),
            entry.qos = node.handler.qos))
    | .unsuback packetId => inferInstanceAs (Decidable
        (lookup env.iterOk packetId c.listSubWaitAck = none → c.eventHandle = false))
    | .other | .puback _ | .publish _ => instDecidableTrue

/-- The condition on the acknowledgement that an operation receives. -/
def AckSound (c : Client) (op : Op) : Prop :=
  AcksMeetNodes c op ∧
    ∀ m ∈ receivedAck c op, Answerable m.1 m.2 (incoming m.1.reads c) c

instance (c : Client) (op : Op) : Decidable (AckSound c op) :=
  inferInstanceAs (Decidable (AcksMeetNodes c op ∧
    ∀ m ∈ receivedAck c op, Answerable m.1 m.2 (incoming m.1.reads c) c))

end Law

section Parsing
variable {c : Client} {op : Op} {env : CycleEnv} {ack : Ack} {packetType : UInt8}

theorem readGrantedQos_head {buf : Buffer} {maxCount left pos count : ℕ} {granted : List UInt8}
    (h : readGrantedQos buf maxCount left pos count = .ok granted) :
    (granted.head? == some 0x80) = (decide (0 < left) && byteAt buf pos == 0x80) := by
  cases left with
  | zero =>
    obtain rfl : [] = granted := Except.ok.inj h
    rfl
  | succ left =>
    unfold readGrantedQos at h
    split_ifs at h
    split at h
    · cases h
    · obtain rfl := Except.ok.inj h
      simp

/-- A handler reads the acknowledgement as it is, or not at all. -/
theorem incomingPacket_of_ack {readBuf : Buffer} (h : ackOf packetType readBuf = some ack) :
    incomingPacket packetType readBuf = ack.incoming ∨
      incomingPacket packetType readBuf = .other := by
  unfold ackOf at h
  split at h
  · cases h
  next decodedLen curdata hlen =>
    split_ifs at h with hshort hsuback hunsuback
    · obtain rfl := Option.some.inj h
      have hpuback : packetType ≠ MessageType.puback.code := by
        rw [hsuback]
        decide
      unfold incomingPacket
      rw [if_neg hpuback, if_pos hsuback]
      unfold deserializeSubackPacket
      rw [if_neg (by decide), hlen]
      split_ifs
      · exact Or.inr rfl
      · dsimp only
        rw [if_neg hshort]
        cases hgranted : readGrantedQos readBuf 1 (decodedLen - 2) (curdata + 2) 0 with
        | error rc => exact Or.inr rfl
        | ok granted =>
          have hcode : decide (0 < decodedLen - 2) = decide (2 < decodedLen) := by
            rw [decide_eq_decide]
            omega
          left
          dsimp only [Ack.incoming]
          rw [readGrantedQos_head hgranted, hcode]
    · obtain rfl := Option.some.inj h
      have hpuback : packetType ≠ MessageType.puback.code := by
        rw [hunsuback]
        decide
      unfold incomingPacket
      rw [if_neg hpuback, if_neg hsuback, if_pos hunsuback]
      unfold deserializeUnsubackPacket deserializeAckPacket
      rw [if_neg (by decide), hlen]
      dsimp only
      rw [if_neg hshort]
      split_ifs
      · exact Or.inr rfl
      · dsimp only
        split_ifs
        · exact Or.inr rfl
        · exact Or.inl rfl

theorem ackOf_type {readBuf : Buffer} (h : ackOf packetType readBuf = some ack) :
    packetType = MessageType.suback.code ∨ packetType = MessageType.unsuback.code := by
  unfold ackOf at h
  split at h
  · cases h
  · split_ifs at h with hshort hsuback hunsuback
    · exact Or.inl hsuback
    · exact Or.inr hunsuback

theorem decodePacketRemLenLoop_error {buf : Buffer} {k pos multiplier value : ℕ} {rc : ReturnCode}
    (h : decodePacketRemLenLoop buf k pos multiplier value = .error rc) : rc = .mqttPacketRead := by
  induction k generalizing pos multiplier value with
  | zero => exact (Except.error.inj h).symm
  | succ k ih =>
    unfold decodePacketRemLenLoop at h
    dsimp only at h
    split_ifs at h
    exact ih h

theorem readGrantedQos_error {buf : Buffer} {maxCount left pos count : ℕ} {rc : ReturnCode}
    (h : readGrantedQos buf maxCount left pos count = .error rc) : rc = .failure := by
  induction left generalizing pos count with
  | zero => cases h
  | succ left ih =>
    unfold readGrantedQos at h
    split_ifs at h
    · exact (Except.error.inj h).symm
    · split at h
      next rc' hrest =>
        obtain rfl := Except.error.inj h
        exact ih hrest
      · cases h

/-- The codes that the handlers of acknowledgements return. -/
theorem calm_codes : ¬ fatalRead .success ∧ ¬ fatalRead .failure ∧ ¬ fatalRead .bufTooShort ∧
    ¬ fatalRead .mqttPacketRead ∧ ¬ fatalRead .mqttSub := by decide

theorem deserializeSubackPacket_error {maxCount bufLen : ℕ} {buf : Buffer} {rc : ReturnCode}
    (h : deserializeSubackPacket maxCount buf bufLen = .error rc) : ¬ fatalRead rc := by
  obtain ⟨-, hfailure, hshort, hread, -⟩ := calm_codes
  unfold deserializeSubackPacket at h
  split_ifs at h
  · rwa [← Except.error.inj h]
  · rwa [← Except.error.inj h]
  · split at h
    next rc' hlen =>
      rwa [← Except.error.inj h, decodePacketRemLenLoop_error hlen]
    · split_ifs at h
      · rwa [← Except.error.inj h]
      · split at h
        next rc' hgranted =>
          rwa [← Except.error.inj h, readGrantedQos_error hgranted]
        · cases h

theorem deserializeUnsubackPacket_error {bufLen : ℕ} {buf : Buffer} {rc : ReturnCode}
    (h : deserializeUnsubackPacket buf bufLen = .error rc) : ¬ fatalRead rc := by
  obtain ⟨-, hfailure, hshort, hread, -⟩ := calm_codes
  unfold deserializeUnsubackPacket deserializeAckPacket at h
  split at h
  next rc' hack =>
    rw [← Except.error.inj h]
    split_ifs at hack
    · rwa [← Except.error.inj hack]
    · dsimp only at hack
      split at hack
      next rc'' hlen =>
        rwa [← Except.error.inj hack, decodePacketRemLenLoop_error hlen]
      · split_ifs at hack
        · rwa [← Except.error.inj hack]
        · rwa [← Except.error.inj hack]
  · split_ifs at h
    rwa [← Except.error.inj h]

/-- The handlers of acknowledgements never report a broken connection. -/
theorem handleSubackPacket_rc (env : CycleEnv) (c : Client) :
    ¬ fatalRead (handleSubackPacket env c).1 := by
  obtain ⟨hsuccess, hfailure, -, -, hsub⟩ := calm_codes
  unfold handleSubackPacket
  split
  next rc hparse => exact deserializeSubackPacket_error hparse
  · dsimp only [resolveSuback]
    unfold concludeSuback installHandle
    dsimp only
    split
    · exact hsub
    · split
      · exact hsub
      · split
        · exact hsuccess
        · split
          · exact hsuccess
          · exact hfailure

theorem handleUnsubackPacket_rc (env : CycleEnv) (c : Client) :
    ¬ fatalRead (handleUnsubackPacket env c).1 := by
  unfold handleUnsubackPacket
  split
  next rc hparse => exact deserializeUnsubackPacket_error hparse
  · exact calm_codes.1

/-- An acknowledgement raises what its update of the session raises. -/
theorem handlePacket_ack (env : CycleEnv) (c : Client)
    (htype : packetType = MessageType.suback.code ∨ packetType = MessageType.unsuback.code) :
    (handlePacket env packetType c).2.2 =
        (applyIncoming env (incomingPacket packetType c.readBuf) c).2 ∧
      ¬ fatalRead (handlePacket env packetType c).1 := by
  rcases htype with rfl | rfl
  · have hhandler : handlePacket env MessageType.suback.code c = handleSubackPacket env c := rfl
    rw [hhandler]
    refine ⟨?_, handleSubackPacket_rc env c⟩
    unfold handleSubackPacket incomingPacket
    rw [if_neg (by decide), if_pos rfl]
    cases deserializeSubackPacket 1 c.readBuf mqttRxBufLen <;> rfl
  · have hhandler : handlePacket env MessageType.unsuback.code c = handleUnsubackPacket env c := rfl
    rw [hhandler]
    refine ⟨?_, handleUnsubackPacket_rc env c⟩
    unfold handleUnsubackPacket incomingPacket
    rw [if_neg (by decide), if_neg (by decide), if_pos rfl]
    cases deserializeUnsubackPacket c.readBuf mqttRxBufLen <;> rfl

/-- An operation that receives an acknowledgement does what its packet asks for, and
nothing else. -/
theorem exec_ack (h : receivedAck c op = some (env, ack)) :
    op.cycle c = some env ∧
      (incoming env.reads c = ack.incoming ∨ incoming env.reads c = .other) ∧
      (exec op c).2 = (applyIncoming env (incoming env.reads c) c).2 := by
  unfold receivedAck at h
  split at h
  · cases h
  next env' hcycle =>
  split at h
  · cases h
  next packetType received hreceive =>
  split at h
  · cases h
  next ack' hack =>
  obtain ⟨rfl, rfl⟩ := Prod.mk.inj (Option.some.inj h)
  have hincoming : incoming env'.reads c = incomingPacket packetType received.readBuf := by
    rw [incoming, hreceive]
  have hreceived : received =
      { c with readBuf := received.readBuf, pending := received.pending } := by
    have hclient : (receive env'.reads c).2 = { c with
        readBuf := (receive env'.reads c).2.readBuf
        pending := (receive env'.reads c).2.pending } := rfl
    rwa [hreceive] at hclient
  obtain ⟨hevents, hrc⟩ := handlePacket_ack env' received (ackOf_type hack)
  have happly := applyIncoming_received env' (incomingPacket packetType received.readBuf) c
    received.readBuf received.pending
  rw [← hreceived] at happly
  have hcycleEvents : (cycleForRead env' c).2.2.2 =
      (applyIncoming env' (incoming env'.reads c) c).2 := by
    rw [cycleForRead, hreceive, hincoming]
    dsimp only
    rw [hevents, happly]
  have hcycleRc : ¬ fatalRead (cycleForRead env' c).1 := by
    rw [cycleForRead, hreceive]
    exact hrc
  refine ⟨hcycle, ?_, ?_⟩
  · rw [hincoming]
    exact incomingPacket_of_ack hack
  · rw [← hcycleEvents]
    cases op with
    | connectRead env'' =>
      dsimp only [Op.cycle] at hcycle
      split_ifs at hcycle with hconnected
      obtain rfl := Option.some.inj hcycle
      dsimp only [exec, whileConnecting]
      rw [if_neg hconnected]
      rfl
    | yieldRead env'' disconnect =>
      dsimp only [Op.cycle] at hcycle
      split_ifs at hcycle with hconnected
      obtain rfl := Option.some.inj hcycle
      dsimp only [exec]
      rw [if_pos hconnected]
      unfold yieldRead
      dsimp only
      rw [if_neg hcycleRc]
    | _ => cases hcycle

end Parsing

section Steps
variable {c : Client} {op : Op} {env : CycleEnv} {ack : Ack} {packet : Incoming}
  {packetId : ℕ} {iterOk : Bool} {request : MessageType} {nodes : List SubInfo} {node : SubInfo}
  {handle : SubTopicHandle}

theorem lookup_of_waits (hsound : FindsWaiting iterOk request packetId nodes) (hmem : node ∈ nodes)
    (hwaits : Waits request packetId node) :
    lookup iterOk packetId nodes = some node ∧
      ∀ other ∈ nodes, other.nodeState = .normal → other.msgId = packetId → other = node := by
  unfold FindsWaiting at hsound
  cases hfound : lookup iterOk packetId nodes with
  | none =>
    rw [hfound] at hsound
    exact absurd hwaits (hsound node hmem)
  | some found =>
    rw [hfound] at hsound
    have hsame : node = found := hsound.2 node hmem hwaits.nodeState hwaits.msgId
    rw [hsame]
    exact ⟨rfl, hsound.2⟩

theorem lookup_of_no_waits (hsound : FindsWaiting iterOk request packetId nodes)
    (hnone : ∀ node ∈ nodes, ¬ Waits request packetId node) :
    lookup iterOk packetId nodes = none := by
  unfold FindsWaiting at hsound
  cases hfound : lookup iterOk packetId nodes with
  | none => rfl
  | some found =>
    rw [hfound] at hsound
    exact absurd hsound.1 (hnone found (lookup_some hfound).2.1)

/-- An acknowledgement that no node waits for does nothing. -/
theorem applyIncoming_unknown (hsound : LookupSound env packet c)
    (hanswer : Answerable env ack packet c)
    (hpacket : packet = ack.incoming ∨ packet = .other)
    (hnone : ∀ node ∈ c.listSubWaitAck, ¬ Waits ack.request ack.packetId node) :
    applyIncoming env packet c = (c, []) := by
  rcases hpacket with rfl | rfl
  · cases ack with
    | suback packetId nack =>
      have hmiss := lookup_of_no_waits hsound.1 hnone
      cases nack with
      | true => exact absurd hmiss hanswer.2.1
      | false => exact resolveSuback_none hmiss
    | unsuback packetId =>
      have hmiss := lookup_of_no_waits hsound.1 hnone
      have hsilent : raiseEvent c.eventHandle .unsubcribeSuccess packetId = [] := by
        have hunset : c.eventHandle = false := hanswer.2 hmiss
        rw [hunset]
        rfl
      dsimp only [applyIncoming, Ack.incoming, resolveUnsuback]
      rw [maskSubInfoFrom_none _ hmiss]
      dsimp only
      rw [hsound.2 hmiss, hsilent]
      rfl
  · rfl

/-- The marking invalidates the one node that waits with the id. -/
theorem maskSubNodes_eq (hid : node.msgId = packetId)
    (hone : ∀ other ∈ nodes, other.nodeState = .normal → other.msgId = packetId → other = node) :
    maskSubNodes packetId nodes = nodes.map fun other =>
      if other = node then { other with nodeState := .invalid } else other := by
  refine List.map_congr_left fun other hother => ?_
  by_cases hsame : other = node
  · rw [if_pos hsame, if_pos (hsame ▸ hid)]
  · rw [if_neg hsame]
    split
    next hother' =>
      -- another node with the id does not wait
      have hinvalid : other.nodeState = .invalid := by
        cases hstate : other.nodeState with
        | normal => exact absurd (hone other hother hstate hother') hsame
        | invalid => rfl
      rw [← hinvalid]
    · rfl

/-- A granted handle that has a place is installed, and the string of its node is
released or handed over. -/
theorem installHandle_installed (packetId : ℕ) {filter : FilterString} {owners : List ℕ}
    (hplace : HasPlace handle c.subHandles) (hfilter : handle.topicFilter = some filter)
    (howned : Owned c.heap (filter.addr :: owners))
    (hqos : ∀ entry ∈ c.subHandles.slots.find? (handleIsIdentical handle), entry.qos = handle.qos) :
    Installed handle c.subHandles (installHandle packetId handle c).2.1.subHandles ∧
      (installHandle packetId handle c).2.2 = subscribedEvents c.eventHandle packetId handle := by
  have haddr := addrOf_some hfilter
  rcases installHandle_cases packetId hplace with
    ⟨i, old, hslot, hfind, heq⟩ | ⟨i, old, hslot, hfree, -, heq⟩
  · have hident := List.find?_some hfind
    obtain ⟨htext, hmessage, hevent⟩ := handleIsIdentical_spec hident
    rw [heq, halFree_owned haddr howned]
    refine ⟨⟨i, old, { old with handlerUserData := handle.handlerUserData }, hslot, Or.inr hident,
      ?_, ⟨htext, hmessage, hevent, rfl, hqos old hfind⟩, fun j hj => ?_⟩, rfl⟩
    · dsimp only [SubTable.modify]
      rw [List.getElem?_modify_eq, hslot]
      rfl
    · dsimp only [SubTable.modify]
      rw [List.getElem?_modify_ne _ _ (Ne.symm hj)]
  · obtain ⟨hlt, -⟩ := List.getElem?_eq_some_iff.mp hslot
    rw [heq]
    refine ⟨⟨i, old, handle, hslot, Or.inl hfree, ?_, ⟨rfl, rfl, rfl, rfl, rfl⟩, fun j hj => ?_⟩,
      rfl⟩
    · exact List.getElem?_set_self hlt
    · exact List.getElem?_set_ne (Ne.symm hj)

/-- An acknowledgement resolves the node that waits for it. -/
theorem applyIncoming_known (howned : FiltersOwned c) (hsound : LookupSound env packet c)
    (hanswer : Answerable env ack packet c) (hpacket : packet = ack.incoming ∨ packet = .other)
    (hmem : node ∈ c.listSubWaitAck) (hwaits : Waits ack.request ack.packetId node) :
    Resolved node c (applyIncoming env packet c).1 ∧
      Outcome ack node c (applyIncoming env packet c).1 (applyIncoming env packet c).2 := by
  obtain rfl : packet = ack.incoming :=
    hpacket.resolve_right (hanswer.1 ⟨node, hmem, hwaits⟩)
  cases ack with
  | suback packetId nack =>
    obtain ⟨hfound, hone⟩ := lookup_of_waits hsound.1 hmem hwaits
    obtain ⟨filter, hfilter, hlive⟩ := howned.take hsound.1 hfound
    have hsome : node.handler.topicFilter ≠ none := by simp [hfilter]
    have hmask := maskSubNodes_eq hwaits.msgId hone
    cases nack with
    | true =>
      have haddr := addrOf_some hfilter
      dsimp only [applyIncoming, Ack.incoming, Outcome]
      rw [resolveSuback_refused hfound hsome, halFree_owned haddr hlive]
      refine ⟨⟨hmask, rfl⟩, rfl, ?_⟩
      dsimp only [Ack.incoming] at hanswer
      rw [hanswer.2.2, List.append_nil]
      rfl
    | false =>
      dsimp only [applyIncoming, Ack.incoming, Outcome]
      rw [resolveSuback_granted hfound hsome]
      refine ⟨?_, @installHandle_installed
        { c with listSubWaitAck := maskSubNodes packetId c.listSubWaitAck } _ packetId filter _
        (hsound.2 rfl node hfound) hfilter hlive (hanswer.2 node hfound)⟩
      have hframe : (installHandle packetId node.handler
          { c with listSubWaitAck := maskSubNodes packetId c.listSubWaitAck }).2.1.listSubWaitAck =
            maskSubNodes packetId c.listSubWaitAck ∧
          (installHandle packetId node.handler
            { c with listSubWaitAck := maskSubNodes packetId c.listSubWaitAck }
            ).2.1.listPubWaitAck = c.listPubWaitAck := by
        unfold installHandle
        split
        · exact ⟨rfl, rfl⟩
        · split <;> exact ⟨rfl, rfl⟩
      exact ⟨hframe.1.trans hmask, hframe.2⟩
  | unsuback packetId =>
    obtain ⟨hfound, hone⟩ := lookup_of_waits hsound.1 hmem hwaits
    obtain ⟨filter, hfilter, hlive⟩ := howned.take hsound.1 hfound
    have haddr := addrOf_some hfilter
    dsimp only [applyIncoming, Ack.incoming, Outcome, resolveUnsuback]
    rw [maskSubInfoFrom_some _ hfound]
    dsimp only
    rw [halFree_owned haddr hlive]
    exact ⟨⟨maskSubNodes_eq hwaits.msgId hone, rfl⟩, rfl, rfl⟩

theorem ackLaw_of_sound (howned : FiltersOwned c) (hsound : AckSound c op)
    (hack : receivedAck c op = some (env, ack)) : AckLaw c op ack := by
  obtain ⟨hcycle, hpacket, hevents⟩ := exec_ack hack
  have hsame := exec_received hcycle
  have hlookup := hsound.1 env hcycle
  have hanswer := hsound.2 (env, ack) hack
  constructor
  · intro hnone
    have happly := applyIncoming_unknown hlookup hanswer hpacket hnone
    rw [happly] at hsame hevents
    exact ⟨hsame.subHandles, hsame.listSubWaitAck, hsame.listPubWaitAck, hsame.heap, hevents⟩
  · intro node hmem hwaits
    obtain ⟨hresolved, houtcome⟩ :=
      applyIncoming_known howned hlookup hanswer hpacket hmem hwaits
    refine ⟨⟨hsame.listSubWaitAck.trans hresolved.listSubWaitAck,
      hsame.listPubWaitAck.trans hresolved.listPubWaitAck⟩, ?_⟩
    rw [hevents]
    unfold Outcome at houtcome ⊢
    rw [hsame.subHandles]
    exact houtcome

/-- A node that was resolved waits no more. -/
theorem resolved_gone {start : ℕ} {c' : Client} (hnumbered : Numbered start c)
    (hmem : node ∈ c.listSubWaitAck) (hresolved : Resolved node c c') :
    node.draw ≤ c.draws ∧ ∀ key ∈ waiting c', key.2 ≠ node.draw := by
  have hkey : (node.msgId, node.draw) ∈ subKeys c := List.mem_map_of_mem hmem
  have hdistinct := hnumbered.distinct
  rw [List.map_append, List.nodup_append] at hdistinct
  obtain ⟨-, hsubs, hapart⟩ := hdistinct
  refine ⟨(hnumbered.drawn _ (List.mem_append_right _ hkey)).2.2, fun key hwaiting hdraw => ?_⟩
  rcases mem_waiting.mp hwaiting with ⟨other, hother, -, rfl⟩ | ⟨other, hother, hstate, rfl⟩
  · rw [hresolved.listPubWaitAck] at hother
    have hpub : (other.msgId, other.draw) ∈ pubKeys c := List.mem_map_of_mem hother
    exact hapart _ (List.mem_map_of_mem hpub) _ (List.mem_map_of_mem hkey) hdraw
  · rw [hresolved.listSubWaitAck] at hother
    obtain ⟨old, hold, rfl⟩ := List.mem_map.mp hother
    split at hstate
    · cases hstate
    next hne =>
      rw [if_neg hne] at hdraw
      rw [subKeys, List.map_map] at hsubs
      exact hne (List.inj_on_of_nodup_map hsubs hold hmem hdraw)

end Steps

section Runs

/-- Acknowledgements keep the law in every run in which each one meets the node that
waits for it, or nothing it could disturb. -/
theorem acks_resolve (random commandTimeout : ℕ) (eventHandle : Bool) (options : ConnectParams)
    (ops : List Op)
    (hacks : Along exec AckSound ops (Client.init random commandTimeout eventHandle options)) :
    AcksResolve (Client.init random commandTimeout eventHandle options) ops := by
  refine ⟨?_, filtersOwned_run random commandTimeout eventHandle options
    (hacks.mono fun _ _ h => h.1)⟩
  rintro earlier op later rfl env ack hack
  have hearlier := ((along_append exec _ _ _ _).mp hacks).1
  have howned := filtersOwned_run random commandTimeout eventHandle options
    (hearlier.mono fun _ _ h => h.1)
  have hlaw := ackLaw_of_sound howned hacks.at hack
  refine ⟨hlaw, fun node hmem hwaits => ?_⟩
  have hnumbered := numbered_reached random commandTimeout eventHandle options earlier
  obtain ⟨hdrawn, hgone⟩ := resolved_gone hnumbered hmem (hlaw.known node hmem hwaits).1
  exact not_expired_run (hdrawn.trans (draws_mono op _)) hgone later

/-- A subscription that is granted, and the same SUBACK again. -/
theorem acks_resolve_sample :
    AcksResolve (Client.init 5 5000 true deviceOptions)
      (handshake [0x90, 3, 0, 7, 1, 0x90, 3, 0, 7, 1] ++
        [subscribeT, .yieldRead (cycleWith [.deliver, .deliver, .deliver]) [],
          .subInfoProc true fun _ => 9000,
          .yieldRead (cycleWith [.deliver, .deliver, .deliver]) []]) :=
  acks_resolve 5 5000 true deviceOptions _ (by decide)

/-- A refusal of a subscription that was never requested raises an event. -/
theorem unknown_nack_raises :
    ¬ ∀ (random commandTimeout : ℕ) (eventHandle : Bool) (options : ConnectParams) (ops : List Op),
      AcksResolve (Client.init random commandTimeout eventHandle options) ops := by
  intro hclaim
  have hlaw := ((hclaim 5 5000 true deviceOptions (handshake [0x90, 3, 0, 9, 0x80] ++
    [.yieldRead (cycleWith [.deliver, .deliver, .deliver]) []])).1
    (handshake [0x90, 3, 0, 9, 0x80]) (.yieldRead (cycleWith [.deliver, .deliver, .deliver]) [])
    [] rfl (cycleWith [.deliver, .deliver, .deliver]) (.suback 9 true) (by decide)).1
  exact absurd (hlaw.unknown (by decide)).silent (by decide)

end Runs

end IotExplorer.SubscriptionAcks
