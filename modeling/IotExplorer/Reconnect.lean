import IotExplorer.ClientRuns

/-!
The reconnect. After the CONNACK every entry of the table is subscribed again, one
after the other, and the first request that fails ends the loop while the client
stays connected. The loop sends a SUBSCRIBE for every entry, with nothing between
them, exactly if each entry can be sent and the entries fit into the free places of
the wait list.
-/
namespace IotExplorer.Reconnect

open Basis.Runs Basis.Ownership Protocol PacketBytes PublishPacket ControlPackets Network
open ReadPacket ClientState DeliverMessage WaitLists Requests PacketHandlers Connection
open SessionSteps ClientRuns

/-- The packet is a SUBSCRIBE for the filter of the entry, with its QoS. -/
def IsSubscribeFor (handle : SubTopicHandle) (packet : List UInt8) : Prop :=
  ∃ filter packetId, handle.topicFilter = some filter ∧
    serializeSubscribePacket mqttTxBufLen 0 packetId 1 [filter.text] [handle.qos] = .ok packet

/-- The SUBSCRIBE that an event hands to the network, if just that is taken. -/
def sentSubscribe : Event → Option (List UInt8)
  | .sent packet rc taken =>
      if packet.head? = some 0x82 ∧ rc = .success ∧ taken = packet then some packet else none
  | _ => none

/-- What the network takes of a packet is the packet, with nothing of the buffer behind it. -/
def TakenExactly : Event → Prop
  | .sent packet _ taken => taken = packet
  | _ => True

instance (e : Event) : Decidable (TakenExactly e) :=
  match e with
  | .sent packet _ taken => inferInstanceAs (Decidable (taken = packet))
  | .mqtt .. | .received _ | .delivered .. | .sub .. | .expired _ | .fault _ => isTrue trivial

def sentSubscribes (events : List Event) : List (List UInt8) := events.filterMap sentSubscribe

def occupied (slots : List SubTopicHandle) : List SubTopicHandle :=
  slots.filter fun handle => handle.topicFilter.isSome

/-- If the attempt leaves the client connected, each entry of the table has had a
SUBSCRIBE of its own, on a connection that carried whole packets and nothing else. -/
def ResubscribesAll (env : ConnectEnv) (resub : ℕ → RequestEnv) (c : Client) : Prop :=
  (qcloudIotMqttAttemptReconnect env resub c).2.1.isConnected = true →
    (∀ e ∈ (qcloudIotMqttAttemptReconnect env resub c).2.2, TakenExactly e) ∧
      ∃ packets,
        packets.Sublist (sentSubscribes (qcloudIotMqttAttemptReconnect env resub c).2.2) ∧
          List.Forall₂ IsSubscribeFor
            (occupied (qcloudIotMqttAttemptReconnect env resub c).2.1.subHandles.slots) packets

/-- The length of a SUBSCRIBE for one filter. -/
def subscribeLength (text : List UInt8) : ℕ :=
  1 + (mqttWritePacketRemLen (text.length + 5)).length + (text.length + 5)

/-- A request to subscribe this filter is accepted. -/
structure Acceptable (env : RequestEnv) (text : List UInt8) (qos : QoS) : Prop where
  nonempty : text ≠ []
  short : text.length ≤ maxSizeOfCloudTopic
  qos : qos ≠ .qos2
  filterOk : env.filterOk = true

/-- A request to subscribe this filter has its memory, too, and its writes pass a test. -/
structure Sendable (takes : ℕ → List WriteChoice → Bool) (env : RequestEnv) (text : List UInt8)
    (qos : QoS) : Prop extends Acceptable env text qos where
  nodeOk : env.nodeOk = true
  taken : takes (subscribeLength text) env.writes = true

/-- Every entry, the first with number `i`, can be sent, and the entries fit into the
free places of the wait list. -/
structure Resendable (takes : ℕ → List WriteChoice → Bool) (resub : ℕ → RequestEnv) (i : ℕ)
    (slots : List SubTopicHandle) (waiting : ℕ) : Prop where
  entries : ∀ entry ∈ slots.zipIdx i, ∀ filter ∈ entry.1.topicFilter,
    Sendable takes (resub entry.2) filter.text entry.1.qos
  room : (occupied slots).length ≤ maxMessageHandlers - waiting

section Decisions
variable (takes : ℕ → List WriteChoice → Bool)

instance (env : RequestEnv) (text : List UInt8) (qos : QoS) :
    Decidable (Sendable takes env text qos) :=
  decidable_of_iff (text ≠ [] ∧ text.length ≤ maxSizeOfCloudTopic ∧ qos ≠ .qos2 ∧
      env.filterOk = true ∧ env.nodeOk = true ∧ takes (subscribeLength text) env.writes = true)
    ⟨fun h => ⟨⟨h.1, h.2.1, h.2.2.1, h.2.2.2.1⟩, h.2.2.2.2.1, h.2.2.2.2.2⟩,
      fun h => ⟨h.nonempty, h.short, h.qos, h.filterOk, h.nodeOk, h.taken⟩⟩

instance (resub : ℕ → RequestEnv) (i : ℕ) (slots : List SubTopicHandle) (waiting : ℕ) :
    Decidable (Resendable takes resub i slots waiting) :=
  decidable_of_iff ((∀ entry ∈ slots.zipIdx i, ∀ filter ∈ entry.1.topicFilter,
      Sendable takes (resub entry.2) filter.text entry.1.qos) ∧
      (occupied slots).length ≤ maxMessageHandlers - waiting)
    ⟨fun h => ⟨h.1, h.2⟩, fun h => ⟨h.entries, h.room⟩⟩

end Decisions

section Subscribe
variable {c : Client} {env : RequestEnv} {text : List UInt8} {params : SubscribeParams}

theorem serializeSubscribePacket_one (packetId : ℕ) (qos : QoS)
    (hshort : text.length ≤ maxSizeOfCloudTopic) :
    ∃ packet, serializeSubscribePacket mqttTxBufLen 0 packetId 1 [text] [qos] = .ok packet ∧
      packet.head? = some 0x82 ∧ packet.length = subscribeLength text ∧
      subscribeLength text < mqttTxBufLen := by
  have hmax : maxSizeOfCloudTopic = 128 := rfl
  have hbuf : mqttTxBufLen = 2048 := rfl
  have hremLen : getSubscribePacketRemLen 1 [text] = text.length + 5 := by
    simp [getSubscribePacketRemLen, filterAt]
    omega
  have hbytes : (mqttWritePacketRemLen (text.length + 5)).length ≤ 3 + 1 :=
    (mqttWritePacketRemLen_length_le_iff 3 (text.length + 5) (by omega)).mpr (by omega)
  have hpacketLen : ¬ getMqttPacketLen (text.length + 5) > mqttTxBufLen := by
    dsimp only [getMqttPacketLen]
    split_ifs <;> omega
  have hheader : mqttInitPacketHeader .subscribe .qos1 0 0 = .ok 0x82 := rfl
  unfold serializeSubscribePacket
  dsimp only
  rw [hremLen, if_neg hpacketLen, hheader]
  refine ⟨_, rfl, rfl, ?_, ?_⟩
  · simp [subscribeLength, mqttWriteUint16, mqttWriteUtf8String, filterAt]
    omega
  · unfold subscribeLength
    omega

theorem sentSubscribes_append (events events' : List Event) :
    sentSubscribes (events ++ events') = sentSubscribes events ++ sentSubscribes events' :=
  List.filterMap_append

theorem sentSubscribes_of_aboutSub {events : List Event} (h : ∀ e ∈ events, AboutSub e) :
    sentSubscribes events = [] := by
  refine List.filterMap_eq_nil_iff.mpr fun e he => ?_
  have hsub := h e he
  cases e with
  | sent packet rc taken => exact hsub.elim
  | _ => rfl

/-- The request that is written counts exactly if the network takes it and no more. -/
theorem sentSubscribes_written {packet : List UInt8} {buf : Buffer} (writes : List WriteChoice)
    (hbuf : c.writeBuf = overwrite buf packet) (hhead : packet.head? = some 0x82)
    (hfit : packet.length < mqttTxBufLen) :
    (takesExactly packet.length writes 0 = true →
        (sendWritten packet writes c).1 = .success ∧
          ∀ e ∈ (sendWritten packet writes c).2, TakenExactly e) ∧
      sentSubscribes (sendWritten packet writes c).2 =
        if takesExactly packet.length writes 0 = true then [packet] else [] := by
  have hslice : slice c.writeBuf 0 packet.length = packet := by
    rw [hbuf]
    exact slice_block [] packet _ 0 packet.length rfl rfl
  have hexact := sendMqttPacket_exact c.writeBuf packet.length writes hfit
  rw [hslice] at hexact
  dsimp only [sendWritten, sentSubscribes]
  constructor
  · intro htaken
    obtain ⟨hrc, hpacket⟩ := hexact.mpr htaken
    refine ⟨hrc, fun e he => ?_⟩
    obtain rfl := List.mem_singleton.mp he
    exact hpacket
  by_cases htaken : takesExactly packet.length writes 0 = true
  · obtain ⟨hrc, hpacket⟩ := hexact.mpr htaken
    have hsent : sentSubscribe (.sent packet (sendMqttPacket c.writeBuf packet.length writes).1
        (sendMqttPacket c.writeBuf packet.length writes).2) = some packet :=
      if_pos ⟨hhead, hrc, hpacket⟩
    rw [if_pos htaken, List.filterMap_cons_some hsent, List.filterMap_nil]
  · have hsent : sentSubscribe (.sent packet (sendMqttPacket c.writeBuf packet.length writes).1
        (sendMqttPacket c.writeBuf packet.length writes).2) = none :=
      if_neg fun h => htaken (hexact.mp h.2)
    rw [if_neg htaken, List.filterMap_cons_none hsent, List.filterMap_nil]

/-- What the end of a subscription request sends, and when it succeeds. -/
theorem pushAndSend_sent {packet : List UInt8} {buf : Buffer} (handler : SubTopicHandle)
    (hbuf : c.writeBuf = overwrite buf packet) (hhead : packet.head? = some 0x82)
    (hfit : packet.length < mqttTxBufLen) :
    (sentSubscribes (pushAndSend env .subscribe handler packet c).2.2 = [] ∧
        ¬ (c.listSubWaitAck.length < maxMessageHandlers ∧ env.nodeOk = true ∧
          takesExactly packet.length env.writes 0 = true)) ∨
      (c.listSubWaitAck.length < maxMessageHandlers ∧ env.nodeOk = true ∧
        takesExactly packet.length env.writes 0 = true) ∧
      ∃ node events, pushAndSend env .subscribe handler packet c =
          (.ok c.nextPacketId, { c with listSubWaitAck := c.listSubWaitAck ++ [node] }, events) ∧
        sentSubscribes events = [packet] ∧ ∀ e ∈ events, TakenExactly e := by
  unfold pushAndSend
  cases hpush : pushSubInfoTo env.nodeOk env.now packet.length c.nextPacketId .subscribe
    handler c with
  | error rc =>
    have hno := (pushSubInfoTo_error hpush).2
    refine Or.inl ⟨sentSubscribes_of_aboutSub ?_, fun h => hno ⟨h.1, h.2.1⟩⟩
    dsimp only
    rw [hpush]
    exact halFree_aboutSub _ _
  | ok pushed =>
    obtain ⟨hroom, hnode⟩ := pushSubInfoTo_ok_iff.mp ⟨pushed, hpush⟩
    have hpushed := pushSubInfoTo_ok hpush
    have hpushedBuf : pushed.writeBuf = overwrite buf packet := by
      rw [hpushed]
      exact hbuf
    obtain ⟨hsuccess, hsent⟩ := sentSubscribes_written env.writes hpushedBuf hhead hfit
    dsimp only
    rw [hpush]
    dsimp only
    by_cases htaken : takesExactly packet.length env.writes 0 = true
    · obtain ⟨hrc, hexact⟩ := hsuccess htaken
      rw [if_pos htaken] at hsent
      rw [if_neg (not_not.mpr hrc), hpushed] at *
      exact Or.inr ⟨⟨hroom, hnode, htaken⟩, _, _, rfl, hsent, hexact⟩
    · rw [if_neg htaken] at hsent
      refine Or.inl ⟨?_, fun h => htaken h.2.2⟩
      split
      · rw [sentSubscribes_append, hsent, sentSubscribes_of_aboutSub (halFree_aboutSub _ _)]
        rfl
      · exact hsent

/-- A request is refused, with nothing sent, or comes to its end with a packet. -/
theorem subscribe_cases (text : List UInt8) (params : SubscribeParams) (env : RequestEnv)
    (hconnected : c.isConnected = true) :
    (¬ Acceptable env text params.qos ∧
      ∃ rc, rc ≠ .success ∧ qcloudIotMqttSubscribe text params env c = (.error rc, c, [])) ∨
    (Acceptable env text params.qos ∧ ∃ c₁ handler packet,
      qcloudIotMqttSubscribe text params env c =
          pushAndSend env .subscribe handler packet (writePacket packet c₁) ∧
        serializeSubscribePacket mqttTxBufLen 0 c₁.nextPacketId 1 [text] [params.qos] =
          .ok packet ∧
        packet.head? = some 0x82 ∧ packet.length = subscribeLength text ∧
        subscribeLength text < mqttTxBufLen ∧ c₁.isConnected = true ∧
        c₁.listSubWaitAck = c.listSubWaitAck) := by
  by_cases hempty : text = []
  · exact Or.inl ⟨fun h => h.nonempty hempty, .inval, by decide, if_pos hempty⟩
  by_cases hlong : text.length > maxSizeOfCloudTopic
  · refine Or.inl ⟨fun h => absurd h.short (by omega), .maxTopicLength, by decide, ?_⟩
    rw [qcloudIotMqttSubscribe, if_neg hempty, if_pos hlong]
  by_cases htwo : params.qos = .qos2
  · refine Or.inl ⟨fun h => h.qos htwo, .mqttQosNotSupport, by decide, ?_⟩
    rw [qcloudIotMqttSubscribe, if_neg hempty, if_neg hlong, if_pos htwo]
  by_cases hfilter : env.filterOk = true
  · obtain ⟨packet, hpacket, hhead, hlength, hfit⟩ := serializeSubscribePacket_one
      { c with heap := c.heap.alloc }.getNextPacketId.nextPacketId params.qos
      (Nat.le_of_not_lt hlong)
    refine Or.inr ⟨⟨hempty, Nat.le_of_not_lt hlong, htwo, hfilter⟩,
      { c with heap := c.heap.alloc }.getNextPacketId,
      { topicFilter := some ⟨c.heap.next, text⟩
        messageHandler := params.onMessageHandler
        subEventHandler := params.onSubEventHandler
        handlerUserData := params.userData
        qos := params.qos },
      packet, ?_, hpacket, hhead, hlength, hfit, hconnected, rfl⟩
    unfold qcloudIotMqttSubscribe
    rw [if_neg hempty, if_neg hlong, if_neg htwo, if_neg (by simp [hconnected]),
      if_neg (by simp [hfilter])]
    dsimp only
    rw [hpacket]
  · refine Or.inl ⟨fun h => hfilter h.filterOk, .failure, by decide, ?_⟩
    rw [qcloudIotMqttSubscribe, if_neg hempty, if_neg hlong, if_neg htwo,
      if_neg (by simp [hconnected]), if_pos (by simpa using hfilter)]

/-- One request of the loop: it sends just its SUBSCRIBE and goes on, or sends none. -/
theorem subscribe_sent (text : List UInt8) (params : SubscribeParams) (env : RequestEnv)
    (hconnected : c.isConnected = true) :
    (sentSubscribes (qcloudIotMqttSubscribe text params env c).2.2 = [] ∧
        ¬ (c.listSubWaitAck.length < maxMessageHandlers ∧
          Sendable (takesExactly · · 0) env text params.qos)) ∨
      (c.listSubWaitAck.length < maxMessageHandlers ∧
        Sendable (takesExactly · · 0) env text params.qos) ∧
      ∃ packetId c' events packet,
        qcloudIotMqttSubscribe text params env c = (.ok packetId, c', events) ∧
        sentSubscribes events = [packet] ∧ (∀ e ∈ events, TakenExactly e) ∧
        serializeSubscribePacket mqttTxBufLen 0 packetId 1 [text] [params.qos] = .ok packet ∧
        c'.isConnected = true ∧ c'.listSubWaitAck.length = c.listSubWaitAck.length + 1 := by
  rcases subscribe_cases text params env hconnected with ⟨hbad, rc, -, hresult⟩ |
    ⟨haccepted, c₁, handler, packet, hresult, hpacket, hhead, hlength, hfit, hstill, hlist⟩
  · rw [hresult]
    exact Or.inl ⟨rfl, fun h => hbad h.2.toAcceptable⟩
  · rw [hresult, ← hlist]
    rcases @pushAndSend_sent (writePacket packet c₁) env packet c₁.writeBuf handler rfl hhead
        (hlength ▸ hfit) with ⟨hnone, hbad⟩ | ⟨⟨hroom, hnode, htaken⟩, node, events, heq, hsent,
        hexact⟩
    · refine Or.inl ⟨hnone, fun h => hbad ⟨h.1, h.2.nodeOk, ?_⟩⟩
      rw [hlength]
      exact h.2.taken
    · rw [hlength] at htaken
      rw [heq]
      exact Or.inr ⟨⟨hroom, haccepted, hnode, htaken⟩, _, _, events, packet, rfl, hsent, hexact,
        hpacket, hstill, List.length_append⟩

/-- One request of the loop: it is reported as sent and the loop goes on, or it fails. -/
theorem subscribe_reported (text : List UInt8) (params : SubscribeParams) (env : RequestEnv)
    (hconnected : c.isConnected = true) :
    (¬ (c.listSubWaitAck.length < maxMessageHandlers ∧
          Sendable reportsSent env text params.qos) ∧
        ∃ rc, rc ≠ .success ∧ (qcloudIotMqttSubscribe text params env c).1 = .error rc) ∨
      (c.listSubWaitAck.length < maxMessageHandlers ∧ Sendable reportsSent env text params.qos) ∧
      ∃ packetId c' events,
        qcloudIotMqttSubscribe text params env c = (.ok packetId, c', events) ∧
        c'.isConnected = true ∧ c'.listSubWaitAck.length = c.listSubWaitAck.length + 1 := by
  rcases subscribe_cases text params env hconnected with ⟨hbad, rc, hrc, hresult⟩ |
    ⟨haccepted, c₁, handler, packet, hresult, -, -, hlength, -, hstill, hlist⟩
  · rw [hresult]
    exact Or.inl ⟨fun h => hbad h.2.toAcceptable, rc, hrc, rfl⟩
  · rw [hresult, ← hlist]
    rcases pushAndSend_reported env .subscribe handler packet (writePacket packet c₁) with
      ⟨hbad, hfailed⟩ | ⟨⟨hroom, hnode, hsent⟩, node, events, heq⟩
    · refine Or.inl ⟨fun h => hbad ⟨h.1, h.2.nodeOk, ?_⟩, hfailed⟩
      rw [hlength]
      exact h.2.taken
    · rw [hlength] at hsent
      rw [heq]
      exact Or.inr ⟨⟨hroom, haccepted, hnode, hsent⟩, _, _, events, rfl, hstill,
        List.length_append⟩

end Subscribe

section Loop
variable {takes : ℕ → List WriteChoice → Bool} {resub : ℕ → RequestEnv} {i waiting : ℕ}
  {handle : SubTopicHandle}
  {handles : List SubTopicHandle} {filter : FilterString}

theorem occupied_cons_none (h : handle.topicFilter = none) :
    occupied (handle :: handles) = occupied handles :=
  List.filter_cons_of_neg (by simp [h])

theorem occupied_cons_some (h : handle.topicFilter = some filter) :
    occupied (handle :: handles) = handle :: occupied handles :=
  List.filter_cons_of_pos (by simp [h])

theorem resendable_cons_none (h : handle.topicFilter = none) :
    Resendable takes resub i (handle :: handles) waiting ↔
      Resendable takes resub (i + 1) handles waiting := by
  have hroom := congrArg List.length (@occupied_cons_none handle handles h)
  constructor
  · intro hall
    refine ⟨fun entry hentry => hall.entries entry ?_, hroom ▸ hall.room⟩
    rw [List.zipIdx_cons]
    exact List.mem_cons_of_mem _ hentry
  · intro hall
    refine ⟨fun entry hentry filter hfilter => ?_, hroom ▸ hall.room⟩
    rw [List.zipIdx_cons] at hentry
    rcases List.mem_cons.mp hentry with rfl | hentry
    · rw [h] at hfilter
      cases hfilter
    · exact hall.entries entry hentry filter hfilter

theorem resendable_cons_some (h : handle.topicFilter = some filter) :
    Resendable takes resub i (handle :: handles) waiting ↔
      (waiting < maxMessageHandlers ∧ Sendable takes (resub i) filter.text handle.qos) ∧
        Resendable takes resub (i + 1) handles (waiting + 1) := by
  have hlength : (occupied (handle :: handles)).length = (occupied handles).length + 1 := by
    rw [occupied_cons_some h, List.length_cons]
  constructor
  · intro hall
    have hroom := hall.room
    refine ⟨⟨by omega, ?_⟩, fun entry hentry => hall.entries entry ?_, by omega⟩
    · exact hall.entries (handle, i) (by rw [List.zipIdx_cons]; exact List.mem_cons_self) filter h
    · rw [List.zipIdx_cons]
      exact List.mem_cons_of_mem _ hentry
  · rintro ⟨⟨hplace, hsend⟩, hall⟩
    have hroom := hall.room
    refine ⟨fun entry hentry filter' hfilter' => ?_, by omega⟩
    rw [List.zipIdx_cons] at hentry
    rcases List.mem_cons.mp hentry with rfl | hentry
    · obtain rfl : filter = filter' := Option.some.inj (h.symm.trans hfilter')
      exact hsend
    · exact hall.entries entry hentry filter' hfilter'

/-- The loop sends a SUBSCRIBE for each entry, and no more, when all of them can be sent, and
fewer packets than entries when not. -/
theorem resubscribeLoop_sent (resub : ℕ → RequestEnv) (i : ℕ) (handles : List SubTopicHandle)
    (c : Client) (hconnected : c.isConnected = true) :
    (Resendable (takesExactly · · 0) resub i handles c.listSubWaitAck.length ∧
        (∀ e ∈ (resubscribeLoop resub i handles c).2.2, TakenExactly e) ∧
        List.Forall₂ IsSubscribeFor (occupied handles)
          (sentSubscribes (resubscribeLoop resub i handles c).2.2)) ∨
      ¬ Resendable (takesExactly · · 0) resub i handles c.listSubWaitAck.length ∧
        (sentSubscribes (resubscribeLoop resub i handles c).2.2).length <
          (occupied handles).length := by
  induction handles generalizing i c with
  | nil =>
    refine Or.inl ⟨⟨fun entry hentry => ?_, Nat.zero_le _⟩, fun e he => ?_, List.Forall₂.nil⟩
    · exact absurd hentry List.not_mem_nil
    · exact absurd he List.not_mem_nil
  | cons handle handles ih =>
    unfold resubscribeLoop
    cases hfilter : handle.topicFilter with
    | none =>
      rw [resendable_cons_none hfilter, occupied_cons_none hfilter]
      exact ih (i + 1) c hconnected
    | some filter =>
      rw [resendable_cons_some hfilter, occupied_cons_some hfilter]
      dsimp only
      rcases subscribe_sent filter.text (resubscribeParams handle) (resub i) hconnected with
        ⟨hnone, hbad⟩ | ⟨hgood, packetId, c', events, packet, hresult, hsent, hexact, hpacket,
          hstill, hlength⟩
      · refine Or.inr ⟨fun h => hbad h.1, ?_⟩
        have hlink :=
          (subscribe_requested filter.text (resubscribeParams handle) (resub i) c).1.link
        generalize qcloudIotMqttSubscribe filter.text (resubscribeParams handle) (resub i) c = r
          at hnone hlink
        obtain ⟨result, c', events⟩ := r
        dsimp only at hnone hlink
        cases result with
        | error rc =>
          dsimp only
          rw [hnone]
          exact Nat.succ_pos _
        | ok id =>
          dsimp only
          rw [sentSubscribes_append, hnone, List.nil_append, List.length_cons]
          rcases ih (i + 1) c' (hlink.isConnected.trans hconnected) with
            ⟨-, -, hall⟩ | ⟨-, hfewer⟩
          · rw [hall.length_eq]
            exact Nat.lt_succ_self _
          · exact Nat.lt_succ_of_lt hfewer
      · rw [hresult]
        dsimp only
        rw [sentSubscribes_append, hsent, List.singleton_append]
        have hrest := ih (i + 1) c' hstill
        rw [hlength] at hrest
        rcases hrest with ⟨hall, htaken, hpackets⟩ | ⟨hbad, hfewer⟩
        · exact Or.inl ⟨⟨hgood, hall⟩, List.forall_mem_append.mpr ⟨hexact, htaken⟩,
            .cons ⟨filter, packetId, hfilter, hpacket⟩ hpackets⟩
        · exact Or.inr ⟨fun h => hbad h.2, Nat.succ_lt_succ hfewer⟩

/-- The loop succeeds exactly if every entry can be sent, as far as it is reported. -/
theorem resubscribeLoop_success_iff (resub : ℕ → RequestEnv) (i : ℕ)
    (handles : List SubTopicHandle) (c : Client) (hconnected : c.isConnected = true) :
    (resubscribeLoop resub i handles c).1 = .success ↔
      Resendable reportsSent resub i handles c.listSubWaitAck.length := by
  induction handles generalizing i c with
  | nil =>
    refine iff_of_true rfl ⟨fun entry hentry => ?_, Nat.zero_le _⟩
    exact absurd hentry List.not_mem_nil
  | cons handle handles ih =>
    unfold resubscribeLoop
    cases hfilter : handle.topicFilter with
    | none =>
      rw [resendable_cons_none hfilter]
      exact ih (i + 1) c hconnected
    | some filter =>
      rw [resendable_cons_some hfilter]
      dsimp only
      rcases subscribe_reported filter.text (resubscribeParams handle) (resub i) hconnected with
        ⟨hbad, rc, hrc, hfailed⟩ | ⟨hgood, packetId, c', events, hresult, hstill, hlength⟩
      · refine iff_of_false ?_ fun h => hbad h.1
        generalize qcloudIotMqttSubscribe filter.text (resubscribeParams handle) (resub i) c = r
          at hfailed
        obtain ⟨result, c', events⟩ := r
        dsimp only at hfailed
        rw [hfailed]
        exact hrc
      · rw [hresult]
        dsimp only
        rw [ih (i + 1) c' hstill, hlength]
        exact (and_iff_right hgood).symm

theorem resubscribe_success_iff (resub : ℕ → RequestEnv) (c : Client)
    (hconnected : c.isConnected = true) :
    (qcloudIotMqttResubscribe resub c).1 = .success ↔
      Resendable reportsSent resub 0 c.subHandles.slots c.listSubWaitAck.length := by
  rw [qcloudIotMqttResubscribe, if_neg (by simp [hconnected])]
  exact resubscribeLoop_success_iff resub 0 c.subHandles.slots c hconnected

/-- The loop leaves the table and the connection as they are. -/
theorem resubscribeLoop_frame (resub : ℕ → RequestEnv) (i : ℕ) (handles : List SubTopicHandle)
    (c : Client) :
    (resubscribeLoop resub i handles c).2.1.subHandles = c.subHandles ∧
      (resubscribeLoop resub i handles c).2.1.isConnected = c.isConnected := by
  induction handles generalizing i c with
  | nil => exact ⟨rfl, rfl⟩
  | cons handle handles ih =>
    unfold resubscribeLoop
    split
    · exact ih (i + 1) c
    next filter _ =>
      have hrequest := (subscribe_requested filter.text (resubscribeParams handle) (resub i) c).1
      have htable := hrequest.subHandles
      have hlink := hrequest.link.isConnected
      generalize qcloudIotMqttSubscribe filter.text (resubscribeParams handle) (resub i) c = r
        at htable hlink
      obtain ⟨result, c', events⟩ := r
      cases result with
      | error rc => exact ⟨htable, hlink⟩
      | ok id => exact ⟨(ih (i + 1) c').1.trans htable, (ih (i + 1) c').2.trans hlink⟩

end Loop

section Connect

theorem sentSubscribes_other {packet : List UInt8} (writes : List WriteChoice) (c : Client)
    (h : packet.head? ≠ some 0x82) : sentSubscribes (sendWritten packet writes c).2 = [] := by
  have hnone : sentSubscribe (.sent packet (sendMqttPacket c.writeBuf packet.length writes).1
      (sendMqttPacket c.writeBuf packet.length writes).2) = none := if_neg fun hsent => h hsent.1
  exact List.filterMap_cons_none hnone

theorem sentSubscribes_handsOver {events : List Event} (h : ∀ e ∈ events, HandsOver e) :
    sentSubscribes events = [] := by
  refine List.filterMap_eq_nil_iff.mpr fun e he => ?_
  have hover := h e he
  cases e with
  | sent packet rc taken => exact hover.elim
  | _ => rfl

theorem sentSubscribes_sendPubAck (env : CycleEnv) {packetType : MessageType} (packetId : ℕ)
    (c : Client) (h : packetType = .puback ∨ packetType = .pubrec ∨ packetType = .pubrel) :
    sentSubscribes (sendPubAck env packetType packetId c).2.2 = [] := by
  have hpuback : (0x40 : UInt8) ≠ 0x82 := by decide
  have hpubrec : (0x50 : UInt8) ≠ 0x82 := by decide
  have hpubrel : (0x62 : UInt8) ≠ 0x82 := by decide
  rcases h with rfl | rfl | rfl
  · exact sentSubscribes_other env.writes _ fun h => hpuback (Option.some.inj h)
  · exact sentSubscribes_other env.writes _ fun h => hpubrec (Option.some.inj h)
  · exact sentSubscribes_other env.writes _ fun h => hpubrel (Option.some.inj h)

/-- Handling a packet sends acknowledgements only. -/
theorem handlePublishPacket_sent (env : CycleEnv) (c : Client) :
    sentSubscribes (handlePublishPacket env c).2.2 = [] := by
  unfold handlePublishPacket
  split
  · rfl
  next fields _ =>
    have hdelivery := sentSubscribes_handsOver (deliverPublish_handsOver env fields c)
    dsimp only
    split
    · exact hdelivery
    · dsimp only
      rw [sentSubscribes_append]
      have hdelivered : sentSubscribes
          (if getPacketIdInRepeatBuf c (fields.packetId.getD 0) < 0 then
            deliverPublish env fields c else []) = [] := by
        split
        · exact hdelivery
        · rfl
      have htype : (if fields.qos = QoS.qos1.code then MessageType.puback else .pubrec) = .puback ∨
          (if fields.qos = QoS.qos1.code then MessageType.puback else .pubrec) = .pubrec ∨
          (if fields.qos = QoS.qos1.code then MessageType.puback else .pubrec) = .pubrel := by
        split
        · exact Or.inl rfl
        · exact Or.inr (Or.inl rfl)
      rw [hdelivered, sentSubscribes_sendPubAck env _ _ htype]
      rfl

theorem handlePacket_sent (env : CycleEnv) (packetType : UInt8) (c : Client) :
    sentSubscribes (handlePacket env packetType c).2.2 = [] := by
  have hraised : ∀ type packetId, sentSubscribes (raiseEvent c.eventHandle type packetId) = [] := by
    intro type packetId
    unfold raiseEvent
    split <;> rfl
  apply handlePacket_rule (motive := fun r => sentSubscribes r.2.2 = [])
  · unfold handlePubackPacket
    split
    · rfl
    · exact hraised _ _
  · unfold handleSubackPacket
    split
    · rfl
    · exact sentSubscribes_of_aboutSub (concludeSuback_aboutSub _ _ _ _)
  · unfold handleUnsubackPacket
    split
    · rfl
    · dsimp only [resolveUnsuback]
      rw [sentSubscribes_append, sentSubscribes_of_aboutSub (halFree_aboutSub _ _), hraised]
      rfl
  · exact handlePublishPacket_sent env c
  · unfold handlePubrecPacket
    split
    · rfl
    · exact sentSubscribes_sendPubAck env _ c (Or.inr (Or.inr rfl))
  · intro rc
    rfl

theorem cycleForRead_sent (env : CycleEnv) (c : Client) :
    sentSubscribes (cycleForRead env c).2.2.2 = [] := by
  unfold cycleForRead
  split
  · rfl
  next packetType received _ => exact handlePacket_sent env packetType received

theorem waitForRead_sent (packetType : UInt8) (rounds : List CycleEnv) (c : Client) :
    sentSubscribes (waitForRead packetType rounds c).2.2 = [] := by
  induction rounds generalizing c with
  | nil => rfl
  | cons env rounds ih =>
    have hcycle := cycleForRead_sent env c
    unfold waitForRead
    generalize cycleForRead env c = r at hcycle
    obtain ⟨rc, read, c', events⟩ := r
    dsimp only at hcycle ⊢
    split
    · rw [sentSubscribes_append, hcycle, ih c']
      rfl
    · exact hcycle

/-- The CONNECT request is no SUBSCRIBE. -/
theorem sendConnect_sent (options : ConnectParams) (env : ConnectEnv) (c : Client) :
    sentSubscribes (sendConnect options env c).2.2 = [] := by
  have hheader : mqttInitPacketHeader .connect .qos0 0 0 = .ok 0x10 := rfl
  have hother : (0x10 : UInt8) ≠ 0x82 := by decide
  unfold sendConnect
  dsimp only
  split
  · rfl
  · split
    · rfl
    next packet hpacket =>
      refine sentSubscribes_other env.writes _ fun hhead => ?_
      unfold serializeConnectPacket at hpacket
      dsimp only at hpacket
      rw [hheader] at hpacket
      split_ifs at hpacket
      all_goals
        obtain rfl := Except.ok.inj hpacket
        exact hother (Option.some.inj hhead)

theorem connect_sent (options : ConnectParams) (env : ConnectEnv) (c : Client) :
    sentSubscribes (qcloudIotMqttConnect options env c).2.2 = [] := by
  have hmqtt : sentSubscribes (mqttConnect options env c).2.2 = [] := by
    have hsend := sendConnect_sent options env c
    unfold mqttConnect
    generalize sendConnect options env c = r at hsend
    obtain ⟨rc, c', sent⟩ := r
    dsimp only at hsend ⊢
    split
    · exact hsend
    · have hwait := waitForRead_sent MessageType.connack.code env.rounds c'
      generalize waitForRead MessageType.connack.code env.rounds c' = r at hwait
      obtain ⟨rc', c'', events⟩ := r
      dsimp only at hwait ⊢
      split
      · rw [sentSubscribes_append, hsend, hwait]
        rfl
      · rw [sentSubscribes_append, hsend, hwait]
        rfl
  unfold qcloudIotMqttConnect
  dsimp only
  split
  · rfl
  · split <;> exact hmqtt

/-- An attempt that leaves the client connected has sent a SUBSCRIBE for every entry
exactly if the network takes the packets of the connect as they are, and the entries can be
sent in the state that the connect leaves. -/
theorem resubscribes_all_iff (env : ConnectEnv) (resub : ℕ → RequestEnv) (c : Client)
    (hidle : c.isConnected = false) :
    ResubscribesAll env resub c ↔
      ((qcloudIotMqttConnect c.options env c).2.1.isConnected = true →
        (∀ e ∈ (qcloudIotMqttConnect c.options env c).2.2, TakenExactly e) ∧
          Resendable (takesExactly · · 0) resub 0
            (qcloudIotMqttConnect c.options env c).2.1.subHandles.slots
            (qcloudIotMqttConnect c.options env c).2.1.listSubWaitAck.length) := by
  have hconnect := connect_sent c.options env c
  unfold ResubscribesAll qcloudIotMqttAttemptReconnect
  rw [if_neg (by simp [hidle])]
  generalize qcloudIotMqttConnect c.options env c = r at hconnect
  obtain ⟨rc, c₁, events⟩ := r
  dsimp only at hconnect ⊢
  by_cases hconnected : c₁.isConnected = true
  · have hresub : qcloudIotMqttResubscribe resub c₁ =
        resubscribeLoop resub 0 c₁.subHandles.slots c₁ := if_neg (by simp [hconnected])
    obtain ⟨htable, hstill⟩ := resubscribeLoop_frame resub 0 c₁.subHandles.slots c₁
    rw [if_neg (by simp [hconnected])]
    dsimp only
    rw [hresub, htable, hstill, sentSubscribes_append, hconnect, List.nil_append]
    simp only [hconnected, forall_const, List.forall_mem_append]
    rcases resubscribeLoop_sent resub 0 c₁.subHandles.slots c₁ hconnected with
      ⟨hgood, hexact, hpackets⟩ | ⟨hbad, hfewer⟩
    · rw [and_iff_left hexact, and_iff_left hgood]
      exact and_iff_left ⟨_, List.Sublist.refl _, hpackets⟩
    · refine iff_of_false ?_ fun h => hbad h.2
      rintro ⟨-, packets, hsub, hpackets⟩
      have hle := hsub.length_le
      rw [← hpackets.length_eq] at hle
      omega
  · rw [if_pos (by simpa using hconnected)]
    exact iff_of_true (fun h => absurd h hconnected) fun h => absurd h hconnected

def acceptedConnect : ConnectEnv where
  network := .opened [0x20, 2, 0, 0]
  connId := [65]
  usernameOk := true
  writes := [.accept 2047]
  rounds := [cycleWith [.deliver, .deliver, .deliver]]
  now := 0

def subscribedOps : List Op :=
  handshake [0x90, 3, 0, 7, 1] ++
    [subscribeT, .yieldRead (cycleWith [.deliver, .deliver, .deliver]) [],
      .disconnect [.accept 2047]]

theorem resubscribes_all_iff_sample :
    (reached 5 5000 true deviceOptions subscribedOps).isConnected = false ∧
      ResubscribesAll acceptedConnect (fun _ => calmRequest 0)
        (reached 5 5000 true deviceOptions subscribedOps) :=
  ⟨by decide, (resubscribes_all_iff acceptedConnect (fun _ => calmRequest 0)
    (reached 5 5000 true deviceOptions subscribedOps) (by decide)).mpr (by decide)⟩

/-- A reconnect whose one SUBSCRIBE cannot be written leaves the client connected. -/
theorem silent_subscription :
    ¬ ∀ (random commandTimeout : ℕ) (eventHandle : Bool) (options : ConnectParams) (ops : List Op)
      (env : ConnectEnv) (resub : ℕ → RequestEnv),
      (reached random commandTimeout eventHandle options ops).isConnected = false →
      ResubscribesAll env resub (reached random commandTimeout eventHandle options ops) := by
  intro hclaim
  obtain ⟨-, packets, hsub, hpackets⟩ := hclaim 5 5000 true deviceOptions subscribedOps
    acceptedConnect
    (fun _ => ⟨0, true, true, [.fail .tcpWriteFail (by decide) 0]⟩) (by decide) (by decide)
  have hlength := hpackets.length_eq
  have hle := hsub.length_le
  rw [← hlength] at hle
  exact absurd hle (by decide)

end Connect

end IotExplorer.Reconnect
