import IotExplorer.FilterOwnership

/-!
Which subscriptions are ready. The table holds a filter from the SUBACK that
grants it to the call that unsubscribes it, as long as the acknowledgements meet
their nodes and carry a return code of the protocol, a call that takes a filter out
of the table sends its request, and a filter with a wildcard level is unsubscribed
only when it is the one filter in the table: such a call clears every entry. The
query answers true for every filter with a wildcard level.
-/
namespace IotExplorer.SubReady

open Basis.Runs Protocol PacketBytes PublishPacket ControlPackets Network ClientState WaitLists
open Requests PacketHandlers SessionSteps ClientRuns FilterOwnership

def textOf (handle : SubTopicHandle) : Option (List UInt8) :=
  handle.topicFilter.map FilterString.text

def tableTexts (slots : List SubTopicHandle) : List (List UInt8) := slots.filterMap textOf

/-- The first return code of the SUBACK that the next cycle handles. -/
def subackCode (reads : List ReadChoice) (c : Client) : Option UInt8 :=
  match receive reads c with
  | (.error _, _) => none
  | (.ok _, received) =>
      match deserializeSubackPacket 1 received.readBuf mqttRxBufLen with
      | .error _ => none
      | .ok (_, grantedQoS) => grantedQoS.head?

/-- The return code is there and is a QoS: it is neither the refusal nor reserved. -/
def grants (code : Option UInt8) : Bool := code.any (· ≤ 2)

/-- The filter that a packet with this return code grants: that of the node that waits for
it. -/
def grantedBy (c : Client) (code : Option UInt8) (packet : Incoming) : Option (List UInt8) :=
  match packet with
  | .suback packetId _ =>
      if grants code then
        (c.listSubWaitAck.find? fun node => Waits .subscribe packetId node).bind fun node =>
          textOf node.handler
      else none
  | _ => none

def grantedFilter (c : Client) (op : Op) : Option (List UInt8) :=
  (op.cycle c).bind fun env => grantedBy c (subackCode env.reads c) (incoming env.reads c)

/-- The filters that are granted and not unsubscribed since, after one more operation. A call
of unsubscribe that reports an error unsubscribes nothing. -/
def grantStep (c : Client) (op : Op) (filters : List (List UInt8)) : List (List UInt8) :=
  match op with
  | .unsubscribe topicFilter env =>
      if (qcloudIotMqttUnsubscribe topicFilter env c).1.isOk then
        filters.filter (· ≠ topicFilter)
      else filters
  | op => (grantedFilter c op).toList ++ filters

/-- The filters that were granted in a run and not unsubscribed since. -/
def granted (ops : List Op) (c : Client) : List (List UInt8) := track exec grantStep ops c []

/-- The length of an UNSUBSCRIBE for one filter. -/
def unsubscribeLength (text : List UInt8) : ℕ :=
  1 + (mqttWritePacketRemLen (text.length + 4)).length + (text.length + 4)

/-- The request to unsubscribe this filter goes out: there is a connection, memory and a place
for it, and `send_mqtt_packet` reports no error. -/
structure Unsubscribable (env : RequestEnv) (text : List UInt8) (c : Client) : Prop where
  connected : c.isConnected = true
  filterOk : env.filterOk = true
  nodeOk : env.nodeOk = true
  room : c.listSubWaitAck.length < maxMessageHandlers
  sent : reportsSent (unsubscribeLength text) env.writes = true

instance (env : RequestEnv) (text : List UInt8) (c : Client) :
    Decidable (Unsubscribable env text c) :=
  decidable_of_iff (c.isConnected = true ∧ env.filterOk = true ∧ env.nodeOk = true ∧
      c.listSubWaitAck.length < maxMessageHandlers ∧
      reportsSent (unsubscribeLength text) env.writes = true)
    ⟨fun h => ⟨h.1, h.2.1, h.2.2.1, h.2.2.2.1, h.2.2.2.2⟩,
      fun h => ⟨h.connected, h.filterOk, h.nodeOk, h.room, h.sent⟩⟩

/-- A call that unsubscribes a filter with a wildcard level meets no other filter in the
table, and one whose filter is there gets its request out. -/
def ClearsOne (c : Client) (op : Op) : Prop :=
  match op with
  | .unsubscribe topicFilter env =>
      topicFilter.length > maxSizeOfCloudTopic ∨
        ((hasWildcardLevel topicFilter = false ∨
            ∀ text ∈ tableTexts c.subHandles.slots, text = topicFilter) ∧
          (topicFilter ∈ tableTexts c.subHandles.slots → Unsubscribable env topicFilter c))
  | _ => True

instance (c : Client) (op : Op) : Decidable (ClearsOne c op) := by
  unfold ClearsOne
  split <;> infer_instance

/-- A SUBACK that meets a node refuses or has the return code of a grant. -/
def CodeKnown (iterOk : Bool) (code : Option UInt8) (packet : Incoming) (c : Client) : Prop :=
  match packet with
  | .suback packetId nack =>
      nack = true ∨ grants code = true ∨ lookup iterOk packetId c.listSubWaitAck = none
  | _ => True

instance (iterOk : Bool) (code : Option UInt8) (packet : Incoming) (c : Client) :
    Decidable (CodeKnown iterOk code packet c) :=
  match packet with
  | .suback packetId nack =>
      inferInstanceAs (Decidable (nack = true ∨ grants code = true ∨
        lookup iterOk packetId c.listSubWaitAck = none))
  | .other | .puback _ | .unsuback _ | .publish _ => isTrue trivial

/-- `CodeKnown` for the packet that an operation handles. -/
def CodesKnown (c : Client) (op : Op) : Prop :=
  ∀ env ∈ op.cycle c, CodeKnown env.iterOk (subackCode env.reads c) (incoming env.reads c) c

instance (c : Client) (op : Op) : Decidable (CodesKnown c op) :=
  inferInstanceAs (Decidable (∀ env ∈ op.cycle c,
    CodeKnown env.iterOk (subackCode env.reads c) (incoming env.reads c) c))

/-- After the run the query answers whether the filter is in the table, and this is so
if and only if it was granted and not unsubscribed since. -/
def ReadyIffGranted (c : Client) (ops : List Op) (topicFilter : List UInt8) : Prop :=
  (qcloudIotMqttIsSubReady topicFilter (run exec ops c).1 = true ↔
    topicFilter ∈ tableTexts (run exec ops c).1.subHandles.slots) ∧
  (topicFilter ∈ tableTexts (run exec ops c).1.subHandles.slots ↔ topicFilter ∈ granted ops c)

section Table
variable {c c' : Client} {env : CycleEnv} {packet : Incoming} {op : Op}
  {topicFilter text : List UInt8}

theorem mem_tableTexts {slots : List SubTopicHandle} :
    text ∈ tableTexts slots ↔ ∃ handle ∈ slots, textOf handle = some text := List.mem_filterMap

theorem filterIs_iff {handle : SubTopicHandle} :
    filterIs topicFilter handle = true ↔ textOf handle = some topicFilter := by
  unfold filterIs textOf
  cases handle.topicFilter <;> simp

theorem FiltersOwned.text_valid (h : FiltersOwned c)
    (htext : text ∈ tableTexts c.subHandles.slots) :
    text ≠ [] ∧ text.length ≤ maxSizeOfCloudTopic := by
  obtain ⟨handle, hmem, hhandle⟩ := mem_tableTexts.mp htext
  obtain ⟨filter, hfilter, rfl⟩ := Option.map_eq_some_iff.mp hhandle
  obtain ⟨filter', hfilter', hvalid⟩ := h.entries handle hmem (by simp [hfilter])
  obtain rfl : filter = filter' := Option.some.inj (hfilter.symm.trans hfilter')
  exact hvalid

/-- The scan of unsubscribe takes its filter out of the table, and no other one when the
table is not cleared. -/
theorem tableTexts_clearEntry {slots : List SubTopicHandle}
    (hone : hasWildcardLevel topicFilter = false ∨ ∀ text ∈ tableTexts slots, text = topicFilter) :
    text ∈ tableTexts (slots.map (clearEntry topicFilter)) ↔
      text ∈ tableTexts slots ∧ text ≠ topicFilter := by
  rw [mem_tableTexts, mem_tableTexts]
  constructor
  · rintro ⟨handle, hmem, htext⟩
    obtain ⟨old, hold, rfl⟩ := List.mem_map.mp hmem
    unfold clearEntry at htext
    split at htext
    · cases htext
    next hkept =>
      refine ⟨⟨old, hold, htext⟩, fun hsame => hkept ?_⟩
      rw [unsubscribes, filterIs_iff.mpr (hsame ▸ htext), Bool.true_or]
  · rintro ⟨⟨old, hold, htext⟩, hne⟩
    have hother : filterIs topicFilter old = false := by
      rw [Bool.eq_false_iff, ne_eq, filterIs_iff, htext]
      simpa using hne
    have hplain : hasWildcardLevel topicFilter = false :=
      hone.resolve_right fun hall => hne (hall text (mem_tableTexts.mpr ⟨old, hold, htext⟩))
    have hkept : clearEntry topicFilter old = old := by
      unfold clearEntry unsubscribes
      rw [hother, hplain]
      rfl
    exact ⟨old, hkept ▸ List.mem_map_of_mem hold, htext⟩

/-- What unsubscribe does to the table. -/
theorem unsubscribe_table (topicFilter : List UInt8) (env : RequestEnv) (c : Client) :
    (exec (.unsubscribe topicFilter env) c).1.subHandles =
      if topicFilter = [] ∨ topicFilter.length > maxSizeOfCloudTopic then c.subHandles
      else c.subHandles.map (clearEntry topicFilter) := by
  dsimp only [exec]
  unfold qcloudIotMqttUnsubscribe
  by_cases hempty : topicFilter = []
  · rw [if_pos hempty, if_pos (Or.inl hempty)]
  by_cases hlong : topicFilter.length > maxSizeOfCloudTopic
  · rw [if_neg hempty, if_pos hlong, if_pos (Or.inr hlong)]
  have haccepted : ¬ (topicFilter = [] ∨ topicFilter.length > maxSizeOfCloudTopic) := by
    rintro (h | h)
    · exact hempty h
    · exact hlong h
  rw [if_neg hempty, if_neg hlong, if_neg haccepted]
  dsimp only
  split
  · rfl
  · exact (sendUnsubscribe_requested env (removeEntries topicFilter c).1 hempty
      (Nat.le_of_not_lt hlong)).1.subHandles

theorem serializeUnsubscribePacket_one (packetId : ℕ) (hshort : text.length ≤ maxSizeOfCloudTopic) :
    ∃ packet, serializeUnsubscribePacket mqttTxBufLen 0 packetId 1 [text] = .ok packet ∧
      packet.length = unsubscribeLength text := by
  have hmax : maxSizeOfCloudTopic = 128 := rfl
  have hbuf : mqttTxBufLen = 2048 := rfl
  have hremLen : getUnsubscribePacketRemLen 1 [text] = text.length + 4 := by
    simp [getUnsubscribePacketRemLen, filterAt]
    omega
  have hpacketLen : ¬ getMqttPacketLen (text.length + 4) > mqttTxBufLen := by
    dsimp only [getMqttPacketLen]
    split_ifs <;> omega
  have hheader : mqttInitPacketHeader .unsubscribe .qos1 0 0 = .ok 0xA2 := rfl
  unfold serializeUnsubscribePacket
  dsimp only
  rw [hremLen, if_neg hpacketLen, hheader]
  refine ⟨_, rfl, ?_⟩
  simp [unsubscribeLength, mqttWriteUint16, mqttWriteUtf8String, filterAt]
  omega

/-- A call whose filter is in the table succeeds if its request goes out. -/
theorem unsubscribe_isOk {env : RequestEnv} (hne : topicFilter ≠ [])
    (hshort : topicFilter.length ≤ maxSizeOfCloudTopic)
    (hmem : topicFilter ∈ tableTexts c.subHandles.slots) (h : Unsubscribable env topicFilter c) :
    (qcloudIotMqttUnsubscribe topicFilter env c).1.isOk = true := by
  obtain ⟨handle, hhandle, htext⟩ := mem_tableTexts.mp hmem
  have hexists : c.subHandles.slots.any (unsubscribes topicFilter) = true := by
    refine List.any_eq_true.mpr ⟨handle, hhandle, ?_⟩
    rw [unsubscribes, filterIs_iff.mpr htext, Bool.true_or]
  obtain ⟨packet, hpacket, hlength⟩ := serializeUnsubscribePacket_one
    { (removeEntries topicFilter c).1 with
      heap := (removeEntries topicFilter c).1.heap.alloc }.getNextPacketId.nextPacketId hshort
  unfold qcloudIotMqttUnsubscribe
  rw [if_neg hne, if_neg (Nat.not_lt.mpr hshort)]
  dsimp only
  rw [hexists, if_neg (by decide)]
  unfold sendUnsubscribe
  have hconnected : (removeEntries topicFilter c).1.isConnected = true := h.connected
  rw [if_neg (by simp [hconnected]), if_neg (by simp [h.filterOk])]
  dsimp only
  rw [hpacket]
  refine pushAndSend_isOk_iff.mpr ⟨h.room, h.nodeOk, ?_⟩
  rw [hlength]
  exact h.sent

/-- A call that is refused is an error. -/
theorem unsubscribe_refused {env : RequestEnv}
    (h : topicFilter = [] ∨ topicFilter.length > maxSizeOfCloudTopic) :
    (qcloudIotMqttUnsubscribe topicFilter env c).1.isOk = false := by
  unfold qcloudIotMqttUnsubscribe
  by_cases hempty : topicFilter = []
  · rw [if_pos hempty]
    rfl
  · rw [if_neg hempty, if_pos (h.resolve_left hempty)]
    rfl

/-- The return code of the SUBACK that is handled is the one that refuses or not. -/
theorem incoming_suback {reads : List ReadChoice} {packetId : ℕ} {nack : Bool}
    (h : incoming reads c = .suback packetId nack) :
    nack = (subackCode reads c == some 0x80) := by
  unfold incoming incomingPacket at h
  unfold subackCode
  generalize receive reads c = received at h ⊢
  obtain ⟨_ | packetType, received⟩ := received
  · cases h
  · dsimp only at h ⊢
    generalize deserializeSubackPacket 1 received.readBuf mqttRxBufLen = suback at h ⊢
    split_ifs at h
    · split at h <;> cases h
    · rcases suback with _ | ⟨subackId, grantedQoS⟩
      · cases h
      · cases h
        rfl
    · split at h <;> cases h
    · split at h <;> cases h

/-- A lookup that finds the waiting node grants its filter. -/
theorem grantedBy_suback {packetId : ℕ} {node : SubInfo}
    (hfinds : FindsWaiting env.iterOk .subscribe packetId c.listSubWaitAck)
    (hfound : lookup env.iterOk packetId c.listSubWaitAck = some node) {code : Option UInt8}
    (hgrants : grants code = true) (nack : Bool) :
    grantedBy c code (.suback packetId nack) = textOf node.handler := by
  unfold FindsWaiting at hfinds
  rw [hfound] at hfinds
  obtain ⟨hwaits, hone⟩ := hfinds
  unfold grantedBy
  dsimp only
  rw [if_pos hgrants]
  cases hfirst : c.listSubWaitAck.find? fun node => Waits .subscribe packetId node with
  | none =>
    have hnone := List.find?_eq_none.mp hfirst node (lookup_some hfound).2.1
    exact absurd (decide_eq_true hwaits) hnone
  | some first =>
    have hfirstWaits : Waits .subscribe packetId first := by simpa using List.find?_some hfirst
    rw [hone first (List.mem_of_find?_eq_some hfirst) hfirstWaits.nodeState hfirstWaits.msgId]
    rfl

theorem grantedBy_none {packetId : ℕ}
    (hfinds : FindsWaiting env.iterOk .subscribe packetId c.listSubWaitAck)
    (hmiss : lookup env.iterOk packetId c.listSubWaitAck = none) (code : Option UInt8)
    (nack : Bool) : grantedBy c code (.suback packetId nack) = none := by
  unfold FindsWaiting at hfinds
  rw [hmiss] at hfinds
  have hnone : (c.listSubWaitAck.find? fun node => Waits .subscribe packetId node) = none :=
    List.find?_eq_none.mpr fun node hnode => by simpa using hfinds node hnode
  unfold grantedBy
  dsimp only
  rw [hnone, Option.bind_none, ite_self]

/-- Installing a handle that has a place adds its filter to the table. -/
theorem installHandle_texts {handle : SubTopicHandle} (packetId : ℕ)
    (hplace : HasPlace handle c.subHandles) {filter : FilterString}
    (hfilter : handle.topicFilter = some filter) :
    text ∈ tableTexts (installHandle packetId handle c).2.1.subHandles.slots ↔
      text ∈ tableTexts c.subHandles.slots ∨ filter.text = text := by
  have hhandle : textOf handle = some filter.text := by rw [textOf, hfilter, Option.map_some]
  rcases installHandle_cases packetId hplace with
    ⟨i, old, hslot, hfind, heq⟩ | ⟨i, old, hslot, hfree, -, heq⟩
  · have hold : filter.text ∈ tableTexts c.subHandles.slots := by
      refine mem_tableTexts.mpr ⟨old, List.mem_of_getElem? hslot, ?_⟩
      exact (handleIsIdentical_spec (List.find?_some hfind)).1.trans hhandle
    have hmap : ∀ slots : List SubTopicHandle, tableTexts slots =
        (slots.map SubTopicHandle.topicFilter).filterMap fun filter =>
          filter.map FilterString.text := by
      intro slots
      rw [List.filterMap_map]
      rfl
    rw [heq]
    dsimp only
    rw [hmap, modify_topicFilter, ← hmap]
    exact ⟨Or.inl, fun h => h.elim id fun hsame => hsame ▸ hold⟩
  · have hnone : textOf old = none := by rw [textOf, hfree, Option.map_none]
    rw [heq]
    refine (filterMap_set hslot hnone hhandle).mem_iff.trans ?_
    rw [List.mem_cons, or_comm]
    exact or_congr Iff.rfl eq_comm

/-- A packet whose lookup is sound adds the filter that it grants to the table. -/
theorem applyIncoming_texts {code : Option UInt8} (howned : FiltersOwned c)
    (hsound : LookupSound env packet c) (hknown : CodeKnown env.iterOk code packet c)
    (hcode : ∀ packetId nack, packet = .suback packetId nack → nack = (code == some 0x80)) :
    text ∈ tableTexts (applyIncoming env packet c).1.subHandles.slots ↔
      text ∈ tableTexts c.subHandles.slots ∨ grantedBy c code packet = some text := by
  have hsame : ∀ {p : Prop}, p ↔ p ∨ (none : Option (List UInt8)) = some text := by simp
  cases packet with
  | other => exact hsame
  | puback packetId =>
    dsimp only [applyIncoming]
    rw [maskPubInfoFrom_eq]
    exact hsame
  | suback packetId nack =>
    obtain ⟨hfinds, hplace⟩ := hsound
    dsimp only [applyIncoming]
    cases hfound : lookup env.iterOk packetId c.listSubWaitAck with
    | none =>
      rw [resolveSuback_none hfound, grantedBy_none hfinds hfound]
      exact hsame
    | some node =>
      obtain ⟨filter, hfilter, -⟩ := howned.nodes node (lookup_some hfound).2.1
      have hsome : node.handler.topicFilter ≠ none := by simp [hfilter]
      cases nack with
      | true =>
        obtain rfl : code = some 0x80 := by simpa using hcode packetId true rfl
        rw [resolveSuback_refused hfound hsome]
        exact hsame
      | false =>
        have hgrants : grants code = true := by
          rcases hknown with hnack | hgrants | hmiss
          · cases hnack
          · exact hgrants
          · rw [hfound] at hmiss
            cases hmiss
        rw [resolveSuback_granted hfound hsome, grantedBy_suback hfinds hfound hgrants, textOf,
          hfilter, Option.map_some, Option.some.injEq]
        exact @installHandle_texts
          { c with listSubWaitAck := maskSubNodes packetId c.listSubWaitAck } text node.handler
          packetId (hplace rfl node hfound) filter hfilter
  | unsuback packetId =>
    dsimp only [applyIncoming, resolveUnsuback]
    rw [maskSubInfoFrom_eq]
    exact hsame
  | publish fields =>
    dsimp only [applyIncoming]
    unfold addPacketIdToRepeatBuf
    split
    · exact hsame
    · split <;> exact hsame

end Table

section Runs
variable {c : Client} {filters : List (List UInt8)}

structure TableHolds (c : Client) (filters : List (List UInt8)) : Prop where
  owned : FiltersOwned c
  texts : ∀ text, text ∈ tableTexts c.subHandles.slots ↔ text ∈ filters

theorem grantStep_idle {op : Op} (hop : ∀ topicFilter env, op ≠ .unsubscribe topicFilter env)
    (hidle : op.cycle c = none) : grantStep c op filters = filters := by
  have hnone : grantedFilter c op = none := by rw [grantedFilter, hidle, Option.bind_none]
  unfold grantStep
  split
  next topicFilter env => exact absurd rfl (hop topicFilter env)
  · rw [hnone]
    rfl

theorem TableHolds.unsubscribe (h : TableHolds c filters) (topicFilter : List UInt8)
    (env : RequestEnv) (hone : ClearsOne c (.unsubscribe topicFilter env)) (text : List UInt8) :
    text ∈ tableTexts (exec (.unsubscribe topicFilter env) c).1.subHandles.slots ↔
      text ∈ grantStep c (.unsubscribe topicFilter env) filters := by
  rw [unsubscribe_table]
  dsimp only [grantStep]
  by_cases hrefused : topicFilter = [] ∨ topicFilter.length > maxSizeOfCloudTopic
  · rw [if_pos hrefused, unsubscribe_refused hrefused, if_neg Bool.false_ne_true]
    exact h.texts text
  obtain ⟨hne, hshort⟩ := not_or.mp hrefused
  obtain ⟨hown, hsends⟩ := hone.resolve_left hshort
  rw [if_neg hrefused]
  refine (tableTexts_clearEntry hown).trans ?_
  cases hok : (qcloudIotMqttUnsubscribe topicFilter env c).1.isOk with
  | true => simp [← h.texts text]
  | false =>
    -- nothing was taken out: the filter was not there
    have hgone : topicFilter ∉ tableTexts c.subHandles.slots := by
      intro hmem
      have htrue := unsubscribe_isOk hne (Nat.le_of_not_lt hshort) hmem (hsends hmem)
      rw [hok] at htrue
      cases htrue
    rw [if_neg Bool.false_ne_true, h.texts text]
    refine and_iff_left_of_imp fun hmem => ?_
    rintro rfl
    exact hgone ((h.texts text).mpr hmem)

/-- One operation takes out what it unsubscribes and adds what it grants. -/
theorem TableHolds.step (h : TableHolds c filters) (op : Op) (hacks : AcksMeetNodes c op)
    (hcodes : CodesKnown c op) (hone : ClearsOne c op) :
    TableHolds (exec op c).1 (grantStep c op filters) := by
  refine ⟨h.owned.step op hacks, fun text => ?_⟩
  by_cases hunsub : ∃ topicFilter env, op = .unsubscribe topicFilter env
  · obtain ⟨topicFilter, env, rfl⟩ := hunsub
    exact h.unsubscribe topicFilter env hone text
  have hop : ∀ topicFilter env, op ≠ .unsubscribe topicFilter env :=
    fun topicFilter env heq => hunsub ⟨topicFilter, env, heq⟩
  cases hcycle : op.cycle c with
  | none =>
    have htable : (exec op c).1.subHandles = c.subHandles := by
      have hstep := exec_session op c
      generalize (exec op c).1 = c' at hstep ⊢
      generalize (exec op c).2 = events at hstep
      cases hstep with
      | same noReceipt same plain => exact same.subHandles
      | requested noReceipt request plain => exact request.subHandles
      | unsubscribed topicFilter env isOp nonempty short request plain =>
        exact absurd isOp (hop topicFilter env)
      | received env cycle same plain =>
        rw [cycle] at hcycle
        cases hcycle
      | pubScan iterOk clock isOp =>
        rw [pubInfoProc_frame]
      | subScan iterOk clock isOp =>
        rw [subInfoProc_frame]
      | setEventHandler isSet isOp => rfl
      | resetRepeatBuffer isOp => rfl
    rw [grantStep_idle hop hcycle, htable]
    exact h.texts text
  | some env =>
    have hgranted : grantStep c op filters =
        (grantedBy c (subackCode env.reads c) (incoming env.reads c)).toList ++ filters := by
      unfold grantStep
      split
      next topicFilter env' => exact absurd rfl (hop topicFilter env')
      · rw [grantedFilter, hcycle, Option.bind_some]
    rw [hgranted, (exec_received hcycle).subHandles,
      applyIncoming_texts h.owned (hacks env hcycle) (hcodes env hcycle)
        (fun _ _ => incoming_suback),
      h.texts text, List.mem_append, Option.mem_toList]
    exact or_comm

theorem isSubReady_iff {topicFilter : List UInt8} :
    qcloudIotMqttIsSubReady topicFilter c = true ↔
      topicFilter ≠ [] ∧ topicFilter.length ≤ maxSizeOfCloudTopic ∧
        (topicFilter ∈ tableTexts c.subHandles.slots ∨ hasWildcardLevel topicFilter = true) := by
  unfold qcloudIotMqttIsSubReady
  by_cases hempty : topicFilter = []
  · simp [hempty]
  by_cases hlong : topicFilter.length > maxSizeOfCloudTopic
  · rw [if_neg hempty, if_pos hlong]
    simp only [Bool.false_eq_true, false_iff]
    rintro ⟨-, hshort, -⟩
    omega
  rw [if_neg hempty, if_neg hlong, List.any_eq_true, mem_tableTexts]
  have hslot : ∃ handle, handle ∈ c.subHandles.slots := by
    refine List.exists_mem_of_length_pos ?_
    rw [c.subHandles.size]
    decide
  constructor
  · rintro ⟨handle, hmem, hready⟩
    refine ⟨hempty, Nat.le_of_not_lt hlong, ?_⟩
    rcases Bool.or_eq_true_iff.mp hready with htext | hwild
    · exact Or.inl ⟨handle, hmem, filterIs_iff.mp htext⟩
    · exact Or.inr hwild
  · rintro ⟨-, -, ⟨handle, hmem, htext⟩ | hwild⟩
    · exact ⟨handle, hmem, by rw [filterIs_iff.mpr htext, Bool.true_or]⟩
    · obtain ⟨handle, hmem⟩ := hslot
      exact ⟨handle, hmem, by rw [hwild, Bool.or_true]⟩

/-- In every run whose acknowledgements meet their nodes and have a return code of the
protocol, and whose calls of unsubscribe clear their own filter only and send what they have
to, the query is right about a filter exactly if the filter has no wildcard level, is too
long, or is in the table. -/
theorem ready_iff_granted (random commandTimeout : ℕ) (eventHandle : Bool)
    (options : ConnectParams) (ops : List Op) (topicFilter : List UInt8)
    (hacks : Along exec AcksMeetNodes ops
      (Client.init random commandTimeout eventHandle options))
    (hcodes : Along exec CodesKnown ops (Client.init random commandTimeout eventHandle options))
    (hone : Along exec ClearsOne ops (Client.init random commandTimeout eventHandle options)) :
    ReadyIffGranted (Client.init random commandTimeout eventHandle options) ops topicFilter ↔
      hasWildcardLevel topicFilter = false ∨ topicFilter.length > maxSizeOfCloudTopic ∨
        topicFilter ∈ tableTexts
          (reached random commandTimeout eventHandle options ops).subHandles.slots := by
  have hinit : TableHolds (Client.init random commandTimeout eventHandle options) [] :=
    ⟨filtersOwned_init random commandTimeout eventHandle options, fun text => Iff.rfl⟩
  have hrun : TableHolds (reached random commandTimeout eventHandle options ops)
      (granted ops (Client.init random commandTimeout eventHandle options)) :=
    track_invariant (fun _ _ op h hop => h.step op hop.1 hop.2.1 hop.2.2) hinit
      (hacks.and (hcodes.and hone))
  unfold ReadyIffGranted reached at *
  rw [isSubReady_iff, and_iff_left (hrun.texts topicFilter)]
  generalize (run exec ops (Client.init random commandTimeout eventHandle options)).1 = c at *
  constructor
  · intro hquery
    by_cases hwild : hasWildcardLevel topicFilter = true
    · by_cases hlong : topicFilter.length > maxSizeOfCloudTopic
      · exact Or.inr (Or.inl hlong)
      · have hne : topicFilter ≠ [] := by
          rintro rfl
          cases hwild
        exact Or.inr (Or.inr (hquery.mp ⟨hne, Nat.le_of_not_lt hlong, Or.inr hwild⟩))
    · exact Or.inl (by simpa using hwild)
  · intro hgood
    constructor
    · rintro ⟨hne, hshort, hmem | hwild⟩
      · exact hmem
      · rcases hgood with hplain | hlong | hmem
        · rw [hplain] at hwild
          cases hwild
        · omega
        · exact hmem
    · intro hmem
      obtain ⟨hne, hshort⟩ := FiltersOwned.text_valid hrun.owned hmem
      exact ⟨hne, hshort, Or.inl hmem⟩

/-- The operations of a client whose subscription of `t` is granted, and that unsubscribes. -/
def grantedAndLeft : List Op :=
  handshake [0x90, 3, 0, 7, 1] ++
    [subscribeT, .yieldRead (cycleWith [.deliver, .deliver, .deliver]) [],
      .unsubscribe [116] (calmRequest 0)]

theorem ready_iff_granted_sample :
    (granted (grantedAndLeft.take 5) (Client.init 5 5000 true deviceOptions) = [[116]] ∧
      granted grantedAndLeft (Client.init 5 5000 true deviceOptions) = []) ∧
    ReadyIffGranted (Client.init 5 5000 true deviceOptions) grantedAndLeft [116] :=
  ⟨by decide, (ready_iff_granted 5 5000 true deviceOptions grantedAndLeft [116] (by decide)
    (by decide) (by decide)).mpr (Or.inl (by decide))⟩

/-- The query answers true for `a/#` on a client without subscriptions. -/
theorem wildcard_always_ready :
    ¬ ∀ (random commandTimeout : ℕ) (eventHandle : Bool) (options : ConnectParams) (ops : List Op)
      (topicFilter : List UInt8),
      ReadyIffGranted (Client.init random commandTimeout eventHandle options) ops topicFilter := by
  intro hclaim
  have hready := (hclaim 5 5000 true deviceOptions [] [97, 47, 35]).1.mp (by decide)
  exact absurd hready (by decide)

end Runs

end IotExplorer.SubReady
