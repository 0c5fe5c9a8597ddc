import IotExplorer.PacketBytes

/-!
The PUBLISH packet of mqtt_client_publish.c. The deserializer returns offsets
into the receive buffer, as the code returns pointers; the end of the packet
comes from the remaining length field, and the payload length is a pointer
difference cast to `size_t`. The serializer returns the bytes it leaves at the
start of the transmit buffer.
-/
namespace IotExplorer.PublishPacket

open Protocol PacketBytes

/-- The values `deserialize_publish_packet` returns through its pointers. The
packet id is written for a nonzero QoS only. -/
structure PublishFields where
  dup : UInt8
  qos : UInt8
  retained : UInt8
  packetId : Option ℕ
  topicName : ℕ
  topicNameLen : ℕ
  payload : ℕ
  payloadLen : ℕ
  deriving DecidableEq

/-- A pointer difference cast to `size_t`. -/
def toSizeT (n : ℤ) : ℕ := (n % 2 ^ 64).toNat

/-- `_read_string_with_len`: the start of the string and its length. -/
def readStringWithLen (buf : Buffer) (pos enddata : ℕ) : Except ReturnCode (ℕ × ℕ) :=
  if (enddata : ℤ) - pos > 1 then
    let stringLen := mqttReadUint16 buf pos
    if stringLen > mqttRxBufLen then .error .failure
    else if pos + 2 + stringLen ≤ enddata then .ok (pos + 2, stringLen)
    else .error .failure
  else .error .failure

/-- The end of `deserialize_publish_packet`: the id when the QoS asks for one,
and the payload up to `enddata`. -/
def publishFields (buf : Buffer) (header : UInt8) (topicName topicNameLen enddata : ℕ) :
    PublishFields :=
  let curdata := topicName + topicNameLen
  let payload := if headerQos header ≠ 0 then curdata + 2 else curdata
  { dup := headerDup header
    qos := headerQos header
    retained := headerRetained header
    packetId := if headerQos header ≠ 0 then some (mqttReadUint16 buf curdata) else none
    topicName := topicName
    topicNameLen := topicNameLen
    payload := payload
    payloadLen := toSizeT ((enddata : ℤ) - payload) }

def deserializePublishPacket (buf : Buffer) (bufLen : ℕ) : Except ReturnCode PublishFields :=
  if 4 > bufLen then .error .bufTooShort
  else
    let header := byteAt buf 0
    if headerType header ≠ MessageType.publish.code then .error .failure
    else
      match mqttReadPacketRemLenFormBuf buf 1 with
      | .error rc => .error rc
      | .ok (decodedLen, curdata) =>
          let enddata := curdata + decodedLen
          match readStringWithLen buf curdata enddata with
          | .error _ => .error .failure
          | .ok (topicName, topicNameLen) =>
              if 0 > (enddata : ℤ) - (topicName + topicNameLen : ℕ) then .error .failure
              else .ok (publishFields buf header topicName topicNameLen enddata)

/-- `_get_publish_packet_len`, with the cast to 32 bits. -/
def getPublishPacketLen (qos : QoS) (topicName : List UInt8) (payloadLen : ℕ) : ℕ :=
  (2 + topicName.length + payloadLen + if qos.code > 0 then 2 else 0) % 2 ^ 32

def serializePublishPacket (bufLen : ℕ) (dup : UInt8) (qos : QoS) (retained : UInt8)
    (packetId : ℕ) (topicName payload : List UInt8) : Except ReturnCode (List UInt8) :=
  let remLen := getPublishPacketLen qos topicName payload.length
  if getMqttPacketLen remLen > bufLen then .error .bufTooShort
  else
    match mqttInitPacketHeader .publish qos dup retained with
    | .error rc => .error rc
    | .ok header =>
        .ok (header :: mqttWritePacketRemLen remLen ++ mqttWriteUtf8String topicName ++
          (if qos.code > 0 then mqttWriteUint16 packetId else []) ++ payload)

section Header

/-- Only the lowest bit of a flag argument reaches the header byte. -/
theorem flag_bit (x : UInt8) :
    (x &&& 1 = 0 ∧ (x <<< (3 : UInt8)) &&& 0x08 = 0) ∨
      (x &&& 1 = 1 ∧ (x <<< (3 : UInt8)) &&& 0x08 = 8) := by
  have hbits : ∀ b : BitVec 8,
      (UInt8.ofBitVec b &&& 1 = 0 ∧ (UInt8.ofBitVec b <<< (3 : UInt8)) &&& 0x08 = 0) ∨
        (UInt8.ofBitVec b &&& 1 = 1 ∧ (UInt8.ofBitVec b <<< (3 : UInt8)) &&& 0x08 = 8) := by
    decide
  exact hbits x.toBitVec

/-- The fields of a PUBLISH header are read back from it. -/
theorem publish_header (qos : QoS) (dup retained : UInt8) :
    ∃ header, mqttInitPacketHeader .publish qos dup retained = .ok header ∧
      headerType header = MessageType.publish.code ∧ headerDup header = dup &&& 1 ∧
      headerQos header = qos.code ∧ headerRetained header = retained &&& 1 := by
  refine ⟨_, rfl, ?_⟩
  rcases flag_bit dup with ⟨hd, hd3⟩ | ⟨hd, hd3⟩ <;>
    rcases flag_bit retained with ⟨hr, -⟩ | ⟨hr, -⟩ <;>
    rw [hd3, hr, hd] <;> cases qos <;> decide

/-- A header depends on the lowest bit of its flag arguments only. -/
theorem header_flag_bits (messageType : MessageType) (qos : QoS) (dup retained : UInt8) :
    mqttInitPacketHeader messageType qos (dup &&& 1) (retained &&& 1) =
      mqttInitPacketHeader messageType qos dup retained := by
  have hd : (dup &&& 1) <<< (3 : UInt8) &&& 0x08 = dup <<< (3 : UInt8) &&& 0x08 := by
    rcases flag_bit dup with ⟨h, h3⟩ | ⟨h, h3⟩ <;> rw [h, h3] <;> decide
  have hr : retained &&& 1 &&& 1 = retained &&& 1 := by
    rcases flag_bit retained with ⟨h, -⟩ | ⟨h, -⟩ <;> rw [h] <;> decide
  simp only [mqttInitPacketHeader, hd, hr]

end Header

/-- What the deserializer does behind the remaining length field. -/
theorem deserializePublishPacket_of_remLen (buf : Buffer) (bufLen remLen h : ℕ)
    (hbuf : 4 ≤ bufLen) (htype : headerType (byteAt buf 0) = MessageType.publish.code)
    (hrem : mqttReadPacketRemLenFormBuf buf 1 = .ok (remLen, h)) :
    deserializePublishPacket buf bufLen =
      if 2 ≤ remLen ∧ mqttReadUint16 buf h ≤ mqttRxBufLen ∧ 2 + mqttReadUint16 buf h ≤ remLen then
        .ok (publishFields buf (byteAt buf 0) (h + 2) (mqttReadUint16 buf h) (h + remLen))
      else .error .failure := by
  have hshort : ¬ 4 > bufLen := by omega
  simp only [deserializePublishPacket, if_neg hshort, htype, ne_eq, not_true_eq_false, if_false,
    hrem, readStringWithLen]
  by_cases htwo : 2 ≤ remLen
  · have hroom : ((h + remLen : ℕ) : ℤ) - h > 1 := by omega
    rw [if_pos hroom]
    by_cases hmax : mqttReadUint16 buf h ≤ mqttRxBufLen
    · have hmax' : ¬ mqttReadUint16 buf h > mqttRxBufLen := by omega
      rw [if_neg hmax']
      by_cases hfit : 2 + mqttReadUint16 buf h ≤ remLen
      · have hfit' : h + 2 + mqttReadUint16 buf h ≤ h + remLen := by omega
        have hend : ¬ 0 > ((h + remLen : ℕ) : ℤ) - (h + 2 + mqttReadUint16 buf h : ℕ) := by omega
        simp only [if_pos hfit', if_neg hend, htwo, hmax, hfit, true_and, if_true]
      · have hfit' : ¬ h + 2 + mqttReadUint16 buf h ≤ h + remLen := by omega
        simp only [if_neg hfit', hfit, and_false, if_false]
    · have hmax' : mqttReadUint16 buf h > mqttRxBufLen := by omega
      simp only [if_pos hmax', hmax, false_and, and_false, if_false]
  · have hroom : ¬ ((h + remLen : ℕ) : ℤ) - h > 1 := by omega
    simp only [if_neg hroom, htwo, false_and, if_false]

theorem toSizeT_natCast (n : ℕ) (h : n < 2 ^ 64) : toSizeT n = n := by
  unfold toSizeT
  omega

section RoundTrip
variable (bufLen : ℕ) (dup retained : UInt8) (qos : QoS) (packetId : ℕ)
  (topicName payload : List UInt8)

/-- The number of bytes of the variable header and the payload. -/
def publishBodyLen : ℕ :=
  2 + topicName.length + payload.length + if qos.code > 0 then 2 else 0

def packetIdField : List UInt8 := if qos.code > 0 then mqttWriteUint16 packetId else []

theorem packetIdField_length :
    (packetIdField qos packetId).length = if qos.code > 0 then 2 else 0 := by
  unfold packetIdField
  split <;> rfl

theorem mqttWriteUtf8String_length (string : List UInt8) :
    (mqttWriteUtf8String string).length = 2 + string.length := by
  simp only [mqttWriteUtf8String, mqttWriteUint16, List.length_append, List.length_cons,
    List.length_nil]

/-- A successful serialization, piece by piece. -/
theorem serializePublishPacket_eq_ok {packet : List UInt8}
    (h : serializePublishPacket bufLen dup qos retained packetId topicName payload = .ok packet) :
    ∃ header, mqttInitPacketHeader .publish qos dup retained = .ok header ∧
      getMqttPacketLen (getPublishPacketLen qos topicName payload.length) ≤ bufLen ∧
      packet = header :: mqttWritePacketRemLen (getPublishPacketLen qos topicName payload.length) ++
        mqttWriteUtf8String topicName ++ packetIdField qos packetId ++ payload := by
  simp only [serializePublishPacket] at h
  split at h
  · cases h
  · next hlen =>
    obtain ⟨header, hheader, -⟩ := publish_header qos dup retained
    rw [hheader] at h
    exact ⟨header, hheader, by omega, (Except.ok.inj h).symm⟩

theorem getPublishPacketLen_eq (h : publishBodyLen qos topicName payload < 2 ^ 32) :
    getPublishPacketLen qos topicName payload.length = publishBodyLen qos topicName payload :=
  Nat.mod_eq_of_lt h

/-- Reading a packet of these fields, whatever bytes follow it in the buffer. -/
theorem deserialize_packet_bytes (header : UInt8) (remLen : ℕ) (stale : Buffer)
    (hbuf : 4 ≤ bufLen) (htype : headerType header = MessageType.publish.code)
    (hqos : headerQos header = qos.code) (hrem : remLen = publishBodyLen qos topicName payload)
    (hlt : remLen < 2 ^ 28) (htopic : topicName.length ≤ mqttRxBufLen) (hid : packetId < 2 ^ 16) :
    deserializePublishPacket (header :: mqttWritePacketRemLen remLen ++
        mqttWriteUtf8String topicName ++ packetIdField qos packetId ++ payload ++ stale) bufLen =
      .ok { dup := headerDup header
            qos := qos.code
            retained := headerRetained header
            packetId := if qos.code > 0 then some packetId else none
            topicName := 1 + (mqttWritePacketRemLen remLen).length + 2
            topicNameLen := topicName.length
            payload := 1 + (mqttWritePacketRemLen remLen).length + 2 + topicName.length +
              (packetIdField qos packetId).length
            payloadLen := payload.length } := by
  generalize hw : mqttWritePacketRemLen remLen = w
  generalize hbytes : header :: w ++ mqttWriteUtf8String topicName ++ packetIdField qos packetId ++
    payload ++ stale = buf
  have hhead : byteAt buf 0 = header := by rw [← hbytes]; rfl
  have hread : mqttReadPacketRemLenFormBuf buf 1 = .ok (remLen, 1 + w.length) := by
    have hstep := mqttReadPacketRemLenFormBuf_write [header]
      (mqttWriteUtf8String topicName ++ packetIdField qos packetId ++ payload ++ stale) 1 remLen
      rfl hlt
    rw [← hw, ← hstep, ← hbytes, hw]
    simp only [List.append_assoc, List.cons_append, List.nil_append]
  have htopicLen : mqttReadUint16 buf (1 + w.length) = topicName.length := by
    have hmod : topicName.length % 2 ^ 16 = topicName.length := by
      apply Nat.mod_eq_of_lt
      unfold mqttRxBufLen at htopic
      omega
    have hstep := mqttReadUint16_write (header :: w)
      (topicName ++ packetIdField qos packetId ++ payload ++ stale) (1 + w.length)
      (topicName.length % 2 ^ 16) (by rw [List.length_cons, Nat.add_comm]) (by omega)
    rw [hmod] at hstep
    rw [← hbytes, ← hstep, mqttWriteUtf8String, hmod]
    simp only [List.append_assoc, List.cons_append]
  have hbody : remLen = 2 + topicName.length + payload.length +
      (packetIdField qos packetId).length := by
    rw [hrem, publishBodyLen, packetIdField_length]
  have hidRead : qos.code > 0 →
      mqttReadUint16 buf (1 + w.length + 2 + topicName.length) = packetId := by
    intro hpos
    have hstep := mqttReadUint16_write (header :: w ++ mqttWriteUtf8String topicName)
      (payload ++ stale) (1 + w.length + 2 + topicName.length) packetId
      (by rw [List.length_append, mqttWriteUtf8String_length, List.length_cons]; omega) hid
    rw [← hbytes, packetIdField, if_pos hpos]
    simpa only [List.append_assoc] using hstep
  have hfit : 2 ≤ remLen ∧ mqttReadUint16 buf (1 + w.length) ≤ mqttRxBufLen ∧
      2 + mqttReadUint16 buf (1 + w.length) ≤ remLen := by
    rw [htopicLen]
    exact ⟨by omega, htopic, by omega⟩
  have hqos' : qos.code ≠ 0 ↔ qos.code > 0 := by cases qos <;> decide
  rw [deserializePublishPacket_of_remLen buf bufLen remLen (1 + w.length) hbuf
    (by rw [hhead, htype]) hread, if_pos hfit, hhead, htopicLen]
  simp only [publishFields, hqos, ne_eq, Except.ok.injEq, PublishFields.mk.injEq, true_and]
  by_cases hpos : qos.code > 0
  · have hne : ¬ qos.code = 0 := hqos'.mpr hpos
    have hidLen : (packetIdField qos packetId).length = 2 := by
      rw [packetIdField_length, if_pos hpos]
    simp only [if_pos hpos, if_pos hne, hidRead hpos, hidLen, true_and]
    rw [← toSizeT_natCast payload.length (by omega)]
    congr 1
    push_cast
    omega
  · have heq : ¬ ¬ qos.code = 0 := fun hne => hpos (hqos'.mp hne)
    have hidLen : (packetIdField qos packetId).length = 0 := by
      rw [packetIdField_length, if_neg hpos]
    simp only [if_neg hpos, if_neg heq, hidLen, Nat.add_zero, true_and]
    rw [← toSizeT_natCast payload.length (by omega)]
    congr 1
    push_cast
    omega

/-- The slices that the deserializer of a serialized packet returns. -/
theorem packet_slices (header : UInt8) (w : List UInt8) (stale : Buffer) :
    slice (header :: w ++ mqttWriteUtf8String topicName ++ packetIdField qos packetId ++ payload ++
        stale) (1 + w.length + 2) topicName.length = topicName ∧
      slice (header :: w ++ mqttWriteUtf8String topicName ++ packetIdField qos packetId ++
        payload ++
        stale) (1 + w.length + 2 + topicName.length + (packetIdField qos packetId).length)
        payload.length = payload := by
  constructor
  · have hblock :=
      slice_block (header :: w ++ mqttWriteUint16 (topicName.length % 2 ^ 16)) topicName
      (packetIdField qos packetId ++ payload ++ stale) (1 + w.length + 2) topicName.length
      (by simp only [mqttWriteUint16, List.length_append, List.length_cons, List.length_nil]; omega)
      rfl
    rw [mqttWriteUtf8String]
    simpa only [List.append_assoc] using hblock
  · exact slice_block (header :: w ++ mqttWriteUtf8String topicName ++ packetIdField qos packetId)
      payload stale _ payload.length
      (by
        simp only [List.length_append, List.length_cons, mqttWriteUtf8String_length]
        omega)
      rfl

/-- The decoder returns what the encoder was given, and encoding that again
yields the same bytes. -/
def PublishRoundTrip (packet : List UInt8) : Prop :=
  ∃ fields, deserializePublishPacket packet packet.length = .ok fields ∧
    fields.dup = dup &&& 1 ∧ fields.qos = qos.code ∧ fields.retained = retained &&& 1 ∧
    fields.topicNameLen = topicName.length ∧
    slice packet fields.topicName fields.topicNameLen = topicName ∧
    fields.payloadLen = payload.length ∧
    slice packet fields.payload fields.payloadLen = payload ∧
    fields.packetId = (if qos.code > 0 then some packetId else none) ∧
    ∀ qos' packetId', qos'.code = fields.qos →
      (∀ id, fields.packetId = some id → packetId' = id) →
      serializePublishPacket bufLen fields.dup qos' fields.retained packetId'
        (slice packet fields.topicName fields.topicNameLen)
        (slice packet fields.payload fields.payloadLen) = .ok packet

theorem serializePublishPacket_congr (packetId' : ℕ) (h : qos.code > 0 → packetId' = packetId) :
    serializePublishPacket bufLen (dup &&& 1) qos (retained &&& 1) packetId' topicName payload =
      serializePublishPacket bufLen dup qos retained packetId topicName payload := by
  simp only [serializePublishPacket, header_flag_bits]
  by_cases hpos : qos.code > 0
  · simp only [h hpos]
  · simp only [if_neg hpos]

theorem code_injective {a b : QoS} (h : a.code = b.code) : a = b := by
  cases a <;> cases b <;> first | rfl | exact absurd h (by decide)

/-- PUBLISH packets with a remaining length of at most four bytes are read back. -/
theorem publish_round_trip (packet : List UInt8) (htopic : topicName.length ≤ maxSizeOfCloudTopic)
    (hlen : publishBodyLen qos topicName payload < 2 ^ 28) (hid : packetId < 2 ^ 16)
    (h : serializePublishPacket bufLen dup qos retained packetId topicName payload = .ok packet) :
    PublishRoundTrip bufLen dup retained qos packetId topicName payload packet := by
  obtain ⟨header, hheader, -, hpacket⟩ :=
    serializePublishPacket_eq_ok bufLen dup retained qos packetId topicName payload h
  obtain ⟨header', hheader', htype, hdup, hqos, hretained⟩ := publish_header qos dup retained
  obtain rfl : header = header' := Except.ok.inj (hheader.symm.trans hheader')
  rw [getPublishPacketLen_eq qos topicName payload (by omega)] at hpacket
  have hfour : 4 ≤ packet.length := by
    rw [hpacket]
    simp only [List.length_append, List.length_cons, mqttWriteUtf8String_length]
    have hpos := mqttWritePacketRemLen_length_pos (publishBodyLen qos topicName payload)
    omega
  have hread := deserialize_packet_bytes packet.length qos packetId topicName payload header
    (publishBodyLen qos topicName payload) [] hfour htype hqos rfl hlen
    (htopic.trans (by decide)) hid
  obtain ⟨htopicSlice, hpayloadSlice⟩ := packet_slices qos packetId topicName payload header
    (mqttWritePacketRemLen (publishBodyLen qos topicName payload)) []
  rw [List.append_nil, ← hpacket] at hread htopicSlice hpayloadSlice
  refine ⟨_, hread, hdup, rfl, hretained, rfl, htopicSlice, rfl, hpayloadSlice, rfl, ?_⟩
  intro qos' packetId' hcode hsame
  obtain rfl := code_injective hcode
  dsimp only
  rw [htopicSlice, hpayloadSlice, hdup, hretained, serializePublishPacket_congr, h]
  intro hpos
  exact hsame packetId (if_pos hpos)

/-- At five length bytes the decoder refuses what the encoder wrote. -/
theorem publish_round_trip_too_long (packet : List UInt8)
    (hlen : 2 ^ 28 ≤ publishBodyLen qos topicName payload)
    (hlt : publishBodyLen qos topicName payload < 2 ^ 32)
    (h : serializePublishPacket bufLen dup qos retained packetId topicName payload = .ok packet) :
    deserializePublishPacket packet packet.length = .error .mqttPacketRead := by
  obtain ⟨header, hheader, -, hpacket⟩ :=
    serializePublishPacket_eq_ok bufLen dup retained qos packetId topicName payload h
  obtain ⟨header', hheader', htype, -⟩ := publish_header qos dup retained
  obtain rfl : header = header' := Except.ok.inj (hheader.symm.trans hheader')
  rw [getPublishPacketLen_eq qos topicName payload hlt] at hpacket
  have hfour : ¬ 4 > packet.length := by
    rw [hpacket]
    simp only [List.length_append, List.length_cons, mqttWriteUtf8String_length]
    have hpos := mqttWritePacketRemLen_length_pos (publishBodyLen qos topicName payload)
    omega
  have hhead : byteAt packet 0 = header := by rw [hpacket]; rfl
  have hread := mqttReadPacketRemLenFormBuf_write_eq_error [header]
    (mqttWriteUtf8String topicName ++ packetIdField qos packetId ++ payload) 1
    (publishBodyLen qos topicName payload) rfl (by omega) hlen
  have hbytes : [header] ++ mqttWritePacketRemLen (publishBodyLen qos topicName payload) ++
      (mqttWriteUtf8String topicName ++ packetIdField qos packetId ++ payload) = packet := by
    rw [hpacket]
    simp only [List.append_assoc, List.cons_append, List.nil_append]
  rw [hbytes] at hread
  simp only [deserializePublishPacket, if_neg hfour, hhead, htype, ne_eq, not_true_eq_false,
    if_false, hread]

end RoundTrip

theorem publish_round_trip_sample :
    PublishRoundTrip 16 1 0 .qos1 7 [97] [1, 2] [58, 7, 0, 1, 97, 0, 7, 1, 2] :=
  publish_round_trip 16 1 0 .qos1 7 [97] [1, 2] [58, 7, 0, 1, 97, 0, 7, 1, 2]
    (by decide) (by decide) (by decide) (by rfl)

/-- A payload of `2 ^ 28 - 3` bytes under a one-byte topic is serialized but not read back. -/
theorem publish_round_trip_fails :
    (List.replicate (2 ^ 28 - 3) (0 : UInt8)).length < 2 ^ 28 ∧
      ∃ packet, serializePublishPacket (2 ^ 28 + 5) 0 .qos0 0 1 [97]
          (List.replicate (2 ^ 28 - 3) 0) = .ok packet ∧
        ¬ PublishRoundTrip (2 ^ 28 + 5) 0 0 .qos0 1 [97] (List.replicate (2 ^ 28 - 3) 0)
            packet := by
  have hbody : publishBodyLen .qos0 [97] (List.replicate (2 ^ 28 - 3) 0) = 2 ^ 28 := by
    rw [publishBodyLen, List.length_replicate]
    decide
  obtain ⟨header, hheader, -⟩ := publish_header .qos0 0 0
  have hroom : ¬ getMqttPacketLen (getPublishPacketLen .qos0 [97]
      (List.replicate (2 ^ 28 - 3) (0 : UInt8)).length) > 2 ^ 28 + 5 := by
    rw [getPublishPacketLen_eq _ _ _ (by rw [hbody]; decide), hbody]
    decide
  refine ⟨by rw [List.length_replicate]; decide, _,
    by rw [serializePublishPacket, if_neg hroom, hheader], ?_⟩
  rintro ⟨fields, hread, -⟩
  rw [publish_round_trip_too_long (2 ^ 28 + 5) 0 0 .qos0 1 [97] _ _ (by rw [hbody])
    (by rw [hbody]; decide) (by rw [serializePublishPacket, if_neg hroom, hheader])] at hread
  cases hread

end IotExplorer.PublishPacket
