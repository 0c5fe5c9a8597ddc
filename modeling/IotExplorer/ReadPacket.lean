import IotExplorer.Network
import IotExplorer.PublishPacket

/-!
`_read_mqtt_packet`: the first header byte, the remaining length byte by byte,
and the body, each in reads of its own. A packet that does not fit the receive
buffer is read and dropped. The state carries the receive buffer, the schedule
of read outcomes and the bytes of the stream that were not taken yet.
-/
namespace IotExplorer.ReadPacket

open IotExplorer.Basis Protocol PacketBytes Network PublishPacket

structure ReadState where
  readBuf : Buffer
  choices : List ReadChoice
  pending : List UInt8
  deriving DecidableEq

/-- `network_stack.read`: the return code and the bytes taken. -/
def networkRead (n : ℕ) (s : ReadState) : ReturnCode × List UInt8 × ReadState :=
  match s.choices with
  | [] => (.tcpNothingToRead, [], s)
  | choice :: choices =>
      match readOne n choice s.pending with
      | (rc, taken, left) => (rc, taken, { s with choices := choices, pending := left })

/-- The loop of `_decode_packet_rem_len_with_net_read`, with the digits that may
still be read. -/
def decodePacketRemLenWithNetRead :
    ℕ → ℕ → ℕ → ReadState → Except ReturnCode ℕ × ReadState
  | 0, _, _, s => (.error .mqttPacketRead, s)
  | k + 1, multiplier, value, s =>
      match networkRead 1 s with
      | (rc, taken, s) =>
          if rc ≠ .success then (.error .failure, s)
          else
            let i := taken.headD 0
            let value := value + (i &&& (127 : UInt8)).toNat * multiplier
            if i &&& (128 : UInt8) ≠ 0 then
              decodePacketRemLenWithNetRead k (multiplier * 128) value s
            else (.ok value, s)

/-- The loop that drops an oversized body in pieces of the buffer's size. -/
def discardPacket (remLen : ℕ) : List ReadChoice → ℕ → ℕ → ReadState → ReadState
  | [], _, _, s => { s with choices := [] }
  | choice :: choices, total, toRead, s =>
      match readOne toRead choice s.pending with
      | (rc, taken, left) =>
          let s := { readBuf := overwrite s.readBuf taken, choices := choices, pending := left }
          if rc ≠ .success then s
          else
            let total := total + taken.length
            if total < remLen then
              discardPacket remLen choices total
                (if remLen - total ≥ mqttRxBufLen then mqttRxBufLen else remLen - total) s
            else s

/-- `_read_mqtt_packet`: the packet type, or the code of the failure. -/
def readMqttPacket (s : ReadState) : Except ReturnCode UInt8 × ReadState :=
  match networkRead 1 s with
  | (rc, header, s) =>
      let s := { s with readBuf := overwrite s.readBuf header }
      if rc = .sslNothingToRead ∨ rc = .tcpNothingToRead then (.error .mqttNothingToRead, s)
      else if rc ≠ .success then (.error rc, s)
      else
        match decodePacketRemLenWithNetRead maxNoOfRemainingLengthBytes 1 0 s with
        | (.error rc, s) => (.error rc, s)
        | (.ok remLen, s) =>
            if remLen ≥ mqttRxBufLen then
              (.error .bufTooShort, discardPacket remLen s.choices 0 mqttRxBufLen s)
            else
              let fixed := header ++ mqttWritePacketRemLen remLen
              let s := { s with readBuf := overwrite s.readBuf fixed }
              if remLen > 0 ∧ fixed.length + remLen > mqttRxBufLen then
                match networkRead remLen s with
                | (_, body, s) =>
                    (.error .bufTooShort, { s with readBuf := overwrite s.readBuf body })
              else if remLen > 0 then
                match networkRead remLen s with
                | (rc, body, s) =>
                    let s := { s with readBuf := overwrite s.readBuf (fixed ++ body) }
                    if rc ≠ .success then (.error rc, s)
                    else (.ok (headerType (byteAt s.readBuf 0)), s)
              else (.ok (headerType (byteAt s.readBuf 0)), s)

/-- A read meets the end of the schedule, or its next outcome. -/
theorem networkRead_cases {n : ℕ} {s s' : ReadState} {rc : ReturnCode} {taken : List UInt8}
    (h : networkRead n s = (rc, taken, s')) :
    (s.choices = [] ∧ rc = .tcpNothingToRead ∧ taken = [] ∧ s' = s) ∨
      ∃ choice choices left, s.choices = choice :: choices ∧
        readOne n choice s.pending = (rc, taken, left) ∧
        s' = { s with choices := choices, pending := left } := by
  unfold networkRead at h
  cases hchoices : s.choices with
  | nil =>
    rw [hchoices] at h
    obtain ⟨rfl, rfl, rfl⟩ := h
    exact Or.inl ⟨rfl, rfl, rfl, rfl⟩
  | cons choice choices =>
    rw [hchoices] at h
    obtain ⟨rfl, rfl, rfl⟩ := h
    exact Or.inr ⟨choice, choices, _, rfl, rfl, rfl⟩

theorem networkRead_success {n : ℕ} {s s' : ReadState} {taken : List UInt8} (hn : 0 < n)
    (h : networkRead n s = (.success, taken, s')) : taken.length = n := by
  obtain ⟨-, hrc, -⟩ | ⟨choice, choices, left, -, hread, -⟩ := networkRead_cases h
  · cases hrc
  · have hsuccess := readOne_success_iff n choice s.pending hn
    rw [hread] at hsuccess
    exact hsuccess.mp rfl

/-- A packet that was accepted lies at the start of the buffer, with its
remaining length in the shortest form and every body byte read. -/
theorem readMqttPacket_eq_ok {s s' : ReadState} {packetType : UInt8}
    (h : readMqttPacket s = (.ok packetType, s')) :
    ∃ header body stale, packetType = headerType header ∧
      s'.readBuf = header :: mqttWritePacketRemLen body.length ++ body ++ stale ∧
      body.length < mqttRxBufLen ∧
      1 + (mqttWritePacketRemLen body.length).length + body.length ≤ mqttRxBufLen := by
  unfold readMqttPacket at h
  generalize hfirst : networkRead 1 s = r at h
  obtain ⟨rc, headerBytes, s₁⟩ := r
  dsimp only at h
  split_ifs at h with hnothing hrc
  · cases h
  · cases h
  · obtain rfl : rc = .success := by simpa using hrc
    obtain ⟨header, rfl⟩ := List.length_eq_one_iff.mp (networkRead_success (by decide) hfirst)
    split at h
    · cases h
    next remLen s₂ hlen =>
      by_cases hbig : remLen ≥ mqttRxBufLen
      · rw [if_pos hbig] at h
        cases h
      rw [if_neg hbig] at h
      by_cases hshort : remLen > 0 ∧
          ([header] ++ mqttWritePacketRemLen remLen).length + remLen > mqttRxBufLen
      · rw [if_pos hshort] at h
        cases h
      rw [if_neg hshort] at h
      by_cases hbody : remLen > 0
      · rw [if_pos hbody] at h
        generalize hread : networkRead remLen _ = r at h
        obtain ⟨rc, body, s₃⟩ := r
        dsimp only at h
        split_ifs at h with hrc
        · cases h
        · obtain rfl : rc = .success := by simpa using hrc
          obtain rfl := networkRead_success hbody hread
          simp only [Prod.mk.injEq, Except.ok.injEq] at h
          obtain ⟨rfl, rfl⟩ := h
          refine ⟨header, body, _, rfl, rfl, by omega, ?_⟩
          simp only [List.length_append, List.length_singleton, not_and] at hshort
          have hfit := hshort hbody
          omega
      · obtain rfl : remLen = 0 := by omega
        rw [if_neg hbody] at h
        simp only [Prod.mk.injEq, Except.ok.injEq] at h
        obtain ⟨rfl, rfl⟩ := h
        exact ⟨header, [], s₂.readBuf.drop 2, rfl, rfl, by decide, by decide⟩

section PublishSlices

/-- The topic, the packet id and the payload follow each other inside the
`remLen` bytes behind the fixed header, and the payload ends with them. -/
def FieldsInside (fields : PublishFields) (fixedLen remLen : ℕ) : Prop :=
  fields.topicName = fixedLen + 2 ∧
    fields.payload = fields.topicName + fields.topicNameLen + (if fields.qos = 0 then 0 else 2) ∧
    fields.payload + fields.payloadLen = fixedLen + remLen ∧ fields.payloadLen ≤ remLen

instance (fields : PublishFields) (fixedLen remLen : ℕ) :
    Decidable (FieldsInside fields fixedLen remLen) := by
  unfold FieldsInside
  infer_instance

/-- The QoS asks for a packet id, the topic fits, and fewer than two bytes are left. -/
def PacketIdMissing (header : UInt8) (body : List UInt8) : Prop :=
  headerQos header ≠ 0 ∧ 2 + mqttReadUint16 body 0 ≤ body.length ∧
    body.length < 2 + mqttReadUint16 body 0 + 2

theorem mqttReadUint16_body (pre body rest : Buffer) (h : 2 ≤ body.length) :
    mqttReadUint16 (pre ++ body ++ rest) pre.length = mqttReadUint16 body 0 := by
  obtain ⟨a, b, body, rfl⟩ : ∃ a b tail, body = a :: b :: tail := by
    match body, h with
    | a :: b :: tail, _ => exact ⟨a, b, tail, rfl⟩
  have hfront := mqttReadUint16_block [] body 0 a b rfl
  rw [List.nil_append] at hfront
  rw [hfront, List.append_assoc, List.cons_append, List.cons_append,
    mqttReadUint16_block pre _ _ a b rfl]

/-- What the deserializer returns for an accepted packet whose topic fits. -/
theorem deserialize_accepted (header : UInt8) (body stale : Buffer)
    (htype : headerType header = MessageType.publish.code)
    (hlt : body.length < mqttRxBufLen) :
    deserializePublishPacket (header :: mqttWritePacketRemLen body.length ++ body ++ stale)
        mqttRxBufLen =
      if 2 ≤ body.length ∧ 2 + mqttReadUint16 body 0 ≤ body.length then
        .ok (publishFields (header :: mqttWritePacketRemLen body.length ++ body ++ stale) header
          (1 + (mqttWritePacketRemLen body.length).length + 2) (mqttReadUint16 body 0)
          (1 + (mqttWritePacketRemLen body.length).length + body.length))
      else .error .failure := by
  unfold mqttRxBufLen at hlt
  have hread := mqttReadPacketRemLenFormBuf_write [header] (body ++ stale) 1 body.length rfl
    (by omega)
  generalize hbuf : header :: mqttWritePacketRemLen body.length ++ body ++ stale = buf
  have hhead : byteAt buf 0 = header := by
    rw [← hbuf]
    rfl
  have hassoc : [header] ++ mqttWritePacketRemLen body.length ++ (body ++ stale) = buf := by
    rw [← hbuf]
    simp only [List.append_assoc, List.cons_append, List.nil_append]
  rw [hassoc] at hread
  rw [deserializePublishPacket_of_remLen buf _ body.length _ (by decide)
    (by rw [hhead, htype]) hread, hhead]
  by_cases htwo : 2 ≤ body.length
  · have hlen := mqttReadUint16_body (header :: mqttWritePacketRemLen body.length) body stale htwo
    rw [hbuf, List.length_cons, Nat.add_comm] at hlen
    rw [hlen]
    by_cases hfit : 2 + mqttReadUint16 body 0 ≤ body.length
    · have hmax : mqttReadUint16 body 0 ≤ mqttRxBufLen := by
        unfold mqttRxBufLen
        omega
      rw [if_pos ⟨htwo, hmax, hfit⟩, if_pos ⟨htwo, hfit⟩]
    · rw [if_neg (by simp [hfit]), if_neg (by simp [hfit])]
  · rw [if_neg (by simp [htwo]), if_neg (by simp [htwo])]

theorem publishFields_payloadLen (buf : Buffer) (header : UInt8) (topicName len enddata : ℕ) :
    (publishFields buf header topicName len enddata).payloadLen =
      toSizeT
        ((enddata : ℤ) - (topicName + len + (if headerQos header = 0 then 0 else 2) : ℕ)) := by
  by_cases h : headerQos header = 0 <;> simp [publishFields, h]

/-- The slices of an accepted PUBLISH packet lie inside it unless the body ends
in front of its packet id. -/
theorem publish_slices_inside_iff (s s' : ReadState)
    (h : readMqttPacket s = (.ok MessageType.publish.code, s')) :
    ∃ header body stale,
      s'.readBuf = header :: mqttWritePacketRemLen body.length ++ body ++ stale ∧
      ((∀ fields, deserializePublishPacket s'.readBuf mqttRxBufLen = .ok fields →
          FieldsInside fields (1 + (mqttWritePacketRemLen body.length).length) body.length) ↔
        ¬ PacketIdMissing header body) := by
  obtain ⟨header, body, stale, htype, hbuf, hlt, -⟩ := readMqttPacket_eq_ok h
  refine ⟨header, body, stale, hbuf, ?_⟩
  rw [hbuf, deserialize_accepted header body stale htype.symm hlt]
  generalize hfixed : 1 + (mqttWritePacketRemLen body.length).length = fixedLen
  unfold mqttRxBufLen at hlt
  by_cases hfit : 2 ≤ body.length ∧ 2 + mqttReadUint16 body 0 ≤ body.length
  · rw [if_pos hfit]
    simp only [Except.ok.injEq, forall_eq', FieldsInside, publishFields_payloadLen]
    by_cases hqos : headerQos header = 0
    · have hlen : toSizeT (((fixedLen + body.length : ℕ) : ℤ) -
          (fixedLen + 2 + mqttReadUint16 body 0 + 0 : ℕ)) =
            body.length - (2 + mqttReadUint16 body 0) := by
        unfold toSizeT
        omega
      simp only [publishFields, hqos, PacketIdMissing, ne_eq, not_true_eq_false, if_false, if_true,
        false_and, not_false_eq_true, iff_true, hlen]
      exact ⟨trivial, rfl, by omega, by omega⟩
    · simp only [publishFields, hqos, PacketIdMissing, ne_eq, not_false_eq_true, if_false, if_true,
        true_and]
      by_cases hid : body.length < 2 + mqttReadUint16 body 0 + 2
      · have hwrap : body.length < toSizeT (((fixedLen + body.length : ℕ) : ℤ) -
            (fixedLen + 2 + mqttReadUint16 body 0 + 2 : ℕ)) := by
          unfold toSizeT
          omega
        constructor
        · intro hinside
          omega
        · intro hmissing
          exact absurd ⟨hfit.2, hid⟩ hmissing
      · have hlen : toSizeT (((fixedLen + body.length : ℕ) : ℤ) -
            (fixedLen + 2 + mqttReadUint16 body 0 + 2 : ℕ)) =
              body.length - (2 + mqttReadUint16 body 0 + 2) := by
          unfold toSizeT
          omega
        simp only [hlen, hid, and_false, not_false_eq_true, iff_true]
        omega
  · rw [if_neg hfit]
    have hnot : ¬ PacketIdMissing header body := by
      rintro ⟨-, htopic, -⟩
      exact hfit ⟨by omega, htopic⟩
    simp [hnot]

theorem publish_slices_inside_sample :
    ∃ header body stale,
      [48, 4, 0, 1, 97, 5] = header :: mqttWritePacketRemLen body.length ++ body ++ stale ∧
      ((∀ fields, deserializePublishPacket [48, 4, 0, 1, 97, 5] mqttRxBufLen = .ok fields →
          FieldsInside fields (1 + (mqttWritePacketRemLen body.length).length) body.length) ↔
        ¬ PacketIdMissing header body) :=
  publish_slices_inside_iff ⟨[], [.deliver, .deliver, .deliver], [48, 4, 0, 1, 97, 5]⟩
    ⟨[48, 4, 0, 1, 97, 5], [], []⟩ (by rfl)

/-- A QoS 1 packet that ends behind its topic gets a payload length near `2 ^ 64`. -/
theorem publish_payload_len_wraps :
    (readMqttPacket ⟨[], [.deliver, .deliver, .deliver], [50, 3, 0, 1, 97]⟩).1 =
        .ok MessageType.publish.code ∧
      ∃ fields, deserializePublishPacket
          (readMqttPacket ⟨[], [.deliver, .deliver, .deliver], [50, 3, 0, 1, 97]⟩).2.readBuf
          mqttRxBufLen = .ok fields ∧
        fields.payloadLen = 2 ^ 64 - 2 ∧ ¬ FieldsInside fields 2 3 := by
  refine ⟨by decide, _, by rfl, by decide, by decide⟩

end PublishSlices
end IotExplorer.ReadPacket
