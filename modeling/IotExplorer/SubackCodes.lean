import IotExplorer.PacketHandlers

/-!
The return codes of a SUBACK packet: which elements of `grantedQoSs` are written
for the bytes of an accepted packet, and what the handler does with a packet
that holds none, one or more of them. The bound is tested before an element is
written, but with `>`.
-/
namespace IotExplorer.SubackCodes

open Protocol PacketBytes ControlPackets ReadPacket ClientState DeliverMessage WaitLists
open PacketHandlers

/-- The elements of `grantedQoSs` that the payload loop writes, in order. -/
def grantedQosWrites (buf : Buffer) (maxCount : ℕ) : ℕ → ℕ → ℕ → List (ℕ × UInt8)
  | 0, _, _ => []
  | left + 1, pos, count =>
      if count > maxCount then []
      else (count, byteAt buf pos) :: grantedQosWrites buf maxCount left (pos + 1) (count + 1)

/-- The elements that `deserialize_suback_packet` writes, also before it fails. -/
def subackWrites (maxCount : ℕ) (buf : Buffer) (bufLen : ℕ) : List (ℕ × UInt8) :=
  if 5 > bufLen then []
  else if headerType (byteAt buf 0) ≠ MessageType.suback.code then []
  else
    match mqttReadPacketRemLenFormBuf buf 1 with
    | .error _ => []
    | .ok (decodedLen, curdata) =>
        if decodedLen < 2 then []
        else grantedQosWrites buf maxCount (decodedLen - 2) (curdata + 2) 0

section Loop
variable (buf : Buffer) (maxCount : ℕ)

theorem slice_succ (pos n : ℕ) :
    slice buf pos (n + 1) = byteAt buf pos :: slice buf (pos + 1) n := by
  simp only [slice, List.range_succ_eq_map, List.map_cons, List.map_map, Nat.add_zero]
  congr 1
  apply List.map_congr_left
  intro i _
  simp only [Function.comp_apply]
  congr 1
  omega

/-- The loop takes one code more than `max_count` allows. -/
theorem readGrantedQos_eq (left pos count : ℕ) (h : count ≤ maxCount + 1) :
    readGrantedQos buf maxCount left pos count =
      if count + left ≤ maxCount + 1 then .ok (slice buf pos left) else .error .failure := by
  induction left generalizing pos count with
  | zero =>
    rw [if_pos (by omega)]
    rfl
  | succ left ih =>
    unfold readGrantedQos
    by_cases hfull : count > maxCount
    · rw [if_pos hfull, if_neg (by omega)]
    · rw [if_neg hfull, ih (pos + 1) (count + 1) (by omega), slice_succ]
      by_cases hfit : count + (left + 1) ≤ maxCount + 1
      · rw [if_pos (by omega), if_pos hfit]
      · rw [if_neg (by omega), if_neg hfit]

/-- The indices that are written follow one another from the count on. -/
theorem mem_grantedQosWrites (left pos count : ℕ) (write : ℕ × UInt8) :
    write ∈ grantedQosWrites buf maxCount left pos count ↔
      ∃ i, i < left ∧ count + i ≤ maxCount ∧ write = (count + i, byteAt buf (pos + i)) := by
  induction left generalizing pos count with
  | zero =>
    constructor
    · intro hmem
      cases hmem
    · rintro ⟨i, hi, -⟩
      omega
  | succ left ih =>
    unfold grantedQosWrites
    by_cases hfull : count > maxCount
    · rw [if_pos hfull]
      constructor
      · intro hmem
        cases hmem
      · rintro ⟨i, -, hi, -⟩
        omega
    · rw [if_neg hfull, List.mem_cons, ih]
      constructor
      · rintro (rfl | ⟨i, hi, hmax, rfl⟩)
        · exact ⟨0, by omega, by omega, rfl⟩
        · refine ⟨i + 1, by omega, by omega, ?_⟩
          rw [Nat.add_right_comm, Nat.add_assoc count, Nat.add_right_comm pos, Nat.add_assoc pos]
      · rintro ⟨i, hi, hmax, rfl⟩
        cases i with
        | zero => exact .inl rfl
        | succ i =>
          refine .inr ⟨i, by omega, by omega, ?_⟩
          rw [Nat.add_right_comm, Nat.add_assoc count, Nat.add_right_comm pos, Nat.add_assoc pos]

/-- What a successful loop returns is what it wrote. -/
theorem readGrantedQos_writes {left pos count : ℕ} {granted : List UInt8}
    (h : readGrantedQos buf maxCount left pos count = .ok granted) :
    (grantedQosWrites buf maxCount left pos count).map Prod.snd = granted := by
  induction left generalizing pos count granted with
  | zero => exact Except.ok.inj h
  | succ left ih =>
    unfold readGrantedQos at h
    unfold grantedQosWrites
    split_ifs at h with hfull
    split at h
    · cases h
    next granted' hrest =>
      rw [if_neg hfull, List.map_cons, ih hrest]
      exact Except.ok.inj h

end Loop

section Accepted
variable (maxCount : ℕ) {buf : Buffer} {header : UInt8} {body stale : List UInt8}

/-- The deserializer on the buffer of an accepted packet. -/
theorem deserialize_suback_accepted
    (hbuf : buf = header :: mqttWritePacketRemLen body.length ++ body ++ stale)
    (htype : headerType header = MessageType.suback.code) (hlt : body.length < mqttRxBufLen) :
    deserializeSubackPacket maxCount buf mqttRxBufLen =
        (if 2 ≤ body.length ∧ body.length ≤ maxCount + 3 then
          .ok (mqttReadUint16 body 0, body.drop 2)
        else .error .failure) ∧
      subackWrites maxCount buf mqttRxBufLen =
        (if 2 ≤ body.length then grantedQosWrites buf maxCount (body.length - 2)
          (1 + (mqttWritePacketRemLen body.length).length + 2) 0
        else []) := by
  unfold mqttRxBufLen at hlt
  have hread := mqttReadPacketRemLenFormBuf_write [header] (body ++ stale) 1 body.length rfl
    (by omega)
  have hhead : byteAt buf 0 = header := by
    rw [hbuf]
    rfl
  have hassoc : [header] ++ mqttWritePacketRemLen body.length ++ (body ++ stale) = buf := by
    rw [hbuf]
    simp only [List.append_assoc, List.cons_append, List.nil_append]
  rw [hassoc] at hread
  have hshort : ¬ 5 > mqttRxBufLen := by decide
  have htype' : ¬ headerType (byteAt buf 0) ≠ MessageType.suback.code := by
    rw [hhead]
    exact not_not.mpr htype
  unfold deserializeSubackPacket subackWrites
  rw [if_neg hshort, if_neg htype', if_neg hshort, if_neg htype', hread]
  dsimp only
  by_cases htwo : 2 ≤ body.length
  · have hnot : ¬ body.length < 2 := by omega
    have hlen : ([header] ++ mqttWritePacketRemLen body.length).length =
        1 + (mqttWritePacketRemLen body.length).length := by
      rw [List.length_append, List.length_singleton]
    have hid := mqttReadUint16_body ([header] ++ mqttWritePacketRemLen body.length) body stale htwo
    rw [List.append_assoc _ body, hassoc, hlen] at hid
    have hcodes : slice buf (1 + (mqttWritePacketRemLen body.length).length + 2)
        (body.length - 2) = body.drop 2 := by
      have hsplit : buf = ([header] ++ mqttWritePacketRemLen body.length ++ body.take 2) ++
          body.drop 2 ++ stale := by
        rw [List.append_assoc _ (body.take 2), List.take_append_drop, ← hassoc,
          List.append_assoc _ body]
      rw [hsplit]
      apply slice_block
      · rw [List.length_append, hlen, List.length_take, Nat.min_eq_left htwo]
      · rw [List.length_drop]
    rw [if_neg hnot, if_neg hnot, if_pos htwo, readGrantedQos_eq _ _ _ _ _ (Nat.zero_le _), hcodes,
      hid]
    refine ⟨?_, rfl⟩
    by_cases hfit : body.length ≤ maxCount + 3
    · have hfit' : 0 + (body.length - 2) ≤ maxCount + 1 := by omega
      rw [if_pos hfit', if_pos ⟨htwo, hfit⟩]
    · have hfit' : ¬ 0 + (body.length - 2) ≤ maxCount + 1 := by omega
      rw [if_neg hfit', if_neg (not_and_of_not_right _ hfit)]
  · have hnot : body.length < 2 := by omega
    rw [if_pos hnot, if_pos hnot, if_neg htwo, if_neg (not_and_of_not_left _ htwo)]
    exact ⟨rfl, rfl⟩

end Accepted

structure SubackRight (maxCount : ℕ) (buf : Buffer) (body : List UInt8) : Prop where
  inside : ∀ write ∈ subackWrites maxCount buf mqttRxBufLen, write.1 < maxCount
  codes : ∀ packetId granted,
    deserializeSubackPacket maxCount buf mqttRxBufLen = .ok (packetId, granted) →
      1 ≤ granted.length ∧ granted.length ≤ maxCount ∧ granted = body.drop 2

/-- A client either leaves such a packet alone, or acts on a code that is in it. -/
def HandlerRight (buf : Buffer) (body : List UInt8) : Prop :=
  ∀ (env : CycleEnv) (c : Client), c.readBuf = buf →
    (handleSubackPacket env c).2 = (c, []) ∨
      ∃ code ∈ body.drop 2,
        handleSubackPacket env c = resolveSuback env (mqttReadUint16 body 0) (code == 0x80) c

section Right
variable {buf : Buffer} {header : UInt8} {body stale : List UInt8}

theorem subackRight_iff (maxCount : ℕ)
    (hbuf : buf = header :: mqttWritePacketRemLen body.length ++ body ++ stale)
    (htype : headerType header = MessageType.suback.code) (hlt : body.length < mqttRxBufLen) :
    SubackRight maxCount buf body ↔
      body.length < 2 ∨ (3 ≤ body.length ∧ body.length ≤ 2 + maxCount) := by
  obtain ⟨hparse, hwrites⟩ := deserialize_suback_accepted maxCount hbuf htype hlt
  constructor
  · intro hright
    by_cases htwo : 2 ≤ body.length
    · right
      have hmax : body.length ≤ 2 + maxCount := by
        by_contra hmore
        -- the code with the index `max_count` is written
        have hmem : (maxCount, byteAt buf (1 + (mqttWritePacketRemLen body.length).length + 2 +
            maxCount)) ∈ subackWrites maxCount buf mqttRxBufLen := by
          rw [hwrites, if_pos htwo, mem_grantedQosWrites]
          exact ⟨maxCount, by omega, by omega, by rw [Nat.zero_add]⟩
        have hwrite := hright.inside _ hmem
        exact Nat.lt_irrefl _ hwrite
      rw [if_pos ⟨htwo, by omega⟩] at hparse
      obtain ⟨hone, -, -⟩ := hright.codes _ _ hparse
      rw [List.length_drop] at hone
      omega
    · left
      omega
  · intro hcond
    constructor
    · intro write hmem
      rw [hwrites] at hmem
      split at hmem
      · obtain ⟨i, hi, -, rfl⟩ := (mem_grantedQosWrites _ _ _ _ _ _).mp hmem
        dsimp only
        omega
      · cases hmem
    · intro packetId granted hok
      rw [hparse] at hok
      split at hok
      · obtain ⟨-, rfl⟩ := Prod.mk.inj (Except.ok.inj hok)
        rw [List.length_drop]
        exact ⟨by omega, by omega, rfl⟩
      · cases hok

def waitingClient (buf : Buffer) (packetId : ℕ) : Client :=
  { Client.init 0 5000 true ⟨⟨[], 4, 240, true⟩, true⟩ with
    readBuf := buf
    listSubWaitAck := [⟨.subscribe, packetId, 0, .normal, .zero, [], 0⟩] }

theorem waitingClient_acts (env : CycleEnv) (henv : env.iterOk = true) (packetId : ℕ)
    (nack : Bool) :
    (resolveSuback env packetId nack (waitingClient buf packetId)).2 ≠
      (waitingClient buf packetId, []) := by
  intro hsame
  have hnodes := congrArg (fun result : Client × List Event => result.1.listSubWaitAck) hsame
  simp [resolveSuback, concludeSuback, maskSubInfoFrom, maskedHandler, maskSubNodes,
    waitingClient, henv, SubTopicHandle.zero] at hnodes

theorem handlerRight_iff
    (hbuf : buf = header :: mqttWritePacketRemLen body.length ++ body ++ stale)
    (htype : headerType header = MessageType.suback.code) (hlt : body.length < mqttRxBufLen) :
    HandlerRight buf body ↔ body.length ≠ 2 := by
  obtain ⟨hparse, -⟩ := deserialize_suback_accepted 1 hbuf htype hlt
  constructor
  · intro hright htwo
    have hnil : body.drop 2 = [] := List.drop_eq_nil_of_le (by omega)
    rw [if_pos ⟨by omega, by omega⟩, hnil] at hparse
    have henv := hright ⟨[], [], true, 0, none, 0, []⟩
      (waitingClient buf (mqttReadUint16 body 0)) rfl
    unfold handleSubackPacket at henv
    have hread : (waitingClient buf (mqttReadUint16 body 0)).readBuf = buf := rfl
    rw [hread, hparse, hnil] at henv
    rcases henv with hidle | ⟨code, hmem, -⟩
    · exact waitingClient_acts _ rfl _ _ hidle
    · cases hmem
  · intro hcodes env c hread
    unfold handleSubackPacket
    rw [hread, hparse]
    by_cases hfit : 2 ≤ body.length ∧ body.length ≤ 1 + 3
    · rw [if_pos hfit]
      right
      cases hdrop : body.drop 2 with
      | nil =>
        have hlen := congrArg List.length hdrop
        rw [List.length_drop, List.length_nil] at hlen
        omega
      | cons code rest => exact ⟨code, List.mem_cons_self .., rfl⟩
    · rw [if_neg hfit]
      exact .inl rfl

end Right

/-- An accepted SUBACK packet is read as it is exactly if it holds between one
code and `max_count` of them, or not even a packet id. -/
theorem suback_codes_right_iff (s s' : ReadState) (maxCount : ℕ)
    (h : readMqttPacket s = (.ok MessageType.suback.code, s')) :
    ∃ header body stale,
      s'.readBuf = header :: mqttWritePacketRemLen body.length ++ body ++ stale ∧
      (SubackRight maxCount s'.readBuf body ↔
        body.length < 2 ∨ (3 ≤ body.length ∧ body.length ≤ 2 + maxCount)) ∧
      (HandlerRight s'.readBuf body ↔ body.length ≠ 2) := by
  obtain ⟨header, body, stale, htype, hbuf, hlt, -⟩ := readMqttPacket_eq_ok h
  refine ⟨header, body, stale, hbuf, ?_, ?_⟩
  · exact subackRight_iff maxCount hbuf htype.symm hlt
  · exact handlerRight_iff hbuf htype.symm hlt

/-- A packet with one code, for a caller with room for one. -/
theorem suback_codes_right_iff_one :
    ∃ header body stale,
      [0x90, 3, 0, 7, 1] = header :: mqttWritePacketRemLen body.length ++ body ++ stale ∧
      (SubackRight 1 [0x90, 3, 0, 7, 1] body ↔
        body.length < 2 ∨ (3 ≤ body.length ∧ body.length ≤ 2 + 1)) ∧
      (HandlerRight [0x90, 3, 0, 7, 1] body ↔ body.length ≠ 2) :=
  suback_codes_right_iff ⟨[], [.deliver, .deliver, .deliver], [0x90, 3, 0, 7, 1]⟩
    ⟨[0x90, 3, 0, 7, 1], [], []⟩ 1 (by rfl)

/-- Two codes are taken where there is room for one, and a packet without any is
acted on. -/
theorem suback_codes_wrong :
    (readMqttPacket ⟨[], [.deliver, .deliver, .deliver], [0x90, 4, 0, 7, 1, 0x80]⟩ =
        (.ok MessageType.suback.code, ⟨[0x90, 4, 0, 7, 1, 0x80], [], []⟩) ∧
      deserializeSubackPacket 1 [0x90, 4, 0, 7, 1, 0x80] mqttRxBufLen = .ok (7, [1, 0x80]) ∧
      (1, 0x80) ∈ subackWrites 1 [0x90, 4, 0, 7, 1, 0x80] mqttRxBufLen ∧
      ¬ SubackRight 1 [0x90, 4, 0, 7, 1, 0x80] [0, 7, 1, 0x80]) ∧
    (readMqttPacket ⟨[], [.deliver, .deliver, .deliver], [0x90, 2, 0, 7]⟩ =
        (.ok MessageType.suback.code, ⟨[0x90, 2, 0, 7], [], []⟩) ∧
      deserializeSubackPacket 1 [0x90, 2, 0, 7] mqttRxBufLen = .ok (7, []) ∧
      ¬ SubackRight 1 [0x90, 2, 0, 7] [0, 7] ∧ ¬ HandlerRight [0x90, 2, 0, 7] [0, 7]) := by
  have htwo : ([0x90, 4, 0, 7, 1, 0x80] : List UInt8) =
      0x90 :: mqttWritePacketRemLen 4 ++ [0, 7, 1, 0x80] ++ [] := by decide
  have hnone : ([0x90, 2, 0, 7] : List UInt8) =
      0x90 :: mqttWritePacketRemLen 2 ++ [0, 7] ++ [] := by decide
  refine ⟨⟨rfl, by decide, by decide, ?_⟩, rfl, by decide, ?_, ?_⟩
  · rw [subackRight_iff 1 htwo (by decide) (by decide)]
    decide
  · rw [subackRight_iff 1 hnone (by decide) (by decide)]
    decide
  · rw [handlerRight_iff hnone (by decide) (by decide)]
    decide

end IotExplorer.SubackCodes
