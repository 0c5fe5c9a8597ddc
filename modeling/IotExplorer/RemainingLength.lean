import IotExplorer.PacketFraming

/-!
The remaining length is decoded twice: byte by byte from the network, and again
from the receive buffer, into which `_read_mqtt_packet` wrote it anew. The two
decoders agree on every stream, both invert the encoder, and the second finds
the length and the body that the first let through, also when the length came in
more bytes than it needs.
-/
namespace IotExplorer.RemainingLength

open IotExplorer.Basis Protocol PacketBytes Network ReadPacket PacketFraming

/-- A read takes a part of the stream. -/
theorem networkRead_pending {m : ℕ} {s s' : ReadState} {rc : ReturnCode} {bytes : List UInt8}
    (h : networkRead m s = (rc, bytes, s')) : s.pending = bytes ++ s'.pending := by
  obtain ⟨-, -, rfl, rfl⟩ | ⟨choice, choices, left, -, hread, rfl⟩ := networkRead_cases h
  · rfl
  · have happ := readOne_append m choice s.pending
    rw [hread] at happ
    exact happ.symm

theorem networkRead_readBuf {m : ℕ} {s s' : ReadState} {rc : ReturnCode} {bytes : List UInt8}
    (h : networkRead m s = (rc, bytes, s')) : s'.readBuf = s.readBuf := by
  obtain ⟨-, -, -, rfl⟩ | ⟨choice, choices, left, -, -, rfl⟩ := networkRead_cases h
  · rfl
  · rfl

section Loops
variable {k multiplier value n : ℕ} {pre taken rest post : List UInt8} {s s' : ReadState}

theorem byteAt_head (pre : List UInt8) (c : UInt8) (rest : List UInt8) :
    byteAt (pre ++ c :: rest) pre.length = c := by
  rw [byteAt_append_right _ _ _ (Nat.le_refl _), Nat.sub_self]
  rfl

/-- The buffer decoder moves its cursor by one to `k` bytes. -/
theorem decodePacketRemLenLoop_pos {buf : Buffer} {pos pos' : ℕ}
    (h : decodePacketRemLenLoop buf k pos multiplier value = .ok (n, pos')) :
    pos < pos' ∧ pos' ≤ pos + k := by
  induction k generalizing pos multiplier value with
  | zero => cases h
  | succ k ih =>
    unfold decodePacketRemLenLoop at h
    dsimp only at h
    split_ifs at h
    · have hlater := ih h
      omega
    · obtain ⟨-, rfl⟩ := Prod.mk.inj (Except.ok.inj h)
      omega

/-- What the network decoder accepts, the buffer decoder accepts, with the same
value behind the same bytes. -/
theorem decodePacketRemLenWithNetRead_sound (pre post : List UInt8)
    (h : decodePacketRemLenWithNetRead k multiplier value s = (.ok n, s')) :
    ∃ taken, s.pending = taken ++ s'.pending ∧ s'.readBuf = s.readBuf ∧
      decodePacketRemLenLoop (pre ++ s.pending ++ post) k pre.length multiplier value =
        .ok (n, pre.length + taken.length) := by
  induction k generalizing pre multiplier value s with
  | zero => cases h
  | succ k ih =>
    unfold decodePacketRemLenWithNetRead at h
    generalize hread : networkRead 1 s = r at h
    obtain ⟨rc, bytes, s₁⟩ := r
    dsimp only at h
    split_ifs at h with hrc hmore
    · cases h
    all_goals
      obtain rfl : rc = .success := by simpa using hrc
      obtain ⟨c, rfl⟩ := List.length_eq_one_iff.mp (networkRead_success (by decide) hread)
      have hpending : s.pending = c :: s₁.pending := networkRead_pending hread
      have hbuf := networkRead_readBuf hread
      rw [List.headD_cons] at h hmore
      rw [hpending, List.append_assoc]
      unfold decodePacketRemLenLoop
      dsimp only [List.cons_append]
      rw [byteAt_head]
    · obtain ⟨taken, htaken, hbuf', hloop⟩ := ih (pre ++ [c]) h
      refine ⟨c :: taken, ?_, hbuf'.trans hbuf, ?_⟩
      · rw [htaken, List.cons_append]
      · rw [if_pos hmore]
        simpa [Nat.add_assoc, Nat.add_comm 1] using hloop
    · obtain ⟨hvalue, rfl⟩ := Prod.mk.inj h
      refine ⟨[c], rfl, hbuf, ?_⟩
      rw [if_neg hmore, ← Except.ok.inj hvalue]
      rfl

/-- What the buffer decoder accepts inside the stream, the network decoder accepts
when the stream is delivered. -/
theorem decodePacketRemLenWithNetRead_complete (readBuf : Buffer) (later : List ReadChoice)
    (h : decodePacketRemLenLoop (pre ++ (taken ++ rest) ++ post) k pre.length multiplier value =
      .ok (n, pre.length + taken.length)) :
    ∃ choices, decodePacketRemLenWithNetRead k multiplier value
        ⟨readBuf, List.replicate k .deliver ++ later, taken ++ rest⟩ =
      (.ok n, ⟨readBuf, choices, rest⟩) := by
  induction k generalizing pre taken multiplier value with
  | zero => cases h
  | succ k ih =>
    cases taken with
    | nil =>
      have hpos := decodePacketRemLenLoop_pos h
      rw [List.length_nil] at hpos
      omega
    | cons c taken =>
      have hfront : (⟨readBuf, List.replicate (k + 1) .deliver ++ later,
          c :: taken ++ rest⟩ : ReadState).pending = [c] ++ (taken ++ rest) := rfl
      have hread := networkRead_deliver rfl hfront
      rw [List.length_singleton] at hread
      unfold decodePacketRemLenWithNetRead
      rw [hread]
      dsimp only
      rw [if_neg (not_not.mpr rfl), List.headD_cons]
      unfold decodePacketRemLenLoop at h
      rw [List.cons_append, List.append_assoc, List.cons_append, byteAt_head] at h
      dsimp only at h
      split_ifs at h with hmore
      · rw [if_pos hmore]
        have hshift : pre ++ c :: (taken ++ rest ++ post) =
            (pre ++ [c]) ++ (taken ++ rest) ++ post := by simp
        have hlen : (pre ++ [c]).length = pre.length + 1 := by simp
        have hcount : pre.length + (c :: taken).length = pre.length + 1 + taken.length := by
          rw [List.length_cons, Nat.add_assoc, Nat.add_comm 1]
        rw [hshift, hcount, ← hlen] at h
        exact ih h
      · obtain ⟨hvalue, hpos⟩ := Prod.mk.inj (Except.ok.inj h)
        obtain rfl : taken = [] := by
          rw [List.length_cons] at hpos
          exact List.length_eq_zero_iff.mp (by omega)
        rw [if_neg hmore, hvalue]
        exact ⟨_, rfl⟩

end Loops

/-- The network decoder on a stream that the connection delivers: the value, and
what is left of the stream. -/
def decodeDelivered (readBuf : Buffer) (later : List ReadChoice) (stream : List UInt8) :
    Except ReturnCode ℕ × List UInt8 :=
  let r := decodePacketRemLenWithNetRead maxNoOfRemainingLengthBytes 1 0
    ⟨readBuf, List.replicate maxNoOfRemainingLengthBytes .deliver ++ later, stream⟩
  (r.1, r.2.pending)

/-- Both decoders take the same bytes from the front of a stream, for the same value. -/
theorem decodeDelivered_iff (readBuf pre taken rest post : List UInt8) (later : List ReadChoice)
    (n : ℕ) :
    decodeDelivered readBuf later (taken ++ rest) = (.ok n, rest) ↔
      mqttReadPacketRemLenFormBuf (pre ++ (taken ++ rest) ++ post) pre.length =
        .ok (n, pre.length + taken.length) := by
  unfold decodeDelivered mqttReadPacketRemLenFormBuf
  constructor
  · intro h
    generalize hdecode : decodePacketRemLenWithNetRead _ _ _ _ = r at h
    obtain ⟨result, s'⟩ := r
    obtain ⟨rfl, hrest⟩ := Prod.mk.inj h
    dsimp only at hrest
    obtain ⟨taken', hpending, -, hloop⟩ := decodePacketRemLenWithNetRead_sound pre post hdecode
    rw [hrest] at hpending
    obtain rfl := List.append_cancel_right hpending
    exact hloop
  · intro h
    obtain ⟨choices, hdecode⟩ :=
      decodePacketRemLenWithNetRead_complete readBuf later h
    dsimp only
    rw [hdecode]

/-- The length of an accepted packet, decoded again from the buffer: the peer sent
a header, its length bytes and the body, and the buffer decoder finds the length
that the network decoder found, with the body behind its cursor. -/
def RemLenKept (s s' : ReadState) : Prop :=
  ∃ header lenBytes body cursor stale,
    s.pending = header :: lenBytes ++ (body ++ s'.pending) ∧
    (∀ readBuf later, decodeDelivered readBuf later (lenBytes ++ (body ++ s'.pending)) =
      (.ok body.length, body ++ s'.pending)) ∧
    mqttReadPacketRemLenFormBuf s'.readBuf 1 = .ok (body.length, cursor) ∧
    s'.readBuf.drop cursor = body ++ stale

/-- What an accepted packet was read from, and what the buffer holds afterwards. -/
theorem readMqttPacket_taken {s s' : ReadState} {packetType : UInt8}
    (h : readMqttPacket s = (.ok packetType, s')) :
    ∃ header lenBytes body stale,
      s.pending = header :: lenBytes ++ (body ++ s'.pending) ∧
      (∀ readBuf later, decodeDelivered readBuf later (lenBytes ++ (body ++ s'.pending)) =
        (.ok body.length, body ++ s'.pending)) ∧
      s'.readBuf = header :: mqttWritePacketRemLen body.length ++ body ++ stale ∧
      body.length < mqttRxBufLen := by
  unfold readMqttPacket at h
  generalize hfirst : networkRead 1 s = r at h
  obtain ⟨rc, headerBytes, s₁⟩ := r
  dsimp only at h
  split_ifs at h with hnothing hrc
  · cases h
  · cases h
  obtain rfl : rc = .success := by simpa using hrc
  obtain ⟨header, rfl⟩ := List.length_eq_one_iff.mp (networkRead_success (by decide) hfirst)
  have hheader := networkRead_pending hfirst
  split at h
  · cases h
  next remLen s₂ hlen =>
    -- the length bytes decode to the same number when they are delivered again
    obtain ⟨lenBytes, hlenBytes, -, hloop⟩ := decodePacketRemLenWithNetRead_sound [] [] hlen
    dsimp only at hlenBytes hloop
    have hagain : ∀ readBuf later, decodeDelivered readBuf later (lenBytes ++ s₂.pending) =
        (.ok remLen, s₂.pending) := by
      intro readBuf later
      rw [decodeDelivered_iff readBuf [] lenBytes s₂.pending [] later remLen, ← hlenBytes]
      exact hloop
    by_cases hbig : remLen ≥ mqttRxBufLen
    · rw [if_pos hbig] at h
      cases h
    rw [if_neg hbig] at h
    by_cases hshort : remLen > 0 ∧
        ([header] ++ mqttWritePacketRemLen remLen).length + remLen > mqttRxBufLen
    · rw [if_pos hshort] at h
      cases h
    rw [if_neg hshort] at h
    by_cases hbody : remLen > 0
    · rw [if_pos hbody] at h
      generalize hread : networkRead remLen _ = r at h
      obtain ⟨rc, body, s₃⟩ := r
      dsimp only at h
      split_ifs at h with hrc
      · cases h
      obtain rfl : rc = .success := by simpa using hrc
      have hbodyBytes := networkRead_pending hread
      dsimp only at hbodyBytes
      obtain rfl := networkRead_success hbody hread
      obtain ⟨-, rfl⟩ := Prod.mk.inj h
      refine ⟨header, lenBytes, body, _, ?_, ?_, rfl, by omega⟩
      · dsimp only
        rw [hheader, hlenBytes, hbodyBytes]
        rfl
      · dsimp only
        rw [← hbodyBytes]
        exact hagain
    · obtain rfl : remLen = 0 := by omega
      rw [if_neg hbody] at h
      obtain ⟨-, rfl⟩ := Prod.mk.inj h
      refine ⟨header, lenBytes, [], s₂.readBuf.drop 2, ?_, hagain, rfl, by decide⟩
      rw [hheader, hlenBytes]
      rfl

theorem remLenKept_of_accepted {s s' : ReadState} {packetType : UInt8}
    (h : readMqttPacket s = (.ok packetType, s')) : RemLenKept s s' := by
  obtain ⟨header, lenBytes, body, stale, hpending, hdecode, hbuf, hlt⟩ := readMqttPacket_taken h
  unfold mqttRxBufLen at hlt
  have hread := mqttReadPacketRemLenFormBuf_write [header] (body ++ stale) 1 body.length rfl
    (by omega)
  have hassoc : [header] ++ mqttWritePacketRemLen body.length ++ (body ++ stale) = s'.readBuf := by
    rw [hbuf]
    simp only [List.append_assoc, List.cons_append, List.nil_append]
  rw [hassoc] at hread
  refine ⟨header, lenBytes, body, _, stale, hpending, hdecode, hread, ?_⟩
  rw [← hassoc]
  apply List.drop_left'
  rw [List.length_append, List.length_singleton]

/-- The two decoders agree on every stream, both invert the encoder below `2 ^ 28`,
and the length of an accepted packet is found again in the buffer. -/
theorem rem_len_decoders_agree :
    (∀ (readBuf pre taken rest post : List UInt8) (later : List ReadChoice) (n : ℕ),
      decodeDelivered readBuf later (taken ++ rest) = (.ok n, rest) ↔
        mqttReadPacketRemLenFormBuf (pre ++ (taken ++ rest) ++ post) pre.length =
          .ok (n, pre.length + taken.length)) ∧
    (∀ (readBuf pre rest : List UInt8) (later : List ReadChoice) (n : ℕ), n < 2 ^ 28 →
      decodeDelivered readBuf later (mqttWritePacketRemLen n ++ rest) = (.ok n, rest) ∧
        mqttReadPacketRemLenFormBuf (pre ++ mqttWritePacketRemLen n ++ rest) pre.length =
          .ok (n, pre.length + (mqttWritePacketRemLen n).length)) ∧
    ∀ (s s' : ReadState) (packetType : UInt8),
      readMqttPacket s = (.ok packetType, s') → RemLenKept s s' := by
  refine ⟨decodeDelivered_iff, ?_, fun s s' packetType => remLenKept_of_accepted⟩
  intro readBuf pre rest later n hn
  have hbuffer := mqttReadPacketRemLenFormBuf_write pre rest pre.length n rfl hn
  refine ⟨?_, hbuffer⟩
  rw [decodeDelivered_iff readBuf pre _ rest [] later n, List.append_nil, ← List.append_assoc]
  exact hbuffer

/-- A length of 2 in four bytes is stored in one. -/
example : readMqttPacket ⟨[], List.replicate 6 .deliver, [0x40, 0x82, 0x80, 0x80, 0, 0, 7]⟩ =
    (.ok 4, ⟨[0x40, 2, 0, 7], [], []⟩) := by decide

end IotExplorer.RemainingLength
