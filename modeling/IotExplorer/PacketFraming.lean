import IotExplorer.ReadPacket

/-!
How many bytes of the stream one call of `_read_mqtt_packet` takes. The stream
is a sequence of packets whose remaining length has one to four bytes, in the
shortest form or not. A call that succeeds took one packet; a call whose first
read fails took nothing; and a call whose later reads all succeed took one
packet, also when that packet is too long for the buffer and was dropped.
-/
namespace IotExplorer.PacketFraming

open IotExplorer.Basis Protocol PacketBytes Network ReadPacket

/-- One packet on the wire: its length bytes announce the length of its body. -/
structure WirePacket where
  header : UInt8
  lenBytes : List UInt8
  body : List UInt8
  announced : VarLength.decode 128 maxNoOfRemainingLengthBytes (lenBytes.map UInt8.toNat) =
    some (body.length, [])

def WirePacket.bytes (p : WirePacket) : List UInt8 := p.header :: p.lenBytes ++ p.body

theorem WirePacket.lenBytes_pos (p : WirePacket) : 0 < p.lenBytes.length := by
  have hlen := p.announced
  rcases hbytes : p.lenBytes with _ | ⟨c, lenBytes⟩
  · simp [hbytes, VarLength.decode, maxNoOfRemainingLengthBytes] at hlen
  · simp

def wireBytes (packets : List WirePacket) : List UInt8 := packets.flatMap WirePacket.bytes

/-- How often a body of this length is read. -/
def bodyReads (remLen : ℕ) : ℕ :=
  if remLen = 0 then 0
  else if remLen ≥ mqttRxBufLen then (remLen + mqttRxBufLen - 1) / mqttRxBufLen
  else 1

/-- Every read of the packet behind its first byte succeeds. -/
def Uninterrupted (p : WirePacket) (later : List ReadChoice) : Prop :=
  List.replicate (p.lenBytes.length + bodyReads p.body.length) .deliver <+: later

/-- The packet fits the receive buffer together with its fixed header. -/
def Storable (p : WirePacket) : Prop :=
  1 + (mqttWritePacketRemLen p.body.length).length + p.body.length ≤ mqttRxBufLen

/-- The length bytes arrive and the one read of a storable body fails with `rc`. -/
def BodyFails (p : WirePacket) (later : List ReadChoice) (rc : ReturnCode) : Prop :=
  0 < p.body.length ∧ Storable p ∧ ∃ failed taken,
    List.replicate p.lenBytes.length .deliver ++ [.fail rc failed taken] <+: later

section Reads
variable {s s' : ReadState} {taken bytes rest : List UInt8}

/-- A successful read uses up one outcome of the schedule. -/
theorem networkRead_success_choices {n : ℕ} (h : networkRead n s = (.success, taken, s')) :
    s'.choices = s.choices.tail := by
  obtain ⟨-, hrc, -⟩ | ⟨choice, choices, left, hchoices, -, rfl⟩ := networkRead_cases h
  · cases hrc
  · rw [hchoices]
    rfl

/-- A successful read of as many bytes as a block has takes that block. -/
theorem networkRead_success_block (hpos : 0 < bytes.length)
    (hpending : s.pending = bytes ++ rest)
    (h : networkRead bytes.length s = (.success, taken, s')) :
    taken = bytes ∧ s'.pending = rest ∧ s'.readBuf = s.readBuf := by
  have hlen := networkRead_success hpos h
  obtain ⟨-, hrc, -⟩ | ⟨choice, choices, left, -, hread, rfl⟩ := networkRead_cases h
  · cases hrc
  · have happ := readOne_append bytes.length choice s.pending
    rw [hread, hpending] at happ
    obtain ⟨htaken, hleft⟩ := List.append_inj happ hlen
    exact ⟨htaken, hleft, rfl⟩

/-- A delivered read takes the block at the front of the stream. -/
theorem networkRead_deliver {choices : List ReadChoice} (hchoices : s.choices = .deliver :: choices)
    (hpending : s.pending = bytes ++ rest) :
    networkRead bytes.length s =
      (.success, bytes, { s with choices := choices, pending := rest }) := by
  unfold networkRead
  rw [hchoices, hpending]
  dsimp only
  rw [readOne_deliver]

/-- A failing read of one byte leaves the stream as it was. -/
theorem networkRead_one_fail {rc : ReturnCode} (hrc : rc ≠ .success)
    (h : networkRead 1 s = (rc, taken, s')) : s'.pending = s.pending := by
  obtain ⟨-, -, -, rfl⟩ | ⟨choice, choices, left, -, hread, rfl⟩ := networkRead_cases h
  · rfl
  · have hlt := readOne_fail_lt 1 choice s.pending (by decide)
    have happ := readOne_append 1 choice s.pending
    rw [hread] at hlt happ
    have hnone : taken = [] := List.length_eq_zero_iff.mp (Nat.lt_one_iff.mp (hlt hrc))
    rwa [hnone, List.nil_append] at happ

/-- The code of a failing read is one of the network layer. -/
theorem networkRead_code {n : ℕ} {rc : ReturnCode} (h : networkRead n s = (rc, taken, s')) :
    rc ≠ .mqttNothingToRead := by
  obtain ⟨-, rfl, -⟩ | ⟨choice, choices, left, -, hread, -⟩ := networkRead_cases h
  · decide
  · obtain rfl : (readOne n choice s.pending).1 = rc := congrArg Prod.fst hread
    cases choice with
    | deliver =>
      by_cases hn : n ≤ s.pending.length
      · rw [readOne_enough n s.pending hn]
        simp
      · rw [readOne_short n s.pending hn]
        dsimp only
        split <;> decide
    | fail rc failed taken => exact failed.2

end Reads

/-- Reading the length bytes of a packet: either all of them arrive and the
announced length is returned, or some read fails and the code is `failure`. -/
theorem decodePacketRemLenWithNetRead_spec (k multiplier value n : ℕ) (lenBytes rest : List UInt8)
    (s : ReadState) (hpending : s.pending = lenBytes ++ rest)
    (hdecode : VarLength.decode 128 k (lenBytes.map UInt8.toNat) = some (n, [])) :
    (∃ s', decodePacketRemLenWithNetRead k multiplier value s =
        (.ok (value + n * multiplier), s') ∧ s'.pending = rest ∧ s'.readBuf = s.readBuf ∧
        s'.choices = s.choices.drop lenBytes.length) ∨
      ((decodePacketRemLenWithNetRead k multiplier value s).1 = .error .failure ∧
        ¬ List.replicate lenBytes.length ReadChoice.deliver <+: s.choices) := by
  induction k generalizing multiplier value n lenBytes s with
  | zero => simp [VarLength.decode] at hdecode
  | succ k ih =>
    cases lenBytes with
    | nil => simp [VarLength.decode] at hdecode
    | cons c lenBytes =>
      have hc := c.toNat_lt
      unfold decodePacketRemLenWithNetRead
      generalize hread : networkRead 1 s = r
      obtain ⟨rc, taken, s₁⟩ := r
      dsimp only
      by_cases hrc : rc = .success
      · subst hrc
        have hblock : s.pending = [c] ++ (lenBytes ++ rest) := hpending
        obtain ⟨rfl, hpending₁, hbuf₁⟩ := networkRead_success_block (by simp) hblock hread
        have hchoices : s₁.choices = s.choices.drop 1 := by
          rw [networkRead_success_choices hread, List.drop_one]
        rw [if_neg (by simp)]
        rw [List.map_cons, VarLength.decode] at hdecode
        by_cases hlt : c.toNat < 128
        · rw [if_pos hlt, Option.some.injEq, Prod.mk.injEq, List.map_eq_nil_iff] at hdecode
          obtain ⟨rfl, rfl⟩ := hdecode
          have hlow : ¬ [c].headD 0 &&& (128 : UInt8) ≠ 0 := by
            simpa using (and_high_eq_zero_iff c).mpr hlt
          have hvalue : ([c].headD 0 &&& (127 : UInt8)).toNat = c.toNat := by
            rw [List.headD_cons, toNat_and_low, Nat.mod_eq_of_lt hlt]
          rw [if_neg hlow, hvalue]
          exact Or.inl ⟨s₁, rfl, hpending₁, hbuf₁, hchoices⟩
        · have hhigh : [c].headD 0 &&& (128 : UInt8) ≠ 0 := by
            simpa [and_high_eq_zero_iff] using hlt
          have hvalue : ([c].headD 0 &&& (127 : UInt8)).toNat = c.toNat % 128 := by
            rw [List.headD_cons, toNat_and_low]
          rw [if_neg hlt, Option.map_eq_some_iff] at hdecode
          obtain ⟨⟨m, left⟩, hrest, heq⟩ := hdecode
          simp only [Prod.mk.injEq] at heq
          obtain ⟨rfl, rfl⟩ := heq
          rw [if_pos hhigh, hvalue]
          rcases ih (multiplier * 128) (value + c.toNat % 128 * multiplier) m lenBytes s₁
              hpending₁ hrest with ⟨s', hok, hp, hb, hch⟩ | ⟨herr, hnot⟩
          · refine Or.inl ⟨s', ?_, hp, hb.trans hbuf₁, ?_⟩
            · have hmod : c.toNat % 128 = c.toNat - 128 := by omega
              rw [hok, hmod]
              congr 2
              ring
            · rw [hch, hchoices, List.drop_drop, List.length_cons, Nat.add_comm]
          · refine Or.inr ⟨herr, fun hpre => hnot ?_⟩
            obtain ⟨choices, heq⟩ := hpre
            refine ⟨choices, ?_⟩
            rw [hchoices, ← heq]
            rfl
      · rw [if_pos hrc]
        refine Or.inr ⟨rfl, fun hpre => hrc ?_⟩
        obtain ⟨choices, hchoices⟩ := hpre
        rw [List.length_cons, List.replicate_succ, List.cons_append] at hchoices
        have hblock : s.pending = [c] ++ (lenBytes ++ rest) := hpending
        have hdeliver := networkRead_deliver hchoices.symm hblock
        rw [List.length_singleton, hread] at hdeliver
        exact congrArg Prod.fst hdeliver

/-- Dropping an oversized body whose reads all succeed takes the whole body. -/
theorem discardPacket_pending (remLen total : ℕ) (choices : List ReadChoice) (s : ReadState)
    (body rest : List UInt8) (hpending : s.pending = body ++ rest)
    (htotal : total + body.length = remLen) (hpos : 0 < body.length)
    (hdeliver : List.replicate ((body.length + mqttRxBufLen - 1) / mqttRxBufLen)
      ReadChoice.deliver <+: choices) :
    (discardPacket remLen choices total
      (if body.length ≥ mqttRxBufLen then mqttRxBufLen else body.length) s).pending = rest := by
  induction choices generalizing total s body with
  | nil =>
    have hreads : 0 < (body.length + mqttRxBufLen - 1) / mqttRxBufLen := by
      unfold mqttRxBufLen
      omega
    have hlen := List.IsPrefix.length_le hdeliver
    rw [List.length_replicate, List.length_nil] at hlen
    omega
  | cons choice choices ih =>
    generalize htoRead : (if body.length ≥ mqttRxBufLen then mqttRxBufLen else body.length) = toRead
    have hle : toRead ≤ body.length := by
      rw [← htoRead]
      split <;> omega
    have hmore : 0 < toRead := by
      rw [← htoRead]
      unfold mqttRxBufLen
      split <;> omega
    obtain ⟨reads, hreads⟩ : ∃ reads,
        (body.length + mqttRxBufLen - 1) / mqttRxBufLen = reads + 1 := by
      refine ⟨(body.length + mqttRxBufLen - 1) / mqttRxBufLen - 1, ?_⟩
      unfold mqttRxBufLen
      omega
    rw [hreads, List.replicate_succ, List.cons_prefix_cons] at hdeliver
    obtain ⟨rfl, hlater⟩ := hdeliver
    have hsplit : s.pending = body.take toRead ++ (body.drop toRead ++ rest) := by
      rw [hpending, ← List.append_assoc, List.take_append_drop]
    have hread := readOne_deliver (body.take toRead) (body.drop toRead ++ rest)
    rw [← hsplit, List.length_take, Nat.min_eq_left hle] at hread
    unfold discardPacket
    rw [hread]
    dsimp only
    rw [if_neg (by simp), List.length_take, Nat.min_eq_left hle]
    have hleft : (body.drop toRead).length = body.length - toRead := List.length_drop
    by_cases hend : total + toRead < remLen
    · rw [if_pos hend]
      have hnext : remLen - (total + toRead) = (body.drop toRead).length := by omega
      rw [hnext]
      refine ih (total + toRead) _ (body.drop toRead) rfl (by omega) (by omega) ?_
      refine List.IsPrefix.trans ?_ hlater
      have hcount : ((body.drop toRead).length + mqttRxBufLen - 1) / mqttRxBufLen ≤ reads := by
        rw [hleft, ← htoRead]
        unfold mqttRxBufLen at hreads ⊢
        split <;> omega
      exact ⟨List.replicate (reads - _) .deliver, by
        rw [List.replicate_append_replicate, Nat.add_sub_cancel' hcount]⟩
    · rw [if_neg hend]
      have hnil : body.drop toRead = [] := List.length_eq_zero_iff.mp (by omega)
      rw [hnil, List.nil_append]

/-- What one call leaves of a stream that starts with the packet `p`. -/
inductive Outcome (s : ReadState) (p : WirePacket) (rest : List UInt8)
    (r : Except ReturnCode UInt8 × ReadState) : Prop
  /-- The first byte did not arrive, and nothing was taken. -/
  | nothing (rc : ReturnCode) :
      r.1 = .error rc → r.2.pending = s.pending → Outcome s p rest r
  /-- The packet was taken as a whole; an oversized one was dropped. -/
  | whole : r.1 ≠ .error .mqttNothingToRead → r.2.pending = rest → Outcome s p rest r
  /-- A read behind the first byte failed. -/
  | broken (rc : ReturnCode) :
      r.1 = .error rc → rc ≠ .success → rc ≠ .mqttNothingToRead →
      ¬ Uninterrupted p s.choices.tail →
      (∀ rc', BodyFails p s.choices.tail rc' → rc = rc') → Outcome s p rest r

theorem Uninterrupted.lenBytes {p : WirePacket} {later : List ReadChoice}
    (h : Uninterrupted p later) :
    List.replicate p.lenBytes.length ReadChoice.deliver <+: later := by
  obtain ⟨choices, heq⟩ := h
  rw [← List.replicate_append_replicate, List.append_assoc] at heq
  exact ⟨_, heq⟩

theorem Uninterrupted.body {p : WirePacket} {later : List ReadChoice} (h : Uninterrupted p later) :
    List.replicate (bodyReads p.body.length) ReadChoice.deliver <+:
      later.drop p.lenBytes.length := by
  obtain ⟨choices, rfl⟩ := h
  refine ⟨choices, ?_⟩
  rw [← List.replicate_append_replicate, List.append_assoc, List.drop_left' List.length_replicate]

theorem BodyFails.lenBytes {p : WirePacket} {later : List ReadChoice} {rc : ReturnCode}
    (h : BodyFails p later rc) : List.replicate p.lenBytes.length ReadChoice.deliver <+: later := by
  obtain ⟨-, -, failed, taken, choices, heq⟩ := h
  rw [List.append_assoc] at heq
  exact ⟨_, heq⟩

theorem BodyFails.body {p : WirePacket} {later : List ReadChoice} {rc : ReturnCode}
    (h : BodyFails p later rc) :
    ∃ failed taken choices, later.drop p.lenBytes.length = .fail rc failed taken :: choices := by
  obtain ⟨-, -, failed, taken, choices, rfl⟩ := h
  refine ⟨failed, taken, choices, ?_⟩
  rw [List.append_assoc, List.drop_left' List.length_replicate, List.singleton_append]

/-- A read of the whole body succeeds when no read is interrupted. -/
theorem networkRead_body {s s' : ReadState} {p : WirePacket} {rest taken : List UInt8}
    {later : List ReadChoice} {rc : ReturnCode} (hpos : 0 < p.body.length)
    (hsmall : ¬ p.body.length ≥ mqttRxBufLen) (hpending : s.pending = p.body ++ rest)
    (hchoices : s.choices = later.drop p.lenBytes.length) (hall : Uninterrupted p later)
    (hread : networkRead p.body.length s = (rc, taken, s')) : rc = .success := by
  obtain ⟨choices, heq⟩ := hall.body
  rw [bodyReads, if_neg (by omega), if_neg hsmall, ← hchoices, List.replicate_one,
    List.singleton_append] at heq
  rw [networkRead_deliver heq.symm hpending] at hread
  exact (congrArg Prod.fst hread).symm

/-- A failing body read fails with the code of the schedule. -/
theorem networkRead_body_fails {s s' : ReadState} {p : WirePacket} {taken : List UInt8}
    {later : List ReadChoice} {rc rc' : ReturnCode}
    (hchoices : s.choices = later.drop p.lenBytes.length) (hfails : BodyFails p later rc')
    (hread : networkRead p.body.length s = (rc, taken, s')) : rc = rc' := by
  obtain ⟨failed, n, choices, heq⟩ := hfails.body
  rw [← hchoices] at heq
  obtain ⟨hnil, -⟩ | ⟨choice, choices', left, hnext, hone, -⟩ := networkRead_cases hread
  · rw [hnil] at heq
    cases heq
  · rw [hnext] at heq
    obtain ⟨rfl, -⟩ := List.cons.inj heq
    exact (congrArg Prod.fst hone).symm

/-- One call on a stream that starts with a packet. -/
theorem readMqttPacket_outcome (s : ReadState) (p : WirePacket) (rest : List UInt8)
    (hpending : s.pending = p.bytes ++ rest) : Outcome s p rest (readMqttPacket s) := by
  unfold readMqttPacket
  generalize hfirst : networkRead 1 s = r
  obtain ⟨rc, header, s₁⟩ := r
  dsimp only
  by_cases hrc : rc = .success
  · subst hrc
    have hblock : s.pending = [p.header] ++ (p.lenBytes ++ (p.body ++ rest)) := by
      rw [hpending, WirePacket.bytes]
      simp only [List.append_assoc, List.cons_append, List.nil_append]
    obtain ⟨rfl, hpending₁, -⟩ := networkRead_success_block (by simp) hblock hfirst
    have hchoices₁ := networkRead_success_choices hfirst
    rw [if_neg (by decide), if_neg (by decide)]
    rcases decodePacketRemLenWithNetRead_spec maxNoOfRemainingLengthBytes 1 0 p.body.length
        p.lenBytes (p.body ++ rest) { s₁ with readBuf := overwrite s₁.readBuf [p.header] }
        hpending₁ p.announced with ⟨s₂, hlen, hpending₂, -, hchoices₂⟩ | ⟨herr, hnot⟩
    · rw [Nat.mul_one, Nat.zero_add] at hlen
      rw [hlen]
      dsimp only at hchoices₂ ⊢
      rw [hchoices₁] at hchoices₂
      by_cases hbig : p.body.length ≥ mqttRxBufLen
      · have hpos : 0 < p.body.length := by
          unfold mqttRxBufLen at hbig
          omega
        rw [if_pos hbig]
        by_cases hall : Uninterrupted p s.choices.tail
        · refine .whole (by simp) ?_
          have hreads := hall.body
          rw [bodyReads, if_neg (by omega), if_pos hbig, ← hchoices₂] at hreads
          have hdrop := discardPacket_pending p.body.length 0 s₂.choices s₂ p.body rest hpending₂
            (Nat.zero_add _) hpos hreads
          rwa [if_pos hbig] at hdrop
        · refine .broken .bufTooShort rfl (by decide) (by decide) hall ?_
          rintro rc' ⟨-, hfit, -⟩
          unfold Storable at hfit
          omega
      · rw [if_neg hbig]
        by_cases hpos : p.body.length > 0
        · generalize hread : networkRead p.body.length _ = r
          obtain ⟨rc, taken, s₃⟩ := r
          dsimp only
          have hwhole : rc = .success → s₃.pending = rest := by
            rintro rfl
            refine (networkRead_success_block hpos ?_ hread).2.1
            exact hpending₂
          have hall : Uninterrupted p s.choices.tail → rc = .success := by
            intro hall
            refine @networkRead_body _ _ _ rest _ _ _ hpos hbig ?_ ?_ hall hread
            · exact hpending₂
            · exact hchoices₂
          by_cases hshort :
              ([p.header] ++ mqttWritePacketRemLen p.body.length).length + p.body.length >
                mqttRxBufLen
          · rw [if_pos ⟨hpos, hshort⟩]
            by_cases hrc : rc = .success
            · exact .whole (by simp) (hwhole hrc)
            · refine .broken .bufTooShort rfl (by decide) (by decide) (fun h => hrc (hall h)) ?_
              rintro rc' ⟨-, hfit, -⟩
              unfold Storable at hfit
              rw [List.length_append, List.length_singleton] at hshort
              omega
          · rw [if_neg (fun h => hshort h.2), if_pos hpos]
            by_cases hrc : rc = .success
            · rw [if_neg (by simpa using hrc)]
              exact .whole (by simp) (hwhole hrc)
            · rw [if_pos hrc]
              refine .broken rc rfl hrc (networkRead_code hread) (fun h => hrc (hall h)) ?_
              intro rc' hfails
              refine networkRead_body_fails ?_ hfails hread
              exact hchoices₂
        · have hnil : p.body = [] := List.length_eq_zero_iff.mp (by omega)
          rw [hnil, List.nil_append] at hpending₂
          rw [if_neg (fun h => hpos h.1), if_neg hpos]
          exact .whole (by simp) hpending₂
    · rw [hchoices₁] at hnot
      generalize hlen : decodePacketRemLenWithNetRead maxNoOfRemainingLengthBytes 1 0
        { s₁ with readBuf := overwrite s₁.readBuf [p.header] } = r at herr
      obtain ⟨result, s₂⟩ := r
      dsimp only at herr
      subst herr
      exact .broken .failure rfl (by decide) (by decide) (fun h => hnot h.lenBytes)
        (fun rc' h => absurd h.lenBytes hnot)
  · have hsame := networkRead_one_fail hrc hfirst
    split_ifs
    · exact .nothing _ rfl hsame
    · exact .nothing _ rfl hsame

/-- On an exhausted stream the first byte does not arrive. -/
theorem readMqttPacket_exhausted (s : ReadState) (hpending : s.pending = []) :
    (readMqttPacket s).1 ≠ .ok MessageType.connack.code ∧ (readMqttPacket s).2.pending = [] := by
  unfold readMqttPacket
  generalize hfirst : networkRead 1 s = r
  obtain ⟨rc, taken, s₁⟩ := r
  dsimp only
  have hrc : rc ≠ .success := by
    rintro rfl
    have hlen := networkRead_success (by decide) hfirst
    obtain ⟨-, hrc, -⟩ | ⟨choice, choices, left, -, hread, -⟩ := networkRead_cases hfirst
    · cases hrc
    · have happ := congrArg List.length (readOne_append 1 choice s.pending)
      rw [hread, List.length_append, hlen, hpending, List.length_nil] at happ
      omega
  have hsame := networkRead_one_fail hrc hfirst
  split_ifs
  · exact ⟨by simp, hsame.trans hpending⟩
  · exact ⟨by simp, hsame.trans hpending⟩

end IotExplorer.PacketFraming
