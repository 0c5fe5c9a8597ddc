import IotExplorer.Network

/-!
Writes of a packet. `HAL_TCP_Write` keeps the contract of the schedules of writes: a
successful call has taken at least one byte and at most those that were requested, and a
call that fails has taken none. Since `send_mqtt_packet` requests the whole length each
time, it is right as long as no write takes more than what is missing and the timer does
not expire in the middle of a packet.
-/
namespace IotExplorer.PacketWrites

open Protocol PacketBytes Network

section HalTcpWrite

/-- One round of the loop in `HAL_TCP_Write`: what the clock, select and send report. -/
inductive SendRound where
  | sent (more : ℕ)
  | sentNone
  | sendInterrupted
  | sendError
  | notSet
  | selectInterrupted
  | selectTimeout
  | selectError
  | timeUp
  deriving DecidableEq

/-- `QCLOUD_ERR_TCP_WRITE_TIMEOUT` and `QCLOUD_ERR_TCP_WRITE_FAIL`. -/
def tcpWriteTimeout : ℤ := -605
def tcpWriteFail : ℤ := -607

/-- The loop of `HAL_TCP_Write` behind the bytes that were sent, with `ret`. The time is up when no
round is left; send takes at least one byte and at most what is left. -/
def halTcpWriteLoop (buf : Buffer) (len : ℕ) : List SendRound → ℤ → List UInt8 → ℤ × List UInt8
  | [], ret, sent => (ret, sent)
  | .sent more :: rounds, _, sent =>
      let n := min (more + 1) (len - sent.length)
      let sent := sent ++ slice buf sent.length n
      if sent.length < len then halTcpWriteLoop buf len rounds n sent else (n, sent)
  | .sentNone :: rounds, _, sent => halTcpWriteLoop buf len rounds 0 sent
  | .sendInterrupted :: rounds, _, sent => halTcpWriteLoop buf len rounds (-1) sent
  | .sendError :: _, _, sent => (tcpWriteFail, sent)
  | .notSet :: rounds, _, sent => halTcpWriteLoop buf len rounds 0 sent
  | .selectInterrupted :: rounds, _, sent => halTcpWriteLoop buf len rounds (-1) sent
  | .selectTimeout :: _, _, sent => (tcpWriteTimeout, sent)
  | .selectError :: _, _, sent => (tcpWriteFail, sent)
  | .timeUp :: _, _, sent => (tcpWriteTimeout, sent)

/-- `HAL_TCP_Write`; there is always a first round. -/
def halTcpWrite (buf : Buffer) (len : ℕ) (first : SendRound) (rounds : List SendRound) :
    ℤ × List UInt8 :=
  let (ret, sent) := halTcpWriteLoop buf len (first :: rounds) 0 []
  (if sent.length > 0 then 0 else ret, sent)

/-- A round that the source expects to arrive. -/
def SendRound.Expected (round : SendRound) : Prop := round ≠ .sentNone ∧ round ≠ .notSet

/-- The loop invariant: what was sent is the start of the data, and without a byte sent the value
that is returned is an error. -/
theorem halTcpWriteLoop_spec (buf : Buffer) {len : ℕ} (rounds : List SendRound) (ret : ℤ) (k : ℕ)
    (hk : k < len) (hret : k = 0 → ret = 0 → rounds ≠ [])
    (hexpected : ∀ round ∈ rounds, round.Expected) :
    ∃ n, (halTcpWriteLoop buf len rounds ret (slice buf 0 k)).2 = slice buf 0 n ∧ n ≤ len ∧
      (n = 0 → (halTcpWriteLoop buf len rounds ret (slice buf 0 k)).1 ≠ 0) := by
  have hfail : tcpWriteFail ≠ 0 := by decide
  have htimeout : tcpWriteTimeout ≠ 0 := by decide
  induction rounds generalizing ret k with
  | nil => exact ⟨k, rfl, by omega, fun hzero hnone => hret hzero hnone rfl⟩
  | cons round rounds ih =>
    have hlater : ∀ round' ∈ rounds, round'.Expected := fun round' hmem =>
      hexpected round' (List.mem_cons_of_mem round hmem)
    cases round with
    | sent more =>
      unfold halTcpWriteLoop
      dsimp only
      rw [slice_length, ← slice_append, slice_length]
      split_ifs with hshort
      · refine ih _ _ hshort ?_ hlater
        intro hzero
        omega
      · exact ⟨_, rfl, by omega, by omega⟩
    | sentNone => exact absurd rfl (hexpected _ (List.mem_cons_self ..)).1
    | notSet => exact absurd rfl (hexpected _ (List.mem_cons_self ..)).2
    | sendInterrupted => exact ih (-1) k hk (fun _ h => by cases h) hlater
    | selectInterrupted => exact ih (-1) k hk (fun _ h => by cases h) hlater
    | sendError => exact ⟨k, rfl, by omega, fun _ => hfail⟩
    | selectTimeout => exact ⟨k, rfl, by omega, fun _ => htimeout⟩
    | selectError => exact ⟨k, rfl, by omega, fun _ => hfail⟩
    | timeUp => exact ⟨k, rfl, by omega, fun _ => htimeout⟩

/-- `HAL_TCP_Write` behaves as one write of a schedule: it takes the start of the data and succeeds,
or it takes nothing and fails. -/
theorem halTcpWrite_contract (buf : Buffer) {len : ℕ} (hlen : 0 < len) {first : SendRound}
    {rounds : List SendRound} (hexpected : ∀ round ∈ first :: rounds, round.Expected) :
    ((halTcpWrite buf len first rounds).1 = 0 ∧
      ∃ more, (halTcpWrite buf len first rounds).2 = slice buf 0 (min (more + 1) len)) ∨
    ((halTcpWrite buf len first rounds).1 ≠ 0 ∧ (halTcpWrite buf len first rounds).2 = []) := by
  obtain ⟨n, hsent, hle, hret⟩ :=
    halTcpWriteLoop_spec buf (first :: rounds) 0 0 hlen (fun _ _ => List.cons_ne_nil _ _) hexpected
  have hnone : slice buf 0 0 = [] := rfl
  rw [hnone] at hsent hret
  rw [halTcpWrite]
  dsimp only
  rw [hsent, slice_length]
  cases n with
  | zero => exact Or.inr ⟨hret rfl, rfl⟩
  | succ more =>
    left
    refine ⟨if_pos (Nat.succ_pos more), more, ?_⟩
    rw [Nat.min_eq_left hle]

end HalTcpWrite

section Packets
variable {writeBuf : Buffer} {length sent : ℕ} {rc : ReturnCode}

/-- A packet is sent right when the network has taken a part of it from its start, and success is
reported when it has taken the whole packet, and only then. -/
structure SendRight (writeBuf : Buffer) (length : ℕ) (result : ReturnCode × List UInt8) : Prop where
  start : result.2 <+: slice writeBuf 0 length
  whole : result.1 = .success ↔ result.2.length = length

/-- Writes that fit a packet of which a part is sent: none takes more than what is missing, the
timer does not expire behind a part of the packet, and a write that fails has not taken the rest. -/
def WritesFit (length : ℕ) : List WriteChoice → ℕ → Prop
  | [], sent => sent = 0 ∨ sent = length
  | .accept more :: choices, sent =>
      if sent < length then WritesFit length choices (sent + min (more + 1) length)
        else sent = length
  | .fail _ _ n :: _, sent => if sent < length then sent + min n length < length else sent = length

instance decidableWritesFit (length : ℕ) :
    (choices : List WriteChoice) → (sent : ℕ) → Decidable (WritesFit length choices sent)
  | [], sent => inferInstanceAs (Decidable (sent = 0 ∨ sent = length))
  | .accept more :: choices, sent =>
      have := decidableWritesFit length choices (sent + min (more + 1) length)
      inferInstanceAs (Decidable (if sent < length then _ else _))
  | .fail .. :: _, sent => inferInstanceAs (Decidable (if sent < length then _ else _))

theorem sendRight_slice_iff (rc : ReturnCode) (sent : ℕ) :
    SendRight writeBuf length (rc, slice writeBuf 0 sent) ↔
      sent ≤ length ∧ (rc = .success ↔ sent = length) := by
  constructor
  · rintro ⟨hstart, hwhole⟩
    rw [slice_length] at hwhole
    exact ⟨(slice_prefix_iff writeBuf sent length).mp hstart, hwhole⟩
  · rintro ⟨hle, hwhole⟩
    refine ⟨(slice_prefix_iff writeBuf sent length).mpr hle, ?_⟩
    rw [slice_length]
    exact hwhole

variable (writeBuf) in
/-- The end of the loop, when all writes so far have succeeded. -/
theorem sendRight_end_iff (hpos : 0 < length) (hrc : rc = .success ↔ 0 < sent) :
    SendRight writeBuf length (if sent = length then .success else rc, slice writeBuf 0 sent) ↔
      sent = 0 ∨ sent = length := by
  rw [sendRight_slice_iff]
  by_cases hwhole : sent = length
  · simp [hwhole]
  · rw [if_neg hwhole, hrc]
    omega

/-- The loop invariant: what was taken is the start of the buffer, and the code is that of the last
write. -/
theorem sendMqttPacketLoop_right_iff (hpos : 0 < length) (choices : List WriteChoice)
    (hrc : rc = .success ↔ 0 < sent) :
    SendRight writeBuf length
        (sendMqttPacketLoop writeBuf length choices sent rc (slice writeBuf 0 sent)) ↔
      WritesFit length choices sent := by
  induction choices generalizing sent rc with
  | nil => exact sendRight_end_iff writeBuf hpos hrc
  | cons choice choices ih =>
    by_cases hlt : sent < length
    · cases choice with
      | accept more =>
        rw [sendMqttPacketLoop, if_pos hlt, WritesFit, if_pos hlt]
        dsimp only
        rw [← slice_append]
        apply ih
        simp only [true_iff]
        omega
      | fail code failed taken =>
        rw [sendMqttPacketLoop, if_pos hlt, WritesFit, if_pos hlt, ← slice_append,
          sendRight_slice_iff]
        simp only [failed, false_iff]
        omega
    · have hend := sendRight_end_iff writeBuf hpos hrc
      cases choice with
      | accept more =>
        rw [sendMqttPacketLoop, if_neg hlt, WritesFit, if_neg hlt, hend]
        omega
      | fail code failed taken =>
        rw [sendMqttPacketLoop, if_neg hlt, WritesFit, if_neg hlt, hend]
        omega

/-- A packet is sent right when it is too long to be sent or the writes fit it, and only then. -/
theorem sendMqttPacket_right_iff (writeBuf : Buffer) (length : ℕ) (choices : List WriteChoice) :
    SendRight writeBuf length (sendMqttPacket writeBuf length choices) ↔
      length ≥ mqttTxBufLen ∨ WritesFit length choices 0 := by
  have hnone : slice writeBuf 0 0 = [] := rfl
  rw [sendMqttPacket]
  split_ifs with hlong
  · refine iff_of_true ?_ (Or.inl hlong)
    rw [← hnone, sendRight_slice_iff]
    refine ⟨Nat.zero_le length, ?_⟩
    simp only [reduceCtorEq, false_iff]
    intro hzero
    rw [← hzero] at hlong
    exact absurd hlong (by decide)
  · rw [or_iff_right hlong]
    rcases Nat.eq_zero_or_pos length with hzero | hpos
    · subst hzero
      have hloop : sendMqttPacketLoop writeBuf 0 choices 0 .failure [] =
          (.success, slice writeBuf 0 0) := by
        cases choices <;> rfl
      rw [hloop, sendRight_slice_iff]
      refine iff_of_true ⟨Nat.le_refl 0, iff_of_true rfl rfl⟩ ?_
      rcases choices with _ | ⟨_ | _, choices⟩
      · exact Or.inl rfl
      · rfl
      · rfl
    · exact sendMqttPacketLoop_right_iff hpos choices (by simp)

/-- A write of a part is followed by a request for the whole length, so that bytes behind the packet
are taken. -/
theorem sendMqttPacket_right_partial :
    ¬ ∀ (writeBuf : Buffer) (length : ℕ) (choices : List WriteChoice),
    SendRight writeBuf length (sendMqttPacket writeBuf length choices) := by
  intro hall
  have hlength := (hall [1, 2, 3, 4, 5, 6, 7] 4 [.accept 2, .accept 3]).start.length_le
  exact absurd hlength (by decide)

end Packets

end IotExplorer.PacketWrites
