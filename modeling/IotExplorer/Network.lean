import IotExplorer.PacketBytes

/-!
The network layer under the client: blocking reads and writes whose outcomes a
schedule decides. A read succeeds with exactly the requested bytes, and a
failing read has taken fewer; `halTcpRead_eq_readOne` shows that `HAL_TCP_Read`
keeps this contract whatever select and recv report. A write may take a part of
the requested bytes. A schedule that has run out stands for an idle peer or an
expired timer.
-/
namespace IotExplorer.Network

open Protocol PacketBytes

/-- One read of the network stack: the requested bytes arrive, or the read fails
with a code of the network layer after taking some of them. -/
inductive ReadChoice where
  | deliver
  | fail (rc : ReturnCode) (failed : rc ≠ .success ∧ rc ≠ .mqttNothingToRead) (taken : ℕ)
  deriving DecidableEq

/-- The outcome of reading `n` bytes: return code, bytes taken, bytes left. -/
def readOne (n : ℕ) : ReadChoice → List UInt8 → ReturnCode × List UInt8 × List UInt8
  | .deliver, pending =>
      if n ≤ pending.length then (.success, pending.take n, pending.drop n)
      else (if pending = [] then .tcpNothingToRead else .tcpReadTimeout, pending, [])
  | .fail rc _ taken, pending =>
      (rc, pending.take (min taken (n - 1)), pending.drop (min taken (n - 1)))

theorem readOne_enough (n : ℕ) (pending : List UInt8) (h : n ≤ pending.length) :
    readOne n .deliver pending = (.success, pending.take n, pending.drop n) := by
  simp only [readOne, if_pos h]

theorem readOne_short (n : ℕ) (pending : List UInt8) (h : ¬ n ≤ pending.length) :
    readOne n .deliver pending =
      (if pending = [] then .tcpNothingToRead else .tcpReadTimeout, pending, []) := by
  simp only [readOne, if_neg h]

theorem readOne_append (n : ℕ) (choice : ReadChoice) (pending : List UInt8) :
    (readOne n choice pending).2.1 ++ (readOne n choice pending).2.2 = pending := by
  cases choice with
  | deliver =>
    by_cases h : n ≤ pending.length
    · rw [readOne_enough n pending h]
      exact List.take_append_drop n pending
    · rw [readOne_short n pending h]
      exact List.append_nil pending
  | fail rc failed taken => exact List.take_append_drop _ _

/-- The contract: success means that exactly the requested bytes were taken. -/
theorem readOne_success_iff (n : ℕ) (choice : ReadChoice) (pending : List UInt8) (hn : 0 < n) :
    (readOne n choice pending).1 = .success ↔ (readOne n choice pending).2.1.length = n := by
  cases choice with
  | deliver =>
    by_cases h : n ≤ pending.length
    · rw [readOne_enough n pending h]
      simp [h]
    · rw [readOne_short n pending h]
      constructor
      · intro hrc
        dsimp only at hrc
        split at hrc <;> cases hrc
      · intro hlen
        exact absurd (Nat.le_of_eq hlen.symm) h
  | fail rc failed taken =>
    simp only [readOne, List.length_take]
    constructor
    · intro hrc
      exact absurd hrc failed.1
    · intro hlen
      omega

/-- A failing read has taken fewer bytes than requested. -/
theorem readOne_fail_lt (n : ℕ) (choice : ReadChoice) (pending : List UInt8) (hn : 0 < n)
    (hrc : (readOne n choice pending).1 ≠ .success) :
    (readOne n choice pending).2.1.length < n := by
  have hne := mt (readOne_success_iff n choice pending hn).mpr hrc
  have hle : (readOne n choice pending).2.1.length ≤ n := by
    cases choice with
    | deliver =>
      by_cases h : n ≤ pending.length
      · rw [readOne_enough n pending h] at hrc
        exact absurd rfl hrc
      · rw [readOne_short n pending h]
        dsimp only
        omega
    | fail rc failed taken =>
      simp only [readOne, List.length_take]
      omega
  omega

theorem readOne_deliver (bytes rest : List UInt8) :
    readOne bytes.length .deliver (bytes ++ rest) = (.success, bytes, rest) := by
  rw [readOne_enough _ _ (by simp), List.take_left, List.drop_left]

section HalTcpRead

/-- One round of the loop in `HAL_TCP_Read`: what select and recv report. -/
inductive RecvRound where
  | data (more : ℕ)
  | closed
  | interrupted
  | recvError
  | selectTimeout
  | selectError
  deriving DecidableEq

/-- The loop of `HAL_TCP_Read` after `got` was received, with the error code at
its end. The time is up when no round is left; recv returns at least one byte
and at most what was asked for and has arrived. -/
def halTcpReadLoop (len : ℕ) :
    List RecvRound → List UInt8 → List UInt8 → Option ReturnCode × List UInt8 × List UInt8
  | [], got, pending => (some .tcpReadTimeout, got, pending)
  | round :: rounds, got, pending =>
      match round with
      | .data more =>
          let n := min (more + 1) (min (len - got.length) pending.length)
          if n = 0 then (some .tcpReadTimeout, got, pending)
          else if (got ++ pending.take n).length < len then
            halTcpReadLoop len rounds (got ++ pending.take n) (pending.drop n)
          else (none, got ++ pending.take n, pending.drop n)
      | .closed => (some .tcpPeerShutdown, got, pending)
      | .interrupted => halTcpReadLoop len rounds got pending
      | .recvError => (some .tcpReadFail, got, pending)
      | .selectTimeout => (some .tcpReadTimeout, got, pending)
      | .selectError => (some .tcpReadFail, got, pending)

def halTcpRead (len : ℕ) (rounds : List RecvRound) (pending : List UInt8) :
    ReturnCode × List UInt8 × List UInt8 :=
  match halTcpReadLoop len rounds [] pending with
  | (errCode, got, left) =>
      let errCode := if errCode = some .tcpReadTimeout ∧ got.length = 0 then
        some .tcpNothingToRead else errCode
      (if len = got.length then .success else errCode.getD .success, got, left)

/-- The loop invariant: what was received is a front part of the stream, short of
the request exactly when an error code is set. -/
theorem halTcpReadLoop_spec (len : ℕ) (rounds : List RecvRound) (got pending : List UInt8)
    (hgot : got.length < len) :
    (halTcpReadLoop len rounds got pending).2.1 ++ (halTcpReadLoop len rounds got pending).2.2 =
        got ++ pending ∧
      (((halTcpReadLoop len rounds got pending).1 = none ∧
          (halTcpReadLoop len rounds got pending).2.1.length = len) ∨
        ∃ rc, (halTcpReadLoop len rounds got pending).1 = some rc ∧
          (rc ≠ .success ∧ rc ≠ .mqttNothingToRead) ∧
          (halTcpReadLoop len rounds got pending).2.1.length < len) := by
  induction rounds generalizing got pending with
  | nil => exact ⟨rfl, Or.inr ⟨_, rfl, by decide, hgot⟩⟩
  | cons round rounds ih =>
    cases round with
    | data more =>
      unfold halTcpReadLoop
      dsimp only
      generalize hn : min (more + 1) (min (len - got.length) pending.length) = n
      have hlen : (got ++ pending.take n).length = got.length + n := by
        rw [List.length_append, List.length_take]
        omega
      by_cases hzero : n = 0
      · rw [if_pos hzero]
        exact ⟨rfl, Or.inr ⟨_, rfl, by decide, hgot⟩⟩
      · rw [if_neg hzero]
        by_cases hmore : (got ++ pending.take n).length < len
        · rw [if_pos hmore]
          obtain ⟨happ, hend⟩ := ih (got ++ pending.take n) (pending.drop n) hmore
          refine ⟨?_, hend⟩
          rw [happ, List.append_assoc, List.take_append_drop]
        · rw [if_neg hmore]
          refine ⟨?_, Or.inl ⟨rfl, ?_⟩⟩
          · rw [List.append_assoc, List.take_append_drop]
          · rw [hlen] at hmore ⊢
            omega
    | closed => exact ⟨rfl, Or.inr ⟨_, rfl, by decide, hgot⟩⟩
    | interrupted => exact ih got pending hgot
    | recvError => exact ⟨rfl, Or.inr ⟨_, rfl, by decide, hgot⟩⟩
    | selectTimeout => exact ⟨rfl, Or.inr ⟨_, rfl, by decide, hgot⟩⟩
    | selectError => exact ⟨rfl, Or.inr ⟨_, rfl, by decide, hgot⟩⟩

/-- `HAL_TCP_Read` behaves as one read of the schedule. -/
theorem halTcpRead_eq_readOne (len : ℕ) (rounds : List RecvRound) (pending : List UInt8)
    (hlen : 0 < len) :
    ∃ choice, halTcpRead len rounds pending = readOne len choice pending := by
  have hspec := halTcpReadLoop_spec len rounds [] pending (by simpa using hlen)
  unfold halTcpRead
  generalize hloop : halTcpReadLoop len rounds [] pending = r at hspec ⊢
  obtain ⟨errCode, got, left⟩ := r
  dsimp only at hspec ⊢
  obtain ⟨happ, hend⟩ := hspec
  rw [List.nil_append] at happ
  subst happ
  rcases hend with ⟨-, hfull⟩ | ⟨rc, rfl, hrc, hshort⟩
  · refine ⟨.deliver, ?_⟩
    rw [if_pos hfull.symm, ← hfull, readOne_deliver]
  · have hne : ¬ len = got.length := by omega
    have hmin : min got.length (len - 1) = got.length := by omega
    rw [if_neg hne]
    by_cases hnothing : some rc = some ReturnCode.tcpReadTimeout ∧ got.length = 0
    · refine ⟨.fail .tcpNothingToRead (by decide) got.length, ?_⟩
      rw [if_pos hnothing, readOne, hmin]
      simp
    · refine ⟨.fail rc hrc got.length, ?_⟩
      rw [if_neg hnothing, readOne, hmin]
      simp

end HalTcpRead

/-- One write of the network stack: `more + 1` bytes are taken, or all that were
requested if these are fewer; or it fails after taking some. -/
inductive WriteChoice where
  | accept (more : ℕ)
  | fail (rc : ReturnCode) (failed : rc ≠ .success) (taken : ℕ)
  deriving DecidableEq

/-- The loop of `send_mqtt_packet`: return code and the bytes the network took.
Every round requests `length` bytes from `write_buf + sent`. -/
def sendMqttPacketLoop (writeBuf : Buffer) (length : ℕ) :
    List WriteChoice → ℕ → ReturnCode → List UInt8 → ReturnCode × List UInt8
  | [], sent, rc, taken => (if sent = length then .success else rc, taken)
  | choice :: choices, sent, rc, taken =>
      if sent < length then
        match choice with
        | .accept more =>
            let sentLen := min (more + 1) length
            sendMqttPacketLoop writeBuf length choices (sent + sentLen) .success
              (taken ++ slice writeBuf sent sentLen)
        | .fail rc _ n => (rc, taken ++ slice writeBuf sent (min n length))
      else (if sent = length then .success else rc, taken)

def sendMqttPacket (writeBuf : Buffer) (length : ℕ) (choices : List WriteChoice) :
    ReturnCode × List UInt8 :=
  if length ≥ mqttTxBufLen then (.bufTooShort, [])
  else sendMqttPacketLoop writeBuf length choices 0 .failure []

/-- The writes take exactly `length` bytes, counted as the loop does, before one of them
fails or the time is up. -/
def takesExactly (length : ℕ) : List WriteChoice → ℕ → Bool
  | [], sent => decide (sent = length)
  | choice :: choices, sent =>
      if sent < length then
        match choice with
        | .accept more => takesExactly length choices (sent + min (more + 1) length)
        | .fail .. => false
      else decide (sent = length)

/-- The end of the loop, when all writes so far were taken. -/
theorem sendMqttPacketLoop_end (writeBuf : Buffer) {length sent : ℕ} {rc : ReturnCode} :
    ((if sent = length then ReturnCode.success else rc) = .success ∧
      slice writeBuf 0 sent = slice writeBuf 0 length) ↔ sent = length := by
  constructor
  · rintro ⟨-, heq⟩
    simpa using congrArg List.length heq
  · rintro rfl
    exact ⟨if_pos rfl, rfl⟩

/-- The loop invariant: what was taken is the start of the buffer, and the loop reports
the packet, with nothing behind it, exactly if the writes take so much. -/
theorem sendMqttPacketLoop_exact (writeBuf : Buffer) (length : ℕ) (choices : List WriteChoice)
    (sent : ℕ) (rc : ReturnCode) :
    ((sendMqttPacketLoop writeBuf length choices sent rc (slice writeBuf 0 sent)).1 = .success ∧
      (sendMqttPacketLoop writeBuf length choices sent rc (slice writeBuf 0 sent)).2 =
        slice writeBuf 0 length) ↔
      takesExactly length choices sent = true := by
  induction choices generalizing sent rc with
  | nil => exact (sendMqttPacketLoop_end writeBuf).trans (by simp [takesExactly])
  | cons choice choices ih =>
    unfold sendMqttPacketLoop takesExactly
    by_cases hlt : sent < length
    · rw [if_pos hlt, if_pos hlt]
      cases choice with
      | accept more =>
        dsimp only
        rw [← slice_append]
        exact ih _ _
      | fail code failed taken => simp [failed]
    · rw [if_neg hlt, if_neg hlt]
      exact (sendMqttPacketLoop_end writeBuf).trans (by simp)

/-- A packet of the write buffer is sent, and nothing else, exactly if the writes take it. -/
theorem sendMqttPacket_exact (writeBuf : Buffer) (length : ℕ) (choices : List WriteChoice)
    (hfit : length < mqttTxBufLen) :
    ((sendMqttPacket writeBuf length choices).1 = .success ∧
      (sendMqttPacket writeBuf length choices).2 = slice writeBuf 0 length) ↔
      takesExactly length choices 0 = true := by
  rw [sendMqttPacket, if_neg (by omega)]
  exact sendMqttPacketLoop_exact writeBuf length choices 0 .failure

/-- What `send_mqtt_packet` reports does not depend on the bytes it sends. -/
theorem sendMqttPacket_code (writeBuf writeBuf' : Buffer) (length : ℕ)
    (writes : List WriteChoice) :
    (sendMqttPacket writeBuf length writes).1 = (sendMqttPacket writeBuf' length writes).1 := by
  have hloop : ∀ (sent : ℕ) (rc : ReturnCode) (taken taken' : List UInt8),
      (sendMqttPacketLoop writeBuf length writes sent rc taken).1 =
        (sendMqttPacketLoop writeBuf' length writes sent rc taken').1 := by
    induction writes with
    | nil => exact fun sent rc taken taken' => rfl
    | cons choice writes ih =>
      intro sent rc taken taken'
      unfold sendMqttPacketLoop
      by_cases hmore : sent < length
      · rw [if_pos hmore, if_pos hmore]
        cases choice with
        | accept more => exact ih _ _ _ _
        | fail code failed n => rfl
      · rw [if_neg hmore, if_neg hmore]
  unfold sendMqttPacket
  split
  · rfl
  · exact hloop _ _ _ _

/-- The writes let `send_mqtt_packet` report a packet of this length as sent. -/
def reportsSent (length : ℕ) (choices : List WriteChoice) : Bool :=
  (sendMqttPacket [] length choices).1 == .success

theorem reportsSent_iff (writeBuf : Buffer) {length : ℕ} {choices : List WriteChoice} :
    reportsSent length choices = true ↔ (sendMqttPacket writeBuf length choices).1 = .success := by
  rw [reportsSent, beq_iff_eq, sendMqttPacket_code _ writeBuf]

/-- A packet that the network takes in one write is sent. -/
theorem sendMqttPacket_accept (writeBuf : Buffer) (length more : ℕ) (later : List WriteChoice)
    (hpos : 0 < length) (hfit : length < mqttTxBufLen) (hmore : length ≤ more + 1) :
    sendMqttPacket writeBuf length (.accept more :: later) =
      (.success, slice writeBuf 0 length) := by
  rw [sendMqttPacket, if_neg (by omega)]
  unfold sendMqttPacketLoop
  rw [if_pos hpos]
  dsimp only
  rw [Nat.min_eq_right hmore, Nat.zero_add, List.nil_append]
  -- the loop ends here: the whole packet was counted as sent
  cases later <;> simp [sendMqttPacketLoop]

end IotExplorer.Network
