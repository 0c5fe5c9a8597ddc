import IotExplorer.ClientRuns
import IotExplorer.PacketFraming

/-!
Where the client stands in the stream of its connection. The server sends
packets, so the stream of a connection is the bytes of a list of packets, and
the client stands at a boundary when what is left is the bytes of the last of
them. A packet that is taken in part is to close the connection. While the
client connects every failed read does; in the yield loop only four codes do.
-/
namespace IotExplorer.Framing

open Basis.Runs Protocol PacketBytes ControlPackets Network ReadPacket PacketFraming
  ClientState Requests
open PacketHandlers Connection SessionSteps ClientRuns

/-- The bytes that were taken from the stream are whole packets, and so are the rest. -/
def AtBoundary (c : Client) : Prop :=
  ∃ before after, c.stream = wireBytes (before ++ after) ∧ c.pending = wireBytes after

/-- A server sends whole packets on the connection that the operation opens. -/
def SendsPackets : Op → Prop
  | .connectOpen _ env =>
      ∀ stream, env.network = .opened stream → ∃ packets, stream = wireBytes packets
  | _ => True

/-- The read of the next packet in the yield loop does not stop inside a packet,
except in the one read of a storable body with a code on which yield closes the
connection. -/
def ReadsWhole (c : Client) : Op → Prop
  | .yieldRead env _ => ∀ p rest, c.pending = p.bytes ++ rest →
      env.reads.head? ≠ some .deliver ∨ Uninterrupted p env.reads.tail ∨
        ∃ rc, fatalRead rc ∧ BodyFails p env.reads.tail rc
  | _ => True

section Boundary
variable {c c' : Client}

theorem AtBoundary.of_link (h : AtBoundary c) (hpending : c'.pending = c.pending)
    (hstream : c'.stream = c.stream) : AtBoundary c' := by
  obtain ⟨before, after, hall, hrest⟩ := h
  exact ⟨before, after, hstream.trans hall, hpending.trans hrest⟩

theorem AtBoundary.link (h : AtBoundary c) (hlink : SameLink c c') : AtBoundary c' :=
  h.of_link hlink.pending hlink.stream

theorem atBoundary_closed (hpending : c.pending = []) (hstream : c.stream = []) : AtBoundary c :=
  ⟨[], [], hstream, hpending⟩

/-- Taking the next packet leads from a boundary to a boundary. -/
theorem AtBoundary.next {before after : List WirePacket} {p : WirePacket}
    (hstream : c.stream = wireBytes (before ++ p :: after))
    (hpending : c.pending = wireBytes after) :
    AtBoundary c := by
  refine ⟨before ++ [p], after, ?_, hpending⟩
  rw [hstream, List.append_assoc, List.singleton_append]

end Boundary

section Read
variable {c : Client}

/-- What the read of a cycle leaves at a boundary. -/
inductive ReadOutcome (reads : List ReadChoice) (c : Client) : Prop
  | boundary : (receive reads c).1 ≠ .error .mqttNothingToRead ∨
      (receive reads c).2.pending = c.pending → AtBoundary (receive reads c).2 → ReadOutcome reads c
  | broken (p : WirePacket) (rest : List UInt8) (rc : ReturnCode) : c.pending = p.bytes ++ rest →
      (receive reads c).1 = .error rc → rc ≠ .success → rc ≠ .mqttNothingToRead →
      ¬ Uninterrupted p reads.tail → (∀ rc', BodyFails p reads.tail rc' → rc = rc') →
      ReadOutcome reads c

theorem receive_outcome (reads : List ReadChoice) (h : AtBoundary c) : ReadOutcome reads c := by
  obtain ⟨before, after, hstream, hpending⟩ := h
  cases after with
  | nil =>
    have hnone : c.pending = [] := hpending
    have hread := (readMqttPacket_exhausted
      { readBuf := c.readBuf, choices := reads, pending := c.pending } hnone).2
    exact .boundary (Or.inr (hread.trans hnone.symm))
      ⟨before, [], hstream, hread⟩
  | cons p after =>
    have hnext : c.pending = p.bytes ++ wireBytes after := hpending
    rcases readMqttPacket_outcome { readBuf := c.readBuf, choices := reads, pending := c.pending }
        p (wireBytes after) hnext with ⟨rc, hrc, hsame⟩ | ⟨hrc, hrest⟩ |
          ⟨rc, hrc, hfail, hne, hcut, hbody⟩
    · exact .boundary (Or.inr hsame) ⟨before, p :: after, hstream, hsame.trans hpending⟩
    · exact .boundary (Or.inl hrc) (AtBoundary.next hstream hrest)
    · exact .broken p (wireBytes after) rc hnext hrc hfail hne hcut hbody

/-- The first read of a packet fails without taking anything. -/
theorem receive_first_fails (reads : List ReadChoice) (c : Client)
    (hfirst : reads.head? ≠ some .deliver) : (receive reads c).2.pending = c.pending := by
  unfold receive readMqttPacket
  generalize hread : networkRead 1
      { readBuf := c.readBuf, choices := reads, pending := c.pending } = r
  obtain ⟨rc, header, s⟩ := r
  have hrc : rc ≠ .success := by
    obtain ⟨-, rfl, -⟩ | ⟨choice, choices, left, hchoices, hone, -⟩ := networkRead_cases hread
    · decide
    · obtain rfl : (readOne 1 choice c.pending).1 = rc := congrArg Prod.fst hone
      cases choice with
      | deliver =>
        obtain rfl : reads = .deliver :: choices := hchoices
        exact absurd rfl hfirst
      | fail rc' failed taken => exact failed.1
  have hsame := networkRead_one_fail hrc hread
  dsimp only
  split_ifs
  · exact hsame
  · exact hsame

/-- A cycle ends where its read ended, with the code of a failed read. -/
theorem cycleForRead_of_error {env : CycleEnv} {rc : ReturnCode}
    (h : (receive env.reads c).1 = .error rc) :
    cycleForRead env c =
      (if rc = .mqttNothingToRead then .success else rc, none, (receive env.reads c).2, []) := by
  unfold cycleForRead
  generalize receive env.reads c = r at h ⊢
  obtain ⟨result, received⟩ := r
  obtain rfl : result = .error rc := h
  rfl

end Read

section Steps
variable {c : Client}

/-- A DISCONNECT request fits every buffer, so only its send can fail. -/
theorem disconnect_packet :
    serializePacketWithZeroPayload mqttTxBufLen .disconnect = .ok [0xE0, 0] :=
  rfl

theorem disconnect_cases (writes : List WriteChoice) (hconnected : c.isConnected = true) :
    ((qcloudIotMqttDisconnect writes c).1 ≠ .success ∧
        SameLink c (qcloudIotMqttDisconnect writes c).2.1) ∨
      ((qcloudIotMqttDisconnect writes c).1 = .success ∧
        (qcloudIotMqttDisconnect writes c).2.1.isConnected = false ∧
        AtBoundary (qcloudIotMqttDisconnect writes c).2.1) := by
  unfold qcloudIotMqttDisconnect
  rw [if_neg (by simp [hconnected]), disconnect_packet]
  dsimp only
  split
  next hrc => exact Or.inl ⟨hrc, rfl, rfl, rfl⟩
  next => exact Or.inr ⟨rfl, rfl, atBoundary_closed rfl rfl⟩

/-- Giving a connection up closes it, whether or not DISCONNECT could be sent. -/
theorem handleDisconnect_closes (writes : List WriteChoice) (hconnected : c.isConnected = true) :
    (handleDisconnect writes c).2.1.isConnected = false ∧
      AtBoundary (handleDisconnect writes c).2.1 := by
  unfold handleDisconnect
  rw [if_neg (by simp [hconnected])]
  have hcases := disconnect_cases writes hconnected
  generalize qcloudIotMqttDisconnect writes c = r at hcases
  obtain ⟨rc, c₁, events⟩ := r
  dsimp only at hcases ⊢
  rcases hcases with ⟨hrc, -⟩ | ⟨rfl, hidle, hclosed⟩
  · rw [if_pos hrc]
    exact ⟨rfl, atBoundary_closed rfl rfl⟩
  · rw [if_neg (by simp)]
    exact ⟨hidle, hclosed.of_link rfl rfl⟩

theorem handleDisconnect_boundary (writes : List WriteChoice) (h : AtBoundary c) :
    AtBoundary (handleDisconnect writes c).2.1 := by
  by_cases hconnected : c.isConnected = true
  · exact (handleDisconnect_closes writes hconnected).2
  · unfold handleDisconnect
    rw [if_pos (by simpa using hconnected)]
    exact h

theorem mqttKeepAlive_boundary (env : KeepAliveEnv) (h : AtBoundary c) :
    AtBoundary (mqttKeepAlive env c).2.1 := by
  unfold mqttKeepAlive
  split
  · exact h
  split
  · exact h
  split
  · exact handleDisconnect_boundary env.disconnect h
  split
  · exact h
  next packet _ =>
    have hwritten : AtBoundary (writePacket packet c) := h.of_link rfl rfl
    dsimp only
    split
    · exact handleDisconnect_boundary env.disconnect hwritten
    · exact h.of_link rfl rfl

/-- A step of connecting that keeps the boundary unless it fails. -/
theorem whileConnecting_boundary {step : Client → ReturnCode × Client × List Event}
    (h : AtBoundary c) (hstep : (step c).1 = .success → AtBoundary (step c).2.1) :
    AtBoundary (whileConnecting step c).1 := by
  unfold whileConnecting
  split
  · exact h
  · dsimp only
    by_cases hrc : (step c).1 ≠ .success
    · rw [if_pos hrc]
      exact atBoundary_closed rfl rfl
    · rw [if_neg hrc]
      exact hstep (by simpa using hrc)

theorem sendConnect_boundary {options : ConnectParams} {env : ConnectEnv}
    (hpackets : SendsPackets (.connectOpen options env))
    (hrc : (sendConnect options env c).1 = .success) :
    AtBoundary (sendConnect options env c).2.1 := by
  unfold sendConnect at hrc ⊢
  dsimp only at hrc ⊢
  split at hrc
  next rc failed _ => exact absurd hrc failed
  next stream hopened =>
    obtain ⟨packets, rfl⟩ := hpackets stream hopened
    split
    · exact ⟨[], packets, rfl, rfl⟩
    · exact ⟨[], packets, rfl, rfl⟩

theorem acceptConnack_boundary (now : ℕ) (h : AtBoundary c) :
    AtBoundary (acceptConnack now c).2 := by
  unfold acceptConnack
  split
  · exact h
  split
  · exact h
  · exact h.of_link rfl rfl

/-- One round of waiting for the CONNACK: a packet that was not taken as a whole
makes the round fail. -/
theorem connectRead_boundary (env : CycleEnv) (h : AtBoundary c)
    (hrc : (connectRead env c).1 = .success) : AtBoundary (connectRead env c).2.1 := by
  rcases receive_outcome env.reads h with ⟨-, hread⟩ | ⟨p, rest, rc, -, herror, hfail, hne, -, -⟩
  · exact hread.link (cycleForRead_link env c)
  · unfold connectRead at hrc
    rw [cycleForRead_of_error herror] at hrc
    dsimp only at hrc
    rw [if_neg hne] at hrc
    exact absurd hrc hfail

/-- One read of the yield loop. -/
theorem yieldRead_boundary (env : CycleEnv) (disconnect : List WriteChoice) (h : AtBoundary c)
    (hconnected : c.isConnected = true) (hwhole : ReadsWhole c (.yieldRead env disconnect)) :
    AtBoundary (yieldRead env disconnect c).2.1 := by
  have hlink := (cycleForRead_link env c)
  have hstill : (cycleForRead env c).2.2.1.isConnected = true :=
    hlink.isConnected.trans hconnected
  unfold yieldRead
  rcases receive_outcome env.reads h with ⟨-, hread⟩ |
    ⟨p, rest, rc, hp, herror, -, hne, hcut, hbody⟩
  · have hcycle : AtBoundary (cycleForRead env c).2.2.1 := hread.link hlink
    dsimp only
    split
    · exact handleDisconnect_boundary disconnect hcycle
    · exact hcycle
  · rcases hwhole p rest hp with hfirst | hall | ⟨rc', hfatal, hfails⟩
    · have hcycle : AtBoundary (cycleForRead env c).2.2.1 :=
        h.of_link (hlink.pending.trans (receive_first_fails env.reads c hfirst)) hlink.stream
      dsimp only
      split
      · exact handleDisconnect_boundary disconnect hcycle
      · exact hcycle
    · exact absurd hall hcut
    · obtain rfl := hbody rc' hfails
      rw [cycleForRead_of_error herror, if_neg hne] at hstill ⊢
      dsimp only
      rw [if_pos hfatal]
      exact (handleDisconnect_closes disconnect hstill).2

theorem exec_boundary (op : Op) (h : AtBoundary c) (hpackets : SendsPackets op)
    (hwhole : ReadsWhole c op) : AtBoundary (exec op c).1 := by
  cases op with
  | publish topicName params env => exact h.link (publish_requested topicName params env c).1.link
  | subscribe topicFilter params env =>
    exact h.link (subscribe_requested topicFilter params env c).1.link
  | unsubscribe topicFilter env =>
    have hscan : AtBoundary (removeEntries topicFilter c).1 := h.of_link rfl rfl
    dsimp only [exec]
    unfold qcloudIotMqttUnsubscribe
    by_cases hempty : topicFilter = []
    · rw [if_pos hempty]
      exact h
    rw [if_neg hempty]
    by_cases hlong : topicFilter.length > maxSizeOfCloudTopic
    · rw [if_pos hlong]
      exact h
    rw [if_neg hlong]
    dsimp only
    split
    · exact hscan
    · exact hscan.link (sendUnsubscribe_requested env _ hempty (Nat.le_of_not_lt hlong)).1.link
  | connectOpen options env => exact whileConnecting_boundary h (sendConnect_boundary hpackets)
  | connectRead env => exact whileConnecting_boundary h (connectRead_boundary env h)
  | connectEnd now => exact whileConnecting_boundary h fun _ => acceptConnack_boundary now h
  | connectTimeout => exact whileConnecting_boundary h fun _ => h
  | yieldRead env disconnect =>
    dsimp only [exec]
    by_cases hconnected : c.isConnected = true
    · rw [if_pos hconnected]
      exact yieldRead_boundary env disconnect h hconnected hwhole
    · rw [if_neg hconnected]
      exact h
  | pubInfoProc iterOk clock => exact h.link (pubInfoProc_link iterOk clock c)
  | subInfoProc iterOk clock => exact h.link (subInfoProc_link iterOk clock c)
  | keepAlive env => exact mqttKeepAlive_boundary env h
  | disconnect writes =>
    by_cases hconnected : c.isConnected = true
    · rcases disconnect_cases writes hconnected with ⟨-, hlink⟩ | ⟨-, -, hclosed⟩
      · exact h.link hlink
      · exact hclosed
    · dsimp only [exec]
      unfold qcloudIotMqttDisconnect
      rw [if_pos (by simpa using hconnected)]
      exact h
  | handleDisconnect writes => exact handleDisconnect_boundary writes h
  | schedule counter interval timer => exact h.of_link rfl rfl
  | reconnected => exact h
  | setEventHandler isSet => exact h.of_link rfl rfl
  | resetRepeatBuffer => exact h.of_link rfl rfl

end Steps

/-- In every state of a run in which no packet is cut off inside, except by a failed
body read that closes the connection, the client stands at a boundary. -/
theorem reads_at_boundaries (random commandTimeout : ℕ) (eventHandle : Bool)
    (options : ConnectParams) (ops : List Op) (hpackets : ∀ op ∈ ops, SendsPackets op)
    (hwhole : Along exec ReadsWhole ops (Client.init random commandTimeout eventHandle options))
    (earlier : List Op) (hearlier : earlier <+: ops) :
    AtBoundary (reached random commandTimeout eventHandle options earlier) := by
  obtain ⟨later, rfl⟩ := hearlier
  have hsends : ∀ op ∈ earlier, SendsPackets op := fun op hop =>
    hpackets op (List.mem_append_left later hop)
  have hreads := ((along_append exec ReadsWhole earlier later _).mp hwhole).1
  exact run_invariant (fun c op h hop => exec_boundary op h hop.1 hop.2)
    (atBoundary_closed rfl rfl) ((along_of_forall_mem exec hsends _).and hreads)

/-- A PINGRESP on the wire. -/
def pingresp : WirePacket := ⟨0xD0, [0], [], rfl⟩

/-- The answer of a server that accepts a connection. -/
def connack : WirePacket := ⟨0x20, [2], [0, 0], rfl⟩

theorem handshake_sends (later : List WirePacket) (op : Op)
    (hop : op ∈ handshake (wireBytes later)) : SendsPackets op := by
  simp only [handshake, List.mem_cons, List.not_mem_nil, or_false] at hop
  rcases hop with rfl | rfl | rfl
  · intro stream hstream
    simp only [ConnectChoice.opened.injEq] at hstream
    exact ⟨connack :: later, hstream.symm⟩
  · trivial
  · trivial

theorem reads_at_boundaries_sample :
    AtBoundary (reached 5 5000 true deviceOptions (handshake (wireBytes [pingresp]) ++
      [.yieldRead (cycleWith [.deliver, .deliver]) []])) := by
  refine reads_at_boundaries 5 5000 true deviceOptions _ ?_ ?_ _ (List.prefix_refl _)
  · intro op hop
    rcases List.mem_append.mp hop with hop | hop
    · exact handshake_sends [pingresp] op hop
    · obtain rfl := List.mem_singleton.mp hop
      trivial
  · refine (along_append _ _ _ _ _).mpr ⟨⟨trivial, trivial, trivial, trivial⟩, ?_, trivial⟩
    intro p rest hp
    have hpending : (run exec (handshake (wireBytes [pingresp]))
        (Client.init 5 5000 true deviceOptions)).1.pending = [0xD0, 0] := by decide
    rw [hpending] at hp
    have hlen := congrArg List.length hp
    have hpos := p.lenBytes_pos
    simp only [WirePacket.bytes, List.length_append, List.length_cons, List.length_nil] at hlen
    obtain ⟨hone, hnone⟩ : p.lenBytes.length = 1 ∧ p.body.length = 0 := by omega
    refine Or.inr (Or.inl ?_)
    rw [Uninterrupted, hone, hnone]
    exact List.prefix_refl _

/-- A PINGRESP whose length byte does not come in time leaves the client connected
in the middle of it. -/
theorem pingresp_cut_off :
    ¬ ∀ (random commandTimeout : ℕ) (eventHandle : Bool) (options : ConnectParams) (ops : List Op),
      (∀ op ∈ ops, SendsPackets op) →
      (reached random commandTimeout eventHandle options ops).isConnected = true →
      AtBoundary (reached random commandTimeout eventHandle options ops) := by
  intro hclaim
  have hpackets : ∀ op ∈ handshake (wireBytes [pingresp]) ++
      [.yieldRead (cycleWith [.deliver, .fail .tcpReadTimeout (by decide) 0]) []],
      SendsPackets op := by
    intro op hop
    rcases List.mem_append.mp hop with hop | hop
    · exact handshake_sends [pingresp] op hop
    · obtain rfl := List.mem_singleton.mp hop
      trivial
  obtain ⟨before, after, -, hpending⟩ :=
    hclaim 5 5000 true deviceOptions _ hpackets (by decide)
  have hleft : (reached 5 5000 true deviceOptions (handshake (wireBytes [pingresp]) ++
      [.yieldRead (cycleWith [.deliver, .fail .tcpReadTimeout (by decide) 0]) []])).pending =
        [0] := by decide
  rw [hleft] at hpending
  cases after with
  | nil => simp [wireBytes] at hpending
  | cons p after =>
    have hlen := congrArg List.length hpending
    have hpos := p.lenBytes_pos
    simp only [wireBytes, List.flatMap_cons, WirePacket.bytes, List.length_append,
      List.length_cons, List.length_nil] at hlen
    omega

end IotExplorer.Framing
