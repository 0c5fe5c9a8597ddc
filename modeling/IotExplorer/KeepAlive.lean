import IotExplorer.ClientRuns

/-!
The keep-alive of a connection. The counter of outstanding pings goes up when a
PINGREQ was sent and back to zero when the server is heard or a connection is
accepted; these are the marks of a run. While the client is connected, the run
ends in as many pings as the counter says, so the keep-alive gives a connection
up either because no PINGREQ could be sent or after the last ones were all that
happened.
-/
namespace IotExplorer.KeepAlive

open Basis.Runs Protocol Network ClientState WaitLists Requests PacketHandlers
open Connection SessionSteps ClientRuns

/-- The state of connecting, keeping alive and reconnecting is the same. -/
structure SameLiveness (c c' : Client) : Prop where
  isConnected : c'.isConnected = c.isConnected
  wasManuallyDisconnected : c'.wasManuallyDisconnected = c.wasManuallyDisconnected
  isPingOutstanding : c'.isPingOutstanding = c.isPingOutstanding
  currentReconnectWaitInterval :
    c'.currentReconnectWaitInterval = c.currentReconnectWaitInterval
  reconnectDelayTimer : c'.reconnectDelayTimer = c.reconnectDelayTimer
  options : c'.options = c.options

section Liveness

theorem SameLiveness.refl (c : Client) : SameLiveness c c := ⟨rfl, rfl, rfl, rfl, rfl, rfl⟩

theorem SameLiveness.trans {c c' c'' : Client} (h : SameLiveness c c') (h' : SameLiveness c' c'') :
    SameLiveness c c'' where
  isConnected := h'.isConnected.trans h.isConnected
  wasManuallyDisconnected := h'.wasManuallyDisconnected.trans h.wasManuallyDisconnected
  isPingOutstanding := h'.isPingOutstanding.trans h.isPingOutstanding
  currentReconnectWaitInterval :=
    h'.currentReconnectWaitInterval.trans h.currentReconnectWaitInterval
  reconnectDelayTimer := h'.reconnectDelayTimer.trans h.reconnectDelayTimer
  options := h'.options.trans h.options

theorem requested_liveness {c c' : Client} (h : Requested c c') : SameLiveness c c' := by
  cases h <;> exact ⟨rfl, rfl, rfl, rfl, rfl, rfl⟩

theorem unsubscribe_liveness (topicFilter : List UInt8) (env : RequestEnv) (c : Client) :
    SameLiveness c (qcloudIotMqttUnsubscribe topicFilter env c).2.1 := by
  have hscan : SameLiveness c (removeEntries topicFilter c).1 := ⟨rfl, rfl, rfl, rfl, rfl, rfl⟩
  unfold qcloudIotMqttUnsubscribe
  split
  · exact .refl c
  next hempty =>
  split
  · exact .refl c
  next hlong =>
  dsimp only
  split
  · exact hscan
  · apply hscan.trans
    exact requested_liveness (sendUnsubscribe_requested env _ hempty (Nat.le_of_not_lt hlong)).1

theorem sendPubAck_liveness (env : CycleEnv) (packetType : MessageType) (packetId : ℕ)
    (c : Client) : SameLiveness c (sendPubAck env packetType packetId c).2.1 := by
  unfold sendPubAck
  split <;> exact ⟨rfl, rfl, rfl, rfl, rfl, rfl⟩

theorem addPacketIdToRepeatBuf_liveness (packetId : ℕ) (c : Client) :
    SameLiveness c (addPacketIdToRepeatBuf packetId c) := by
  unfold addPacketIdToRepeatBuf
  split <;> exact ⟨rfl, rfl, rfl, rfl, rfl, rfl⟩

/-- No handler of a packet touches the counter or the connection. -/
theorem handlePacket_liveness (env : CycleEnv) (packetType : UInt8) (c : Client) :
    SameLiveness c (handlePacket env packetType c).2.1 := by
  apply handlePacket_rule (motive := fun r => SameLiveness c r.2.1)
  · unfold handlePubackPacket
    split
    · exact .refl c
    · rw [maskPubInfoFrom_eq]
      exact ⟨rfl, rfl, rfl, rfl, rfl, rfl⟩
  · unfold handleSubackPacket
    split
    · exact .refl c
    · obtain ⟨table, heap, heq⟩ := resolveSuback_frame env ‹ℕ› _ c
      rw [heq]
      exact ⟨rfl, rfl, rfl, rfl, rfl, rfl⟩
  · unfold handleUnsubackPacket
    split
    · exact .refl c
    · unfold resolveUnsuback
      rw [maskSubInfoFrom_eq]
      exact ⟨rfl, rfl, rfl, rfl, rfl, rfl⟩
  · unfold handlePublishPacket
    split
    · exact .refl c
    · dsimp only
      split
      · exact .refl c
      · exact (addPacketIdToRepeatBuf_liveness _ c).trans (sendPubAck_liveness _ _ _ _)
  · unfold handlePubrecPacket
    split
    · exact .refl c
    · exact sendPubAck_liveness _ _ _ c
  · intro rc
    exact .refl c

def isAnswer (packetType : UInt8) : Bool :=
  packetType == MessageType.puback.code || packetType == MessageType.suback.code ||
    packetType == MessageType.unsuback.code || packetType == MessageType.pingresp.code ||
    packetType == MessageType.publish.code

/-- The cycle reads a packet that answers a ping. -/
def hears (env : CycleEnv) (c : Client) : Bool := (cycleForRead env c).2.1.any isAnswer

theorem notePing_liveness (now : ℕ) (packetType : UInt8) (c : Client) :
    SameLiveness
      { c with isPingOutstanding := if isAnswer packetType then 0 else c.isPingOutstanding }
      (notePing now packetType c) := by
  unfold notePing isAnswer
  by_cases hack : packetType = MessageType.puback.code ∨ packetType = MessageType.suback.code ∨
      packetType = MessageType.unsuback.code ∨ packetType = MessageType.pingresp.code
  · rw [if_pos hack, if_pos (by simp only [Bool.or_eq_true, beq_iff_eq]; tauto)]
    exact ⟨rfl, rfl, rfl, rfl, rfl, rfl⟩
  · rw [if_neg hack]
    by_cases hpublish : packetType = MessageType.publish.code
    · rw [if_pos hpublish, if_pos (by simp [hpublish])]
      exact ⟨rfl, rfl, rfl, rfl, rfl, rfl⟩
    · rw [if_neg hpublish, if_neg (by simp only [Bool.or_eq_true, beq_iff_eq]; tauto)]
      exact .refl c

/-- A cycle sets the counter back when it reads an answer, and that is all it does. -/
theorem cycleForRead_liveness (env : CycleEnv) (c : Client) :
    SameLiveness { c with isPingOutstanding := if hears env c then 0 else c.isPingOutstanding }
      (cycleForRead env c).2.2.1 := by
  have hreceived : SameLiveness c (receive env.reads c).2 := ⟨rfl, rfl, rfl, rfl, rfl, rfl⟩
  unfold hears cycleForRead
  generalize receive env.reads c = r at hreceived ⊢
  obtain ⟨result, received⟩ := r
  cases result with
  | error rc => exact hreceived
  | ok packetType =>
    have hnoted := notePing_liveness env.now packetType (handlePacket env packetType received).2.1
    have hhandled := hreceived.trans (handlePacket_liveness env packetType received)
    refine ⟨hnoted.isConnected.trans hhandled.isConnected,
      hnoted.wasManuallyDisconnected.trans hhandled.wasManuallyDisconnected,
      hnoted.isPingOutstanding.trans ?_,
      hnoted.currentReconnectWaitInterval.trans hhandled.currentReconnectWaitInterval,
      hnoted.reconnectDelayTimer.trans hhandled.reconnectDelayTimer,
      hnoted.options.trans hhandled.options⟩
    dsimp only [Option.any_some]
    rw [hhandled.isPingOutstanding]

/-- A disconnection leaves the counter, and closes the connection when it succeeds. -/
theorem qcloudIotMqttDisconnect_liveness (writes : List WriteChoice) (c : Client) :
    (qcloudIotMqttDisconnect writes c).2.1.isPingOutstanding = c.isPingOutstanding ∧
      (if (qcloudIotMqttDisconnect writes c).1 = .success then
        (qcloudIotMqttDisconnect writes c).2.1.isConnected = false
      else (qcloudIotMqttDisconnect writes c).2.1.isConnected = c.isConnected) := by
  unfold qcloudIotMqttDisconnect
  split
  · exact ⟨rfl, rfl⟩
  · split
    next rc hserialize => cases hserialize
    next packet _ =>
      dsimp only
      split
      · exact ⟨rfl, rfl⟩
      · exact ⟨rfl, rfl⟩

/-- After an exceptional disconnection there is no connection. -/
theorem handleDisconnect_liveness (writes : List WriteChoice) (c : Client) :
    (handleDisconnect writes c).2.1.isPingOutstanding = c.isPingOutstanding ∧
      (handleDisconnect writes c).2.1.isConnected = false := by
  unfold handleDisconnect
  split
  next hidle => exact ⟨rfl, by simpa using hidle⟩
  · obtain ⟨hcounter, hdown⟩ := qcloudIotMqttDisconnect_liveness writes c
    generalize qcloudIotMqttDisconnect writes c = r at hcounter hdown
    dsimp only
    by_cases hrc : r.1 ≠ .success
    · rw [if_pos hrc]
      exact ⟨hcounter, rfl⟩
    · rw [if_pos (not_not.mp hrc)] at hdown
      rw [if_neg hrc]
      exact ⟨hcounter, hdown⟩

end Liveness

section Pings

/-- The PINGREQ packet. -/
def pingreqPacket : List UInt8 := [0xC0, 0]

/-- A PINGREQ that the network took. -/
def isPing : Event → Bool
  | .sent packet rc _ => packet == pingreqPacket && rc == .success
  | _ => false

/-- A PINGREQ that the network did not take. -/
def isFailedPing : Event → Bool
  | .sent packet rc _ => packet == pingreqPacket && rc != .success
  | _ => false

/-- A PINGREQ was tried, and none could be sent. -/
def PingFailed (events : List Event) : Prop :=
  events.any isFailedPing ∧ ¬ events.any isPing

theorem isPing_sendWritten (writes : List WriteChoice) (c : Client) :
    ((sendWritten pingreqPacket writes c).2.any isPing = true ↔
        (sendWritten pingreqPacket writes c).1 = .success) ∧
      ((sendWritten pingreqPacket writes c).2.any isFailedPing = true ↔
        (sendWritten pingreqPacket writes c).1 ≠ .success) := by
  unfold sendWritten
  generalize sendMqttPacket c.writeBuf pingreqPacket.length writes = r
  obtain ⟨rc, taken⟩ := r
  cases rc <;> simp [isPing, isFailedPing]

/-- The tries log a sent PINGREQ when they succeed, and only failed ones otherwise. -/
theorem pingTries_pings (pings : ℕ → List WriteChoice) (c : Client) (tries : ℕ) :
    ((pingTries pingreqPacket pings c (tries + 1)).2.any isPing = true ↔
        (pingTries pingreqPacket pings c (tries + 1)).1 = .success) ∧
      ((pingTries pingreqPacket pings c (tries + 1)).1 ≠ .success →
        (pingTries pingreqPacket pings c (tries + 1)).2.any isFailedPing = true) := by
  induction tries with
  | zero =>
    obtain ⟨hping, hfailed⟩ := isPing_sendWritten (pings 0) c
    simp only [pingTries, lt_irrefl, and_false, if_false]
    exact ⟨hping, hfailed.mpr⟩
  | succ tries ih =>
    obtain ⟨hping, hfailed⟩ := isPing_sendWritten (pings (tries + 1)) c
    rw [pingTries]
    dsimp only
    split
    next hagain =>
      obtain ⟨hihPing, hihFailed⟩ := ih
      have hno : ¬ (sendWritten pingreqPacket (pings (tries + 1)) c).2.any isPing = true :=
        fun h => hagain.1 (hping.mp h)
      simp only [List.any_append, Bool.or_eq_true]
      constructor
      · rw [← hihPing]
        tauto
      · intro _
        exact .inl (hfailed.mpr hagain.1)
    next hlast => exact ⟨hping, hfailed.mpr⟩

/-- Giving a connection up sends no PINGREQ. -/
theorem handleDisconnect_pings (writes : List WriteChoice) (c : Client) :
    (handleDisconnect writes c).2.2.any isPing = false ∧
      (handleDisconnect writes c).2.2.any isFailedPing = false := by
  have hraise : ∀ isSet : Bool, (raiseEvent isSet .disconnect 0).any isPing = false ∧
      (raiseEvent isSet .disconnect 0).any isFailedPing = false := by
    intro isSet
    cases isSet <;> exact ⟨rfl, rfl⟩
  have hsent : (qcloudIotMqttDisconnect writes c).2.2.any isPing = false ∧
      (qcloudIotMqttDisconnect writes c).2.2.any isFailedPing = false := by
    unfold qcloudIotMqttDisconnect
    split
    · exact ⟨rfl, rfl⟩
    split
    · exact ⟨rfl, rfl⟩
    next packet hpacket =>
      obtain rfl : [0xE0, 0] = packet := Except.ok.inj hpacket
      dsimp only
      split <;> simp [sendWritten, isPing, isFailedPing, pingreqPacket]
  unfold handleDisconnect
  split
  · exact ⟨rfl, rfl⟩
  · generalize qcloudIotMqttDisconnect writes c = r at hsent
    dsimp only
    rw [List.any_append, List.any_append, hsent.1, hsent.2]
    exact hraise _

end Pings

section Marks

/-- What the keep-alive of a run can be told from. -/
inductive Mark where
  | connected | lost | pinged | heard
  deriving DecidableEq

/-- The operation reads a packet that answers a ping. -/
def hearsIn (c : Client) (op : Op) : Bool := (op.cycle c).any fun env => hears env c

/-- The operation is a keep-alive that sends a PINGREQ. -/
def pingsIn (c : Client) : Op → Bool
  | .keepAlive env => (mqttKeepAlive env c).2.2.any isPing
  | _ => false

def marks (c : Client) (op : Op) : List Mark :=
  (if hearsIn c op then [.heard] else []) ++ (if pingsIn c op then [.pinged] else []) ++
    (if !c.isConnected && (exec op c).1.isConnected then [.connected] else []) ++
    (if c.isConnected && !(exec op c).1.isConnected then [.lost] else [])

def history (random commandTimeout : ℕ) (eventHandle : Bool) (options : ConnectParams)
    (ops : List Op) : List Mark :=
  track exec (fun c op log => log ++ marks c op) ops
    (Client.init random commandTimeout eventHandle options) []

/-- What an operation can do to the counter of outstanding pings. -/
inductive PingStep (c : Client) (op : Op) (c' : Client) : Prop
  | idle (marks : marks c op = []) (counter : c'.isPingOutstanding = c.isPingOutstanding)
      (link : c'.isConnected = c.isConnected)
  | pinged (marks : marks c op = [.pinged]) (room : c.isPingOutstanding < mqttPingRetryTimes)
      (counter : c'.isPingOutstanding = c.isPingOutstanding + 1)
      (link : c'.isConnected = c.isConnected)
  | reset (counter : c'.isPingOutstanding = 0)
  | down (counter : c'.isPingOutstanding = c.isPingOutstanding) (link : c'.isConnected = false)

theorem marks_of_still (c : Client) (op : Op) (hcycle : hearsIn c op = false)
    (hlink : (exec op c).1.isConnected = c.isConnected) :
    marks c op = if pingsIn c op then [.pinged] else [] := by
  unfold marks
  rw [hcycle, hlink]
  cases c.isConnected <;> simp

/-- An operation that neither reads nor pings and keeps the connection is idle. -/
theorem pingStep_idle {c : Client} {op : Op} (hcycle : op.cycle c = none)
    (hping : pingsIn c op = false) (hsame : SameLiveness c (exec op c).1) :
    PingStep c op (exec op c).1 := by
  apply PingStep.idle _ hsame.isPingOutstanding hsame.isConnected
  rw [marks_of_still c op (by rw [hearsIn, hcycle, Option.any_none]) hsame.isConnected, hping]
  rfl

/-- The keep-alive, case by case. -/
theorem mqttKeepAlive_cases (env : KeepAliveEnv) (c : Client) :
    (SameLiveness c (mqttKeepAlive env c).2.1 ∧ (mqttKeepAlive env c).2.2 = []) ∨
      (mqttPingRetryTimes ≤ c.isPingOutstanding ∧
        mqttKeepAlive env c = handleDisconnect env.disconnect c) ∨
      (c.isPingOutstanding < mqttPingRetryTimes ∧
        (mqttKeepAlive env c).2.1.isPingOutstanding = c.isPingOutstanding ∧
        (mqttKeepAlive env c).2.1.isConnected = false ∧ PingFailed (mqttKeepAlive env c).2.2) ∨
      (c.isPingOutstanding < mqttPingRetryTimes ∧
        (mqttKeepAlive env c).2.1.isPingOutstanding = c.isPingOutstanding + 1 ∧
        (mqttKeepAlive env c).2.1.isConnected = c.isConnected ∧
        (mqttKeepAlive env c).2.2.any isPing = true) := by
  unfold mqttKeepAlive
  split
  · exact .inl ⟨.refl c, rfl⟩
  split
  · exact .inl ⟨.refl c, rfl⟩
  split
  next hfull => exact .inr (.inl ⟨hfull, rfl⟩)
  next hfull =>
    apply Or.inr
    apply Or.inr
    have hroom : c.isPingOutstanding < mqttPingRetryTimes := Nat.lt_of_not_le hfull
    split
    next rc hserialize => cases hserialize
    next packet hserialize =>
      obtain rfl : pingreqPacket = packet := Except.ok.inj hserialize
      obtain ⟨hping, hfailed⟩ := pingTries_pings env.pings (writePacket pingreqPacket c) 3
      dsimp only
      split
      next hrc =>
        obtain ⟨hcounter, hdown⟩ := handleDisconnect_liveness env.disconnect
          (writePacket pingreqPacket c)
        obtain ⟨hnoPing, hnoFailed⟩ := handleDisconnect_pings env.disconnect
          (writePacket pingreqPacket c)
        refine .inl ⟨hroom, hcounter, hdown, ?_, ?_⟩
        · rw [List.any_append, hfailed hrc]
          rfl
        · rw [List.any_append, hnoPing, Bool.or_false]
          intro h
          exact hrc (hping.mp h)
      next hrc => exact .inr ⟨hroom, rfl, rfl, hping.mpr (not_not.mp hrc)⟩

theorem keepAlive_pingStep (env : KeepAliveEnv) (c : Client) :
    PingStep c (.keepAlive env) (exec (.keepAlive env) c).1 := by
  rcases mqttKeepAlive_cases env c with ⟨hsame, hevents⟩ | ⟨-, heq⟩ | ⟨-, hcounter, hdown, -⟩ |
    ⟨hroom, hcounter, hlink, hping⟩
  · apply pingStep_idle rfl _ hsame
    rw [pingsIn, hevents]
    rfl
  · have hdown : exec (.keepAlive env) c = (handleDisconnect env.disconnect c).2 := by
      rw [exec, heq]
    rw [hdown]
    obtain ⟨hcounter, hlink⟩ := handleDisconnect_liveness env.disconnect c
    exact .down hcounter hlink
  · exact .down hcounter hdown
  · apply PingStep.pinged _ hroom hcounter hlink
    rw [marks_of_still c (.keepAlive env) rfl hlink, pingsIn, hping]
    rfl

theorem whileConnecting_pingStep {c : Client} {op : Op}
    (step : Client → ReturnCode × Client × List Event) (hexec : exec op c = whileConnecting step c)
    (hcycle : c.isConnected → op.cycle c = none)
    (hping : pingsIn c op = false)
    (hstep : c.isConnected = false → ((step c).2.1.isPingOutstanding = c.isPingOutstanding ∧
      (step c).2.1.isConnected = false) ∨ (step c).2.1.isPingOutstanding = 0) :
    PingStep c op (exec op c).1 := by
  by_cases hconnected : c.isConnected = true
  · have hsame : exec op c = (c, []) := by rw [hexec, whileConnecting, if_pos hconnected]
    apply pingStep_idle (hcycle hconnected) hping
    rw [hsame]
    exact .refl c
  · have hidle : c.isConnected = false := by simpa using hconnected
    rw [hexec, whileConnecting, if_neg hconnected]
    dsimp only
    rcases hstep hidle with ⟨hcounter, hlink⟩ | hzero
    · apply PingStep.down
      · split <;> exact hcounter
      · split <;> exact hlink
    · apply PingStep.reset
      split <;> exact hzero

theorem yieldRead_pingStep (env : CycleEnv) (disconnect : List WriteChoice) (c : Client) :
    PingStep c (.yieldRead env disconnect) (exec (.yieldRead env disconnect) c).1 := by
  by_cases hconnected : c.isConnected = true
  · have hcycle := cycleForRead_liveness env c
    have hexec : exec (.yieldRead env disconnect) c = (yieldRead env disconnect c).2 := by
      rw [exec, if_pos hconnected]
    have hcounter : (exec (.yieldRead env disconnect) c).1.isPingOutstanding =
        if hears env c then 0 else c.isPingOutstanding := by
      rw [hexec]
      unfold yieldRead
      dsimp only
      split
      · exact (handleDisconnect_liveness disconnect _).1.trans hcycle.isPingOutstanding
      · exact hcycle.isPingOutstanding
    by_cases hhears : hears env c = true
    · apply PingStep.reset
      rw [hcounter, if_pos hhears]
    · rw [if_neg hhears] at hcounter
      by_cases hfatal : fatalRead (cycleForRead env c).1
      · apply PingStep.down hcounter
        rw [hexec]
        unfold yieldRead
        dsimp only
        rw [if_pos hfatal]
        exact (handleDisconnect_liveness disconnect _).2
      · have hlink : (exec (.yieldRead env disconnect) c).1.isConnected = c.isConnected := by
          rw [hexec]
          unfold yieldRead
          dsimp only
          rw [if_neg hfatal]
          exact hcycle.isConnected
        apply PingStep.idle _ hcounter hlink
        have hquiet : hearsIn c (.yieldRead env disconnect) = false := by
          rw [hearsIn, Op.cycle, if_pos hconnected, Option.any_some]
          simpa using hhears
        rw [marks_of_still c _ hquiet hlink]
        rfl
  · have hexec : exec (.yieldRead env disconnect) c = (c, []) := by rw [exec, if_neg hconnected]
    have hcycle : (Op.yieldRead env disconnect).cycle c = none := if_neg hconnected
    apply pingStep_idle hcycle rfl
    rw [hexec]
    exact .refl c

/-- The cases of one operation. -/
theorem exec_pingStep (op : Op) (c : Client) : PingStep c op (exec op c).1 := by
  cases op with
  | publish topicName params env =>
    exact pingStep_idle rfl rfl (requested_liveness (publish_requested topicName params env c).1)
  | subscribe topicFilter params env =>
    exact pingStep_idle rfl rfl
      (requested_liveness (subscribe_requested topicFilter params env c).1)
  | unsubscribe topicFilter env =>
    exact pingStep_idle rfl rfl (unsubscribe_liveness topicFilter env c)
  | connectOpen options env =>
    apply whileConnecting_pingStep (sendConnect options env) rfl (fun _ => rfl) rfl
    intro hidle
    refine .inl ⟨?_, sendConnect_idle options env hidle⟩
    unfold sendConnect
    dsimp only
    split
    · rfl
    · split <;> rfl
  | connectRead env =>
    have hread : c.isConnected = true → (Op.connectRead env).cycle c = none := fun h => if_pos h
    apply whileConnecting_pingStep (connectRead env) rfl hread rfl
    intro hidle
    have hcycle := cycleForRead_liveness env c
    by_cases hhears : hears env c = true
    · right
      rw [connectRead, hcycle.isPingOutstanding]
      exact if_pos hhears
    · left
      rw [connectRead, hcycle.isPingOutstanding, hcycle.isConnected]
      exact ⟨if_neg hhears, hidle⟩
  | connectEnd now =>
    apply whileConnecting_pingStep
      (fun c => ((acceptConnack now c).1, (acceptConnack now c).2, [])) rfl (fun _ => rfl) rfl
    intro hidle
    unfold acceptConnack
    split
    · exact .inl ⟨rfl, hidle⟩
    · split
      · exact .inl ⟨rfl, hidle⟩
      · exact .inr rfl
  | connectTimeout =>
    apply whileConnecting_pingStep (fun c => (.mqttRequestTimeout, c, [])) rfl (fun _ => rfl) rfl
    intro hidle
    exact .inl ⟨rfl, hidle⟩
  | yieldRead env disconnect => exact yieldRead_pingStep env disconnect c
  | pubInfoProc iterOk clock =>
    apply pingStep_idle rfl rfl
    rw [exec, pubInfoProc_frame]
    exact ⟨rfl, rfl, rfl, rfl, rfl, rfl⟩
  | subInfoProc iterOk clock =>
    apply pingStep_idle rfl rfl
    rw [exec, subInfoProc_frame]
    exact ⟨rfl, rfl, rfl, rfl, rfl, rfl⟩
  | keepAlive env => exact keepAlive_pingStep env c
  | disconnect writes =>
    obtain ⟨hcounter, hdown⟩ := qcloudIotMqttDisconnect_liveness writes c
    by_cases hrc : (qcloudIotMqttDisconnect writes c).1 = .success
    · rw [if_pos hrc] at hdown
      exact .down hcounter hdown
    · rw [if_neg hrc] at hdown
      apply PingStep.idle _ hcounter hdown
      rw [marks_of_still c (.disconnect writes) rfl hdown]
      rfl
  | handleDisconnect writes =>
    obtain ⟨hcounter, hdown⟩ := handleDisconnect_liveness writes c
    exact .down hcounter hdown
  | schedule counter interval timer =>
    have hlink : (exec (.schedule counter interval timer) c).1.isConnected = c.isConnected := rfl
    have hcounter : (exec (.schedule counter interval timer) c).1.isPingOutstanding =
      c.isPingOutstanding := rfl
    apply PingStep.idle _ hcounter hlink
    rw [marks_of_still c (.schedule counter interval timer) rfl hlink]
    rfl
  | reconnected => exact pingStep_idle rfl rfl (.refl c)
  | setEventHandler isSet => exact pingStep_idle rfl rfl ⟨rfl, rfl, rfl, rfl, rfl, rfl⟩
  | resetRepeatBuffer => exact pingStep_idle rfl rfl ⟨rfl, rfl, rfl, rfl, rfl, rfl⟩

end Marks

section Runs

/-- The counter is in range, and on a connection it counts the pings at the end of
the run. -/
structure PingsCounted (c : Client) (log : List Mark) : Prop where
  bounded : c.isPingOutstanding ≤ mqttPingRetryTimes
  counted : c.isConnected = true →
    ∃ earlier, log = earlier ++ List.replicate c.isPingOutstanding .pinged

theorem PingsCounted.step {c : Client} {log : List Mark} (h : PingsCounted c log) (op : Op) :
    PingsCounted (exec op c).1 (log ++ marks c op) := by
  have hstep := exec_pingStep op c
  generalize (exec op c).1 = c' at hstep ⊢
  cases hstep with
  | idle hmarks counter link =>
    rw [hmarks, List.append_nil]
    refine ⟨by rw [counter]; exact h.bounded, ?_⟩
    rw [counter, link]
    exact h.counted
  | pinged hmarks room counter link =>
    rw [hmarks]
    refine ⟨by omega, ?_⟩
    intro hconnected
    obtain ⟨earlier, rfl⟩ := h.counted (link ▸ hconnected)
    refine ⟨earlier, ?_⟩
    rw [counter, List.replicate_succ', List.append_assoc]
  | reset counter =>
    refine ⟨by omega, ?_⟩
    intro _
    refine ⟨log ++ marks c op, ?_⟩
    rw [counter, List.replicate_zero, List.append_nil]
  | down counter link =>
    refine ⟨by rw [counter]; exact h.bounded, ?_⟩
    intro hconnected
    rw [link] at hconnected
    cases hconnected

theorem pingsCounted_reached (random commandTimeout : ℕ) (eventHandle : Bool)
    (options : ConnectParams) (ops : List Op) :
    PingsCounted (reached random commandTimeout eventHandle options ops)
      (history random commandTimeout eventHandle options ops) := by
  have hinit : PingsCounted (Client.init random commandTimeout eventHandle options) [] := by
    refine ⟨Nat.zero_le _, ?_⟩
    intro hconnected
    cases hconnected
  exact track_invariant (fun c log op h _ => h.step op) hinit (along_true exec ops _)

/-- In every run the counter of outstanding pings stays in range, and the keep-alive
gives a connection up only when it could not send a PINGREQ, or when the run ended in
`mqttPingRetryTimes` pings with no answer, loss or new connection after the first. -/
theorem keepAlive_gives_up (random commandTimeout : ℕ) (eventHandle : Bool)
    (options : ConnectParams) (ops : List Op) :
    (reached random commandTimeout eventHandle options ops).isPingOutstanding ≤ mqttPingRetryTimes ∧
      ∀ env : KeepAliveEnv,
        (reached random commandTimeout eventHandle options ops).isConnected = true →
        (mqttKeepAlive env
          (reached random commandTimeout eventHandle options ops)).2.1.isConnected = false →
        PingFailed (mqttKeepAlive env
            (reached random commandTimeout eventHandle options ops)).2.2 ∨
          ∃ earlier, history random commandTimeout eventHandle options ops =
            earlier ++ List.replicate mqttPingRetryTimes .pinged := by
  have hcounted := pingsCounted_reached random commandTimeout eventHandle options ops
  refine ⟨hcounted.bounded, ?_⟩
  intro env hconnected hlost
  rcases mqttKeepAlive_cases env (reached random commandTimeout eventHandle options ops) with
    ⟨hsame, -⟩ | ⟨hfull, -⟩ | ⟨-, -, -, hfailed⟩ | ⟨-, -, hlink, -⟩
  · rw [hsame.isConnected, hconnected] at hlost
    cases hlost
  · right
    obtain ⟨earlier, hearlier⟩ := hcounted.counted hconnected
    refine ⟨earlier, ?_⟩
    rwa [Nat.le_antisymm hcounted.bounded hfull] at hearlier
  · exact .inl hfailed
  · rw [hlink, hconnected] at hlost
    cases hlost

/-- A keep-alive at this time, for which the network takes every packet. -/
def pingAt (now : ℕ) : KeepAliveEnv where
  now := now
  pings := fun _ => [.accept 2047]
  disconnect := [.accept 2047]

/-- Two pings without an answer, and the third keep-alive gives up. -/
theorem keepAlive_gives_up_silent :
    ∃ earlier, history 5 5000 true deviceOptions
        (handshake [] ++ [.keepAlive (pingAt 300000), .keepAlive (pingAt 305000)]) =
      earlier ++ List.replicate mqttPingRetryTimes .pinged := by
  have hend := (keepAlive_gives_up 5 5000 true deviceOptions
    (handshake [] ++ [.keepAlive (pingAt 300000), .keepAlive (pingAt 305000)])).2 (pingAt 310000)
    (by decide) (by decide)
  rcases hend with hfailed | hpinged
  · exact absurd hfailed.1 (by decide)
  · exact hpinged

end Runs

end IotExplorer.KeepAlive
