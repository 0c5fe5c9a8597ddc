import IotExplorer.Backoff
import IotExplorer.Basis.Sessions
import IotExplorer.SentPackets

/-!
The order of the packets on a connection. Whatever an application calls, and whatever the network
and the server do, a packet other than CONNECT is sent only behind a CONNECT for which
`send_mqtt_packet` reported success, and for no DISCONNECT in between did it report success.
-/
namespace IotExplorer.PacketOrder

open Basis.Runs Basis.Sessions Protocol PacketBytes ControlPackets Network ClientState WaitLists
open Requests PacketHandlers Connection SessionSteps ClientRuns ClientPackets SentPackets
open KeepAlive (requested_liveness unsubscribe_liveness cycleForRead_liveness)
open Backoff (yieldRead_kept)

section Marks

def isConnect : ClientPacket → Bool
  | .connect .. => true
  | _ => false

/-- What a packet means to the session, by what `send_mqtt_packet` reported for it. -/
def packetMark (rc : ReturnCode) : ClientPacket → Mark
  | .connect .. => if rc = .success then .opens else .fails
  | .disconnect => if rc = .success then .closes else .uses
  | _ => .uses

def mark : Event → Mark
  | .sent packet rc _ => ((readPacket packet).map (packetMark rc)).getD .wrong
  | _ => .quiet

theorem packetMark_within (rc : ReturnCode) {p : ClientPacket} (h : isConnect p = false) :
    packetMark rc p = .uses ∨ packetMark rc p = .closes := by
  cases p with
  | connect => cases h
  | disconnect =>
    rw [packetMark]
    split
    · exact .inr rfl
    · exact .inl rfl
  | _ => exact .inl rfl

/-- Only a CONNECT that is reported as sent opens a session. -/
theorem mark_opens {e : Event} (h : mark e = .opens) :
    ∃ request taken q, e = .sent request .success taken ∧ readPacket request = some q ∧
      isConnect q = true := by
  cases e with
  | sent packet rc taken =>
    rw [mark] at h
    cases hread : readPacket packet with
    | none =>
      rw [hread] at h
      cases h
    | some q =>
      rw [hread, Option.map_some, Option.getD_some] at h
      cases q with
      | connect =>
        rw [packetMark] at h
        split_ifs at h with hrc
        exact ⟨packet, taken, _, by rw [hrc], hread, rfl⟩
      | disconnect =>
        rw [packetMark] at h
        split_ifs at h
      | _ => cases h
  | _ => cases h

def Within (p : ClientPacket) : Prop := ∀ rc, packetMark rc p = .uses

/-- The client's options are sane, and it is connected only within a session. -/
def Speaking (c : Client) (up : Bool) : Prop :=
  SaneOptions c.options ∧ (c.isConnected = true → up = true)

/-- The events lead from one client to the other in an order that the server accepts. -/
def Follows (c : Client) (events : List Event) (c' : Client) : Prop :=
  ∀ up, Speaking c up → ∃ up', accepts up (events.map mark) = some up' ∧ Speaking c' up'

end Marks

section Follows
variable {c c' c'' : Client} {events events' : List Event}

theorem Follows.trans (h : Follows c events c') (h' : Follows c' events' c'') :
    Follows c (events ++ events') c'' := by
  intro up hup
  obtain ⟨up', haccepts, hup'⟩ := h up hup
  obtain ⟨up'', haccepts', hup''⟩ := h' up' hup'
  refine ⟨up'', ?_, hup''⟩
  rw [List.map_append, accepts_append, haccepts, Option.bind_some, haccepts']

theorem quiet_marks (h : ∀ e ∈ events, Quiet e) : ∀ m ∈ events.map mark, m = .quiet := by
  intro m hm
  obtain ⟨e, he, rfl⟩ := List.mem_map.mp hm
  have hquiet := h e he
  cases e with
  | sent packet rc taken => exact hquiet.elim
  | _ => rfl

theorem within_marks (h : ∀ e ∈ events, Sends Within e) : ∀ m ∈ events.map mark, m.Continues := by
  intro m hm
  obtain ⟨e, he, rfl⟩ := List.mem_map.mp hm
  have hsends := h e he
  cases e with
  | sent packet rc taken =>
    obtain ⟨p, hread, hwithin⟩ := hsends
    right
    rw [mark, hread, Option.map_some, Option.getD_some, hwithin]
  | _ => exact .inl rfl

theorem Follows.of_quiet (h : ∀ e ∈ events, Quiet e) (hoptions : c'.options = c.options)
    (hlink : c'.isConnected = true → c.isConnected = true) : Follows c events c' := by
  intro up hup
  refine ⟨up, accepts_quiet (quiet_marks h), ?_, fun hup' => hup.2 (hlink hup')⟩
  rw [hoptions]
  exact hup.1

/-- What is sent while the client is connected. -/
theorem Follows.of_within (h : ∀ e ∈ events, Sends Within e) (hconnected : c.isConnected = true)
    (hoptions : c'.options = c.options) : Follows c events c' := by
  intro up hup
  obtain rfl := hup.2 hconnected
  refine ⟨true, accepts_continues (within_marks h), ?_, fun _ => rfl⟩
  rw [hoptions]
  exact hup.1

theorem Follows.same (h : Follows c events c') (hoptions : c''.options = c'.options)
    (hlink : c''.isConnected = c'.isConnected) : Follows c events c'' := by
  have hlast := h.trans (Follows.of_quiet quiet_nil hoptions fun h => hlink ▸ h)
  rwa [List.append_nil] at hlast

theorem Follows.of_sane (h : SaneOptions c.options → Follows c events c') : Follows c events c' :=
  fun up hup => h hup.1 up hup

theorem Follows.refl (c : Client) : Follows c [] c := .of_quiet quiet_nil rfl id

end Follows

section Requests

theorem publish_follows (topicName : List UInt8) (params : PublishParams) (env : RequestEnv)
    (c : Client) (hsane : Sane (.publish topicName params env)) :
    Follows c (qcloudIotMqttPublish topicName params env c).2.2
      (qcloudIotMqttPublish topicName params env c).2.1 := by
  have hlive := requested_liveness (publish_requested topicName params env c).1
  by_cases hconnected : c.isConnected = true
  · refine .of_within (fun e he => ?_) hconnected hlive.options
    refine (publish_sends topicName params env c hsane e he).mono ?_
    rintro p ⟨payload, -, rfl⟩ rc
    rfl
  · have hidle : (!c.isConnected) = true := by simpa using hconnected
    have hnone : (qcloudIotMqttPublish topicName params env c).2.2 = [] := by
      unfold qcloudIotMqttPublish
      split_ifs <;> rfl
    rw [hnone]
    exact .of_quiet quiet_nil hlive.options fun h => hlive.isConnected ▸ h

theorem subscribe_follows (topicFilter : List UInt8) (params : SubscribeParams) (env : RequestEnv)
    (c : Client) :
    Follows c (qcloudIotMqttSubscribe topicFilter params env c).2.2
      (qcloudIotMqttSubscribe topicFilter params env c).2.1 := by
  have hlive := requested_liveness (subscribe_requested topicFilter params env c).1
  by_cases hconnected : c.isConnected = true
  · refine .of_within (fun e he => ?_) hconnected hlive.options
    refine (subscribe_sends topicFilter params env c e he).mono ?_
    rintro p rfl rc
    rfl
  · have hidle : (!c.isConnected) = true := by simpa using hconnected
    have hnone : (qcloudIotMqttSubscribe topicFilter params env c).2.2 = [] := by
      unfold qcloudIotMqttSubscribe
      split_ifs <;> rfl
    rw [hnone]
    exact .of_quiet quiet_nil hlive.options fun h => hlive.isConnected ▸ h

theorem unsubscribe_follows (topicFilter : List UInt8) (env : RequestEnv) (c : Client) :
    Follows c (qcloudIotMqttUnsubscribe topicFilter env c).2.2
      (qcloudIotMqttUnsubscribe topicFilter env c).2.1 := by
  have hlive := unsubscribe_liveness topicFilter env c
  by_cases hconnected : c.isConnected = true
  · refine .of_within (fun e he => ?_) hconnected hlive.options
    refine (unsubscribe_sends topicFilter env c e he).mono ?_
    rintro p rfl rc
    rfl
  · refine .of_quiet ?_ hlive.options fun h => hlive.isConnected ▸ h
    have hidle : (!(removeEntries topicFilter c).1.isConnected) = true := by
      simpa [removeEntries] using hconnected
    have hscan : ∀ e ∈ (removeEntries topicFilter c).2, Quiet e := unsubscribeScan_quiet _ _ _
    have hnone : (sendUnsubscribe topicFilter env (removeEntries topicFilter c).1).2.2 = [] := by
      unfold sendUnsubscribe
      rw [if_pos hidle]
    unfold qcloudIotMqttUnsubscribe
    split_ifs
    · exact quiet_nil
    · exact quiet_nil
    · dsimp only
      split
      · exact hscan
      · rw [hnone, List.append_nil]
        exact hscan

theorem resubscribe_follows (resub : ℕ → RequestEnv) (c : Client) :
    Follows c (qcloudIotMqttResubscribe resub c).2.2 (qcloudIotMqttResubscribe resub c).2.1 := by
  have hloop : ∀ (i : ℕ) (handles : List SubTopicHandle) (c : Client),
      Follows c (resubscribeLoop resub i handles c).2.2
        (resubscribeLoop resub i handles c).2.1 := by
    intro i handles c
    induction handles generalizing i c with
    | nil => exact .refl c
    | cons handle handles ih =>
      unfold resubscribeLoop
      split
      · exact ih (i + 1) c
      next filter _ =>
        have hone := subscribe_follows filter.text (resubscribeParams handle) (resub i) c
        generalize qcloudIotMqttSubscribe filter.text (resubscribeParams handle) (resub i) c = r
          at hone ⊢
        obtain ⟨result, c₁, events⟩ := r
        cases result with
        | error rc => exact hone
        | ok id => exact hone.trans (ih (i + 1) c₁)
  unfold qcloudIotMqttResubscribe
  split
  · exact .refl c
  · exact hloop 0 _ c

end Requests

section Connecting

theorem answers_within {packetType : UInt8} {readBuf : Buffer} {p : ClientPacket}
    (h : Answers packetType readBuf p) : Within p := by
  unfold Answers at h
  split_ifs at h
  · obtain ⟨fields, -, -, rfl⟩ := h
    exact fun _ => rfl
  · obtain ⟨-, type, dup, packetId, -, rfl⟩ := h
    exact fun _ => rfl

/-- What is read is answered within the session. -/
theorem cycle_within (env : CycleEnv) (c : Client) :
    ∀ e ∈ (cycleForRead env c).2.2.2, Sends Within e := by
  intro e he
  refine (cycleForRead_sends env c e he).mono ?_
  rintro p ⟨packetType, -, hanswers⟩
  exact answers_within hanswers

theorem serializeConnectPacket_error {bufLen : ℕ} {options : ConnectOptions} {connId : List UInt8}
    {usernameOk : Bool} {rc : ReturnCode}
    (h : serializeConnectPacket bufLen options connId usernameOk = .error rc) : rc ≠ .success := by
  unfold serializeConnectPacket at h
  dsimp only at h
  split at h
  · exact fun hrc => by cases hrc; cases h
  split at h
  · exact fun hrc => by cases hrc; cases h
  split at h
  · exact fun hrc => by cases hrc; cases h
  · cases h

theorem sendWritten_marks {packet : List UInt8} {p : ClientPacket} (writes : List WriteChoice)
    (c : Client) (hread : readPacket packet = some p) :
    (sendWritten packet writes c).2.map mark = [packetMark (sendWritten packet writes c).1 p] := by
  simp [sendWritten, mark, hread]

/-- The CONNECT request opens a session when the network takes it. -/
theorem sendConnect_speaks {options : ConnectParams} (env : ConnectEnv) {c : Client}
    (hsane : SaneOptions options) (up : Bool) :
    ∃ up', accepts up ((sendConnect options env c).2.2.map mark) = some up' ∧
      ((sendConnect options env c).1 = .success → up' = true) := by
  have hsends := sendConnect_sends options env c hsane
  unfold sendConnect at hsends ⊢
  dsimp only at hsends ⊢
  split
  next rc hfailed _ => exact ⟨up, rfl, fun h => absurd h hfailed⟩
  next stream hnetwork =>
  rw [hnetwork] at hsends
  dsimp only at hsends
  split
  next rc herror => exact ⟨up, rfl, fun h => absurd h (serializeConnectPacket_error herror)⟩
  next packet hpacket =>
  rw [hpacket] at hsends
  obtain ⟨p, hread, rfl⟩ := hsends _ (List.mem_singleton.mpr rfl)
  dsimp only
  rw [sendWritten_marks env.writes _ hread, packetMark]
  split
  · exact ⟨true, rfl, fun _ => rfl⟩
  next hfailed => exact ⟨false, rfl, fun h => absurd h hfailed⟩

/-- While the CONNACK is waited for, the session goes on and is not yet reported. -/
theorem waitForRead_speaks (packetType : UInt8) (rounds : List CycleEnv) (c : Client) :
    accepts true ((waitForRead packetType rounds c).2.2.map mark) = some true ∧
      (waitForRead packetType rounds c).2.1.isConnected = c.isConnected ∧
      (waitForRead packetType rounds c).2.1.options = c.options := by
  induction rounds generalizing c with
  | nil => exact ⟨rfl, rfl, rfl⟩
  | cons env rounds ih =>
    have hcycle := cycleForRead_liveness env c
    have hmarks := accepts_continues (within_marks (cycle_within env c))
    unfold waitForRead
    dsimp only
    split
    · obtain ⟨haccepts, hlink, hoptions⟩ := ih (cycleForRead env c).2.2.1
      refine ⟨?_, hlink.trans hcycle.isConnected, hoptions.trans hcycle.options⟩
      rw [List.map_append, accepts_append, hmarks, Option.bind_some, haccepts]
    · exact ⟨hmarks, hcycle.isConnected, hcycle.options⟩

theorem sendConnect_frame (options : ConnectParams) (env : ConnectEnv) (c : Client) :
    (sendConnect options env c).2.1.isConnected = c.isConnected ∧
      (sendConnect options env c).2.1.options = options := by
  unfold sendConnect
  dsimp only
  split
  · exact ⟨rfl, rfl⟩
  · split <;> exact ⟨rfl, rfl⟩

theorem mqttConnect_follows {options : ConnectParams} (env : ConnectEnv) {c : Client}
    (hsane : SaneOptions options) (hidle : c.isConnected = false) :
    Follows c (mqttConnect options env c).2.2 (mqttConnect options env c).2.1 := by
  intro up _
  obtain ⟨up', hsent, hopened⟩ := sendConnect_speaks env (c := c) hsane up
  obtain ⟨hlink, hoptions⟩ := sendConnect_frame options env c
  have hsane' : SaneOptions (sendConnect options env c).2.1.options := by rwa [hoptions]
  unfold mqttConnect
  dsimp only
  split
  · exact ⟨up', hsent, hsane', fun h => by rw [hlink, hidle] at h; cases h⟩
  next hrc =>
  obtain rfl := hopened (not_not.mp hrc)
  obtain ⟨hwaited, hlink', hoptions'⟩ :=
    waitForRead_speaks MessageType.connack.code env.rounds (sendConnect options env c).2.1
  have hall : accepts up (((sendConnect options env c).2.2 ++ (waitForRead MessageType.connack.code
      env.rounds (sendConnect options env c).2.1).2.2).map mark) = some true := by
    rw [List.map_append, accepts_append, hsent, Option.bind_some, hwaited]
  split
  · refine ⟨true, hall, ?_, fun _ => rfl⟩
    rw [hoptions']
    exact hsane'
  · refine ⟨true, hall, ?_, fun _ => rfl⟩
    have haccept (now : ℕ) (c : Client) : (acceptConnack now c).2.options = c.options := by
      unfold acceptConnack
      split
      · rfl
      · split <;> rfl
    rw [haccept, hoptions']
    exact hsane'

theorem connect_follows {options : ConnectParams} (env : ConnectEnv) (c : Client)
    (hsane : SaneOptions options) :
    Follows c (qcloudIotMqttConnect options env c).2.2
      (qcloudIotMqttConnect options env c).2.1 := by
  unfold qcloudIotMqttConnect
  by_cases hconnected : c.isConnected = true
  · rw [if_pos hconnected]
    exact .refl c
  · rw [if_neg hconnected]
    have hidle : c.isConnected = false := by simpa using hconnected
    have hconnect := mqttConnect_follows env hsane hidle
    dsimp only
    split
    · exact hconnect
    · exact hconnect

theorem attemptReconnect_follows (env : ConnectEnv) (resub : ℕ → RequestEnv) (c : Client) :
    Follows c (qcloudIotMqttAttemptReconnect env resub c).2.2
      (qcloudIotMqttAttemptReconnect env resub c).2.1 := by
  unfold qcloudIotMqttAttemptReconnect
  split
  · exact .refl c
  · have hconnect := Follows.of_sane (connect_follows env c)
    dsimp only
    split
    · exact hconnect
    · exact hconnect.trans (resubscribe_follows resub _)

theorem handleReconnect_follows (env : ReconnectEnv) (c : Client) :
    Follows c (handleReconnect env c).2.2 (handleReconnect env c).2.1 := by
  have hattempt := attemptReconnect_follows env.connect env.resub c
  unfold handleReconnect
  split
  · exact .refl c
  · dsimp only
    split
    · exact hattempt.trans (.of_quiet (raiseEvent_quiet _ _ _) rfl id)
    · split
      · exact hattempt
      · exact hattempt

end Connecting

section Keeping
variable {c : Client}

/-- A DISCONNECT that the network takes closes the session. -/
theorem disconnect_follows (writes : List WriteChoice) (c : Client) :
    Follows c (qcloudIotMqttDisconnect writes c).2.2 (qcloudIotMqttDisconnect writes c).2.1 := by
  unfold qcloudIotMqttDisconnect
  by_cases hidle : (!c.isConnected) = true
  · rw [if_pos hidle]
    exact .refl c
  rw [if_neg hidle]
  split
  · exact .refl c
  next packet hpacket =>
  have hmarks := sendWritten_marks writes (writePacket packet c) (read_disconnect hpacket)
  intro up hup
  obtain rfl := hup.2 (by simpa using hidle)
  dsimp only
  split
  next hfailed =>
    rw [packetMark, if_neg hfailed] at hmarks
    exact ⟨true, by rw [hmarks]; rfl, hup.1, fun _ => rfl⟩
  next hsent =>
    rw [packetMark, if_pos (not_not.mp hsent)] at hmarks
    exact ⟨false, by rw [hmarks]; rfl, hup.1, fun h => by cases h⟩

theorem handleDisconnect_follows (writes : List WriteChoice) (c : Client) :
    Follows c (handleDisconnect writes c).2.2 (handleDisconnect writes c).2.1 := by
  have hdown := disconnect_follows writes c
  unfold handleDisconnect
  split
  · exact .refl c
  · refine hdown.trans (.of_quiet (raiseEvent_quiet _ _ _) ?_ ?_)
    · dsimp only
      split <;> rfl
    · dsimp only
      split
      · exact fun h => by cases h
      · exact id

theorem keepAlive_follows (env : KeepAliveEnv) (hconnected : c.isConnected = true) :
    Follows c (mqttKeepAlive env c).2.2 (mqttKeepAlive env c).2.1 := by
  unfold mqttKeepAlive
  split
  · exact .refl c
  split
  · exact .refl c
  split
  · exact handleDisconnect_follows env.disconnect c
  split
  · exact .refl c
  next packet hpacket =>
  have hpings := @pingTries_sends Within _ packet env.pings (writePacket packet c) 4
    (read_pingreq hpacket) (fun _ => rfl)
  dsimp only
  split
  · have hfollows : Follows c _ (writePacket packet c) := .of_within hpings hconnected rfl
    exact hfollows.trans (handleDisconnect_follows env.disconnect (writePacket packet c))
  · exact .of_within hpings hconnected rfl

theorem yieldRead_follows (env : CycleEnv) (disconnect : List WriteChoice)
    (hconnected : c.isConnected = true) :
    Follows c (yieldRead env disconnect c).2.2 (yieldRead env disconnect c).2.1 := by
  have hread : Follows c (cycleForRead env c).2.2.2 (cycleForRead env c).2.2.1 :=
    .of_within (cycle_within env c) hconnected (cycleForRead_liveness env c).options
  unfold yieldRead
  dsimp only
  split
  · exact hread.trans (handleDisconnect_follows disconnect _)
  · exact hread

theorem yieldUpkeep_follows (env : YieldEnv) (hconnected : c.isConnected = true) :
    Follows c (yieldUpkeep env c).2.2 (yieldUpkeep env c).2.1 := by
  have hpubs : Follows c (pubInfoProc env.pubIterOk env.pubClock c).2
      (pubInfoProc env.pubIterOk env.pubClock c).1 := by
    refine .of_quiet (pubInfoProc_quiet _ _ c) ?_ ?_ <;> rw [pubInfoProc_frame]
    exact id
  have hsubs (c : Client) : Follows c (subInfoProc env.subIterOk env.subClock c).2
      (subInfoProc env.subIterOk env.subClock c).1 := by
    refine .of_quiet (subInfoProc_quiet _ _ c) ?_ ?_ <;> rw [subInfoProc_frame]
    exact id
  refine (hpubs.trans (hsubs _)).trans (keepAlive_follows env.keepAlive ?_)
  rw [subInfoProc_frame, pubInfoProc_frame]
  exact hconnected

end Keeping

section Calls

/-- A round of yield that finds a connection stays in its session. -/
theorem yieldRound_follows (env : YieldEnv) (c : Client) :
    Follows c (yieldRound env c).2.2 (yieldRound env c).2.1 := by
  unfold yieldRound
  by_cases hidle : (!c.isConnected) = true
  · rw [if_pos hidle]
    split
    · exact .refl c
    · exact handleReconnect_follows env.reconnect c
  · rw [if_neg hidle]
    have hconnected : c.isConnected = true := by simpa using hidle
    have hread := yieldRead_follows env.cycle env.disconnect hconnected
    have hkept := yieldRead_kept env.cycle env.disconnect c hconnected
    have hnoted (rc : ReturnCode) (c : Client) :
        (noteConnection env rc c).2.2.options = c.options ∧
          (noteConnection env rc c).2.2.isConnected = c.isConnected := by
      unfold noteConnection
      dsimp only
      split
      · split <;> exact ⟨rfl, rfl⟩
      · exact ⟨rfl, rfl⟩
    dsimp only
    split
    next hrc =>
      have hup : (yieldRead env.cycle env.disconnect c).2.1.isConnected = true := by
        rcases hkept.link with hup | hlost
        · exact hup
        · rw [hlost] at hrc
          cases hrc
      exact (hread.trans (yieldUpkeep_follows env hup)).same (hnoted _ _).1 (hnoted _ _).2
    · exact hread.same (hnoted _ _).1 (hnoted _ _).2

theorem yield_follows (rounds : List YieldEnv) (c : Client) :
    Follows c (qcloudIotMqttYield rounds c).2.2 (qcloudIotMqttYield rounds c).2.1 := by
  have hloop : ∀ (rc : ReturnCode) (rounds : List YieldEnv) (c : Client),
      Follows c (yieldLoop rc rounds c).2.2 (yieldLoop rc rounds c).2.1 := by
    intro rc rounds c
    induction rounds generalizing rc c with
    | nil => exact .refl c
    | cons env rounds ih =>
      have hround := yieldRound_follows env c
      unfold yieldLoop
      dsimp only
      split
      · exact hround.trans (ih _ _)
      · exact hround
  unfold qcloudIotMqttYield
  split
  · exact .refl c
  split
  · exact .refl c
  · exact hloop .success rounds c

theorem reconnect_follows (env : ForcedEnv) (c : Client) :
    Follows c (qcloudIotMqttReconnect env c).2.2 (qcloudIotMqttReconnect env c).2.1 := by
  have hloop : ∀ (rounds : List ReconnectEnv) (c : Client),
      Follows c (reconnectLoop rounds c).2.2 (reconnectLoop rounds c).2.1 := by
    intro rounds c
    induction rounds generalizing c with
    | nil => exact .refl c
    | cons env rounds ih =>
      unfold reconnectLoop
      split
      · exact .refl c
      split
      · exact .refl c
      · exact (handleReconnect_follows env c).trans (ih _)
  unfold qcloudIotMqttReconnect
  split
  · exact .refl c
  · refine Follows.trans ?_ (hloop env.rounds _)
    exact (handleDisconnect_follows env.disconnect c).same rfl rfl

inductive Call where
  | connect (options : ConnectParams) (env : ConnectEnv)
  | publish (topicName : List UInt8) (params : PublishParams) (env : RequestEnv)
  | subscribe (topicFilter : List UInt8) (params : SubscribeParams) (env : RequestEnv)
  | unsubscribe (topicFilter : List UInt8) (env : RequestEnv)
  | yield (rounds : List YieldEnv)
  | reconnect (env : ForcedEnv)
  | disconnect (writes : List WriteChoice)

def call : Call → Client → Client × List Event
  | .connect options env, c => (qcloudIotMqttConnect options env c).2
  | .publish topicName params env, c => (qcloudIotMqttPublish topicName params env c).2
  | .subscribe topicFilter params env, c => (qcloudIotMqttSubscribe topicFilter params env c).2
  | .unsubscribe topicFilter env, c => (qcloudIotMqttUnsubscribe topicFilter env c).2
  | .yield rounds, c => (qcloudIotMqttYield rounds c).2
  | .reconnect env, c => (qcloudIotMqttReconnect env c).2
  | .disconnect writes, c => (qcloudIotMqttDisconnect writes c).2

def Call.Sane : Call → Prop
  | .connect options _ => SaneOptions options
  | .publish topicName params env => SentPackets.Sane (.publish topicName params env)
  | _ => True

theorem call_follows (op : Call) (c : Client) (hsane : op.Sane) :
    Follows c (call op c).2 (call op c).1 := by
  cases op with
  | connect options env => exact connect_follows env c hsane
  | publish topicName params env => exact publish_follows topicName params env c hsane
  | subscribe topicFilter params env => exact subscribe_follows topicFilter params env c
  | unsubscribe topicFilter env => exact unsubscribe_follows topicFilter env c
  | yield rounds => exact yield_follows rounds c
  | reconnect env => exact reconnect_follows env c
  | disconnect writes => exact disconnect_follows writes c

theorem run_follows {calls : List Call} (hsane : ∀ op ∈ calls, op.Sane) (c : Client) :
    Follows c (run call calls c).2 (run call calls c).1 := by
  induction calls generalizing c with
  | nil => exact .refl c
  | cons op calls ih =>
    exact (call_follows op c (hsane op List.mem_cons_self)).trans
      (ih (fun op' hmem => hsane op' (List.mem_cons_of_mem _ hmem)) _)

/-- In every run of calls each packet is one of the protocol, and what is not a CONNECT stands
behind a CONNECT for which `send_mqtt_packet` reported success, with neither a CONNECT nor a
DISCONNECT so reported in between. -/
theorem packets_in_session (random commandTimeout : ℕ) (eventHandle : Bool)
    {options : ConnectParams} (hoptions : SaneOptions options) {calls : List Call}
    (hsane : ∀ op ∈ calls, op.Sane) {before after : List Event} {packet taken : List UInt8}
    {rc : ReturnCode}
    (hlog : (run call calls (Client.init random commandTimeout eventHandle options)).2 =
      before ++ .sent packet rc taken :: after) :
    ∃ p, readPacket packet = some p ∧
      (isConnect p = false →
        ∃ earlier request taken' q between,
          before = earlier ++ .sent request .success taken' :: between ∧
          readPacket request = some q ∧ isConnect q = true ∧
          ∀ e ∈ between, (mark e).Continues) := by
  have hstart : Speaking (Client.init random commandTimeout eventHandle options) false :=
    ⟨hoptions, fun h => by cases h⟩
  obtain ⟨up, haccepts, -⟩ := run_follows hsane _ false hstart
  have hwrong := not_wrong haccepts
  rw [hlog, List.map_append, List.map_cons] at haccepts hwrong
  cases hread : readPacket packet with
  | none =>
    refine absurd (List.mem_append_right _ (List.mem_cons.mpr (.inl ?_))) hwrong
    rw [mark, hread]
    rfl
  | some p =>
    refine ⟨p, rfl, fun hconnect => ?_⟩
    have hmark : mark (.sent packet rc taken) = .uses ∨ mark (.sent packet rc taken) = .closes := by
      rw [mark, hread]
      exact packetMark_within rc hconnect
    obtain ⟨earlierMarks, betweenMarks, hbefore, hall⟩ := opened_before hmark haccepts
    obtain ⟨earlier, rest, rfl, -, hrest⟩ := List.map_eq_append_iff.mp hbefore
    obtain ⟨opening, between, rfl, hopening, rfl⟩ := List.map_eq_cons_iff.mp hrest
    obtain ⟨request, taken', q, rfl, hq, hisConnect⟩ := mark_opens hopening
    refine ⟨earlier, request, taken', q, between, rfl, hq, hisConnect, fun e he => ?_⟩
    exact hall _ (List.mem_map_of_mem he)

/-- The calls of a client that connects to a server which accepts it, and publishes on `t`. -/
def connectAndPublish : List Call :=
  [.connect deviceOptions
      { network := .opened [0x20, 2, 0, 0]
        connId := [65]
        usernameOk := true
        writes := [.accept 2047]
        rounds := [cycleWith [.deliver, .deliver, .deliver]]
        now := 0 },
    .publish [116] { qos := .qos1, retained := 0, id := 0, payload := some [1] } (calmRequest 0)]

theorem deviceOptions_sane : SaneOptions deviceOptions := ⟨by decide, by decide, by decide⟩

theorem connectAndPublish_sane : ∀ op ∈ connectAndPublish, op.Sane := by
  intro op hop
  rcases List.mem_cons.mp hop with rfl | hop
  · exact deviceOptions_sane
  · obtain rfl := List.mem_singleton.mp hop
    intro payload hpayload
    obtain rfl := Option.some.inj hpayload
    decide

theorem connectAndPublish_log :
    (run call connectAndPublish (Client.init 0 5000 true deviceOptions)).2 =
      (run call (connectAndPublish.take 1) (Client.init 0 5000 true deviceOptions)).2 ++
        .sent [0x32, 6, 0, 1, 116, 0, 2, 1] .success [0x32, 6, 0, 1, 116, 0, 2, 1] :: [] := by
  decide +kernel

theorem packets_in_session_publish :
    ∃ p, readPacket [0x32, 6, 0, 1, 116, 0, 2, 1] = some p ∧
      (isConnect p = false →
        ∃ earlier request taken' q between,
          (run call (connectAndPublish.take 1) (Client.init 0 5000 true deviceOptions)).2 =
            earlier ++ .sent request .success taken' :: between ∧
          readPacket request = some q ∧ isConnect q = true ∧
          ∀ e ∈ between, (mark e).Continues) :=
  packets_in_session 0 5000 true deviceOptions_sane connectAndPublish_sane connectAndPublish_log

end Calls

end IotExplorer.PacketOrder
