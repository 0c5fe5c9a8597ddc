import IotExplorer.Basis.Runs
import IotExplorer.SessionSteps

/-!
Runs of the client. An operation is a request of the application, one round of
a loop of the client (a packet read while it connects or yields, a walk of a
wait list, a ping), or bookkeeping of such a loop. Operations come in any
order, so a run covers every sequence of calls of the interface: connect, yield
and the reconnect with its resubscription are shown to be runs.
-/
namespace IotExplorer.ClientRuns

open Basis.Runs Protocol PacketBytes Network ClientState WaitLists Requests PacketHandlers
open Connection SessionSteps

inductive Op where
  | publish (topicName : List UInt8) (params : PublishParams) (env : RequestEnv)
  | subscribe (topicFilter : List UInt8) (params : SubscribeParams) (env : RequestEnv)
  | unsubscribe (topicFilter : List UInt8) (env : RequestEnv)
  /-- A connection is opened and the CONNECT request sent. -/
  | connectOpen (options : ConnectParams) (env : ConnectEnv)
  /-- One round of waiting for the CONNACK. -/
  | connectRead (env : CycleEnv)
  /-- The CONNACK is checked. -/
  | connectEnd (now : ℕ)
  /-- The wait for the CONNACK timed out. -/
  | connectTimeout
  | yieldRead (env : CycleEnv) (disconnect : List WriteChoice)
  | pubInfoProc (iterOk : Bool) (clock : ℕ → ℕ)
  | subInfoProc (iterOk : Bool) (clock : ℕ → ℕ)
  | keepAlive (env : KeepAliveEnv)
  | disconnect (writes : List WriteChoice)
  | handleDisconnect (writes : List WriteChoice)
  /-- The counter and the timer of reconnecting are written. -/
  | schedule (counter interval timer : ℕ)
  /-- The application is told about a reconnect. -/
  | reconnected
  | setEventHandler (isSet : Bool)
  | resetRepeatBuffer

/-- A step while connecting: only without a connection, and a failure closes the
network. -/
def whileConnecting (step : Client → ReturnCode × Client × List Event) (c : Client) :
    Client × List Event :=
  if c.isConnected then (c, [])
  else
    let r := step c
    (if r.1 ≠ .success then closeNetwork r.2.1 else r.2.1, r.2.2)

/-- The round of `wait_for_read` without the type it read. -/
def connectRead (env : CycleEnv) (c : Client) : ReturnCode × Client × List Event :=
  let r := cycleForRead env c
  (r.1, r.2.2.1, r.2.2.2)

def exec : Op → Client → Client × List Event
  | .publish topicName params env, c => (qcloudIotMqttPublish topicName params env c).2
  | .subscribe topicFilter params env, c => (qcloudIotMqttSubscribe topicFilter params env c).2
  | .unsubscribe topicFilter env, c => (qcloudIotMqttUnsubscribe topicFilter env c).2
  | .connectOpen options env, c => whileConnecting (sendConnect options env) c
  | .connectRead env, c => whileConnecting (connectRead env) c
  | .connectEnd now, c =>
      whileConnecting (fun c => ((acceptConnack now c).1, (acceptConnack now c).2, [])) c
  | .connectTimeout, c => whileConnecting (fun c => (.mqttRequestTimeout, c, [])) c
  | .yieldRead env disconnect, c =>
      if c.isConnected then (yieldRead env disconnect c).2 else (c, [])
  | .pubInfoProc iterOk clock, c => pubInfoProc iterOk clock c
  | .subInfoProc iterOk clock, c => subInfoProc iterOk clock c
  | .keepAlive env, c => (mqttKeepAlive env c).2
  | .disconnect writes, c => (qcloudIotMqttDisconnect writes c).2
  | .handleDisconnect writes, c => (Connection.handleDisconnect writes c).2
  | .schedule counter interval timer, c =>
      ({ c with
         counterNetworkDisconnected := counter
         currentReconnectWaitInterval := interval
         reconnectDelayTimer := timer }, [])
  | .reconnected, c => (c, raiseEvent c.eventHandle .reconnect 0)
  | .setEventHandler isSet, c => ({ c with eventHandle := isSet }, [])
  | .resetRepeatBuffer, c => (resetRepeatPacketIdBuffer c, [])

/-- The environment of the cycle that an operation runs, if it runs one. -/
def Op.cycle (c : Client) : Op → Option CycleEnv
  | .connectRead env => if c.isConnected then none else some env
  | .yieldRead env _ => if c.isConnected then some env else none
  | _ => none

/-- The operation neither reads a packet nor resets the repeat buffer. -/
def Op.NoReceipt (c : Client) (op : Op) : Prop := op.cycle c = none ∧ op ≠ .resetRepeatBuffer

section Session
variable {c c' : Client} {op : Op} {events : List Event}

inductive SessionStep (c : Client) (op : Op) : Client → List Event → Prop
  | same {c' : Client} {events : List Event} (noReceipt : op.NoReceipt c)
      (same : SameSession c c') (plain : ∀ e ∈ events, Plain e) : SessionStep c op c' events
  | requested {c' : Client} {events : List Event} (noReceipt : op.NoReceipt c)
      (request : Requested c c') (plain : ∀ e ∈ events, Plain e) : SessionStep c op c' events
  | unsubscribed {c' : Client} {events : List Event} (topicFilter : List UInt8) (env : RequestEnv)
      (isOp : op = .unsubscribe topicFilter env) (nonempty : topicFilter ≠ [])
      (short : topicFilter.length ≤ maxSizeOfCloudTopic)
      (request : Requested (removeEntries topicFilter c).1 c') (plain : ∀ e ∈ events, Plain e) :
      SessionStep c op c' ((removeEntries topicFilter c).2 ++ events)
  | received {c' : Client} {events : List Event} (env : CycleEnv) (cycle : op.cycle c = some env)
      (same : SameSession (applyIncoming env (incoming env.reads c) c).1 c')
      (plain : ∀ e ∈ events, Plain e) :
      SessionStep c op c' ((applyIncoming env (incoming env.reads c) c).2 ++ events)
  | pubScan (iterOk : Bool) (clock : ℕ → ℕ) (isOp : op = .pubInfoProc iterOk clock) :
      SessionStep c op (pubInfoProc iterOk clock c).1 (pubInfoProc iterOk clock c).2
  | subScan (iterOk : Bool) (clock : ℕ → ℕ) (isOp : op = .subInfoProc iterOk clock) :
      SessionStep c op (subInfoProc iterOk clock c).1 (subInfoProc iterOk clock c).2
  | setEventHandler (isSet : Bool) (isOp : op = .setEventHandler isSet) :
      SessionStep c op { c with eventHandle := isSet } []
  | resetRepeatBuffer (isOp : op = .resetRepeatBuffer) :
      SessionStep c op (resetRepeatPacketIdBuffer c) []

theorem closeNetwork_session (c : Client) : SameSession c (closeNetwork c) :=
  ⟨rfl, rfl, rfl, rfl, rfl, rfl, rfl, rfl, rfl⟩

theorem sendConnect_session (options : ConnectParams) (env : ConnectEnv) (c : Client) :
    SameSession c (sendConnect options env c).2.1 ∧
      ∀ e ∈ (sendConnect options env c).2.2, Plain e := by
  unfold sendConnect
  dsimp only
  split
  · exact ⟨⟨rfl, rfl, rfl, rfl, rfl, rfl, rfl, rfl, rfl⟩, plain_nil⟩
  · split
    · exact ⟨⟨rfl, rfl, rfl, rfl, rfl, rfl, rfl, rfl, rfl⟩, plain_nil⟩
    · exact ⟨⟨rfl, rfl, rfl, rfl, rfl, rfl, rfl, rfl, rfl⟩, plain_sent _ env.writes _⟩

theorem acceptConnack_session (now : ℕ) (c : Client) : SameSession c (acceptConnack now c).2 := by
  unfold acceptConnack
  split
  · exact .refl c
  · split
    · exact .refl c
    · exact ⟨rfl, rfl, rfl, rfl, rfl, rfl, rfl, rfl, rfl⟩

theorem disconnect_session (writes : List WriteChoice) (c : Client) :
    SameSession c (qcloudIotMqttDisconnect writes c).2.1 ∧
      ∀ e ∈ (qcloudIotMqttDisconnect writes c).2.2, Plain e := by
  unfold qcloudIotMqttDisconnect
  split
  · exact ⟨.refl c, plain_nil⟩
  · split
    · exact ⟨.refl c, plain_nil⟩
    · dsimp only
      split
      · exact ⟨⟨rfl, rfl, rfl, rfl, rfl, rfl, rfl, rfl, rfl⟩, plain_sent _ writes _⟩
      · exact ⟨⟨rfl, rfl, rfl, rfl, rfl, rfl, rfl, rfl, rfl⟩, plain_sent _ writes _⟩

theorem plain_append {events events' : List Event} (h : ∀ e ∈ events, Plain e)
    (h' : ∀ e ∈ events', Plain e) : ∀ e ∈ events ++ events', Plain e := by
  intro e he
  rcases List.mem_append.mp he with he | he
  · exact h e he
  · exact h' e he

theorem raiseEvent_plain (eventHandle : Bool) (packetId : ℕ) :
    (∀ e ∈ raiseEvent eventHandle .disconnect packetId, Plain e) ∧
      ∀ e ∈ raiseEvent eventHandle .reconnect packetId, Plain e := by
  unfold raiseEvent
  constructor <;> split <;> simp [Plain]

theorem handleDisconnect_session (writes : List WriteChoice) (c : Client) :
    SameSession c (handleDisconnect writes c).2.1 ∧
      ∀ e ∈ (handleDisconnect writes c).2.2, Plain e := by
  unfold handleDisconnect
  split
  · exact ⟨.refl c, plain_nil⟩
  · obtain ⟨hsame, hplain⟩ := disconnect_session writes c
    generalize qcloudIotMqttDisconnect writes c = r at hsame hplain
    refine ⟨hsame.trans ?_, plain_append hplain (raiseEvent_plain _ 0).1⟩
    dsimp only
    split <;> exact ⟨rfl, rfl, rfl, rfl, rfl, rfl, rfl, rfl, rfl⟩

theorem pingTries_plain (packet : List UInt8) (pings : ℕ → List WriteChoice) (c : Client)
    (tries : ℕ) : ∀ e ∈ (pingTries packet pings c tries).2, Plain e := by
  induction tries with
  | zero => exact plain_nil
  | succ tries ih =>
    unfold pingTries
    dsimp only
    split
    · exact plain_append (plain_sent packet _ c) ih
    · exact plain_sent packet _ c

theorem mqttKeepAlive_session (env : KeepAliveEnv) (c : Client) :
    SameSession c (mqttKeepAlive env c).2.1 ∧ ∀ e ∈ (mqttKeepAlive env c).2.2, Plain e := by
  unfold mqttKeepAlive
  split
  · exact ⟨.refl c, plain_nil⟩
  split
  · exact ⟨.refl c, plain_nil⟩
  split
  · exact handleDisconnect_session env.disconnect c
  split
  · exact ⟨.refl c, plain_nil⟩
  next packet _ =>
    have hwritten : SameSession c (writePacket packet c) :=
      ⟨rfl, rfl, rfl, rfl, rfl, rfl, rfl, rfl, rfl⟩
    have hplain := pingTries_plain packet env.pings (writePacket packet c) 4
    dsimp only
    split
    · obtain ⟨hsame, hdisconnect⟩ := handleDisconnect_session env.disconnect (writePacket packet c)
      exact ⟨hwritten.trans hsame, plain_append hplain hdisconnect⟩
    · exact ⟨⟨rfl, rfl, rfl, rfl, rfl, rfl, rfl, rfl, rfl⟩, hplain⟩

theorem whileConnecting_session {step : Client → ReturnCode × Client × List Event}
    (hop : op.NoReceipt c) (hsame : SameSession c (step c).2.1)
    (hplain : ∀ e ∈ (step c).2.2, Plain e) :
    SessionStep c op (whileConnecting step c).1 (whileConnecting step c).2 := by
  unfold whileConnecting
  split
  · exact .same hop (.refl c) plain_nil
  · dsimp only
    split
    · exact .same hop (hsame.trans (closeNetwork_session _)) hplain
    · exact .same hop hsame hplain

/-- The cases of one operation. -/
theorem exec_session (op : Op) (c : Client) : SessionStep c op (exec op c).1 (exec op c).2 := by
  cases op with
  | publish topicName params env =>
    exact .requested ⟨rfl, by simp⟩ (publish_requested topicName params env c).1
      (publish_requested topicName params env c).2
  | subscribe topicFilter params env =>
    exact .requested ⟨rfl, by simp⟩ (subscribe_requested topicFilter params env c).1
      (subscribe_requested topicFilter params env c).2
  | unsubscribe topicFilter env =>
    dsimp only [exec]
    unfold qcloudIotMqttUnsubscribe
    by_cases hempty : topicFilter = []
    · rw [if_pos hempty]
      exact .same ⟨rfl, by simp⟩ (.refl c) plain_nil
    rw [if_neg hempty]
    by_cases hlong : topicFilter.length > maxSizeOfCloudTopic
    · rw [if_pos hlong]
      exact .same ⟨rfl, by simp⟩ (.refl c) plain_nil
    rw [if_neg hlong]
    dsimp only
    have hlen := Nat.le_of_not_lt hlong
    split
    · have hscan : SessionStep c (.unsubscribe topicFilter env) (removeEntries topicFilter c).1
          ((removeEntries topicFilter c).2 ++ []) :=
        .unsubscribed topicFilter env rfl hempty hlen
          (.same (removeEntries topicFilter c).1.writeBuf) plain_nil
      rwa [List.append_nil] at hscan
    · obtain ⟨hrequest, hplain⟩ :=
        sendUnsubscribe_requested env (removeEntries topicFilter c).1 hempty hlen
      exact .unsubscribed topicFilter env rfl hempty hlen hrequest hplain
  | connectOpen options env =>
    exact whileConnecting_session ⟨rfl, by simp⟩ (sendConnect_session options env c).1
      (sendConnect_session options env c).2
  | connectRead env =>
    dsimp only [exec, whileConnecting]
    by_cases hconnected : c.isConnected = true
    · rw [if_pos hconnected]
      exact .same ⟨if_pos hconnected, by simp⟩ (.refl c) plain_nil
    · rw [if_neg hconnected]
      obtain ⟨hsame, plain, hevents, hplain⟩ := cycleForRead_session env c
      have hread : (connectRead env c).2.2 =
          (applyIncoming env (incoming env.reads c) c).2 ++ plain :=
        hevents
      rw [hread]
      refine .received env (if_neg hconnected) ?_ hplain
      by_cases hrc : (connectRead env c).1 ≠ .success
      · rw [if_pos hrc]
        exact hsame.trans (closeNetwork_session _)
      · rw [if_neg hrc]
        exact hsame
  | connectEnd now =>
    exact whileConnecting_session ⟨rfl, by simp⟩ (acceptConnack_session now c) plain_nil
  | connectTimeout => exact whileConnecting_session ⟨rfl, by simp⟩ (.refl c) plain_nil
  | yieldRead env disconnect =>
    dsimp only [exec]
    by_cases hconnected : c.isConnected = true
    · rw [if_pos hconnected]
      obtain ⟨hsame, plain, hevents, hplain⟩ := cycleForRead_session env c
      unfold yieldRead
      dsimp only
      split
      · obtain ⟨hdown, hdisconnect⟩ :=
          handleDisconnect_session disconnect (cycleForRead env c).2.2.1
        rw [hevents, List.append_assoc]
        exact .received env (if_pos hconnected) (hsame.trans hdown)
          (plain_append hplain hdisconnect)
      · rw [hevents]
        exact .received env (if_pos hconnected) hsame hplain
    · rw [if_neg hconnected]
      exact .same ⟨if_neg hconnected, by simp⟩ (.refl c) plain_nil
  | pubInfoProc iterOk clock => exact .pubScan iterOk clock rfl
  | subInfoProc iterOk clock => exact .subScan iterOk clock rfl
  | keepAlive env =>
    exact .same ⟨rfl, by simp⟩ (mqttKeepAlive_session env c).1 (mqttKeepAlive_session env c).2
  | disconnect writes =>
    exact .same ⟨rfl, by simp⟩ (disconnect_session writes c).1 (disconnect_session writes c).2
  | handleDisconnect writes =>
    exact .same ⟨rfl, by simp⟩ (handleDisconnect_session writes c).1
      (handleDisconnect_session writes c).2
  | schedule counter interval timer =>
    exact .same ⟨rfl, by simp⟩ ⟨rfl, rfl, rfl, rfl, rfl, rfl, rfl, rfl, rfl⟩ plain_nil
  | reconnected => exact .same ⟨rfl, by simp⟩ (.refl c) (raiseEvent_plain _ 0).2
  | setEventHandler isSet => exact .setEventHandler isSet rfl
  | resetRepeatBuffer => exact .resetRepeatBuffer rfl

/-- An operation that runs a cycle does to the session what its packet asks for. -/
theorem exec_received {env : CycleEnv} (hcycle : op.cycle c = some env) :
    SameSession (applyIncoming env (incoming env.reads c) c).1 (exec op c).1 := by
  have hstep := exec_session op c
  generalize (exec op c).1 = c' at hstep ⊢
  generalize (exec op c).2 = events at hstep
  cases hstep with
  | same noReceipt same plain => rw [noReceipt.1] at hcycle; cases hcycle
  | requested noReceipt request plain => rw [noReceipt.1] at hcycle; cases hcycle
  | received env' cycle same plain =>
    obtain rfl := Option.some.inj (cycle.symm.trans hcycle)
    exact same
  | unsubscribed topicFilter env isOp nonempty short request plain =>
    rw [isOp] at hcycle; cases hcycle
  | pubScan iterOk clock isOp => rw [isOp] at hcycle; cases hcycle
  | subScan iterOk clock isOp => rw [isOp] at hcycle; cases hcycle
  | setEventHandler isSet isOp => rw [isOp] at hcycle; cases hcycle
  | resetRepeatBuffer isOp => rw [isOp] at hcycle; cases hcycle

end Session

section Calls
variable {c c' : Client} {rc : ReturnCode} {events : List Event}

/-- Some run leads from one client to the other and logs these events. -/
def Covers (c c' : Client) (events : List Event) : Prop := ∃ ops, run exec ops c = (c', events)

theorem covers_refl (c : Client) : Covers c c [] := ⟨[], rfl⟩

theorem covers_exec (op : Op) (c : Client) : Covers c (exec op c).1 (exec op c).2 :=
  ⟨[op], by simp⟩

theorem Covers.append {c₁ c₂ : Client} {events₁ events₂ : List Event}
    (h₁ : Covers c c₁ events₁) (h₂ : Covers c₁ c₂ events₂) : Covers c c₂ (events₁ ++ events₂) := by
  obtain ⟨ops₁, h₁⟩ := h₁
  obtain ⟨ops₂, h₂⟩ := h₂
  exact ⟨ops₁ ++ ops₂, by rw [run_append, h₁, h₂]⟩

theorem whileConnecting_eq {step : Client → ReturnCode × Client × List Event}
    (hidle : c.isConnected = false) (hstep : step c = (rc, c', events)) :
    whileConnecting step c = (if rc ≠ .success then closeNetwork c' else c', events) := by
  rw [whileConnecting, if_neg (by simp [hidle]), hstep]

/-- Waiting for the CONNACK is a run, which closes the network when it fails. -/
theorem waitForRead_covers (rounds : List CycleEnv) (hidle : c.isConnected = false)
    (h : waitForRead MessageType.connack.code rounds c = (rc, c', events)) :
    c'.isConnected = false ∧ Covers c (if rc ≠ .success then closeNetwork c' else c') events := by
  induction rounds generalizing c events with
  | nil =>
    simp only [waitForRead, Prod.mk.injEq] at h
    obtain ⟨rfl, rfl, rfl⟩ := h
    have hexec := covers_exec .connectTimeout c
    rw [exec, whileConnecting_eq hidle rfl] at hexec
    exact ⟨hidle, hexec⟩
  | cons env rounds ih =>
    have hlink := (cycleForRead_link env c).isConnected
    rw [(receive_link env.reads c).1, hidle] at hlink
    have hexec := covers_exec (.connectRead env) c
    rw [exec, whileConnecting_eq hidle rfl] at hexec
    unfold waitForRead at h
    dsimp only at h
    by_cases hmore : (cycleForRead env c).1 = .success ∧
        (cycleForRead env c).2.1 ≠ some MessageType.connack.code
    · rw [if_pos hmore] at h
      rw [if_neg (by simpa using hmore.1)] at hexec
      simp only [Prod.mk.injEq] at h
      obtain ⟨hrc, hc', hevents⟩ := h
      obtain ⟨hidle', hrest⟩ := ih hlink (Prod.ext hrc (Prod.ext hc' rfl))
      rw [← hevents]
      exact ⟨hidle', hexec.append hrest⟩
    · rw [if_neg hmore] at h
      simp only [Prod.mk.injEq] at h
      obtain ⟨rfl, rfl, rfl⟩ := h
      exact ⟨hlink, hexec⟩

theorem sendConnect_idle (options : ConnectParams) (env : ConnectEnv)
    (hidle : c.isConnected = false) : (sendConnect options env c).2.1.isConnected = false := by
  unfold sendConnect
  dsimp only
  split
  · exact hidle
  · split <;> exact hidle

theorem mqttConnect_covers (options : ConnectParams) (env : ConnectEnv)
    (hidle : c.isConnected = false) (h : mqttConnect options env c = (rc, c', events)) :
    Covers c (if rc ≠ .success then closeNetwork c' else c') events := by
  unfold mqttConnect at h
  have hidle₁ := sendConnect_idle options env hidle
  generalize hsend : sendConnect options env c = r at h hidle₁
  obtain ⟨rc₁, c₁, sent⟩ := r
  have hopen := covers_exec (.connectOpen options env) c
  rw [exec, whileConnecting_eq hidle hsend] at hopen
  dsimp only at h hidle₁
  by_cases hrc₁ : rc₁ ≠ .success
  · rw [if_pos hrc₁, Prod.mk.injEq, Prod.mk.injEq] at h
    obtain ⟨rfl, rfl, rfl⟩ := h
    exact hopen
  rw [if_neg hrc₁] at h hopen
  generalize hwait : waitForRead MessageType.connack.code env.rounds c₁ = r at h
  obtain ⟨rc₂, c₂, received⟩ := r
  obtain ⟨hidle₂, hwaited⟩ := waitForRead_covers env.rounds hidle₁ hwait
  dsimp only at h
  by_cases hrc₂ : rc₂ ≠ .success
  · rw [if_pos hrc₂, Prod.mk.injEq, Prod.mk.injEq] at h
    obtain ⟨rfl, rfl, rfl⟩ := h
    exact hopen.append hwaited
  rw [if_neg hrc₂, Prod.mk.injEq, Prod.mk.injEq] at h
  rw [if_neg hrc₂] at hwaited
  obtain ⟨rfl, rfl, rfl⟩ := h
  have hend := covers_exec (.connectEnd env.now) c₂
  rw [exec, whileConnecting_eq hidle₂ rfl] at hend
  have hall := hopen.append (hwaited.append hend)
  rwa [List.append_nil] at hall

theorem connect_covers (options : ConnectParams) (env : ConnectEnv) (c : Client) :
    Covers c (qcloudIotMqttConnect options env c).2.1 (qcloudIotMqttConnect options env c).2.2 := by
  unfold qcloudIotMqttConnect
  by_cases hconnected : c.isConnected = true
  · rw [if_pos hconnected]
    exact covers_refl c
  · rw [if_neg hconnected]
    have hidle : c.isConnected = false := by simpa using hconnected
    generalize hconnect : mqttConnect options env c = r
    obtain ⟨rc, c', events⟩ := r
    have hall := mqttConnect_covers options env hidle hconnect
    dsimp only
    by_cases hrc : rc ≠ .success
    · rwa [if_pos hrc] at hall ⊢
    · rwa [if_neg hrc] at hall ⊢

theorem resubscribeLoop_covers (resub : ℕ → RequestEnv) (i : ℕ) (handles : List SubTopicHandle)
    (c : Client) :
    Covers c (resubscribeLoop resub i handles c).2.1 (resubscribeLoop resub i handles c).2.2 := by
  induction handles generalizing i c with
  | nil => exact covers_refl c
  | cons handle handles ih =>
    unfold resubscribeLoop
    split
    · exact ih (i + 1) c
    next filter _ =>
      have hone := covers_exec (.subscribe filter.text (resubscribeParams handle) (resub i)) c
      rw [exec] at hone
      generalize qcloudIotMqttSubscribe filter.text (resubscribeParams handle) (resub i) c = r
        at hone ⊢
      obtain ⟨result, c₁, events⟩ := r
      cases result with
      | error rc => exact hone
      | ok id => exact hone.append (ih (i + 1) c₁)

theorem attemptReconnect_covers (env : ConnectEnv) (resub : ℕ → RequestEnv) (c : Client) :
    Covers c (qcloudIotMqttAttemptReconnect env resub c).2.1
      (qcloudIotMqttAttemptReconnect env resub c).2.2 := by
  unfold qcloudIotMqttAttemptReconnect
  split
  · exact covers_refl c
  · have hconnect := connect_covers c.options env c
    generalize qcloudIotMqttConnect c.options env c = r at hconnect ⊢
    obtain ⟨rc, c₁, events⟩ := r
    dsimp only at hconnect ⊢
    split
    · exact hconnect
    · refine hconnect.append ?_
      unfold qcloudIotMqttResubscribe
      split
      · exact covers_refl c₁
      · exact resubscribeLoop_covers resub 0 c₁.subHandles.slots c₁

theorem handleReconnect_covers (env : ReconnectEnv) (c : Client) :
    Covers c (handleReconnect env c).2.1 (handleReconnect env c).2.2 := by
  unfold handleReconnect
  split
  · exact covers_refl c
  · have hattempt := attemptReconnect_covers env.connect env.resub c
    generalize qcloudIotMqttAttemptReconnect env.connect env.resub c = r at hattempt ⊢
    obtain ⟨rc, c₁, events⟩ := r
    dsimp only at hattempt ⊢
    have hschedule := fun interval timer =>
      hattempt.append (covers_exec (.schedule c₁.counterNetworkDisconnected interval timer) c₁)
    simp only [exec, List.append_nil] at hschedule
    split
    · exact hattempt.append (covers_exec .reconnected c₁)
    · split
      · exact hschedule _ c₁.reconnectDelayTimer
      · exact hschedule _ _

theorem yieldRound_covers (env : YieldEnv) (c : Client) :
    Covers c (yieldRound env c).2.1 (yieldRound env c).2.2 := by
  unfold yieldRound
  by_cases hidle : (!c.isConnected) = true
  · rw [if_pos hidle]
    split
    · exact covers_refl c
    · exact handleReconnect_covers env.reconnect c
  · rw [if_neg hidle]
    have hconnected : c.isConnected = true := by simpa using hidle
    have hread := covers_exec (.yieldRead env.cycle env.disconnect) c
    rw [exec, if_pos hconnected] at hread
    dsimp only
    generalize yieldRead env.cycle env.disconnect c = r at hread ⊢
    obtain ⟨rc, c₁, events⟩ := r
    dsimp only at hread ⊢
    have hupkeep : Covers c₁ (yieldUpkeep env c₁).2.1 (yieldUpkeep env c₁).2.2 :=
      (covers_exec (.pubInfoProc env.pubIterOk env.pubClock) c₁).append
        (covers_exec (.subInfoProc env.subIterOk env.subClock) _) |>.append
        (covers_exec (.keepAlive env.keepAlive) _)
    have hnoted : ∀ (rc : ReturnCode) (c₂ : Client) (events : List Event), Covers c c₂ events →
        Covers c (noteConnection env rc c₂).2.2 events := by
      intro rc c₂ events hc
      have hschedule := fun interval timer => hc.append
        (covers_exec (.schedule (c₂.counterNetworkDisconnected + 1) interval timer) c₂)
      simp only [exec, List.append_nil] at hschedule
      unfold noteConnection
      dsimp only
      split
      · split
        · exact hschedule c₂.currentReconnectWaitInterval c₂.reconnectDelayTimer
        · exact hschedule _ _
      · exact hc
    split
    · exact hnoted _ _ _ (hread.append hupkeep)
    · exact hnoted _ _ _ hread

/-- Every call of yield is a run. -/
theorem yield_covers (rounds : List YieldEnv) (c : Client) :
    Covers c (qcloudIotMqttYield rounds c).2.1 (qcloudIotMqttYield rounds c).2.2 := by
  have hloop : ∀ (rc : ReturnCode) (rounds : List YieldEnv) (c : Client),
      Covers c (yieldLoop rc rounds c).2.1 (yieldLoop rc rounds c).2.2 := by
    intro rc rounds c
    induction rounds generalizing rc c with
    | nil => exact covers_refl c
    | cons env rounds ih =>
      have hround := yieldRound_covers env c
      unfold yieldLoop
      generalize yieldRound env c = r at hround ⊢
      obtain ⟨⟨rc', goesOn⟩, c₁, events⟩ := r
      dsimp only at hround ⊢
      split
      · exact hround.append (ih rc' c₁)
      · exact hround
  unfold qcloudIotMqttYield
  split
  · exact covers_refl c
  split
  · exact covers_refl c
  · exact hloop .success rounds c

end Calls

/-- The client that `qcloud_iot_mqtt_init` leaves, after these operations. -/
def reached (random commandTimeout : ℕ) (eventHandle : Bool) (options : ConnectParams)
    (ops : List Op) : Client :=
  (run exec ops (Client.init random commandTimeout eventHandle options)).1

section Handshake

/-- The options of a device with a short id that keeps alive every four minutes. -/
def deviceOptions : ConnectParams where
  clientId := [100, 101, 118]
  mqttVersion := 4
  keepAliveInterval := 240
  cleanSession := true
  autoConnectEnable := true

/-- A cycle with the given reads, in which nothing else goes wrong. -/
def cycleWith (reads : List ReadChoice) : CycleEnv where
  reads := reads
  writes := [.accept 2047]
  iterOk := true
  now := 0
  garbage := none
  before := 0
  after := []

/-- The operations of a client that connects to a server which accepts it and then
sends these bytes. -/
def handshake (later : List UInt8) : List Op :=
  [.connectOpen deviceOptions
      { network := .opened ([0x20, 2, 0, 0] ++ later)
        connId := [65]
        usernameOk := true
        writes := [.accept 2047]
        rounds := []
        now := 0 },
    .connectRead (cycleWith [.deliver, .deliver, .deliver]),
    .connectEnd 0]

def calmRequest (now : ℕ) : RequestEnv where
  now := now
  filterOk := true
  nodeOk := true
  writes := [.accept 2047]

def subscribeT : Op :=
  .subscribe [116]
    { qos := .qos1, onMessageHandler := none, onSubEventHandler := some 3, userData := 0 }
    (calmRequest 0)

end Handshake

end IotExplorer.ClientRuns
