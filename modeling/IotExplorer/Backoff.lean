import IotExplorer.KeepAlive
import IotExplorer.Reconnect

/-!
The delay between reconnects. A call of the interface leaves notices: a
connection was lost and its first delay chosen, an attempt to reconnect failed,
or one succeeded. Over any sequence of calls the delay is what the notices say:
chosen anew at a loss and doubled by a failed attempt. A client that waits for a
reconnect has lost its connection once and failed since, and gives up when the
delay is exceeded, unless an attempt fails in its resubscription: that one doubles
the delay, too, but leaves the client connected.
-/
namespace IotExplorer.Backoff

open Basis.Runs Protocol Network ClientState WaitLists Requests PacketHandlers
open Connection SessionSteps ClientRuns KeepAlive
open Reconnect (Resendable resubscribe_success_iff)

/-- `_get_random_interval` with the number that `rand` returned. -/
def getRandomInterval (random : ℕ) : ℕ := (random % 100 + 100) * 10

/-- A delay that is chosen when a connection is lost. -/
def InitialDelay (delay : ℕ) : Prop := ∃ random, delay = getRandomInterval random

theorem InitialDelay.range {delay : ℕ} (h : InitialDelay delay) : 1000 ≤ delay ∧ delay ≤ 1990 := by
  obtain ⟨random, rfl⟩ := h
  unfold getRandomInterval
  omega

/-- A round of yield whose delay comes from `_get_random_interval`. -/
structure RoundEnv extends YieldEnv where
  drawn : InitialDelay randomInterval

/-- A forced reconnect whose delay comes from `_get_random_interval`. -/
structure ReconnectCall extends ForcedEnv where
  drawn : InitialDelay randomInterval

inductive Notice where
  | lost (delay : ℕ)
  | failed
  | succeeded
  deriving DecidableEq

/-- The notice of `_handle_reconnect`, if it attempts to connect. -/
def attemptNotices (env : ReconnectEnv) (c : Client) : List Notice :=
  if env.now < c.reconnectDelayTimer then []
  else if (qcloudIotMqttAttemptReconnect env.connect env.resub c).1 = .mqttReconnected then
    [.succeeded]
  else [.failed]

/-- The connection of this round, as yield knows it after the read and the upkeep. -/
def roundOutcome (env : YieldEnv) (c : Client) : ReturnCode × Client × List Event :=
  let read := yieldRead env.cycle env.disconnect c
  if read.1 = .success then
    let upkeep := yieldUpkeep env read.2.1
    (upkeep.1, upkeep.2.1, read.2.2 ++ upkeep.2.2)
  else read

def roundNotices (env : YieldEnv) (c : Client) : List Notice :=
  if !c.isConnected then
    if c.currentReconnectWaitInterval > maxReconnectWaitInterval then []
    else attemptNotices env.reconnect c
  else if (roundOutcome env c).1 = .mqttNoConn then [.lost env.randomInterval]
  else []

def loopNotices : List YieldEnv → Client → List Notice
  | [], _ => []
  | env :: rounds, c =>
      roundNotices env c ++
        if (yieldRound env c).1.2 then loopNotices rounds (yieldRound env c).2.1 else []

def yieldNotices (rounds : List YieldEnv) (c : Client) : List Notice :=
  if !c.isConnected ∧ c.wasManuallyDisconnected then []
  else if !c.isConnected ∧ !c.options.autoConnectEnable then []
  else loopNotices rounds c

def reconnectLoopNotices : List ReconnectEnv → Client → List Notice
  | [], _ => []
  | env :: rounds, c =>
      if c.isConnected then []
      else if c.currentReconnectWaitInterval > maxReconnectWaitInterval then []
      else attemptNotices env c ++ reconnectLoopNotices rounds (handleReconnect env c).2.1

def forcedStart (env : ForcedEnv) (c : Client) : Client :=
  { (handleDisconnect env.disconnect c).2.1 with
    currentReconnectWaitInterval := env.randomInterval
    reconnectDelayTimer := env.now + env.randomInterval }

def reconnectNotices (env : ForcedEnv) (c : Client) : List Notice :=
  if !c.isConnected ∧ c.options.autoConnectEnable then []
  else .lost env.randomInterval :: reconnectLoopNotices env.rounds (forcedStart env c)

/-- The calls of the interface, after the client was constructed. -/
inductive Call where
  | yield (rounds : List RoundEnv)
  | reconnect (env : ReconnectCall)
  | publish (topicName : List UInt8) (params : PublishParams) (env : RequestEnv)
  | subscribe (topicFilter : List UInt8) (params : SubscribeParams) (env : RequestEnv)
  | unsubscribe (topicFilter : List UInt8) (env : RequestEnv)
  | disconnect (writes : List WriteChoice)

def call : Call → Client → Client × List Notice
  | .yield rounds, c =>
      ((qcloudIotMqttYield (rounds.map RoundEnv.toYieldEnv) c).2.1,
        yieldNotices (rounds.map RoundEnv.toYieldEnv) c)
  | .reconnect env, c =>
      ((qcloudIotMqttReconnect env.toForcedEnv c).2.1, reconnectNotices env.toForcedEnv c)
  | .publish topicName params env, c => ((qcloudIotMqttPublish topicName params env c).2.1, [])
  | .subscribe topicFilter params env, c =>
      ((qcloudIotMqttSubscribe topicFilter params env c).2.1, [])
  | .unsubscribe topicFilter env, c => ((qcloudIotMqttUnsubscribe topicFilter env c).2.1, [])
  | .disconnect writes, c => ((qcloudIotMqttDisconnect writes c).2.1, [])

section Attempt

/-- The delay and the options are the same, and without a connection the manual
disconnection is remembered as it was. -/
structure SameSchedule (c c' : Client) : Prop where
  interval : c'.currentReconnectWaitInterval = c.currentReconnectWaitInterval
  auto : c'.options.autoConnectEnable = c.options.autoConnectEnable
  manual : c'.isConnected = false → c.isConnected = false ∧
    c'.wasManuallyDisconnected = c.wasManuallyDisconnected

theorem SameSchedule.trans {c c' c'' : Client} (h : SameSchedule c c') (h' : SameSchedule c' c'') :
    SameSchedule c c'' where
  interval := h'.interval.trans h.interval
  auto := h'.auto.trans h.auto
  manual := by
    intro hidle
    obtain ⟨hidle', hmanual'⟩ := h'.manual hidle
    obtain ⟨hstart, hmanual⟩ := h.manual hidle'
    exact ⟨hstart, hmanual'.trans hmanual⟩

theorem schedule_of_liveness {c c' : Client} (h : SameLiveness c c') : SameSchedule c c' where
  interval := h.currentReconnectWaitInterval
  auto := by rw [h.options]
  manual := by
    intro hidle
    exact ⟨h.isConnected ▸ hidle, h.wasManuallyDisconnected⟩

theorem SameSchedule.refl (c : Client) : SameSchedule c c := ⟨rfl, rfl, fun hidle => ⟨hidle, rfl⟩⟩

theorem sendConnect_schedule (options : ConnectParams) (env : ConnectEnv) (c : Client)
    (hauto : options.autoConnectEnable = c.options.autoConnectEnable) :
    SameSchedule c (sendConnect options env c).2.1 := by
  unfold sendConnect
  dsimp only
  split
  · exact ⟨rfl, hauto, fun hidle => ⟨hidle, rfl⟩⟩
  · split <;> exact ⟨rfl, hauto, fun hidle => ⟨hidle, rfl⟩⟩

theorem cycleForRead_schedule (env : CycleEnv) (c : Client) :
    SameSchedule c (cycleForRead env c).2.2.1 := by
  have hcycle := cycleForRead_liveness env c
  refine ⟨hcycle.currentReconnectWaitInterval, by rw [hcycle.options], ?_⟩
  intro hidle
  exact ⟨hcycle.isConnected ▸ hidle, hcycle.wasManuallyDisconnected⟩

theorem waitForRead_schedule (packetType : UInt8) (rounds : List CycleEnv) (c : Client) :
    SameSchedule c (waitForRead packetType rounds c).2.1 := by
  induction rounds generalizing c with
  | nil => exact .refl c
  | cons env rounds ih =>
    have hcycle := cycleForRead_schedule env c
    unfold waitForRead
    dsimp only
    split
    · exact hcycle.trans (ih _)
    · exact hcycle

theorem acceptConnack_schedule (now : ℕ) (c : Client) :
    SameSchedule c (acceptConnack now c).2 := by
  unfold acceptConnack
  split
  · exact .refl c
  · split
    · exact .refl c
    · exact ⟨rfl, rfl, fun hidle => by cases hidle⟩

/-- Connecting leaves the delay alone. -/
theorem mqttConnect_schedule (options : ConnectParams) (env : ConnectEnv) (c : Client)
    (hauto : options.autoConnectEnable = c.options.autoConnectEnable) :
    SameSchedule c (mqttConnect options env c).2.1 := by
  have hsend := sendConnect_schedule options env c hauto
  unfold mqttConnect
  dsimp only
  split
  · exact hsend
  · have hwait := hsend.trans (waitForRead_schedule MessageType.connack.code env.rounds _)
    split
    · exact hwait
    · exact hwait.trans (acceptConnack_schedule env.now _)

theorem connect_schedule (env : ConnectEnv) (c : Client) :
    SameSchedule c (qcloudIotMqttConnect c.options env c).2.1 := by
  have hconnect := mqttConnect_schedule c.options env c rfl
  unfold qcloudIotMqttConnect
  split
  · exact .refl c
  · dsimp only
    split
    · exact ⟨hconnect.interval, hconnect.auto, hconnect.manual⟩
    · exact hconnect

theorem resubscribeLoop_schedule (resub : ℕ → RequestEnv) (i : ℕ) (handles : List SubTopicHandle)
    (c : Client) : SameSchedule c (resubscribeLoop resub i handles c).2.1 := by
  induction handles generalizing i c with
  | nil => exact .refl c
  | cons handle handles ih =>
    unfold resubscribeLoop
    split
    · exact ih (i + 1) c
    next filter _ =>
      have hone := schedule_of_liveness (requested_liveness
        (subscribe_requested filter.text (resubscribeParams handle) (resub i) c).1)
      generalize qcloudIotMqttSubscribe filter.text (resubscribeParams handle) (resub i) c = r
        at hone
      obtain ⟨result, c₁, events⟩ := r
      cases result with
      | error rc => exact hone
      | ok id => exact hone.trans (ih (i + 1) c₁)

theorem attemptReconnect_schedule (env : ConnectEnv) (resub : ℕ → RequestEnv) (c : Client) :
    SameSchedule c (qcloudIotMqttAttemptReconnect env resub c).2.1 := by
  unfold qcloudIotMqttAttemptReconnect
  split
  · exact .refl c
  · have hconnect := connect_schedule env c
    dsimp only
    split
    · exact hconnect
    · apply hconnect.trans
      unfold qcloudIotMqttResubscribe
      split
      · exact .refl _
      · exact resubscribeLoop_schedule resub 0 _ _

end Attempt

section Delays

def delayAfter : ℕ → Notice → ℕ
  | _, .lost delay => delay
  | delay, .failed => delay * 2
  | delay, .succeeded => delay

def delay (start : ℕ) (notices : List Notice) : ℕ := notices.foldl delayAfter start

def NoLoss (notices : List Notice) : Prop := ∀ first, .lost first ∉ notices

theorem delay_append (start : ℕ) (notices notices' : List Notice) :
    delay start (notices ++ notices') = delay (delay start notices) notices' :=
  List.foldl_append

/-- Without a loss, the delay is doubled once for each failed attempt. -/
theorem delay_of_noLoss {notices : List Notice} (h : NoLoss notices) (start : ℕ) :
    delay start notices = start * 2 ^ notices.count .failed := by
  induction notices generalizing start with
  | nil => simp [delay]
  | cons notice notices ih =>
    have hrest : NoLoss notices := fun first hmem => h first (List.mem_cons_of_mem _ hmem)
    have hstep : delay start (notice :: notices) = delay (delayAfter start notice) notices := rfl
    rw [hstep, ih hrest]
    cases notice with
    | lost first => exact absurd (List.mem_cons_self ..) (h first)
    | failed =>
      rw [List.count_cons_self, pow_succ, delayAfter]
      ring
    | succeeded =>
      rw [List.count_cons_of_ne (by decide)]
      rfl

/-- The last loss in a list of notices. -/
theorem exists_last_loss {notices : List Notice} (h : ¬ NoLoss notices) :
    ∃ earlier first later, notices = earlier ++ .lost first :: later ∧ NoLoss later := by
  induction notices with
  | nil => exact absurd (fun first => List.not_mem_nil) h
  | cons notice notices ih =>
    by_cases hrest : NoLoss notices
    · cases notice with
      | lost first => exact ⟨[], first, notices, rfl, hrest⟩
      | failed =>
        refine absurd ?_ h
        intro first hmem
        rcases List.mem_cons.mp hmem with heq | hmem
        · cases heq
        · exact hrest first hmem
      | succeeded =>
        refine absurd ?_ h
        intro first hmem
        rcases List.mem_cons.mp hmem with heq | hmem
        · cases heq
        · exact hrest first hmem
    · obtain ⟨earlier, first, later, rfl, hlater⟩ := ih hrest
      exact ⟨notice :: earlier, first, later, rfl, hlater⟩

/-- What the notices say of a piece of a run. -/
structure Follows (c : Client) (notices : List Notice) (c' : Client) : Prop where
  interval : c'.currentReconnectWaitInterval = delay c.currentReconnectWaitInterval notices
  auto : c'.options.autoConnectEnable = c.options.autoConnectEnable
  initial : ∀ first, .lost first ∈ notices → InitialDelay first
  waiting : NoLoss notices → c'.isConnected = false → c'.wasManuallyDisconnected = false →
    c.isConnected = false ∧ c.wasManuallyDisconnected = false
  bounded : c'.currentReconnectWaitInterval ≤
    max c.currentReconnectWaitInterval (2 * maxReconnectWaitInterval)

theorem Follows.trans {c c' c'' : Client} {notices notices' : List Notice}
    (h : Follows c notices c') (h' : Follows c' notices' c'') :
    Follows c (notices ++ notices') c'' where
  interval := by rw [delay_append, ← h.interval, h'.interval]
  auto := h'.auto.trans h.auto
  initial := by
    intro first hmem
    rcases List.mem_append.mp hmem with hmem | hmem
    · exact h.initial first hmem
    · exact h'.initial first hmem
  waiting := by
    intro hno hidle hmanual
    have hno₁ : NoLoss notices := fun first hmem => hno first (List.mem_append_left _ hmem)
    have hno₂ : NoLoss notices' := fun first hmem => hno first (List.mem_append_right _ hmem)
    obtain ⟨hidle', hmanual'⟩ := h'.waiting hno₂ hidle hmanual
    exact h.waiting hno₁ hidle' hmanual'
  bounded := by
    have hone := h.bounded
    have htwo := h'.bounded
    omega

theorem SameSchedule.follows {c c' : Client} (h : SameSchedule c c') : Follows c [] c' where
  interval := h.interval
  auto := h.auto
  initial := fun first hmem => absurd hmem List.not_mem_nil
  waiting := by
    intro _ hidle hmanual
    obtain ⟨hstart, hsame⟩ := h.manual hidle
    exact ⟨hstart, hsame ▸ hmanual⟩
  bounded := by
    rw [h.interval]
    exact Nat.le_max_left ..

/-- An attempt that fails doubles the delay. -/
theorem handleReconnect_follows (env : ReconnectEnv) (c : Client)
    (hallowed : c.currentReconnectWaitInterval ≤ maxReconnectWaitInterval) :
    Follows c (attemptNotices env c) (handleReconnect env c).2.1 := by
  unfold attemptNotices handleReconnect
  split
  · exact (SameSchedule.refl c).follows
  · have hattempt := attemptReconnect_schedule env.connect env.resub c
    generalize qcloudIotMqttAttemptReconnect env.connect env.resub c = r at hattempt
    obtain ⟨rc, c', events⟩ := r
    dsimp only at hattempt ⊢
    have hbound : c'.currentReconnectWaitInterval ≤ maxReconnectWaitInterval :=
      hattempt.interval ▸ hallowed
    split
    · refine ⟨hattempt.interval, hattempt.auto, by simp, ?_, by dsimp only; omega⟩
      exact fun _ => hattempt.follows.waiting fun first => List.not_mem_nil
    · have hdouble : c'.currentReconnectWaitInterval * 2 =
          delay c.currentReconnectWaitInterval [.failed] := by rw [hattempt.interval]; rfl
      have hwaiting : c'.isConnected = false → c'.wasManuallyDisconnected = false →
          c.isConnected = false ∧ c.wasManuallyDisconnected = false :=
        hattempt.follows.waiting fun first => List.not_mem_nil
      split
      · exact ⟨hdouble, hattempt.auto, by simp, fun _ => hwaiting, by dsimp only; omega⟩
      · exact ⟨hdouble, hattempt.auto, by simp, fun _ => hwaiting, by dsimp only; omega⟩

theorem handleDisconnect_schedule (writes : List WriteChoice) (c : Client) :
    (handleDisconnect writes c).1 = .mqttNoConn ∧
      (handleDisconnect writes c).2.1.currentReconnectWaitInterval =
        c.currentReconnectWaitInterval ∧
      (handleDisconnect writes c).2.1.options = c.options := by
  have hdisconnect : (qcloudIotMqttDisconnect writes c).2.1.currentReconnectWaitInterval =
        c.currentReconnectWaitInterval ∧
      (qcloudIotMqttDisconnect writes c).2.1.options = c.options := by
    unfold qcloudIotMqttDisconnect
    split
    · exact ⟨rfl, rfl⟩
    · split
      · exact ⟨rfl, rfl⟩
      · dsimp only
        split <;> exact ⟨rfl, rfl⟩
  unfold handleDisconnect
  split
  · exact ⟨rfl, rfl, rfl⟩
  · dsimp only
    split <;> exact ⟨rfl, hdisconnect⟩

/-- What a part of a round keeps that begins with a connection: the delay stays, and a
connection that is gone is reported as such. -/
structure Kept (c : Client) (r : ReturnCode × Client × List Event) : Prop where
  interval : r.2.1.currentReconnectWaitInterval = c.currentReconnectWaitInterval
  options : r.2.1.options = c.options
  link : r.2.1.isConnected = true ∨ r.1 = .mqttNoConn

theorem handleDisconnect_kept {c c' : Client} (writes : List WriteChoice) (events : List Event)
    (hinterval : c'.currentReconnectWaitInterval = c.currentReconnectWaitInterval)
    (hoptions : c'.options = c.options) :
    Kept c ((handleDisconnect writes c').1, (handleDisconnect writes c').2.1,
      events ++ (handleDisconnect writes c').2.2) := by
  obtain ⟨hrc, hsame, hsameOptions⟩ := handleDisconnect_schedule writes c'
  exact ⟨hsame.trans hinterval, hsameOptions.trans hoptions, .inr hrc⟩

theorem yieldRead_kept (env : CycleEnv) (disconnect : List WriteChoice) (c : Client)
    (hconnected : c.isConnected = true) : Kept c (yieldRead env disconnect c) := by
  have hcycle := cycleForRead_liveness env c
  unfold yieldRead
  dsimp only
  split
  · exact handleDisconnect_kept disconnect _ hcycle.currentReconnectWaitInterval hcycle.options
  · exact ⟨hcycle.currentReconnectWaitInterval, hcycle.options,
      .inl (hcycle.isConnected.trans hconnected)⟩

theorem mqttKeepAlive_kept (env : KeepAliveEnv) (c : Client) (hconnected : c.isConnected = true) :
    Kept c (mqttKeepAlive env c) := by
  unfold mqttKeepAlive
  split
  · exact ⟨rfl, rfl, .inl hconnected⟩
  split
  · exact ⟨rfl, rfl, .inl hconnected⟩
  split
  · exact handleDisconnect_kept env.disconnect [] rfl rfl
  split
  · exact ⟨rfl, rfl, .inl hconnected⟩
  · dsimp only
    split
    · exact handleDisconnect_kept env.disconnect _ rfl rfl
    · exact ⟨rfl, rfl, .inl hconnected⟩

theorem roundOutcome_kept (env : YieldEnv) (c : Client) (hconnected : c.isConnected = true) :
    Kept c (roundOutcome env c) := by
  have hread := yieldRead_kept env.cycle env.disconnect c hconnected
  unfold roundOutcome
  generalize yieldRead env.cycle env.disconnect c = r at hread
  dsimp only
  split
  next hrc =>
    have hup : r.2.1.isConnected = true := by
      rcases hread.link with hup | hlost
      · exact hup
      · rw [hlost] at hrc
        cases hrc
    have hwalks : SameLiveness r.2.1 (subInfoProc env.subIterOk env.subClock
        (pubInfoProc env.pubIterOk env.pubClock r.2.1).1).1 := by
      rw [subInfoProc_frame, pubInfoProc_frame]
      exact ⟨rfl, rfl, rfl, rfl, rfl, rfl⟩
    have halive := mqttKeepAlive_kept env.keepAlive _ (hwalks.isConnected.trans hup)
    refine ⟨?_, ?_, halive.link⟩
    · exact halive.interval.trans (hwalks.currentReconnectWaitInterval.trans hread.interval)
    · exact halive.options.trans (hwalks.options.trans hread.options)
  · exact hread

/-- A round of yield does what its notices say. -/
theorem yieldRound_follows (env : YieldEnv) (c : Client)
    (hauto : c.options.autoConnectEnable = true)
    (hdrawn : InitialDelay env.randomInterval) :
    Follows c (roundNotices env c) (yieldRound env c).2.1 := by
  have hrange := hdrawn.range
  unfold roundNotices
  by_cases hidle : (!c.isConnected) = true
  · rw [if_pos hidle]
    unfold yieldRound
    rw [if_pos hidle]
    split
    · exact (SameSchedule.refl c).follows
    next hallowed => exact handleReconnect_follows env.reconnect c (Nat.le_of_not_lt hallowed)
  · rw [if_neg hidle]
    have hconnected : c.isConnected = true := by simpa using hidle
    have hkept := roundOutcome_kept env c hconnected
    have hround : (yieldRound env c).2.1 =
        (noteConnection env (roundOutcome env c).1 (roundOutcome env c).2.1).2.2 := by
      unfold yieldRound roundOutcome
      rw [if_neg hidle]
    rw [hround]
    generalize roundOutcome env c = r at hkept
    have hon : r.2.1.options.autoConnectEnable = true := by rw [hkept.options, hauto]
    by_cases hlost : r.1 = .mqttNoConn
    · rw [if_pos hlost]
      have hnoted : (noteConnection env r.1 r.2.1).2.2 =
          { r.2.1 with
            counterNetworkDisconnected := r.2.1.counterNetworkDisconnected + 1
            currentReconnectWaitInterval := env.randomInterval
            reconnectDelayTimer := env.now + env.randomInterval } := by
        unfold noteConnection
        rw [if_pos hlost]
        dsimp only
        rw [hon]
        rfl
      rw [hnoted]
      have hlimit : env.randomInterval ≤ 2 * maxReconnectWaitInterval := hrange.2.trans (by decide)
      refine ⟨rfl, by rw [hon, hauto], ?_, ?_, hlimit.trans (Nat.le_max_right ..)⟩
      · intro first hmem
        obtain rfl := Notice.lost.inj (List.mem_singleton.mp hmem)
        exact hdrawn
      · intro hno
        exact absurd (List.mem_singleton.mpr rfl) (hno env.randomInterval)
    · rw [if_neg hlost]
      have hnoted : (noteConnection env r.1 r.2.1).2.2 = r.2.1 := by
        unfold noteConnection
        rw [if_neg hlost]
      rw [hnoted]
      refine ⟨hkept.interval, by rw [hon, hauto], by simp, ?_,
        by rw [hkept.interval]; exact Nat.le_max_left ..⟩
      intro _ hdown
      rcases hkept.link with hup | hreported
      · rw [hup] at hdown
        cases hdown
      · exact absurd hreported hlost

theorem yieldLoop_follows (rounds : List RoundEnv) (rc : ReturnCode) (c : Client)
    (hauto : c.options.autoConnectEnable = true) :
    Follows c (loopNotices (rounds.map RoundEnv.toYieldEnv) c)
      (yieldLoop rc (rounds.map RoundEnv.toYieldEnv) c).2.1 := by
  induction rounds generalizing rc c with
  | nil => exact (SameSchedule.refl c).follows
  | cons env rounds ih =>
    have hround := yieldRound_follows env.toYieldEnv c hauto env.drawn
    rw [List.map_cons, loopNotices, yieldLoop]
    generalize yieldRound env.toYieldEnv c = r at hround
    obtain ⟨⟨rc', goesOn⟩, c', events⟩ := r
    cases goesOn with
    | true => exact hround.trans (ih rc' c' (hround.auto.trans hauto))
    | false => rwa [← List.append_nil (roundNotices env.toYieldEnv c)] at hround

theorem yield_follows (rounds : List RoundEnv) (c : Client)
    (hauto : c.options.autoConnectEnable = true) :
    Follows c (yieldNotices (rounds.map RoundEnv.toYieldEnv) c)
      (qcloudIotMqttYield (rounds.map RoundEnv.toYieldEnv) c).2.1 := by
  unfold yieldNotices qcloudIotMqttYield
  split
  · exact (SameSchedule.refl c).follows
  split
  · exact (SameSchedule.refl c).follows
  · exact yieldLoop_follows rounds .success c hauto

theorem reconnectLoop_follows (rounds : List ReconnectEnv) (c : Client) :
    Follows c (reconnectLoopNotices rounds c) (reconnectLoop rounds c).2.1 := by
  induction rounds generalizing c with
  | nil => exact (SameSchedule.refl c).follows
  | cons env rounds ih =>
    unfold reconnectLoopNotices reconnectLoop
    split
    · exact (SameSchedule.refl c).follows
    split
    · exact (SameSchedule.refl c).follows
    next hallowed => exact (handleReconnect_follows env c (Nat.le_of_not_lt hallowed)).trans (ih _)

theorem reconnect_follows (env : ReconnectCall) (c : Client) :
    Follows c (reconnectNotices env.toForcedEnv c)
      (qcloudIotMqttReconnect env.toForcedEnv c).2.1 := by
  unfold reconnectNotices qcloudIotMqttReconnect
  split
  · exact (SameSchedule.refl c).follows
  · obtain ⟨-, -, hoptions⟩ := handleDisconnect_schedule env.disconnect c
    have hlimit : env.randomInterval ≤ 2 * maxReconnectWaitInterval :=
      env.drawn.range.2.trans (by decide)
    have hstart : Follows c [.lost env.randomInterval] (forcedStart env.toForcedEnv c) := by
      refine ⟨rfl, congrArg ConnectParams.autoConnectEnable hoptions, ?_, ?_,
        hlimit.trans (Nat.le_max_right ..)⟩
      · intro first hmem
        obtain rfl := Notice.lost.inj (List.mem_singleton.mp hmem)
        exact env.drawn
      · intro hno
        exact absurd (List.mem_singleton.mpr rfl) (hno env.randomInterval)
    exact hstart.trans (reconnectLoop_follows env.rounds (forcedStart env.toForcedEnv c))

/-- A manual disconnection, or one that failed. -/
theorem disconnect_follows (writes : List WriteChoice) (c : Client) :
    Follows c [] (qcloudIotMqttDisconnect writes c).2.1 := by
  unfold qcloudIotMqttDisconnect
  split
  · exact (SameSchedule.refl c).follows
  · split
    · exact (SameSchedule.refl c).follows
    · dsimp only
      split
      · exact ⟨rfl, rfl, by simp, fun _ hidle hmanual => ⟨hidle, hmanual⟩, Nat.le_max_left ..⟩
      · refine ⟨rfl, rfl, by simp, ?_, Nat.le_max_left ..⟩
        intro _ _ hmanual
        cases hmanual

/-- A call does what its notices say. -/
theorem call_follows (op : Call) (c : Client) (hauto : c.options.autoConnectEnable = true) :
    Follows c (call op c).2 (call op c).1 := by
  cases op with
  | yield rounds => exact yield_follows rounds c hauto
  | reconnect env => exact reconnect_follows env c
  | publish topicName params env =>
    exact (schedule_of_liveness
      (requested_liveness (publish_requested topicName params env c).1)).follows
  | subscribe topicFilter params env =>
    exact (schedule_of_liveness
      (requested_liveness (subscribe_requested topicFilter params env c).1)).follows
  | unsubscribe topicFilter env =>
    exact (schedule_of_liveness (unsubscribe_liveness topicFilter env c)).follows
  | disconnect writes => exact disconnect_follows writes c

end Delays

section GivenUp

/-- A client that reconnects by itself has lost its connection, and its delay is
exceeded. -/
structure GivenUp (c : Client) : Prop where
  idle : c.isConnected = false
  manual : c.wasManuallyDisconnected = false
  auto : c.options.autoConnectEnable = true
  exceeded : maxReconnectWaitInterval < c.currentReconnectWaitInterval

theorem givenUp_of_liveness {c c' : Client} (h : GivenUp c) (hsame : SameLiveness c c') :
    GivenUp c' where
  idle := hsame.isConnected.trans h.idle
  manual := hsame.wasManuallyDisconnected.trans h.manual
  auto := by rw [hsame.options, h.auto]
  exceeded := by rw [hsame.currentReconnectWaitInterval]; exact h.exceeded

/-- A yield whose loop runs reports the time-out and does nothing. -/
theorem GivenUp.yield {c : Client} (h : GivenUp c) (env : YieldEnv) (rounds : List YieldEnv) :
    qcloudIotMqttYield (env :: rounds) c = (.mqttReconnectTimeout, c, []) ∧
      yieldNotices (env :: rounds) c = [] := by
  have hround : yieldRound env c = ((.mqttReconnectTimeout, false), c, []) := by
    unfold yieldRound
    rw [h.idle, if_pos (by rfl), if_pos h.exceeded]
  have hnotices : roundNotices env c = [] := by
    unfold roundNotices
    rw [h.idle, if_pos (by rfl), if_pos h.exceeded]
  have hentry : ¬ ((!c.isConnected) = true ∧ c.wasManuallyDisconnected = true) := by
    rw [h.manual]
    simp
  have hauto : ¬ ((!c.isConnected) = true ∧ (!c.options.autoConnectEnable) = true) := by
    rw [h.auto]
    simp
  constructor
  · rw [qcloudIotMqttYield, if_neg hentry, if_neg hauto, yieldLoop, hround]
    rfl
  · rw [yieldNotices, if_neg hentry, if_neg hauto, loopNotices, hround, hnotices]
    rfl

/-- No call of a client that gave up attempts to reconnect. -/
theorem GivenUp.call {c : Client} (h : GivenUp c) (op : Call) :
    SameLiveness c (call op c).1 ∧ (call op c).2 = [] := by
  cases op with
  | yield rounds =>
    cases rounds with
    | nil =>
      have hcall : (qcloudIotMqttYield [] c).2.1 = c := by
        unfold qcloudIotMqttYield
        split
        · rfl
        · split <;> rfl
      have hnotices : yieldNotices [] c = [] := by
        unfold yieldNotices
        split
        · rfl
        · split <;> rfl
      refine ⟨?_, hnotices⟩
      dsimp only [Backoff.call]
      rw [List.map_nil, hcall]
      exact .refl c
    | cons env rounds =>
      obtain ⟨hcall, hnotices⟩ := h.yield env.toYieldEnv (rounds.map RoundEnv.toYieldEnv)
      refine ⟨?_, hnotices⟩
      dsimp only [Backoff.call]
      rw [List.map_cons, hcall]
      exact .refl c
  | reconnect env =>
    have hentry : (!c.isConnected) = true ∧ c.options.autoConnectEnable = true := by
      rw [h.idle, h.auto]
      exact ⟨rfl, rfl⟩
    have hcall : (qcloudIotMqttReconnect env.toForcedEnv c).2.1 = c := by
      rw [qcloudIotMqttReconnect, if_pos hentry]
    have hnotices : reconnectNotices env.toForcedEnv c = [] := if_pos hentry
    refine ⟨?_, hnotices⟩
    dsimp only [Backoff.call]
    rw [hcall]
    exact .refl c
  | publish topicName params env =>
    exact ⟨requested_liveness (publish_requested topicName params env c).1, rfl⟩
  | subscribe topicFilter params env =>
    exact ⟨requested_liveness (subscribe_requested topicFilter params env c).1, rfl⟩
  | unsubscribe topicFilter env => exact ⟨unsubscribe_liveness topicFilter env c, rfl⟩
  | disconnect writes =>
    have hcall : (qcloudIotMqttDisconnect writes c).2.1 = c := by
      rw [qcloudIotMqttDisconnect, h.idle]
      rfl
    refine ⟨?_, rfl⟩
    dsimp only [Backoff.call]
    rw [hcall]
    exact .refl c

/-- Nor does any run of calls. -/
theorem GivenUp.run {c : Client} (h : GivenUp c) (calls : List Call) :
    SameLiveness c (run Backoff.call calls c).1 ∧ (run Backoff.call calls c).2 = [] := by
  induction calls generalizing c with
  | nil => exact ⟨.refl c, rfl⟩
  | cons op calls ih =>
    obtain ⟨hsame, hnone⟩ := h.call op
    obtain ⟨hrest, hnoneRest⟩ := ih (givenUp_of_liveness h hsame)
    refine ⟨hsame.trans hrest, ?_⟩
    rw [run_cons, hnone, hnoneRest]
    rfl

end GivenUp

section Resubscribing

/-- Where the last attempt below the limit connects, every entry of the table can be subscribed
again, as far as `send_mqtt_packet` reports. -/
def AttemptSound (env : ReconnectEnv) (c : Client) : Prop :=
  env.now < c.reconnectDelayTimer ∨
    2 * c.currentReconnectWaitInterval ≤ maxReconnectWaitInterval ∨
    ((qcloudIotMqttConnect c.options env.connect c).2.1.isConnected = true →
      Resendable reportsSent env.resub 0
        (qcloudIotMqttConnect c.options env.connect c).2.1.subHandles.slots
        (qcloudIotMqttConnect c.options env.connect c).2.1.listSubWaitAck.length)

/-- The attempt of a round is sound, if the round makes one. -/
def RoundSound (env : ReconnectEnv) (c : Client) : Prop :=
  c.isConnected = true ∨ maxReconnectWaitInterval < c.currentReconnectWaitInterval ∨
    AttemptSound env c

def LoopSound : List YieldEnv → Client → Prop
  | [], _ => True
  | env :: rounds, c =>
      RoundSound env.reconnect c ∧
        ((yieldRound env c).1.2 = true → LoopSound rounds (yieldRound env c).2.1)

def ReconnectLoopSound : List ReconnectEnv → Client → Prop
  | [], _ => True
  | env :: rounds, c =>
      c.isConnected = true ∨ maxReconnectWaitInterval < c.currentReconnectWaitInterval ∨
        (AttemptSound env c ∧ ReconnectLoopSound rounds (handleReconnect env c).2.1)

/-- The attempts of a call, if it comes to any. -/
def CallSound (c : Client) : Call → Prop
  | .yield rounds =>
      (c.isConnected = false ∧ c.wasManuallyDisconnected = true) ∨
        LoopSound (rounds.map RoundEnv.toYieldEnv) c
  | .reconnect env =>
      (c.isConnected = false ∧ c.options.autoConnectEnable = true) ∨
        ReconnectLoopSound env.rounds (forcedStart env.toForcedEnv c)
  | _ => True

instance (env : ReconnectEnv) (c : Client) : Decidable (AttemptSound env c) := by
  unfold AttemptSound
  infer_instance

instance (env : ReconnectEnv) (c : Client) : Decidable (RoundSound env c) := by
  unfold RoundSound
  infer_instance

instance decidableLoopSound : (rounds : List YieldEnv) → (c : Client) →
    Decidable (LoopSound rounds c)
  | [], _ => isTrue trivial
  | env :: rounds, c =>
      have := decidableLoopSound rounds (yieldRound env c).2.1
      inferInstanceAs (Decidable (RoundSound env.reconnect c ∧
        ((yieldRound env c).1.2 = true → LoopSound rounds (yieldRound env c).2.1)))

instance decidableReconnectLoopSound : (rounds : List ReconnectEnv) → (c : Client) →
    Decidable (ReconnectLoopSound rounds c)
  | [], _ => isTrue trivial
  | env :: rounds, c =>
      have := decidableReconnectLoopSound rounds (handleReconnect env c).2.1
      inferInstanceAs (Decidable (c.isConnected = true ∨
        maxReconnectWaitInterval < c.currentReconnectWaitInterval ∨
          (AttemptSound env c ∧ ReconnectLoopSound rounds (handleReconnect env c).2.1)))

instance (c : Client) (op : Call) : Decidable (CallSound c op) := by
  cases op <;> unfold CallSound <;> infer_instance

/-- A client with a connection has not exceeded its delay. -/
def Settled (c : Client) : Prop :=
  c.isConnected = true → c.currentReconnectWaitInterval ≤ maxReconnectWaitInterval

/-- An attempt that fails leaves the client without a connection, if the table can be subscribed
again. -/
theorem attempt_down {env : ReconnectEnv} {c : Client} (hidle : c.isConnected = false)
    (hresub : (qcloudIotMqttConnect c.options env.connect c).2.1.isConnected = true →
      Resendable reportsSent env.resub 0
        (qcloudIotMqttConnect c.options env.connect c).2.1.subHandles.slots
        (qcloudIotMqttConnect c.options env.connect c).2.1.listSubWaitAck.length)
    (hfailed : (qcloudIotMqttAttemptReconnect env.connect env.resub c).1 ≠ .mqttReconnected) :
    (qcloudIotMqttAttemptReconnect env.connect env.resub c).2.1.isConnected = false := by
  unfold qcloudIotMqttAttemptReconnect at hfailed ⊢
  rw [if_neg (by simp [hidle])] at hfailed ⊢
  generalize qcloudIotMqttConnect c.options env.connect c = r at hresub hfailed ⊢
  obtain ⟨rc, c₁, events⟩ := r
  dsimp only at hresub hfailed ⊢
  by_cases hdown : c₁.isConnected = false
  · rw [if_pos (by simp [hdown])]
    exact hdown
  · have hup : c₁.isConnected = true := by simpa using hdown
    rw [if_neg (by simp [hup]),
      (resubscribe_success_iff env.resub c₁ hup).mpr (hresub hup)] at hfailed
    exact absurd rfl hfailed

theorem handleReconnect_settled {env : ReconnectEnv} {c : Client} (hidle : c.isConnected = false)
    (hallowed : c.currentReconnectWaitInterval ≤ maxReconnectWaitInterval)
    (hsound : AttemptSound env c) : Settled (handleReconnect env c).2.1 := by
  unfold handleReconnect
  split
  · exact fun _ => hallowed
  next hexpired =>
    have hattempt := attemptReconnect_schedule env.connect env.resub c
    have hdown := @attempt_down env c hidle
    generalize qcloudIotMqttAttemptReconnect env.connect env.resub c = r at hattempt hdown
    obtain ⟨rc, c', events⟩ := r
    dsimp only at hattempt hdown ⊢
    split
    · intro _
      exact hattempt.interval ▸ hallowed
    next hfailed =>
      have hinterval := hattempt.interval
      rcases hsound.resolve_left hexpired with hsmall | hresub
      · have hbelow : c'.currentReconnectWaitInterval * 2 ≤ maxReconnectWaitInterval := by omega
        split <;> exact fun _ => hbelow
      · have hgone := hdown hresub hfailed
        split <;> exact fun hup => by cases hgone.symm.trans hup

theorem yieldRound_settled {env : YieldEnv} {c : Client} (hsettled : Settled c)
    (hauto : c.options.autoConnectEnable = true) (hdrawn : InitialDelay env.randomInterval)
    (hsound : RoundSound env.reconnect c) : Settled (yieldRound env c).2.1 := by
  have hfollows := (yieldRound_follows env c hauto hdrawn).interval
  by_cases hidle : c.isConnected = false
  · unfold yieldRound
    rw [if_pos (by simp [hidle])]
    split
    · exact hsettled
    next hallowed =>
      rcases hsound with hup | hexceeded | hsound
      · cases hidle.symm.trans hup
      · exact absurd hexceeded hallowed
      · exact handleReconnect_settled hidle (Nat.le_of_not_lt hallowed) hsound
  · have hup : c.isConnected = true := by simpa using hidle
    intro _
    -- a round with a connection notices a loss or nothing
    rw [hfollows]
    unfold roundNotices
    rw [if_neg (by simp [hup])]
    split
    · exact hdrawn.range.2.trans (by decide)
    · exact hsettled hup

theorem yieldLoop_settled {rounds : List RoundEnv} (rc : ReturnCode) {c : Client}
    (hsettled : Settled c) (hauto : c.options.autoConnectEnable = true)
    (hsound : LoopSound (rounds.map RoundEnv.toYieldEnv) c) :
    Settled (yieldLoop rc (rounds.map RoundEnv.toYieldEnv) c).2.1 := by
  induction rounds generalizing rc c with
  | nil => exact hsettled
  | cons env rounds ih =>
    rw [List.map_cons, LoopSound] at hsound
    obtain ⟨hround, hrest⟩ := hsound
    have hnext := yieldRound_settled hsettled hauto env.drawn hround
    have hkept := (yieldRound_follows env.toYieldEnv c hauto env.drawn).auto.trans hauto
    rw [List.map_cons, yieldLoop]
    generalize yieldRound env.toYieldEnv c = r at hnext hkept hrest
    obtain ⟨⟨rc', goesOn⟩, c', events⟩ := r
    cases goesOn with
    | true => exact ih rc' hnext hkept (hrest rfl)
    | false => exact hnext

theorem reconnectLoop_settled {rounds : List ReconnectEnv} {c : Client} (hsettled : Settled c)
    (hsound : ReconnectLoopSound rounds c) : Settled (reconnectLoop rounds c).2.1 := by
  induction rounds generalizing c with
  | nil => exact hsettled
  | cons env rounds ih =>
    unfold reconnectLoop
    split
    · exact hsettled
    next hdown =>
      split
      · exact hsettled
      next hallowed =>
        rcases hsound with hup | hexceeded | ⟨hattempt, hrest⟩
        · exact absurd hup hdown
        · exact absurd hexceeded hallowed
        · have hidle : c.isConnected = false := by simpa using hdown
          exact ih (handleReconnect_settled hidle (Nat.le_of_not_lt hallowed) hattempt) hrest

theorem settled_of_liveness {c c' : Client} (h : Settled c) (hsame : SameLiveness c c') :
    Settled c' := by
  intro hup
  rw [hsame.currentReconnectWaitInterval]
  exact h (hsame.isConnected ▸ hup)

theorem disconnect_settled (writes : List WriteChoice) {c : Client} (h : Settled c) :
    Settled (qcloudIotMqttDisconnect writes c).2.1 := by
  unfold qcloudIotMqttDisconnect
  split
  · exact h
  · split
    · exact h
    · dsimp only
      split
      · exact h
      · exact fun hup => by cases hup

/-- A call whose attempts are sound keeps the client settled. -/
theorem call_settled {c : Client} (op : Call) (h : Settled c)
    (hauto : c.options.autoConnectEnable = true) (hsound : CallSound c op) :
    Settled (call op c).1 := by
  cases op with
  | yield rounds =>
    show Settled (qcloudIotMqttYield (rounds.map RoundEnv.toYieldEnv) c).2.1
    unfold qcloudIotMqttYield
    split
    · exact h
    next hentry =>
      split
      · exact h
      · refine yieldLoop_settled .success h hauto (hsound.resolve_left fun hrefused => hentry ?_)
        simp [hrefused]
  | reconnect env =>
    show Settled (qcloudIotMqttReconnect env.toForcedEnv c).2.1
    unfold qcloudIotMqttReconnect
    split
    · exact h
    next hentry =>
      have hstart : Settled (forcedStart env.toForcedEnv c) :=
        fun _ => env.drawn.range.2.trans (by decide)
      refine reconnectLoop_settled hstart (hsound.resolve_left fun hrefused => hentry ?_)
      simp [hrefused]
  | publish topicName params env =>
    exact settled_of_liveness h
      (requested_liveness (publish_requested topicName params env c).1)
  | subscribe topicFilter params env =>
    exact settled_of_liveness h
      (requested_liveness (subscribe_requested topicFilter params env c).1)
  | unsubscribe topicFilter env =>
    exact settled_of_liveness h (unsubscribe_liveness topicFilter env c)
  | disconnect writes => exact disconnect_settled writes h

end Resubscribing

section Runs

/-- A run of calls does what its notices say. -/
theorem run_follows (calls : List Call) (c : Client) (hauto : c.options.autoConnectEnable = true) :
    Follows c (run call calls c).2 (run call calls c).1 := by
  induction calls generalizing c with
  | nil => exact (SameSchedule.refl c).follows
  | cons op calls ih =>
    have hcall := call_follows op c hauto
    exact hcall.trans (ih (call op c).1 (hcall.auto.trans hauto))

/-- In a run whose attempts are sound the client stays settled. -/
theorem run_settled {calls : List Call} {c : Client} (h : Settled c)
    (hauto : c.options.autoConnectEnable = true) (hsound : Along call CallSound calls c) :
    Settled (run call calls c).1 := by
  have hstep : ∀ c op, Settled c ∧ c.options.autoConnectEnable = true → CallSound c op →
      Settled (call op c).1 ∧ (call op c).1.options.autoConnectEnable = true := by
    rintro c op ⟨hsettled, hon⟩ hop
    exact ⟨call_settled op hsettled hon hop, (call_follows op c hon).auto.trans hon⟩
  exact (run_invariant hstep ⟨h, hauto⟩ hsound).1

/-- The delay between reconnects over every run of calls in which no attempt that could exceed
the limit connects and then fails to subscribe the table again, from a connected client that
reconnects by itself. The delay is as the notices say, begins in the initial range after every
loss and fits its 32 bits. A client that waits to reconnect has doubled the delay of its last
loss once for each attempt that failed since. Past the limit no call of any run attempts again,
and every yield whose loop runs reports the time-out. -/
theorem backoff_law (c : Client) (hconnected : c.isConnected = true)
    (hauto : c.options.autoConnectEnable = true)
    (hlimit : c.currentReconnectWaitInterval ≤ maxReconnectWaitInterval) (calls : List Call)
    (hsound : Along call CallSound calls c) :
    (run call calls c).1.currentReconnectWaitInterval =
        delay c.currentReconnectWaitInterval (run call calls c).2 ∧
      (run call calls c).1.currentReconnectWaitInterval < 2 ^ 32 ∧
      (∀ first, .lost first ∈ (run call calls c).2 → InitialDelay first) ∧
      ((run call calls c).1.wasManuallyDisconnected = false →
        ((run call calls c).1.isConnected = false →
          ∃ earlier first later, (run call calls c).2 = earlier ++ .lost first :: later ∧
            NoLoss later ∧ (run call calls c).1.currentReconnectWaitInterval =
              first * 2 ^ later.count .failed) ∧
        (maxReconnectWaitInterval < (run call calls c).1.currentReconnectWaitInterval →
          ∀ more, (run call more (run call calls c).1).2 = [] ∧
            ∀ env rounds, qcloudIotMqttYield (env :: rounds)
              (run call more (run call calls c).1).1 =
              (.mqttReconnectTimeout, (run call more (run call calls c).1).1, []))) := by
  have h := run_follows calls c hauto
  have hsettled := run_settled (fun _ => hlimit) hauto hsound
  refine ⟨h.interval, ?_, h.initial, fun hmanual => ⟨fun hidle => ?_, fun hexceeded more => ?_⟩⟩
  · have hbounded := h.bounded
    have hword : 2 * maxReconnectWaitInterval < 2 ^ 32 := by decide
    omega
  · have hloss : ¬ NoLoss (run call calls c).2 := by
      intro hno
      obtain ⟨hdown, -⟩ := h.waiting hno hidle hmanual
      rw [hconnected] at hdown
      cases hdown
    obtain ⟨earlier, first, later, hnotices, hlater⟩ := exists_last_loss hloss
    refine ⟨earlier, first, later, hnotices, hlater, ?_⟩
    have hlost : delay c.currentReconnectWaitInterval (earlier ++ .lost first :: later) =
        delay first later := delay_append _ earlier (.lost first :: later)
    rw [h.interval, hnotices, hlost, delay_of_noLoss hlater]
  · have hidle : (run call calls c).1.isConnected = false := by
      by_contra hup
      exact absurd (hsettled (by simpa using hup)) (Nat.not_le.mpr hexceeded)
    have hgone : GivenUp (run call calls c).1 := ⟨hidle, hmanual, h.auto.trans hauto, hexceeded⟩
    obtain ⟨hsame, hnone⟩ := hgone.run more
    exact ⟨hnone, fun env rounds => ((givenUp_of_liveness hgone hsame).yield env rounds).1⟩

/-- A round at this time in which the peer shuts the connection down and refuses new ones. -/
def refusedRound (now : ℕ) : RoundEnv where
  reconnect :=
    { now := now
      connect :=
        { network := .refused .tcpPeerShutdown (by decide)
          connId := [65]
          usernameOk := true
          writes := []
          rounds := []
          now := now }
      resub := calmRequest }
  cycle := cycleWith [.fail .tcpPeerShutdown (by decide) 0]
  pubIterOk := true
  pubClock := fun _ => now
  subIterOk := true
  subClock := fun _ => now
  keepAlive := pingAt now
  disconnect := [.accept 2047]
  randomInterval := getRandomInterval 7
  now := now
  drawn := ⟨7, rfl⟩

def refusedYield (attempts : ℕ) : List RoundEnv :=
  (List.range (attempts + 1)).map fun i => refusedRound (100000 * i)

/-- After six refused attempts the client has given up. -/
theorem backoff_law_refused :
    (∃ earlier first later,
      (run call [.yield (refusedYield 6)] (reached 5 5000 true deviceOptions (handshake []))).2 =
          earlier ++ .lost first :: later ∧
        NoLoss later ∧
        (run call [.yield (refusedYield 6)]
            (reached 5 5000 true deviceOptions (handshake []))).1.currentReconnectWaitInterval =
          first * 2 ^ later.count .failed) ∧
    ∀ more, (run call more (run call [.yield (refusedYield 6)]
        (reached 5 5000 true deviceOptions (handshake []))).1).2 = [] ∧
      ∀ env rounds, qcloudIotMqttYield (env :: rounds) (run call more
          (run call [.yield (refusedYield 6)]
            (reached 5 5000 true deviceOptions (handshake []))).1).1 =
        (.mqttReconnectTimeout, (run call more (run call [.yield (refusedYield 6)]
          (reached 5 5000 true deviceOptions (handshake []))).1).1, []) := by
  obtain ⟨-, -, -, hwaiting⟩ := backoff_law (reached 5 5000 true deviceOptions (handshake []))
    (by decide) (by decide) (by decide) [.yield (refusedYield 6)] (by decide)
  obtain ⟨hdoubled, hgone⟩ := hwaiting (by decide)
  exact ⟨hdoubled (by decide), hgone (by decide)⟩

/-- A round at this time in which the server accepts the connection, and no SUBSCRIBE can be
written. -/
def strandedRound (now : ℕ) : RoundEnv :=
  { refusedRound now with
    reconnect :=
      { now := now
        connect :=
          { network := .opened [0x20, 2, 0, 0]
            connId := [65]
            usernameOk := true
            writes := [.accept 2047]
            rounds := [cycleWith [.deliver, .deliver, .deliver]]
            now := now }
        resub := fun _ => ⟨now, true, true, [.fail .tcpWriteFail (by decide) 0]⟩ } }

def subscribedToT : List Op :=
  handshake [0x90, 3, 0, 7, 1] ++
    [subscribeT, .yieldRead (cycleWith [.deliver, .deliver, .deliver]) []]

/-- The sixth attempt connects and fails in its resubscription: the delay is exceeded, but the
client is connected and the next yield does not report the time-out. -/
theorem backoff_stranded :
    ¬ ∀ (random commandTimeout : ℕ) (eventHandle : Bool) (options : ConnectParams) (ops : List Op)
      (calls : List Call),
      let c := reached random commandTimeout eventHandle options ops
      c.isConnected = true → c.options.autoConnectEnable = true →
      c.currentReconnectWaitInterval ≤ maxReconnectWaitInterval →
      (run call calls c).1.wasManuallyDisconnected = false →
      maxReconnectWaitInterval < (run call calls c).1.currentReconnectWaitInterval →
      ∀ env rounds, (qcloudIotMqttYield (env :: rounds) (run call calls c).1).1 =
        .mqttReconnectTimeout := by
  intro hclaim
  have hyield := hclaim 5 5000 true deviceOptions subscribedToT
    [.yield (refusedYield 5 ++ [strandedRound 600000])] (by decide) (by decide) (by decide)
    (by decide) (by decide) (refusedRound 700000).toYieldEnv []
  exact absurd hyield (by decide)

end Runs

end IotExplorer.Backoff
