import IotExplorer.Basis.Waits
import Mathlib.Data.Int.Notation
import Mathlib.Data.List.Basic
import Mathlib.Logic.Function.Iterate

/-!
The binding of a device over MQTT: the token is published, and a reply waited for, up to three
times. Callbacks set flags while the client yields; the loops look at the flags between two yields.
What a yield brings, and what a publication returns, are given by its number in the run.
-/
namespace IotExplorer.DeviceBind

open Basis.Waits

section Callbacks

/-- `eWifiConfigState`. -/
inductive WifiConfigState
  | connectAp
  | connectMqtt
  | connectMqttFail
  | reportToken
  | reportTokenFail
  | reportTokenSuccess
  deriving DecidableEq, Repr

/-- What happens while the client yields: the result of a subscription or a publication, a message
with the code that is read from it, and the token from the phone. -/
inductive Event
  | subscribed (ready : Bool)
  | published (ready : Bool)
  | message (code : Option ℤ)
  | token
  deriving DecidableEq, Repr

/-- `TokenHandleData`, `sg_bind_reply_code` and `token_received`. -/
structure Data where
  subReady : Bool
  sendReady : Bool
  replyReady : Bool
  replyCode : ℤ
  bindReplyCode : ℤ
  tokenReceived : Bool
  deriving DecidableEq, Repr

/-- `_mqtt_event_handler`, `_on_message_callback` and `qiot_device_bind_set_token`. -/
def react (data : Data) : Event → Data
  | .subscribed ready => { data with subReady := ready }
  | .published ready => { data with sendReady := ready }
  | .message none => data
  | .message (some code) =>
      { data with replyReady := true, replyCode := code, bindReplyCode := code }
  | .token => { data with tokenReceived := true }

structure Yielded where
  rc : ℤ
  events : List Event

/-- What a run meets: the device info, an error of the client, the return of the subscription, the
yields, the returns of `_publish_token_msg`, and whether there is a token already. -/
structure Env where
  devInfo : ℤ
  construct : Option ℤ
  subscribe : ℤ
  yields : ℕ → Yielded
  publishes : ℕ → ℤ
  tokenReceived : Bool

/-- The data in a run, the numbers of yields and publications, and `sg_wifiConfigState`. -/
structure Run where
  data : Data
  yields : ℕ
  publishes : ℕ
  state : WifiConfigState

end Callbacks

section Steps
variable (env : Env)

def mqttYield (run : Run) : ℤ × Run :=
  let yielded := env.yields run.yields
  (yielded.rc, { run with data := yielded.events.foldl react run.data, yields := run.yields + 1 })

/-- `while (!flag && wait_cnt-- > 0)` with a yield in each round. -/
def waitFor (flag : Data → Bool) : ℕ → Run → Run
  | 0, run => run
  | waitCnt + 1, run => if flag run.data then run else waitFor flag waitCnt (mqttYield env run).2

/-- The loop of `_subscribe_topic_wait_result`. -/
def waitSubscribed : ℕ → Run → ℤ × Run
  | 0, run => (-1001, run)
  | waitCnt + 1, run =>
      if run.data.subReady then (0, run)
      else
        let (rc, run) := mqttYield env run
        if rc ≠ 0 then (rc, run) else waitSubscribed waitCnt run

def subscribeTopicWaitResult (run : Run) : ℤ × Run :=
  if env.subscribe < 0 then (env.subscribe, run) else waitSubscribed env 2 run

/-- The publications of `_send_token_wait_reply`; each that fails is followed by a yield. -/
def publishToken : ℕ → Run → ℤ × Run
  | waitCnt, run =>
      let ret := env.publishes run.publishes
      let run := { run with publishes := run.publishes + 1 }
      if ret < 0 then
        match waitCnt with
        | 0 => (ret, run)
        | waitCnt + 1 => publishToken waitCnt (mqttYield env run).2
      else (ret, run)

def sendTokenWaitReply (run : Run) : ℤ × Run :=
  let run := waitFor env Data.tokenReceived 20 run
  if !run.data.tokenReceived then (-1002, run)
  else
    let (ret, run) := publishToken env 3 run
    if ret < 0 then (ret, run)
    else
      -- what the first of these waits returns is overwritten
      let run := waitFor env Data.sendReady 5 run
      let run := waitFor env Data.replyReady 10 run
      (if run.data.replyReady then 0 else -1001, run)

/-- The loop of `_mqtt_send_token`. -/
def sendTokenRetry : ℕ → Run → ℤ × Run
  | retryCnt, run =>
      let (ret, run) := sendTokenWaitReply env run
      let run := (mqttYield env run).2
      if ret ≠ 0 then
        match retryCnt with
        | 0 => (ret, run)
        | retryCnt + 1 => sendTokenRetry retryCnt run
      else (ret, run)

def beginData : Data := ⟨false, false, false, 404, 404, env.tokenReceived⟩

def mqttSendToken (run : Run) : ℤ × Run :=
  if env.devInfo ≠ 0 then (env.devInfo, run)
  else
    let run := ⟨beginData env, 0, 0, .connectMqtt⟩
    match env.construct with
    | some err => (err, { run with state := .connectMqttFail })
    | none =>
        let (_, run) := subscribeTopicWaitResult env run
        let (ret, run) := sendTokenRetry env 2 { run with state := .reportToken }
        let run := if ret ≠ 0 then { run with state := .reportTokenFail } else run
        (ret, { run with state := .reportTokenSuccess })

def qiotDeviceBind (run : Run) : ℤ × Run :=
  let (ret, run) := mqttSendToken env run
  if run.data.bindReplyCode ≠ 0 then (-1001, run) else (ret, run)

end Steps

section Right
variable (env : Env)

/-- The state says that the token was reported exactly if the function does, and the binding is
successful only after a reply with the code 0 in this run. -/
structure Right (run : Run) : Prop where
  state : (mqttSendToken env run).2.state = .reportTokenSuccess ↔ (mqttSendToken env run).1 = 0
  bound : (qiotDeviceBind env run).1 = 0 →
    ∃ n < (qiotDeviceBind env run).2.yields, .message (some 0) ∈ (env.yields n).events

def seen (n : ℕ) : List Event := (List.range n).flatMap fun k => (env.yields k).events

/-- What they have made of the data. -/
def dataAfter (n : ℕ) : Data := (seen env n).foldl react (beginData env)

/-- A place in a run: the numbers of yields and publications. -/
abbrev Place := ℕ × ℕ

/-- The first publication that is accepted, if one of the next so many is. -/
def accepted : ℕ → ℕ → Option ℕ
  | 0, _ => none
  | count + 1, m => if 0 ≤ env.publishes m then some 0 else (accepted count (m + 1)).map (· + 1)

def tokenPlace (place : Place) : ℕ :=
  waitUntil (fun n => (dataAfter env n).tokenReceived) 20 place.1

/-- Where the wait for the result of a publication ends that is accepted after some others. -/
def sentPlace (place : Place) (failed : ℕ) : ℕ :=
  waitUntil (fun n => (dataAfter env n).sendReady) 5 (tokenPlace env place + failed)

/-- In an attempt from here the token comes, a publication is accepted, and a reply with a code
comes while it is waited for, or has come before. -/
def Answered (place : Place) : Prop :=
  (dataAfter env (place.1 + 20)).tokenReceived = true ∧
    ∃ failed ∈ accepted env 4 place.2,
      (dataAfter env (sentPlace env place failed + 10)).replyReady = true

/-- Where an attempt ends, with the yield behind it. -/
def nextPlace (place : Place) : Place :=
  if (dataAfter env (place.1 + 20)).tokenReceived then
    match accepted env 4 place.2 with
    | none => (tokenPlace env place + 3 + 1, place.2 + 4)
    | some failed =>
        (waitUntil (fun n => (dataAfter env n).replyReady) 10 (sentPlace env place failed) + 1,
          place.2 + failed + 1)
  else (tokenPlace env place + 1, place.2)

/-- Where the attempts begin: behind the wait for the result of the subscription. -/
def firstPlace : Place :=
  if env.subscribe < 0 then (0, 0)
  else if (env.yields 0).rc ≠ 0 ∨ (dataAfter env 1).subReady then (1, 0) else (2, 0)

def AnsweredInTime : Prop := ∃ k ≤ 2, Answered env ((nextPlace env)^[k] (firstPlace env))

end Right

section Places
variable {env : Env} {state : WifiConfigState}

/-- A run at a place, with the data that the yields so far have made. -/
def runAt (env : Env) (place : Place) (state : WifiConfigState) : Run :=
  ⟨dataAfter env place.1, place.1, place.2, state⟩

theorem dataAfter_succ (env : Env) (n : ℕ) :
    dataAfter env (n + 1) = (env.yields n).events.foldl react (dataAfter env n) := by
  rw [dataAfter, seen, List.range_succ, List.flatMap_append, List.foldl_append,
    List.flatMap_singleton]
  rfl

theorem mqttYield_at (n m : ℕ) :
    mqttYield env (runAt env (n, m) state) = ((env.yields n).rc, runAt env (n + 1, m) state) := by
  rw [mqttYield, runAt, runAt, dataAfter_succ]

/-- A loop that waits for a flag ends where the flag is set, or where it gives up. -/
theorem waitFor_at (flag : Data → Bool) (waitCnt n m : ℕ) :
    waitFor env flag waitCnt (runAt env (n, m) state) =
    runAt env (waitUntil (fun n => flag (dataAfter env n)) waitCnt n, m) state := by
  induction waitCnt generalizing n with
  | zero => rfl
  | succ waitCnt ih =>
    rw [waitFor, waitUntil, mqttYield_at, ih]
    exact (apply_ite (fun n => runAt env (n, m) state) _ _ _).symm

/-- The wait for the subscription is two yields, one if it fails or brings the result. -/
theorem subscribe_at (env : Env) :
    ∃ rc, subscribeTopicWaitResult env (runAt env (0, 0) state) =
      (rc, runAt env (firstPlace env) state) := by
  unfold subscribeTopicWaitResult firstPlace
  split_ifs with hrc hone
  · exact ⟨_, rfl⟩
  · rw [waitSubscribed, mqttYield_at]
    by_cases hfailed : (env.yields 0).rc ≠ 0
    · exact ⟨_, if_pos hfailed⟩
    · refine ⟨0, (if_neg hfailed).trans ?_⟩
      rw [waitSubscribed]
      exact if_pos (hone.resolve_left hfailed)
  · obtain ⟨hyield, hnot⟩ := not_or.mp hone
    have hfirst : waitSubscribed env 2 (runAt env (0, 0) state) =
        waitSubscribed env 1 (runAt env (1, 0) state) := by
      rw [waitSubscribed, mqttYield_at]
      exact if_neg hyield
    rw [hfirst, waitSubscribed, mqttYield_at]
    by_cases hfailed : (env.yields 1).rc ≠ 0
    · exact ⟨_, (if_neg hnot).trans (if_pos hfailed)⟩
    · exact ⟨_, (if_neg hnot).trans (if_neg hfailed)⟩

/-- The publications go on to the first one that is accepted. -/
theorem publishToken_at (waitCnt n m : ℕ) :
    (∃ failed ret, accepted env (waitCnt + 1) m = some failed ∧ 0 ≤ ret ∧
        publishToken env waitCnt (runAt env (n, m) state) =
          (ret, runAt env (n + failed, m + failed + 1) state)) ∨
      accepted env (waitCnt + 1) m = none ∧
        ∃ ret < 0, publishToken env waitCnt (runAt env (n, m) state) =
        (ret, runAt env (n + waitCnt, m + waitCnt + 1) state) := by
  induction waitCnt generalizing n m with
  | zero =>
    rw [publishToken, accepted]
    by_cases hret : 0 ≤ env.publishes m
    · left
      refine ⟨0, env.publishes m, if_pos hret, hret, ?_⟩
      exact if_neg (Int.not_lt.mpr hret)
    · right
      refine ⟨by rw [if_neg hret]; rfl, env.publishes m, Int.not_le.mp hret, ?_⟩
      exact if_pos (Int.not_le.mp hret)
  | succ waitCnt ih =>
    by_cases hret : 0 ≤ env.publishes m
    · left
      rw [publishToken, accepted]
      refine ⟨0, env.publishes m, if_pos hret, hret, ?_⟩
      exact if_neg (Int.not_lt.mpr hret)
    · have hyield :
          (mqttYield env (runAt env (n, m + 1) state)).2 = runAt env (n + 1, m + 1) state := by
        rw [mqttYield_at]
      have hnext : publishToken env (waitCnt + 1) (runAt env (n, m) state) =
          publishToken env waitCnt (runAt env (n + 1, m + 1) state) := by
        rw [← hyield, publishToken]
        exact if_pos (Int.not_le.mp hret)
      rw [hnext, accepted, if_neg hret]
      rcases ih (n + 1) (m + 1) with ⟨failed, ret, haccepted, hpos, heq⟩ | ⟨hnone, ret, hneg, heq⟩
      · left
        refine ⟨failed + 1, ret, by rw [haccepted]; rfl, hpos, ?_⟩
        rw [heq, show n + 1 + failed = n + (failed + 1) by omega,
          show m + 1 + failed = m + (failed + 1) by omega]
      · right
        refine ⟨by rw [hnone]; rfl, ret, hneg, ?_⟩
        rw [heq, show n + 1 + waitCnt = n + (waitCnt + 1) by omega,
          show m + 1 + waitCnt = m + (waitCnt + 1) by omega]

/-- Flags that callbacks only set stay set. -/
theorem tokenReceived_stays (n : ℕ) (h : (dataAfter env n).tokenReceived = true) :
    (dataAfter env (n + 1)).tokenReceived = true := by
  rw [dataAfter_succ]
  generalize dataAfter env n = data at h
  induction (env.yields n).events generalizing data with
  | nil => exact h
  | cons event events ih =>
    refine ih (react data event) ?_
    rcases event with _ | _ | (_ | _) | _ <;> first | exact h | rfl

theorem replyReady_stays (n : ℕ) (h : (dataAfter env n).replyReady = true) :
    (dataAfter env (n + 1)).replyReady = true := by
  rw [dataAfter_succ]
  generalize dataAfter env n = data at h
  induction (env.yields n).events generalizing data with
  | nil => exact h
  | cons event events ih =>
    refine ih (react data event) ?_
    rcases event with _ | _ | (_ | _) | _ <;> first | exact h | rfl

/-- An attempt returns zero exactly if it is answered. -/
theorem sendTokenWaitReply_at (place : Place) : ∃ ret place',
    sendTokenWaitReply env (runAt env place state) = (ret, runAt env place' state) ∧
      (ret = 0 ↔ Answered env place) ∧ nextPlace env place = (place'.1 + 1, place'.2) := by
  obtain ⟨n, m⟩ := place
  have htoken : (dataAfter env (tokenPlace env (n, m))).tokenReceived = true ↔
      (dataAfter env (n + 20)).tokenReceived = true := waitUntil_iff tokenReceived_stays 20 n
  have hwait : waitFor env Data.tokenReceived 20 (runAt env (n, m) state) =
      runAt env (tokenPlace env (n, m), m) state := waitFor_at _ 20 n m
  unfold sendTokenWaitReply Answered nextPlace
  rw [hwait]
  dsimp only
  by_cases hthere : (dataAfter env (n + 20)).tokenReceived = true
  · have hgo : ¬ (!(runAt env (tokenPlace env (n, m), m) state).data.tokenReceived) = true := by
      rw [show (runAt env (tokenPlace env (n, m), m) state).data.tokenReceived =
        true from htoken.mpr hthere]
      decide
    rw [if_neg hgo, if_pos hthere, and_iff_right hthere]
    rcases @publishToken_at env state 3 (tokenPlace env (n, m)) m with
      ⟨failed, ret, haccepted, hpos, hpublished⟩ | ⟨hnone, ret, hneg, hpublished⟩
    · have hreply : (dataAfter env (waitUntil (fun n => (dataAfter env n).replyReady) 10
          (sentPlace env (n, m) failed))).replyReady = true ↔
          (dataAfter env (sentPlace env (n, m) failed + 10)).replyReady = true :=
        waitUntil_iff replyReady_stays 10 _
      rw [hpublished, haccepted]
      dsimp only
      rw [if_neg (Int.not_lt.mpr hpos), waitFor_at, waitFor_at]
      refine ⟨_, _, rfl, ?_, rfl⟩
      simp only [Option.mem_some_iff, exists_eq_left']
      rw [← hreply]
      change (if (dataAfter env _).replyReady = true then (0 : ℤ) else -1001) = 0 ↔ _
      split_ifs with hready
      · exact iff_of_true rfl hready
      · exact iff_of_false (by decide) hready
    · rw [hpublished, hnone]
      dsimp only
      rw [if_pos hneg]
      refine ⟨ret, _, rfl, ?_, rfl⟩
      refine iff_of_false (by omega) ?_
      rintro ⟨_, ⟨⟩, -⟩
  · have hstop : (!(runAt env (tokenPlace env (n, m), m) state).data.tokenReceived) = true := by
      rw [Bool.not_eq_true', ← Bool.not_eq_true]
      exact fun h => hthere (htoken.mp h)
    rw [if_pos hstop, if_neg hthere]
    exact ⟨-1002, _, rfl, iff_of_false (by decide) fun h => hthere h.1, rfl⟩

/-- The attempts return zero exactly if one of them is answered. -/
theorem sendTokenRetry_at (retryCnt : ℕ) (place : Place) : ∃ ret place',
    sendTokenRetry env retryCnt (runAt env place state) = (ret, runAt env place' state) ∧
      (ret = 0 ↔ ∃ k ≤ retryCnt, Answered env ((nextPlace env)^[k] place)) := by
  induction retryCnt generalizing place with
  | zero =>
    obtain ⟨ret, ⟨n, m⟩, hsent, hzero, -⟩ := @sendTokenWaitReply_at env state place
    rw [sendTokenRetry, hsent]
    dsimp only
    rw [mqttYield_at]
    refine ⟨ret, (n + 1, m), ite_self _, ?_⟩
    simpa using hzero
  | succ retryCnt ih =>
    obtain ⟨ret, ⟨n, m⟩, hsent, hzero, hnext⟩ := @sendTokenWaitReply_at env state place
    rw [sendTokenRetry, hsent]
    dsimp only
    rw [mqttYield_at]
    dsimp only
    by_cases hanswered : ret = 0
    · rw [if_neg (not_not_intro hanswered)]
      exact ⟨ret, _, rfl, iff_of_true hanswered ⟨0, Nat.zero_le _, hzero.mp hanswered⟩⟩
    · obtain ⟨ret', place', hretry, hrest⟩ := ih (n + 1, m)
      rw [if_pos hanswered]
      refine ⟨ret', place', hretry, hrest.trans ?_⟩
      rw [← hnext]
      constructor
      · rintro ⟨k, hk, hlater⟩
        exact ⟨k + 1, Nat.succ_le_succ hk, hlater⟩
      · rintro ⟨_ | k, hk, hlater⟩
        · exact absurd (hzero.mpr hlater) hanswered
        · exact ⟨k, Nat.le_of_succ_le_succ hk, hlater⟩

end Places

section Results
variable {env : Env}

/-- Before the end the run is at a place, and the attempts have returned what they did. -/
theorem mqttSendToken_at (hdevice : env.devInfo = 0) (hclient : env.construct = none) (run : Run) :
    ∃ ret place, mqttSendToken env run = (ret, runAt env place .reportTokenSuccess) ∧
      (ret = 0 ↔ AnsweredInTime env) := by
  obtain ⟨rc, hsubscribed⟩ := @subscribe_at .connectMqtt env
  obtain ⟨ret, place, hretry, hzero⟩ := @sendTokenRetry_at env .reportToken 2 (firstPlace env)
  have hbegin : subscribeTopicWaitResult env ⟨beginData env, 0, 0, .connectMqtt⟩ =
      (rc, runAt env (firstPlace env) .connectMqtt) := hsubscribed
  have hattempts : sendTokenRetry env 2
      { runAt env (firstPlace env) .connectMqtt with state := .reportToken } =
      (ret, runAt env place .reportToken) := hretry
  refine ⟨ret, place, ?_, hzero⟩
  unfold mqttSendToken
  rw [if_neg (not_not_intro hdevice), hclient]
  simp only [hbegin, hattempts]
  split_ifs <;> rfl

/-- The code of a reply is zero only behind a reply with that code. -/
theorem bindReplyCode_zero {events : List Event} {data : Data}
    (h : (events.foldl react data).bindReplyCode = 0) :
    data.bindReplyCode = 0 ∨ .message (some 0) ∈ events := by
  induction events generalizing data with
  | nil => exact .inl h
  | cons event events ih =>
    rcases ih h with hdata | hmem
    · rcases event with _ | _ | (_ | code) | _
      · exact .inl hdata
      · exact .inl hdata
      · exact .inl hdata
      · obtain rfl : code = 0 := hdata
        exact .inr List.mem_cons_self
      · exact .inl hdata
    · exact .inr (List.mem_cons_of_mem _ hmem)

/-- The state is right exactly if the token is answered in time; the binding is successful only
after a reply with the code 0. -/
theorem deviceBind_right_iff (env : Env) (hdevice : env.devInfo = 0)
    (hclient : env.construct = none) (run : Run) :
    Right env run ↔ AnsweredInTime env := by
  obtain ⟨ret, place, hsent, hzero⟩ := mqttSendToken_at hdevice hclient run
  have hstate : (mqttSendToken env run).2.state = .reportTokenSuccess := by rw [hsent]; rfl
  have hret : (mqttSendToken env run).1 = ret := by rw [hsent]
  constructor
  · intro hright
    exact hzero.mp (hret ▸ hright.state.mp hstate)
  · intro hanswered
    refine ⟨iff_of_true hstate (hret.trans (hzero.mpr hanswered)), ?_⟩
    by_cases hcode : (dataAfter env place.1).bindReplyCode = 0
    · have hbound : qiotDeviceBind env run = (ret, runAt env place .reportTokenSuccess) := by
        rw [qiotDeviceBind, hsent]
        exact if_neg (not_not_intro hcode)
      rcases bindReplyCode_zero hcode with hbegin | hmem
      · exact absurd (show (404 : ℤ) = 0 from hbegin) (by decide)
      · obtain ⟨n, hn, hmem⟩ := List.mem_flatMap.mp hmem
        rw [hbound]
        exact fun _ => ⟨n, List.mem_range.mp hn, hmem⟩
    · have hunbound : qiotDeviceBind env run = (-1001, runAt env place .reportTokenSuccess) := by
        rw [qiotDeviceBind, hsent]
        exact if_pos hcode
      rw [hunbound]
      exact fun h => absurd (show (-1001 : ℤ) = 0 from h) (by decide)

def startRun : Run := ⟨⟨false, false, false, 404, 404, false⟩, 0, 0, .connectAp⟩

/-- The first yield brings a reply with the code 0 to a device that has its token. -/
def replyEnv : Env :=
  ⟨0, none, 0, fun k => ⟨0, if k = 0 then [.subscribed true, .message (some 0)] else []⟩,
    fun _ => 0, true⟩

theorem deviceBind_right_iff_reply : Right replyEnv startRun :=
  (deviceBind_right_iff replyEnv rfl rfl startRun).mpr
    ⟨0, by decide, by decide, 0, by decide, by decide⟩

/-- The token never comes. -/
def tokenlessEnv : Env := ⟨0, none, 0, fun _ => ⟨0, []⟩, fun _ => 0, false⟩

/-- Without a token the attempts fail, and the state says that it was reported. -/
theorem deviceBind_tokenless :
    ¬ ∀ env run, env.devInfo = 0 → env.construct = none → Right env run := by
  intro h
  have hstate := (h tokenlessEnv startRun rfl rfl).state
  have hreported : (mqttSendToken tokenlessEnv startRun).2.state = .reportTokenSuccess := by decide
  have hfailed : (mqttSendToken tokenlessEnv startRun).1 ≠ 0 := by decide
  exact hfailed (hstate.mp hreported)

end Results

end IotExplorer.DeviceBind
