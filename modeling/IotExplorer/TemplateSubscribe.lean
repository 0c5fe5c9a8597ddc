import IotExplorer.ClientRuns
import IotExplorer.DataTemplate

/-!
The wait for the answer to a subscription of the template. A yield walks the
lists, lets the MQTT client run, and hands each event that the client raises to
its handler; the event handler writes the status word, whatever subscription the
event is about, and the wait ends when the word has changed.
-/
namespace IotExplorer.TemplateSubscribe

open Protocol ClientState Connection ClientRuns JsonParser TemplateJson DataTemplate

/-- The handlers that the template subscribes with. -/
inductive MessageHandler where
  | downstream | eventReply | action

/-- What the environment decides during a yield: the handlers behind their numbers, and the
memory at the payload of a message when it is delivered. -/
structure TemplateYieldEnv where
  react : Reaction
  replyIterOk : Bool
  replyClock : ℕ → ℕ
  eventIterOk : Bool
  eventClock : ℕ → ℕ
  rounds : List YieldEnv
  handlerOf : ℕ → Option MessageHandler
  delivery : Message → MessageEnv × Payload

/-- The status word after an event of the MQTT client. -/
def syncStatusAfter (syncStatus : ℤ) : Event → ℤ
  | .mqtt .subcribeSuccess _ => if syncStatus > 0 then 0 else syncStatus
  | .mqtt .subcribeTimeout _ => if syncStatus > 0 then -1 else syncStatus
  | .mqtt .subcribeNack _ => if syncStatus > 0 then -1 else syncStatus
  | _ => syncStatus

def templateMqttEventHandler (react : Reaction) (event : Event) (t : Template) :
    Template × List Notice :=
  let t := { t with syncStatus := syncStatusAfter t.syncStatus event }
  if t.eventHandle then tell react (.mqtt event) t else (t, [])

/-- The handler of the template for a delivered message. -/
def deliverToTemplate (handler : Option MessageHandler) (delivery : MessageEnv × Payload)
    (t : Template) : Template × List Notice :=
  match handler with
  | some .downstream => onTemplateDownstreamTopicHandler delivery.1 delivery.2 t
  | some .eventReply => onEventReplyCallback delivery.1 delivery.2 t
  | some .action => onActionHandleCallback delivery.1 delivery.2 t
  | none => (t, [])

/-- What the template does about an event of the MQTT client. -/
def handleEvent (env : TemplateYieldEnv) (event : Event) (t : Template) : Template × List Notice :=
  match event with
  | .mqtt type packetId => templateMqttEventHandler env.react (.mqtt type packetId) t
  | .received message => templateMqttEventHandler env.react (.received message) t
  | .delivered _ handler _ message =>
      deliverToTemplate (env.handlerOf handler) (env.delivery message) t
  | _ => (t, [])

/-- What a yield leaves: its code, the template, the events of the MQTT client, the calls of
the application. -/
structure Yielded where
  rc : ReturnCode
  template : Template
  raised : List Event
  notices : List Notice

def iotTemplateYield (env : TemplateYieldEnv) (t : Template) : Yielded :=
  let replies := handleTemplateExpiredReply env.react env.replyIterOk env.replyClock t
  let t := handleTemplateExpiredEvent env.eventIterOk env.eventClock replies.1
  let mqtt := qcloudIotMqttYield env.rounds t.mqtt
  let handled := walkNodes (handleEvent env) mqtt.2.2 { t with mqtt := mqtt.2.1 }
  ⟨mqtt.1, handled.1, mqtt.2.2, replies.2 ++ handled.2⟩

/-- The codes that are no errors. -/
def Nonnegative (rc : ReturnCode) : Prop :=
  rc = .success ∨ rc = .mqttReconnected ∨ rc = .mqttManuallyDisconnected ∨
    rc = .mqttConnackConnectionAccepted ∨ rc = .mqttAlreadyConnected

instance (rc : ReturnCode) : Decidable (Nonnegative rc) :=
  inferInstanceAs (Decidable (rc = .success ∨ rc = .mqttReconnected ∨
    rc = .mqttManuallyDisconnected ∨ rc = .mqttConnackConnectionAccepted ∨
      rc = .mqttAlreadyConnected))

/-- What is left when the wait has come to an end, or so far. -/
structure Waited where
  ended : Bool
  template : Template
  raised : List Event
  notices : List Notice

/-- The loop of `_template_check_subscribe`; after undefined behaviour it does not end. -/
def waitLoop (packetId : ℕ) : List TemplateYieldEnv → ReturnCode → Template → Waited
  | [], rc, t => ⟨!t.halted && !(t.syncStatus = packetId ∧ Nonnegative rc), t, [], []⟩
  | env :: envs, rc, t =>
      if t.halted then ⟨false, t, [], []⟩
      else if t.syncStatus = packetId ∧ Nonnegative rc then
        let yielded := iotTemplateYield env t
        let rest := waitLoop packetId envs yielded.rc yielded.template
        ⟨rest.ended, rest.template, yielded.raised ++ rest.raised, yielded.notices ++ rest.notices⟩
      else ⟨true, t, [], []⟩

/-- `_template_check_subscribe`; without a return code it still waits. -/
def templateCheckSubscribe (packetId : ℕ) (envs : List TemplateYieldEnv) (t : Template) :
    Option ReturnCode × Waited :=
  let waited := waitLoop packetId envs .success { t with syncStatus := packetId }
  (if !waited.ended then none
    else if waited.template.syncStatus = 0 then some .success
    else some .mqttSub, waited)

section Frame

def awaited (t : Template) : Client × ℤ := (t.mqtt, t.syncStatus)

theorem sendTemplateRequest_awaited (call : RequestCall) (t : Template) :
    awaited (sendTemplateRequest call t).2.1 = awaited t := by
  unfold sendTemplateRequest addRequestToTemplateList
  repeat' split
  all_goals rfl

theorem sendAll_awaited (calls : List RequestCall) (t : Template) :
    awaited (sendAll calls t).1 = awaited t := by
  induction calls generalizing t with
  | nil => rfl
  | cons call calls ih => exact (ih _).trans (sendTemplateRequest_awaited call t)

@[simp] theorem tell_awaited (react : Reaction) (notice : Notice) (t : Template) :
    awaited (tell react notice t).1 = awaited t :=
  sendAll_awaited (react notice) t

theorem walkNodes_awaited {α : Type} {handle : α → Template → Template × List Notice}
    (hstep : ∀ node t, awaited (handle node t).1 = awaited t) (nodes : List α) (t : Template) :
    awaited (walkNodes handle nodes t).1 = awaited t := by
  induction nodes generalizing t with
  | nil => rfl
  | cons node nodes ih =>
    rw [walkNodes]
    split_ifs
    · rfl
    · exact (ih _).trans (hstep node t)

theorem handleTemplateExpiredReply_awaited (react : Reaction) (iterOk : Bool) (clock : ℕ → ℕ)
    (t : Template) : awaited (handleTemplateExpiredReply react iterOk clock t).1 = awaited t := by
  unfold handleTemplateExpiredReply
  split_ifs
  · rfl
  · apply walkNodes_awaited
    intro request t
    unfold handleTemplateExpiredReplyCallback
    split_ifs
    · rfl
    · rfl
    · exact tell_awaited react _ t

theorem handleTemplateExpiredEvent_awaited (iterOk : Bool) (clock : ℕ → ℕ) (t : Template) :
    awaited (handleTemplateExpiredEvent iterOk clock t) = awaited t := by
  unfold handleTemplateExpiredEvent
  split_ifs <;> rfl

theorem handleGetControl_awaited (react : Reaction) (behind : Ptr) (clientToken : List UInt8)
    (request : Request) (t : Template) :
    awaited (handleGetControl react behind clientToken request t).1 = awaited t := by
  unfold handleGetControl
  split
  · rfl
  · rfl
  · dsimp only
    split_ifs <;> exact tell_awaited react _ _

theorem handleTemplateReplyCallback_awaited (react : Reaction) (behind : Ptr)
    (clientToken type : List UInt8) (request : Request) (t : Template) :
    awaited (handleTemplateReplyCallback react behind clientToken type request t).1 =
      awaited t := by
  unfold handleTemplateReplyCallback
  split
  · rfl
  · split
    · rfl
    · rfl
    · rename_i replyCode _
      dsimp only
      generalize (if replyCode = 0 then ReplyAck.accepted else ReplyAck.rejected) = status
      generalize hcontrol : (if type = ascii "get_status_reply" ∧ status = .accepted then
        handleGetControl react behind clientToken request t else (t, [])) = control
      have hsame : awaited control.1 = awaited t := by
        rw [← hcontrol]
        split_ifs
        · exact handleGetControl_awaited react behind clientToken request t
        · rfl
      split_ifs
      · exact hsame
      · exact hsame
      · exact (tell_awaited react _ _).trans hsame

theorem onTemplateDownstreamTopicHandler_awaited (env : MessageEnv) (message : Payload)
    (t : Template) : awaited (onTemplateDownstreamTopicHandler env message t).1 = awaited t := by
  have hcontrol : ∀ clientToken t, awaited (handleControlMessage env clientToken t).1 =
      awaited t := by
    intro clientToken t
    unfold handleControlMessage
    split
    · rfl
    · rfl
    · exact tell_awaited env.react _ _
  unfold onTemplateDownstreamTopicHandler handleDownstreamText
  -- a field that is not found ends the handler, an overrun halts the client
  repeat' split
  all_goals first
    | rfl
    | exact hcontrol _ _
    | exact walkNodes_awaited (handleTemplateReplyCallback_awaited env.react env.behind _ _) _ _

theorem onEventReplyCallback_awaited (env : MessageEnv) (message : Payload) (t : Template) :
    awaited (onEventReplyCallback env message t).1 = awaited t := by
  have hreply : ∀ clientToken reply t,
      awaited (handleEventReply env.react clientToken message reply t).1 = awaited t := by
    intro clientToken reply t
    unfold handleEventReply
    split_ifs
    · rfl
    · exact tell_awaited env.react _ t
  unfold onEventReplyCallback
  repeat' split
  all_goals first
    | rfl
    | exact walkNodes_awaited (hreply _) _ t

theorem onActionHandleCallback_awaited (env : MessageEnv) (message : Payload) (t : Template) :
    awaited (onActionHandleCallback env message t).1 = awaited t := by
  have haction : ∀ clientToken actionId timestamp input handler t,
      awaited (handleActionNode env clientToken actionId timestamp input handler t).1 =
        awaited t := by
    intro clientToken actionId timestamp input handler t
    unfold handleActionNode
    split
    · rfl
    · dsimp only
      split_ifs
      · rfl
      · split
        · rfl
        · rfl
        · exact tell_awaited env.react _ _
  unfold onActionHandleCallback
  repeat' split
  all_goals first
    | rfl
    | exact walkNodes_awaited (haction _ _ _ _) _ t

theorem deliverToTemplate_awaited (handler : Option MessageHandler)
    (delivery : MessageEnv × Payload) (t : Template) :
    awaited (deliverToTemplate handler delivery t).1 = awaited t := by
  unfold deliverToTemplate
  split
  · exact onTemplateDownstreamTopicHandler_awaited delivery.1 delivery.2 t
  · exact onEventReplyCallback_awaited delivery.1 delivery.2 t
  · exact onActionHandleCallback_awaited delivery.1 delivery.2 t
  · rfl

end Frame

section Status

theorem templateMqttEventHandler_awaited (react : Reaction) (event : Event) (t : Template) :
    awaited (templateMqttEventHandler react event t).1 =
      (t.mqtt, syncStatusAfter t.syncStatus event) := by
  unfold templateMqttEventHandler
  dsimp only
  split_ifs
  · exact tell_awaited react _ _
  · rfl

/-- Only the events of subscriptions change the status word. -/
theorem handleEvent_awaited (env : TemplateYieldEnv) (event : Event) (t : Template) :
    awaited (handleEvent env event t).1 = (t.mqtt, syncStatusAfter t.syncStatus event) := by
  cases event with
  | mqtt type packetId => exact templateMqttEventHandler_awaited env.react _ t
  | received message => exact templateMqttEventHandler_awaited env.react _ t
  | delivered slot handler userData message => exact deliverToTemplate_awaited _ _ t
  | _ => rfl

/-- A walk over events that does not end in undefined behaviour has handled them all. -/
theorem walkNodes_handleEvent_awaited (env : TemplateYieldEnv) (events : List Event) (t : Template)
    (hruns : (walkNodes (handleEvent env) events t).1.halted = false) :
    awaited (walkNodes (handleEvent env) events t).1 =
      (t.mqtt, events.foldl syncStatusAfter t.syncStatus) := by
  induction events generalizing t with
  | nil => rfl
  | cons event events ih =>
    rw [walkNodes] at hruns ⊢
    split_ifs at hruns ⊢ with hhalted
    · simp [hhalted] at hruns
    · have hrest := ih _ hruns
      have hfirst := handleEvent_awaited env event t
      simp only [awaited, Prod.mk.injEq] at hfirst
      rw [hfirst.1, hfirst.2] at hrest
      exact hrest

theorem iotTemplateYield_mqtt (env : TemplateYieldEnv) (t : Template) :
    (iotTemplateYield env t).rc = (qcloudIotMqttYield env.rounds t.mqtt).1 ∧
      (iotTemplateYield env t).raised = (qcloudIotMqttYield env.rounds t.mqtt).2.2 ∧
      ((iotTemplateYield env t).template.halted = false →
        awaited (iotTemplateYield env t).template =
          ((qcloudIotMqttYield env.rounds t.mqtt).2.1,
            (qcloudIotMqttYield env.rounds t.mqtt).2.2.foldl syncStatusAfter t.syncStatus)) := by
  have hreplies := handleTemplateExpiredReply_awaited env.react env.replyIterOk env.replyClock t
  have hevents := handleTemplateExpiredEvent_awaited env.eventIterOk env.eventClock
    (handleTemplateExpiredReply env.react env.replyIterOk env.replyClock t).1
  rw [hreplies] at hevents
  simp only [awaited, Prod.mk.injEq] at hevents
  unfold iotTemplateYield
  dsimp only
  rw [← hevents.1, ← hevents.2]
  exact ⟨rfl, rfl, walkNodes_handleEvent_awaited env _ _⟩

def subscription : Event → Option (MqttEventType × ℕ)
  | .mqtt .subcribeSuccess packetId => some (.subcribeSuccess, packetId)
  | .mqtt .subcribeTimeout packetId => some (.subcribeTimeout, packetId)
  | .mqtt .subcribeNack packetId => some (.subcribeNack, packetId)
  | _ => none

def answers (events : List Event) : List (MqttEventType × ℕ) := events.filterMap subscription

theorem eq_of_subscription {event : Event} {type : MqttEventType} {packetId : ℕ}
    (h : subscription event = some (type, packetId)) : event = .mqtt type packetId := by
  unfold subscription at h
  split at h <;> simp_all

theorem mem_answers {events : List Event} {type : MqttEventType} {packetId : ℕ}
    (h : subscription (.mqtt type packetId) = some (type, packetId)) :
    (type, packetId) ∈ answers events ↔ .mqtt type packetId ∈ events := by
  rw [answers, List.mem_filterMap]
  constructor
  · rintro ⟨event, hmem, hevent⟩
    exact eq_of_subscription hevent ▸ hmem
  · intro hmem
    exact ⟨_, hmem, h⟩

/-- What the first answer makes of the status word of a wait. -/
def statusAfterAnswers (packetId : ℤ) : List (MqttEventType × ℕ) → ℤ
  | [] => packetId
  | answer :: _ => if answer.1 = .subcribeSuccess then 0 else -1

theorem syncStatusAfter_of_nonpos {syncStatus : ℤ} (h : syncStatus ≤ 0) (event : Event) :
    syncStatusAfter syncStatus event = syncStatus := by
  have hnot : ¬ syncStatus > 0 := by omega
  unfold syncStatusAfter
  split
  · exact if_neg hnot
  · exact if_neg hnot
  · exact if_neg hnot
  · rfl

theorem foldl_syncStatusAfter_of_nonpos {syncStatus : ℤ} (h : syncStatus ≤ 0)
    (events : List Event) : events.foldl syncStatusAfter syncStatus = syncStatus := by
  induction events with
  | nil => rfl
  | cons event events ih => rw [List.foldl_cons, syncStatusAfter_of_nonpos h, ih]

theorem foldl_syncStatusAfter {syncStatus : ℤ} (h : 0 < syncStatus) (events : List Event) :
    events.foldl syncStatusAfter syncStatus = statusAfterAnswers syncStatus (answers events) := by
  induction events with
  | nil => rfl
  | cons event events ih =>
    rw [List.foldl_cons, answers]
    cases hanswer : subscription event with
    | none =>
      have hsame : syncStatusAfter syncStatus event = syncStatus := by
        unfold subscription at hanswer
        unfold syncStatusAfter
        split at hanswer <;> simp_all
      rw [hsame, List.filterMap_cons_none hanswer]
      exact ih
    | some answer =>
      have hsettled : syncStatusAfter syncStatus event = statusAfterAnswers syncStatus
          [answer] := by
        obtain ⟨type, packetId⟩ := answer
        obtain rfl := eq_of_subscription hanswer
        cases type <;> simp [subscription] at hanswer <;>
          simp [syncStatusAfter, statusAfterAnswers, h]
      have hnonpos : statusAfterAnswers syncStatus [answer] ≤ 0 := by
        simp only [statusAfterAnswers]
        split_ifs <;> omega
      rw [hsettled, foldl_syncStatusAfter_of_nonpos hnonpos, List.filterMap_cons_some hanswer]
      rfl

end Status

section Wait

/-- The events that the MQTT client raises, up to the first yield that fails or raises an answer
to a subscription. -/
def waitEvents : List TemplateYieldEnv → Client → List Event
  | [], _ => []
  | env :: envs, c =>
      let mqtt := qcloudIotMqttYield env.rounds c
      if answers mqtt.2.2 = [] ∧ Nonnegative mqtt.1 then mqtt.2.2 ++ waitEvents envs mqtt.2.1
      else mqtt.2.2

theorem waitLoop_halted {packetId : ℕ} {t : Template} (h : t.halted = true)
    (envs : List TemplateYieldEnv) (rc : ReturnCode) :
    (waitLoop packetId envs rc t).template = t := by
  cases envs with
  | nil => rfl
  | cons env envs => rw [waitLoop, if_pos h]

theorem waitLoop_settled {packetId : ℕ} {rc : ReturnCode} {t : Template} (hruns : t.halted = false)
    (h : ¬ (t.syncStatus = packetId ∧ Nonnegative rc)) (envs : List TemplateYieldEnv) :
    waitLoop packetId envs rc t = ⟨true, t, [], []⟩ := by
  cases envs with
  | nil => simp [waitLoop, hruns, h]
  | cons env envs => rw [waitLoop, if_neg (by simp [hruns]), if_neg h]

theorem waitLoop_ended {packetId : ℕ} (envs : List TemplateYieldEnv) (rc : ReturnCode)
    (t : Template)
    (hended : (waitLoop packetId envs rc t).ended = true) :
    (waitLoop packetId envs rc t).template.halted = false := by
  induction envs generalizing rc t with
  | nil =>
    simp only [waitLoop, Bool.and_eq_true, Bool.not_eq_true'] at hended
    exact hended.1
  | cons env envs ih =>
    rw [waitLoop] at hended ⊢
    split_ifs at hended ⊢ with hhalted hwaits
    · exact ih _ _ hended
    · exact Bool.eq_false_iff.mpr hhalted

/-- A wait without undefined behaviour raises the events of the MQTT client, ends if there is an
answer among them, and the first answer decides. -/
theorem waitLoop_spec {packetId : ℕ} (hid : 0 < packetId) (envs : List TemplateYieldEnv)
    (rc : ReturnCode) (t : Template) (hstatus : t.syncStatus = packetId) (hrc : Nonnegative rc)
    (hruns : (waitLoop packetId envs rc t).template.halted = false) :
    (waitLoop packetId envs rc t).raised = waitEvents envs t.mqtt ∧
      (waitLoop packetId envs rc t).template.syncStatus =
        statusAfterAnswers packetId (answers (waitLoop packetId envs rc t).raised) ∧
      (answers (waitLoop packetId envs rc t).raised ≠ [] →
        (waitLoop packetId envs rc t).ended = true) := by
  have hpos : (0 : ℤ) < packetId := Int.natCast_pos.mpr hid
  induction envs generalizing rc t with
  | nil => exact ⟨rfl, hstatus, fun h => absurd rfl h⟩
  | cons env envs ih =>
    by_cases hhalted : t.halted = true
    · rw [waitLoop_halted hhalted, hhalted] at hruns
      cases hruns
    · rw [waitLoop, if_neg hhalted, if_pos ⟨hstatus, hrc⟩] at hruns ⊢
      dsimp only at hruns ⊢
      have hyield : (iotTemplateYield env t).template.halted = false := by
        by_contra hhalted'
        have hhalted' := Bool.not_eq_false _ ▸ hhalted'
        rw [waitLoop_halted hhalted', hhalted'] at hruns
        cases hruns
      obtain ⟨hcode, hraised, hawaited⟩ := iotTemplateYield_mqtt env t
      have hawaited := hawaited hyield
      simp only [awaited, Prod.mk.injEq] at hawaited
      obtain ⟨hmqtt, hsync⟩ := hawaited
      rw [hstatus, foldl_syncStatusAfter hpos, ← hraised] at hsync
      rw [waitEvents, ← hcode, ← hraised, ← hmqtt]
      by_cases hgoes : answers (iotTemplateYield env t).raised = [] ∧
          Nonnegative (iotTemplateYield env t).rc
      · rw [if_pos hgoes, answers, List.filterMap_append, ← answers, ← answers, hgoes.1]
        rw [hgoes.1] at hsync
        obtain ⟨hrest, hsettled, hended⟩ := ih _ _ hsync hgoes.2 hruns
        exact ⟨by rw [hrest], hsettled, hended⟩
      · have hsettled : ¬ ((iotTemplateYield env t).template.syncStatus = packetId ∧
            Nonnegative (iotTemplateYield env t).rc) := by
          rintro ⟨hsame, hrc'⟩
          cases hanswers : answers (iotTemplateYield env t).raised with
          | nil => exact hgoes ⟨hanswers, hrc'⟩
          | cons answer rest =>
            rw [hanswers, statusAfterAnswers] at hsync
            split_ifs at hsync <;> omega
        rw [if_neg hgoes, waitLoop_settled hyield hsettled, List.append_nil]
        exact ⟨rfl, hsync, fun _ => rfl⟩

/-- What the caller of a wait relies on: a success was raised for its own subscription, and
a refusal or a time-out of it is reported. -/
def AnswersFor (packetId : ℕ) (rc : ReturnCode) (raised : List Event) : Prop :=
  (rc = .success → .mqtt .subcribeSuccess packetId ∈ raised) ∧
    (.mqtt .subcribeNack packetId ∈ raised ∨ .mqtt .subcribeTimeout packetId ∈ raised →
      rc = .mqttSub)

/-- If the first answer is a success, then the same yield raises the success of this subscription,
and neither its refusal nor its time-out. -/
def SuccessIsOwn (packetId : ℕ) (events : List Event) : Prop :=
  ((answers events).head?.map Prod.fst = some .subcribeSuccess →
    (.subcribeSuccess, packetId) ∈ answers events ∧ (.subcribeNack, packetId) ∉ answers events ∧
      (.subcribeTimeout, packetId) ∉ answers events)

theorem answersFor_iff (packetId : ℕ) (rc : ReturnCode) (events : List Event) :
    AnswersFor packetId rc events ↔
      (rc = .success → (.subcribeSuccess, packetId) ∈ answers events) ∧
        ((.subcribeNack, packetId) ∈ answers events ∨
          (.subcribeTimeout, packetId) ∈ answers events →
          rc = .mqttSub) := by
  rw [AnswersFor, mem_answers rfl, mem_answers rfl, mem_answers rfl]

/-- The code that a wait returns, by its first answer. -/
theorem templateCheckSubscribe_code {packetId : ℕ} (hid : 0 < packetId)
    (envs : List TemplateYieldEnv) (t : Template) {rc : ReturnCode}
    (hreturn : (templateCheckSubscribe packetId envs t).1 = some rc) :
    (templateCheckSubscribe packetId envs t).2.raised = waitEvents envs t.mqtt ∧
      rc = if (answers (waitEvents envs t.mqtt)).head?.map Prod.fst = some .subcribeSuccess then
        .success else .mqttSub := by
  unfold templateCheckSubscribe at hreturn ⊢
  dsimp only at hreturn ⊢
  split at hreturn
  · cases hreturn
  · rename_i hended
    have hended := waitLoop_ended envs .success { t with syncStatus := packetId }
      (by simpa using hended)
    obtain ⟨hraised, hstatus, -⟩ := waitLoop_spec hid envs .success
      { t with syncStatus := packetId } rfl (.inl rfl) hended
    rw [hraised] at hstatus
    refine ⟨hraised, ?_⟩
    rw [hstatus] at hreturn
    cases hanswers : answers (waitEvents envs t.mqtt) with
    | nil =>
      rw [hanswers, statusAfterAnswers, if_neg (by omega)] at hreturn
      exact (Option.some.inj hreturn).symm
    | cons answer rest =>
      rw [hanswers, statusAfterAnswers] at hreturn
      by_cases hsuccess : answer.1 = .subcribeSuccess
      · simp only [hsuccess, if_true] at hreturn
        simpa [hsuccess] using hreturn.symm
      · rw [if_neg hsuccess, if_neg (by omega)] at hreturn
        simpa [hsuccess] using hreturn.symm

/-- A wait ends when its subscription is answered, and what it returns is about this subscription
exactly if the first answer is no success, or one that comes with its own. -/
theorem templateCheckSubscribe_answers_iff (packetId : ℕ) (hid : 0 < packetId)
    (envs : List TemplateYieldEnv) (t : Template) :
    (answers (templateCheckSubscribe packetId envs t).2.raised ≠ [] →
        (templateCheckSubscribe packetId envs t).2.template.halted = false →
          (templateCheckSubscribe packetId envs t).1 ≠ none) ∧
      ∀ rc, (templateCheckSubscribe packetId envs t).1 = some rc →
        (AnswersFor packetId rc (templateCheckSubscribe packetId envs t).2.raised ↔
          SuccessIsOwn packetId (waitEvents envs t.mqtt)) := by
  constructor
  · intro hanswers hruns
    have hspec := waitLoop_spec hid envs .success { t with syncStatus := packetId } rfl
      (.inl rfl) hruns
    have hended : (templateCheckSubscribe packetId envs t).2.ended = true := hspec.2.2 hanswers
    unfold templateCheckSubscribe at hended ⊢
    dsimp only at hended ⊢
    rw [hended, Bool.not_true, if_neg Bool.false_ne_true]
    split_ifs <;> simp
  · intro rc hreturn
    obtain ⟨hraised, rfl⟩ := templateCheckSubscribe_code hid envs t hreturn
    rw [answersFor_iff, hraised, SuccessIsOwn]
    by_cases hfirst : (answers (waitEvents envs t.mqtt)).head?.map Prod.fst = some .subcribeSuccess
    · rw [if_pos hfirst]
      constructor
      · rintro ⟨hsuccess, hfailure⟩ -
        refine ⟨hsuccess rfl, ?_, ?_⟩
        · intro hnack
          cases hfailure (.inl hnack)
        · intro htimeout
          cases hfailure (.inr htimeout)
      · intro hown
        obtain ⟨hsuccess, hnack, htimeout⟩ := hown hfirst
        refine ⟨fun _ => hsuccess, ?_⟩
        rintro (hmem | hmem)
        · exact absurd hmem hnack
        · exact absurd hmem htimeout
    · rw [if_neg hfirst]
      constructor
      · exact fun _ hfirst' => absurd hfirst' hfirst
      · exact fun _ => ⟨fun h => (by cases h), fun _ => rfl⟩

end Wait

section Pending

/-- A yield of one round, which reads a packet; nothing else happens. -/
def readOnce : TemplateYieldEnv where
  react := fun _ => []
  replyIterOk := true
  replyClock := fun _ => 0
  eventIterOk := true
  eventClock := fun _ => 0
  rounds :=
    [{ reconnect :=
        { now := 0
          connect := ⟨.refused .failure (by decide), [], true, [], [], 0⟩
          resub := calmRequest }
       cycle := cycleWith [.deliver, .deliver, .deliver]
       pubIterOk := true
       pubClock := fun _ => 0
       subIterOk := true
       subClock := fun _ => 0
       keepAlive := ⟨0, fun _ => [], []⟩
       disconnect := []
       randomInterval := 1000
       now := 0 }]
  handlerOf := fun _ => none
  delivery := fun _ => (⟨fun _ => [], true, [], fun _ => none⟩, ⟨[], 0, 0⟩)

/-- A template on a client with two pending subscriptions, 7 and 8, to which these bytes come. -/
def twoPending (arriving : List UInt8) : Template :=
  Template.init (reached 5 5000 true deviceOptions (handshake arriving ++ [subscribeT, subscribeT]))
    false none

/-- The wait for 8 is answered by the SUBACK for 8. -/
theorem templateCheckSubscribe_own :
    answers (waitEvents [readOnce] (twoPending [0x90, 3, 0, 8, 1]).mqtt) = [(.subcribeSuccess, 8)] ∧
      (templateCheckSubscribe 8 [readOnce] (twoPending [0x90, 3, 0, 8, 1])).1 = some .success ∧
      AnswersFor 8 .success
        (templateCheckSubscribe 8 [readOnce] (twoPending [0x90, 3, 0, 8, 1])).2.raised := by
  have hreturn : (templateCheckSubscribe 8 [readOnce] (twoPending [0x90, 3, 0, 8, 1])).1 =
      some .success := by decide
  have hanswers : answers (waitEvents [readOnce] (twoPending [0x90, 3, 0, 8, 1]).mqtt) =
      [(.subcribeSuccess, 8)] := by decide
  refine ⟨hanswers, hreturn, ?_⟩
  apply ((templateCheckSubscribe_answers_iff 8 (by decide) [readOnce] _).2 _ hreturn).mpr
  rw [SuccessIsOwn, hanswers]
  decide

/-- The wait for 8 is ended by the SUBACK for 7. -/
theorem templateCheckSubscribe_other :
    (templateCheckSubscribe 8 [readOnce] (twoPending [0x90, 3, 0, 7, 1])).1 = some .success ∧
      ¬ AnswersFor 8 .success
        (templateCheckSubscribe 8 [readOnce] (twoPending [0x90, 3, 0, 7, 1])).2.raised := by
  have hraised : Event.mqtt .subcribeSuccess 8 ∉
      (templateCheckSubscribe 8 [readOnce] (twoPending [0x90, 3, 0, 7, 1])).2.raised := by decide
  exact ⟨by decide, fun h => hraised (h.1 rfl)⟩

end Pending

end IotExplorer.TemplateSubscribe
