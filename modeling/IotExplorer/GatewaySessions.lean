import IotExplorer.GatewayClient

/-!
A sub-device that is brought online, and the list of the bound sub-devices that is
asked for. Both calls wait in the same loop, in which the handler may take the sessions
away. What a message does to the sessions and to the awaited result is read off its text;
from this follows what a wait ends with.
-/
namespace IotExplorer.GatewaySessions

open Basis.Runs Basis.JsonText JsonParser JsonLookup TemplateJson GatewayClient

section Effects
variable {received : Received} {gateway : Gateway}

/-- The server takes all sub-devices away. -/
def unbindsAll (received : Received) : Bool :=
  (messageType received).any fun type => (ascii "unbind_all").isPrefixOf type

/-- The result that a text with the names of a client holds for the client that waits. -/
def deviceAnswer (waiting text : List UInt8) : Option ℤ :=
  (getJsonResult (text ++ [0])).toOption.join.bind fun result =>
    (getJsonProductId (text ++ [0])).toOption.join.bind fun productId =>
      (getJsonDeviceName (text ++ [0])).toOption.join.bind fun deviceName =>
        if (clientId productId deviceName).length ≤ 80 ∧
            (clientId productId deviceName).isPrefixOf waiting = true then
          some result
        else none

/-- The result of going online that a message holds for the client that waits. -/
def onlineAnswer (waiting : List UInt8) (received : Received) : Option ℤ :=
  (messageType received).bind fun type =>
    if (ascii "online").isPrefixOf type then
      (getJsonDevices received.text).toOption.join.bind fun devices =>
        deviceAnswer waiting (if devices.head? = some openBracket then devices.tail else devices)
    else none

/-- Neither a session that is used after it was removed, nor one that is written beyond. -/
def harmless : Event → Bool
  | .usedAfterFree => false
  | .overflow => false
  | _ => true

theorem halFree_harmless (pointer : Option ℕ) : (halFree pointer).all harmless = true := by
  cases pointer <;> rfl

/-- Of a gateway, the list of bound sub-devices only is another one. -/
def BindsOnly (gateway gateway' : Gateway) : Prop :=
  gateway' = { gateway with bindList := gateway'.bindList, bindNum := gateway'.bindNum }

theorem procDevice_bindsOnly {op : DeviceOp} {alloc : Bool} {productId deviceName : List UInt8}
    {gateway' : Gateway} (h : procDevice op alloc productId deviceName gateway = some gateway') :
    BindsOnly gateway gateway' := by
  have hadd : ∀ {gateway'}, subdevAddBindinfo alloc productId deviceName gateway = some gateway' →
      BindsOnly gateway gateway' := by
    intro gateway' h
    rw [subdevAddBindinfo] at h
    split_ifs at h
    injection h with h
    rw [← h]
    rfl
  cases op with
  | describe => exact hadd h
  | bind => exact hadd h
  | unbind =>
    rw [procDevice, subdevUnbindDevice] at h
    split_ifs at h
    injection h with h
    rw [← h]
    rfl

theorem procEntry_bindsOnly {op : DeviceOp} {alloc : ℕ → Bool} {entry : Entry}
    {loop loop' : Devlist}
    {goesOn : Bool} {events : List Event}
    (h : procEntry op alloc entry loop = .ok ((loop', goesOn), events)) :
    BindsOnly loop.gateway loop'.gateway ∧ events.all harmless = true := by
  rw [procEntry] at h
  dsimp only at h
  split at h
  · cases h
  · cases h
    exact ⟨rfl, halFree_harmless _⟩
  · split at h
    · cases h
    · cases h
      exact ⟨rfl, rfl⟩
    · split at h
      · cases h
        exact ⟨rfl, rfl⟩
      · next hdevice =>
        cases h
        exact ⟨procDevice_bindsOnly hdevice, rfl⟩

theorem procEntries_bindsOnly (op : DeviceOp) (alloc : ℕ → Bool) (ending : Ending)
    (entries : List Entry) (loop : Devlist) :
    BindsOnly loop.gateway (procEntries op alloc ending entries loop).1 ∧
      (procEntries op alloc ending entries loop).2.all harmless = true := by
  induction entries generalizing loop with
  | nil =>
    rw [procEntries]
    refine ⟨rfl, ?_⟩
    split_ifs <;> rfl
  | cons entry entries ih =>
    rw [procEntries]
    split
    · exact ⟨rfl, rfl⟩
    · next hentry =>
      obtain ⟨hbinds, hevents⟩ := procEntry_bindsOnly hentry
      split_ifs
      · obtain ⟨hbinds', hevents'⟩ := ih _
        refine ⟨?_, ?_⟩
        · rw [BindsOnly] at hbinds hbinds' ⊢
          rw [hbinds']
          dsimp only
          rw [hbinds]
        · dsimp only
          rw [List.all_append, hevents, hevents']
          rfl
      · exact ⟨hbinds, hevents⟩

/-- What a message leaves of a gateway for the calls that may wait. -/
structure Effect (sessions : Sessions) (answer : Option ℤ) (gateway : Gateway)
    (handled : Gateway × List Event) : Prop where
  sessions : handled.1.sessionList = sessions
  online : handled.1.online = ⟨answer.getD gateway.online.result, gateway.online.clientId⟩
  getBindlist : handled.1.getBindlist = gateway.getBindlist
  events : handled.2.all harmless = true

/-- A message that only replies, copies and releases. -/
theorem effect_same (gateway : Gateway) {events : List Event} (h : events.all harmless = true) :
    Effect gateway.sessionList none gateway (gateway, events) := ⟨rfl, rfl, rfl, h⟩

/-- The strings of a message around what is done with it. -/
theorem Effect.around {sessions : Sessions} {answer : Option ℤ} {handled : Gateway × List Event}
    (h : Effect sessions answer gateway handled) (s : Str) :
    Effect sessions answer gateway (handled.1, .extracted s :: (handled.2 ++ [.released s])) := by
  refine ⟨h.sessions, h.online, h.getBindlist, ?_⟩
  rw [List.all_cons, List.all_append, h.events]
  rfl

theorem handleResult_effect (type client : List UInt8) (result : ℤ) (gateway : Gateway)
    {events : List Event} (h : events.all harmless = true) :
    Effect gateway.sessionList
      (if (ascii "online").isPrefixOf type = true then
        if client.isPrefixOf gateway.online.clientId = true then some result else none
      else none) gateway (handleResult type client result gateway, events) := by
  rw [handleResult]
  by_cases honline : (ascii "online").isPrefixOf type = true
  · rw [if_pos honline, if_pos honline]
    refine ⟨rfl, ?_, rfl, h⟩
    dsimp only
    rw [ReplyData.answered]
    split_ifs <;> rfl
  · rw [if_neg honline, if_neg honline]
    split_ifs <;> exact ⟨rfl, rfl, rfl, h⟩

theorem handleDevice_effect (type text : List UInt8) (gateway : Gateway) :
    Effect gateway.sessionList
      (if (ascii "online").isPrefixOf type = true then deviceAnswer gateway.online.clientId text
        else none)
      gateway (handleDevice type text gateway) := by
  have hsame : ∀ {events : List Event}, events.all harmless = true →
      deviceAnswer gateway.online.clientId text = none → Effect gateway.sessionList
        (if (ascii "online").isPrefixOf type = true then deviceAnswer gateway.online.clientId text
          else none) gateway (gateway, events) := by
    intro events hevents hnone
    rw [hnone, ite_self]
    exact effect_same gateway hevents
  rw [handleDevice]
  cases hresult : getJsonResult (text ++ [0]) with
  | error e =>
    exact hsame rfl (by rw [deviceAnswer, hresult]; rfl)
  | ok result =>
    cases result with
    | none => exact hsame rfl (by rw [deviceAnswer, hresult]; rfl)
    | some result =>
      dsimp only
      cases hproduct : getJsonProductId (text ++ [0]) with
      | error e => exact hsame rfl (by rw [deviceAnswer, hresult, hproduct]; rfl)
      | ok productId =>
        cases productId with
        | none => exact hsame rfl (by rw [deviceAnswer, hresult, hproduct]; rfl)
        | some productId =>
          dsimp only
          cases hname : getJsonDeviceName (text ++ [0]) with
          | error e => exact hsame rfl (by rw [deviceAnswer, hresult, hproduct, hname]; rfl)
          | ok deviceName =>
            cases deviceName with
            | none => exact hsame rfl (by rw [deviceAnswer, hresult, hproduct, hname]; rfl)
            | some deviceName =>
              have hanswer : deviceAnswer gateway.online.clientId text =
                  if (clientId productId deviceName).length ≤ 80 ∧
                    (clientId productId deviceName).isPrefixOf gateway.online.clientId = true then
                  some result else none := by
                rw [deviceAnswer, hresult, hproduct, hname]
                rfl
              dsimp only
              by_cases hlong : 80 < (clientId productId deviceName).length
              · rw [if_pos hlong]
                exact hsame rfl (hanswer.trans (if_neg fun h => absurd h.1 (Nat.not_le.mpr hlong)))
              · rw [if_neg hlong, hanswer]
                have heffect :=
                  handleResult_effect type (clientId productId deviceName) result gateway
                  (show [Event.extracted .productId, .extracted .deviceName, .released .productId,
                    .released .deviceName].all harmless = true from rfl)
                simpa only [Nat.not_lt.mp hlong, true_and] using heffect

theorem handleDevices_effect (type devices : List UInt8) (received : Received) (gateway : Gateway) :
    Effect gateway.sessionList
      (if (ascii "online").isPrefixOf type = true then
        deviceAnswer gateway.online.clientId
          (if devices.head? = some openBracket then devices.tail else devices)
      else none) gateway (handleDevices type devices received gateway) := by
  rw [handleDevices]
  by_cases hchange : (ascii "change").isPrefixOf type = true
  · have hother : (ascii "online").isPrefixOf type = false := isPrefixOf_other (by decide) hchange
    rw [if_pos hchange, hother, if_neg (by decide)]
    split
    · exact effect_same gateway rfl
    · exact effect_same gateway rfl
    · next status _ =>
      obtain ⟨hbinds, hevents⟩ := procEntries_bindsOnly (if status ≠ 0 then .bind else .unbind)
        received.alloc (forEach .array (devices ++ [0])).ending
        (forEach .array (devices ++ [0])).entries ⟨gateway, none, none, 0, 0⟩
      rw [BindsOnly] at hbinds
      refine ⟨?_, ?_, ?_, ?_⟩
      · dsimp only
        rw [subdevProcDevlist, hbinds]
      · dsimp only
        rw [subdevProcDevlist, hbinds]
        rfl
      · dsimp only
        rw [subdevProcDevlist, hbinds]
      · dsimp only
        rw [subdevProcDevlist, List.all_append, hevents]
        rfl
  · rw [if_neg hchange]
    exact handleDevice_effect type _ gateway

def sessionsAfter (received : Received) (sessions : Sessions) : Sessions :=
  if unbindsAll received then .empty else sessions

theorem handleType_effect {type : List UInt8} {received : Received}
    (htype : messageType received = some type) (gateway : Gateway) :
    Effect (sessionsAfter received gateway.sessionList)
      (onlineAnswer gateway.online.clientId received)
      gateway (handleType type received gateway) := by
  have hanswer : onlineAnswer gateway.online.clientId received =
      if (ascii "online").isPrefixOf type = true then
        (getJsonDevices received.text).toOption.join.bind fun devices =>
          deviceAnswer gateway.online.clientId
            (if devices.head? = some openBracket then devices.tail else devices)
      else none := by
    rw [onlineAnswer, htype]
    rfl
  have hsessions : sessionsAfter received gateway.sessionList =
      if (ascii "unbind_all").isPrefixOf type = true then .empty else gateway.sessionList := by
    rw [sessionsAfter, unbindsAll, htype]
    rfl
  rw [hanswer, hsessions, handleType]
  by_cases hunbind : (ascii "unbind_all").isPrefixOf type = true
  · have hother : (ascii "online").isPrefixOf type = false := isPrefixOf_other (by decide) hunbind
    rw [if_pos hunbind, if_pos hunbind, hother]
    exact ⟨rfl, rfl, rfl, rfl⟩
  rw [if_neg hunbind, if_neg hunbind]
  by_cases hsearch : (ascii "search_devices").isPrefixOf type = true
  · have hother : (ascii "online").isPrefixOf type = false := isPrefixOf_other (by decide) hsearch
    rw [if_pos hsearch, hother, if_neg (by decide)]
    split <;> exact effect_same gateway rfl
  rw [if_neg hsearch]
  by_cases hdescribe : (ascii "describe_sub_devices").isPrefixOf type = true
  · have hother : (ascii "online").isPrefixOf type = false := isPrefixOf_other (by decide) hdescribe
    rw [if_pos hdescribe, hother, if_neg (by decide)]
    exact effect_same gateway rfl
  rw [if_neg hdescribe]
  cases hdevices : getJsonDevices received.text with
  | error e =>
    have hnone := effect_same gateway (show [Event.overrun].all harmless = true from rfl)
    split_ifs <;> exact hnone
  | ok devices =>
    cases devices with
    | none =>
      have hnone := effect_same gateway (show ([] : List Event).all harmless = true from rfl)
      split_ifs <;> exact hnone
    | some devices => exact (handleDevices_effect type devices received gateway).around .devices

/-- What a message leaves of a gateway. -/
theorem handler_effect (received : Received) (gateway : Gateway) :
    Effect (sessionsAfter received gateway.sessionList)
      (onlineAnswer gateway.online.clientId received)
      gateway (gatewayMessageHandler received gateway) := by
  have hidle : messageType received = none → ∀ {events : List Event}, events.all harmless = true →
      Effect (sessionsAfter received gateway.sessionList)
        (onlineAnswer gateway.online.clientId received) gateway (gateway, events) := by
    intro hnone events hevents
    rw [sessionsAfter, unbindsAll, onlineAnswer, hnone]
    exact effect_same gateway hevents
  rw [gatewayMessageHandler]
  by_cases hrefused : received.topicLen = 0 ∨ 1024 < received.payload.length
  · rw [if_pos hrefused]
    exact hidle (by rw [messageType, if_pos hrefused]) rfl
  rw [if_neg hrefused]
  cases htype : getJsonType received.text with
  | error e => exact hidle (by rw [messageType, if_neg hrefused, htype]; rfl) rfl
  | ok type =>
    cases type with
    | none => exact hidle (by rw [messageType, if_neg hrefused, htype]; rfl) rfl
    | some type =>
      have hmessage : messageType received = some type := by
        rw [messageType, if_neg hrefused, htype]
        rfl
      exact (handleType_effect hmessage gateway).around .type

end Effects

section Waits
variable {gateway : Gateway} {waiting : List UInt8}

def sessionsBehind (handled : List Received) (sessions : Sessions) : Sessions :=
  if handled.any unbindsAll then .empty else sessions

theorem sessionsBehind_append (handled handled' : List Received) (sessions : Sessions) :
    sessionsBehind (handled ++ handled') sessions =
      sessionsBehind handled' (sessionsBehind handled sessions) := by
  rw [sessionsBehind, sessionsBehind, sessionsBehind, List.any_append]
  cases handled.any unbindsAll <;> cases handled'.any unbindsAll <;> rfl

def lastAnswer (waiting : List UInt8) : List Received → Option ℤ
  | [] => none
  | received :: rest => (lastAnswer waiting rest).or (onlineAnswer waiting received)

/-- What several messages leave of a gateway. -/
theorem run_effect (messages : List Received) (gateway : Gateway) :
    Effect (sessionsBehind messages gateway.sessionList)
      (lastAnswer gateway.online.clientId messages) gateway
        (run gatewayMessageHandler messages gateway) := by
  induction messages generalizing gateway with
  | nil => exact ⟨rfl, rfl, rfl, rfl⟩
  | cons received messages ih =>
    have hfirst := handler_effect received gateway
    have hrest := ih (gatewayMessageHandler received gateway).1
    have hclient : (gatewayMessageHandler received gateway).1.online.clientId =
        gateway.online.clientId := by rw [hfirst.online]
    have hresult : (gatewayMessageHandler received gateway).1.online.result =
        (onlineAnswer gateway.online.clientId received).getD gateway.online.result := by
      rw [hfirst.online]
    rw [run_cons]
    refine ⟨?_, ?_, hrest.getBindlist.trans hfirst.getBindlist, ?_⟩
    · have hone : sessionsBehind [received] gateway.sessionList =
          sessionsAfter received gateway.sessionList := by
        rw [sessionsBehind, List.any_cons, List.any_nil, Bool.or_false, sessionsAfter]
      have hboth := sessionsBehind_append [received] messages gateway.sessionList
      rw [List.singleton_append, hone] at hboth
      dsimp only
      rw [hrest.sessions, hfirst.sessions, hboth]
    · dsimp only
      rw [hrest.online, hclient, hresult, lastAnswer]
      cases lastAnswer gateway.online.clientId messages <;> rfl
    · dsimp only
      rw [List.all_append, hfirst.events, hrest.events]
      rfl

/-- The result that ends a wait of so many rounds, and the messages that are handled in it. -/
def awaited (waiting : List UInt8) : ℕ → List (List Received) → Option ℤ × List Received
  | 0, _ => (none, [])
  | rounds + 1, arrivals =>
      let messages := arrivals.headD []
      if (lastAnswer waiting messages).getD (-2) = -2 then
        let rest := awaited waiting rounds arrivals.tail
        (rest.1, messages ++ rest.2)
      else (lastAnswer waiting messages, messages)

/-- What a wait for a session leaves of a gateway. -/
theorem wait_effect (rounds : ℕ) (arrivals : List (List Received)) (gateway : Gateway)
    (hresult : gateway.online.result = -2) :
    Effect (sessionsBehind (awaited gateway.online.clientId rounds arrivals).2 gateway.sessionList)
      (awaited gateway.online.clientId rounds arrivals).1 gateway
      (waitForResponse (fun gateway => gateway.online.result) (-2) rounds arrivals gateway) := by
  induction rounds generalizing arrivals gateway with
  | zero => exact ⟨rfl, rfl, rfl, rfl⟩
  | succ rounds ih =>
    have hround := run_effect (arrivals.headD []) gateway
    have hword : (run gatewayMessageHandler (arrivals.headD []) gateway).1.online.result =
        (lastAnswer gateway.online.clientId (arrivals.headD [])).getD (-2) := by
      rw [hround.online, hresult]
    have hclient : (run gatewayMessageHandler (arrivals.headD []) gateway).1.online.clientId =
        gateway.online.clientId := by rw [hround.online]
    rw [waitForResponse, if_neg (not_not.mpr hresult), awaited]
    dsimp only
    by_cases hwaits : (lastAnswer gateway.online.clientId (arrivals.headD [])).getD (-2) = -2
    · rw [if_pos hwaits]
      have hrest := ih arrivals.tail _ (hword.trans hwaits)
      rw [hclient] at hrest
      refine ⟨?_, ?_, hrest.getBindlist.trans hround.getBindlist, ?_⟩
      · dsimp only
        rw [hrest.sessions, hround.sessions, sessionsBehind_append]
      · dsimp only
        rw [hrest.online, hclient, hword, hwaits, hresult]
      · dsimp only
        rw [List.all_append, hround.events, hrest.events]
        rfl
    · rw [if_neg hwaits]
      have hends : ∀ rounds, waitForResponse (fun gateway => gateway.online.result) (-2) rounds
          arrivals.tail (run gatewayMessageHandler (arrivals.headD []) gateway).1 =
            ((run gatewayMessageHandler (arrivals.headD []) gateway).1, []) := by
        intro rounds
        cases rounds with
        | zero => rfl
        | succ rounds =>
          rw [waitForResponse]
          exact if_pos (hword ▸ hwaits)
      rw [hends, List.append_nil]
      exact hround

end Waits

section Online
variable {param : GatewayParam} {alloc published : Bool} {arrivals : List (List Received)}
variable {gateway : Gateway} {session : ℕ} {exit : Exit}

/-- The sessions of the sub-device of a call. -/
def ofDevice (param : GatewayParam) (gateway : Gateway) : List Session :=
  gateway.sessionList.list.filter (Session.named param.subdevProductId param.subdevDeviceName)

/-- A call that succeeds leaves one session of the sub-device, which is online; one that fails
leaves none that was not there before, unless the sub-device was online already; and no session is
used after it was removed or beyond its end. -/
structure OnlineRight (param : GatewayParam) (gateway : Gateway) (exit : Exit) : Prop where
  online : exit.code = some 0 → ∃ session, ofDevice param exit.gateway = [session] ∧
    session.status = .online
  error : ∀ code, exit.code = some code → code ≠ 0 → code ≠ -224 →
    ∀ session ∈ ofDevice param exit.gateway,
      session.address ∈ gateway.sessionList.list.map Session.address
  memory : exit.events.all harmless = true

def NamesGiven (param : GatewayParam) : Prop :=
  ¬ (param.productId = [] ∨ param.deviceName = [] ∨ param.subdevProductId = [] ∨
    param.subdevDeviceName = [])

/-- What the wait of a call ends with, and the messages that are handled in it. -/
def onlineWait (param : GatewayParam) (arrivals : List (List Received)) :
    Option ℤ × List Received :=
  awaited (clientId param.subdevProductId param.subdevDeviceName) 101 arrivals

/-- When a session is added, the names fit and the topic of the request can be written; and when the
request succeeds, the sub-devices have not all been taken away in the wait, and there was no more
than one session of this one. -/
structure OnlineMeets (param : GatewayParam) (alloc published : Bool)
    (arrivals : List (List Received))
    (gateway : Gateway) : Prop where
  starts : NamesGiven param → ofDevice param gateway = [] → alloc = true →
    Fits param.subdevProductId param.subdevDeviceName ∧ (operationTopic param).length ≤ 128
  waits : NamesGiven param → (ofDevice param gateway = [] → alloc = true) →
    (∀ session, (ofDevice param gateway).head? = some session → session.status ≠ .online) →
    (operationTopic param).length ≤ 128 → published = true →
    (onlineWait param arrivals).1 = some 0 →
    (onlineWait param arrivals).2.any unbindsAll = false ∧ (ofDevice param gateway).length ≤ 1

theorem matches_eq_named {productId deviceName : List UInt8} (hfits : Fits productId deviceName) :
    Session.matches productId deviceName = Session.named productId deviceName := by
  funext session
  obtain ⟨hproduct, hname⟩ := session.fits
  rw [Session.matches, Session.named, strncmp, strncmp, List.take_of_length_le hproduct,
    List.take_of_length_le hname, List.take_of_length_le hfits.1, List.take_of_length_le hfits.2]

theorem clientId_length (productId deviceName : List UInt8) :
    (clientId productId deviceName).length = productId.length + deviceName.length + 1 := by
  have hslash : (ascii "/").length = 1 := by decide
  rw [clientId, List.length_append, List.length_append, hslash]
  omega

theorem statusPayload_length (param : GatewayParam) :
    (statusPayload (ascii "online") param).length =
      param.subdevProductId.length + param.subdevDeviceName.length + 76 := by
  have hopen : (ascii "\x7b\"type\":\"").length = 9 := by decide
  have htype : (ascii "online").length = 6 := by decide
  have hproduct : (ascii "\",\"payload\":\x7b\"devices\":[\x7b\"product_id\":\"").length = 39 := by
    decide +kernel
  have hname : (ascii "\",\"device_name\":\"").length = 17 := by decide +kernel
  have hclose : (ascii "\"\x7d]\x7d\x7d").length = 5 := by decide
  rw [statusPayload]
  simp only [List.length_append, hopen, htype, hproduct, hname, hclose]
  omega

theorem find_ofDevice (hnames : NamesGiven param) :
    subdevFindSession param.subdevProductId param.subdevDeviceName gateway.sessionList =
      (ofDevice param gateway).head? := by
  rw [subdevFindSession, if_neg fun h => hnames (.inr (.inr h)), ofDevice, List.head?_filter]

/-- What a published request comes to. -/
theorem publishSync_online (topic payload : List UInt8) (published : Bool)
    (arrivals : List (List Received))
    (gateway : Gateway) (hresult : gateway.online.result = -2) {synced : Exit}
    (hsynced : gatewayPublishSync topic payload (fun gateway => gateway.online.result)
      published arrivals
      gateway = synced) :
    (published = false ∧ synced = ⟨some (-1001), gateway, []⟩) ∨
      (published = true ∧
        Effect (sessionsBehind (awaited gateway.online.clientId 101 arrivals).2 gateway.sessionList)
          (awaited gateway.online.clientId 101 arrivals).1 gateway (synced.gateway, synced.events) ∧
        ((synced.code = some 0 ∧ (awaited gateway.online.clientId 101 arrivals).1 = some 0) ∨
          ((∃ code, synced.code = some code ∧ code ≠ 0) ∧
            (awaited gateway.online.clientId 101 arrivals).1 ≠ some 0))) := by
  rw [gatewayPublishSync] at hsynced
  cases published with
  | false => exact .inl ⟨rfl, hsynced.symm⟩
  | true =>
    right
    have hwait := wait_effect 101 arrivals gateway hresult
    rw [hresult] at hsynced
    generalize waitForResponse (fun gateway => gateway.online.result)
        (-2) 101 arrivals gateway = waited
      at hsynced hwait
    generalize awaited gateway.online.clientId 101 arrivals = ended at hwait ⊢
    subst hsynced
    refine ⟨rfl, ⟨hwait.sessions, hwait.online, hwait.getBindlist, ?_⟩, ?_⟩
    · exact hwait.events
    · dsimp only
      rw [hwait.online, hresult, if_neg (by decide)]
      dsimp only
      cases hanswer : ended.1 with
      | none => exact .inr ⟨⟨-223, rfl, by decide⟩, fun h => Option.noConfusion rfl (heq_of_eq h)⟩
      | some answer =>
        rw [Option.getD_some]
        by_cases hzero : answer = 0
        · rw [hzero]
          exact .inl ⟨rfl, rfl⟩
        · right
          refine ⟨?_, fun h => hzero (Option.some.inj h)⟩
          split_ifs
          · exact ⟨-223, rfl, by decide⟩
          · exact ⟨-1001, rfl, by decide⟩

/-- The request of a call whose names fit. -/
theorem requestOnline_cases (hfits : Fits param.subdevProductId param.subdevDeviceName)
    (hnames : NamesGiven param) (htopic : (operationTopic param).length ≤ 128)
    (hplace : session ∈ gateway.sessionList.list.map Session.address)
    (hexit : requestOnline param published arrivals session gateway = exit) :
    (¬ (published = true ∧ (onlineWait param arrivals).1 = some 0) ∧
        (∃ code, exit.code = some code ∧ code ≠ 0) ∧
        (exit.gateway.sessionList.list = [] ∨ exit.gateway.sessionList.list =
          gateway.sessionList.list.eraseP
            (Session.named param.subdevProductId param.subdevDeviceName)) ∧
        exit.events.all harmless = true) ∨
      ((onlineWait param arrivals).2.any unbindsAll = true ∧ published = true ∧
        (onlineWait param arrivals).1 = some 0 ∧ exit.events.all harmless = false) ∨
      ((onlineWait param arrivals).2.any unbindsAll = false ∧ published = true ∧
        (onlineWait param arrivals).1 = some 0 ∧ exit.code = some 0 ∧
        exit.gateway.sessionList = gateway.sessionList.setOnline session ∧
        exit.events.all harmless = true) := by
  obtain ⟨hproduct, hname⟩ := hfits
  have hclient := clientId_length param.subdevProductId param.subdevDeviceName
  have hpayload := statusPayload_length param
  have hgiven : ¬ (param.subdevProductId = [] ∨ param.subdevDeviceName = []) :=
    fun h => hnames (.inr (.inr h))
  have hremove : ∀ sessions, (subdevRemoveSession param.subdevProductId param.subdevDeviceName
      sessions).list = sessions.list.eraseP
        (Session.named param.subdevProductId param.subdevDeviceName) := by
    intro sessions
    rw [subdevRemoveSession, if_neg hgiven, ← matches_eq_named ⟨hproduct, hname⟩]
  rw [requestOnline] at hexit
  dsimp only at hexit
  rw [if_neg (by omega), if_neg (by omega), if_neg (by omega),
    List.take_of_length_le (by omega)] at hexit
  generalize hsynced : gatewayPublishSync _ _ _ published arrivals _ = synced at hexit
  rcases publishSync_online _ _ published arrivals _ rfl hsynced with
    ⟨hpublished, hsame⟩ | ⟨hpublished, heffect, ⟨hcode, hanswer⟩ | ⟨⟨code, hcode, hne⟩, hanswer⟩⟩
  · -- nothing is published, and the session is removed again
    rw [hsame, if_pos (by simp)] at hexit
    subst hexit
    refine .inl ⟨?_, ⟨-1001, rfl, by decide⟩, .inr (hremove _), rfl⟩
    rw [hpublished]
    exact fun h => Bool.noConfusion h.1
  · -- the sub-device is online
    have hsessions := heffect.sessions
    have hevents := heffect.events
    have hwaits : (onlineWait param arrivals).1 = some 0 := hanswer
    dsimp only at hsessions hevents
    rw [if_neg (not_not.mpr hcode)] at hexit
    right
    cases hunbinds : (onlineWait param arrivals).2.any unbindsAll with
    | true =>
      left
      have hempty : synced.gateway.sessionList = .empty := by
        rw [hsessions, sessionsBehind]
        exact if_pos hunbinds
      have hgone : session ∉ Sessions.empty.list.map Session.address := List.not_mem_nil
      rw [hempty, if_neg hgone] at hexit
      subst hexit
      refine ⟨rfl, hpublished, hwaits, ?_⟩
      rw [List.all_append, Bool.and_eq_false_iff]
      exact .inr rfl
    | false =>
      right
      have hkept : synced.gateway.sessionList = gateway.sessionList := by
        rw [hsessions, sessionsBehind]
        exact if_neg (Bool.eq_false_iff.mp hunbinds)
      rw [hkept, if_pos hplace] at hexit
      subst hexit
      exact ⟨rfl, hpublished, hwaits, hcode, rfl, hevents⟩
  · -- the request fails, and the session is removed again
    have hsessions := heffect.sessions
    dsimp only at hsessions
    rw [if_pos (by rw [hcode]; simpa using hne)] at hexit
    subst hexit
    left
    refine ⟨fun h => hanswer h.2, ⟨code, hcode, hne⟩, ?_, heffect.events⟩
    dsimp only
    rw [hremove, hsessions, sessionsBehind]
    split_ifs
    · exact .inl rfl
    · exact .inr rfl

/-- A call that fails and adds no session. -/
theorem onlineRight_failed (hcode : exit.code ≠ some 0)
    (hsessions : exit.gateway.sessionList.list.Sublist gateway.sessionList.list)
    (hevents : exit.events.all harmless = true) : OnlineRight param gateway exit := by
  refine ⟨fun h => absurd h hcode, ?_, hevents⟩
  intro code _ _ _ session hmem
  exact List.mem_map_of_mem (hsessions.subset (List.mem_of_mem_filter hmem))

/-- The object at a place keeps its names. -/
theorem named_online (productId deviceName : List UInt8) (address : ℕ) :
    Session.named productId deviceName ∘ Session.online address =
      Session.named productId deviceName := by
  funext session
  rw [Function.comp_apply, Session.online]
  split_ifs <;> rfl

/-- The request behind a session that was found, or added. -/
theorem requestOnline_right {sessions : Sessions} {found : Session}
    (hfits : Fits param.subdevProductId param.subdevDeviceName) (hnames : NamesGiven param)
    (htopic : (operationTopic param).length ≤ 128)
    (hmem : found ∈ sessions.list.filter
      (Session.named param.subdevProductId param.subdevDeviceName))
    (herased : (sessions.list.eraseP
      (Session.named param.subdevProductId param.subdevDeviceName)).Sublist
        gateway.sessionList.list) :
    OnlineRight param gateway (requestOnline param published arrivals found.address
        { gateway with sessionList := sessions }) ↔
      (published = true → (onlineWait param arrivals).1 = some 0 →
        (onlineWait param arrivals).2.any unbindsAll = false ∧
          (sessions.list.filter
            (Session.named param.subdevProductId param.subdevDeviceName)).length ≤ 1) := by
  have hplace : found.address ∈ sessions.list.map Session.address :=
    List.mem_map_of_mem (List.mem_of_mem_filter hmem)
  generalize hexit : requestOnline param published arrivals found.address
    { gateway with sessionList := sessions } = exit
  rcases requestOnline_cases hfits hnames htopic hplace hexit with
    ⟨hfails, ⟨code, hcode, hne⟩, hsessions, hevents⟩ | ⟨hunbinds, hpublished, hanswer, hevents⟩ |
    ⟨hunbinds, hpublished, hanswer, hcode, hsessions, hevents⟩
  · refine ⟨fun _ hpublished hanswer => absurd ⟨hpublished, hanswer⟩ hfails, fun _ => ?_⟩
    apply onlineRight_failed
    · rw [hcode]
      exact fun h => hne (Option.some.inj h)
    · rcases hsessions with hsessions | hsessions <;> rw [hsessions]
      · exact List.nil_sublist _
      · exact herased
    · exact hevents
  · constructor
    · intro hright
      rw [hright.memory] at hevents
      cases hevents
    · intro hmeets
      rw [(hmeets hpublished hanswer).1] at hunbinds
      cases hunbinds
  · -- the sessions of the sub-device are those of before, and one of them is online
    have hafter : ofDevice param exit.gateway = (sessions.list.filter
        (Session.named param.subdevProductId param.subdevDeviceName)).map
          (Session.online found.address) := by
      rw [ofDevice, hsessions, Sessions.setOnline, List.filter_map, named_online]
    constructor
    · intro hright _ _
      obtain ⟨session, hone, -⟩ := hright.online hcode
      have hlength := congrArg List.length (hafter.symm.trans hone)
      rw [List.length_map, List.length_singleton] at hlength
      exact ⟨hunbinds, Nat.le_of_eq hlength⟩
    · intro hmeets
      have hone : sessions.list.filter
          (Session.named param.subdevProductId param.subdevDeviceName) = [found] := by
        have hcount := (hmeets hpublished hanswer).2
        generalize sessions.list.filter
          (Session.named param.subdevProductId param.subdevDeviceName) = named at hmem hcount ⊢
        match named, hmem, hcount with
        | [session], hmem, _ => rw [List.mem_singleton.mp hmem]
      refine ⟨fun _ => ⟨found.online found.address, ?_, ?_⟩, ?_, hevents⟩
      · rw [hafter, hone, List.map_singleton]
      · rw [Session.online, if_pos rfl]
      · intro code hcode' hne
        rw [hcode] at hcode'
        exact absurd (Option.some.inj hcode').symm hne

theorem created_named (sessions : Sessions) {productId deviceName : List UInt8}
    (h : Fits productId deviceName) :
    (sessions.created h).named productId deviceName = true := by
  rw [Session.named, Bool.and_eq_true, beq_iff_eq, beq_iff_eq]
  exact ⟨rfl, rfl⟩

theorem requestOnline_long (htopic : 128 < (operationTopic param).length) :
    requestOnline param published arrivals session gateway = ⟨some (-1001), gateway, []⟩ := by
  rw [requestOnline]
  exact if_pos htopic

/-- The request behind a session that was added. -/
theorem requestOnline_added {sessions : Sessions} {added : Session}
    (hlist : sessions.list = added :: gateway.sessionList.list)
    (hnamed : added.named param.subdevProductId param.subdevDeviceName = true)
    (hplace : added.address ∉ gateway.sessionList.list.map Session.address)
    (hfits : Fits param.subdevProductId param.subdevDeviceName) (hnames : NamesGiven param)
    (hnone : ofDevice param gateway = []) :
    OnlineRight param gateway (requestOnline param published arrivals added.address
        { gateway with sessionList := sessions }) ↔
      OnlineMeets param true published arrivals gateway := by
  by_cases htopic : (operationTopic param).length ≤ 128
  · have hone : sessions.list.filter
        (Session.named param.subdevProductId param.subdevDeviceName) = [added] := by
      rw [hlist, List.filter_cons_of_pos hnamed]
      exact congrArg _ hnone
    have herased : (sessions.list.eraseP
        (Session.named param.subdevProductId param.subdevDeviceName)).Sublist
          gateway.sessionList.list := by
      rw [hlist, List.eraseP_cons_of_pos hnamed]
    rw [requestOnline_right hfits hnames htopic (hone ▸ List.mem_singleton_self added) herased,
      hone]
    constructor
    · intro hmeets
      refine ⟨fun _ _ _ => ⟨hfits, htopic⟩, fun _ _ _ _ hpublished hanswer => ?_⟩
      rw [hnone]
      exact ⟨(hmeets hpublished hanswer).1, Nat.zero_le _⟩
    · intro hmeets hpublished hanswer
      refine ⟨(hmeets.waits hnames (fun _ => rfl) ?_ htopic hpublished hanswer).1, Nat.le_refl _⟩
      intro session h
      rw [hnone] at h
      cases h
  · -- the session that was added is left
    rw [requestOnline_long (Nat.not_le.mp htopic)]
    constructor
    · intro hright
      have hmem : added ∈ ofDevice param { gateway with sessionList := sessions } := by
        rw [ofDevice, hlist]
        exact List.mem_filter.mpr ⟨List.mem_cons_self .., hnamed⟩
      exact absurd (hright.error (-1001) rfl (by decide) (by decide) added hmem) hplace
    · intro hmeets
      exact absurd (hmeets.starts hnames hnone rfl).2 htopic

/-- Exactly these calls do what is promised. -/
theorem subdevOnline_right_iff (param : GatewayParam) (alloc published : Bool)
    (arrivals : List (List Received)) (gateway : Gateway) :
    OnlineRight param gateway (subdevOnline param alloc published arrivals gateway) ↔
      OnlineMeets param alloc published arrivals gateway := by
  by_cases hnames : NamesGiven param
  · have hgiven : ¬ (param.subdevProductId = [] ∨ param.subdevDeviceName = []) :=
      fun h => hnames (.inr (.inr h))
    rw [subdevOnline, if_neg hnames, find_ofDevice hnames]
    cases hfound : (ofDevice param gateway).head? with
    | none =>
      have hnone : ofDevice param gateway = [] := List.head?_eq_none_iff.mp hfound
      dsimp only
      rw [subdevAddSession, if_neg hgiven]
      cases alloc with
      | false =>
        -- no object
        rw [if_pos (by decide)]
        refine ⟨fun _ => ⟨fun _ _ h => Bool.noConfusion h, fun _ h => Bool.noConfusion (h hnone)⟩,
          fun _ => ?_⟩
        exact onlineRight_failed (by simp) (List.Sublist.refl _) rfl
      | true =>
        rw [if_neg (by decide)]
        by_cases hfits : Fits param.subdevProductId param.subdevDeviceName
        · rw [dif_pos hfits]
          exact requestOnline_added rfl
            (created_named _ hfits) gateway.sessionList.place_notMem hfits
            hnames hnone
        · rw [dif_neg hfits]
          constructor
          · intro hright
            exact Bool.noConfusion hright.memory
          · intro hmeets
            exact absurd (hmeets.starts hnames hnone rfl).1 hfits
    | some session =>
      have hmem : session ∈ ofDevice param gateway := List.mem_of_head? hfound
      have hfits : Fits param.subdevProductId param.subdevDeviceName := by
        have hnamed := (List.mem_filter.mp hmem).2
        rw [Session.named, Bool.and_eq_true, beq_iff_eq, beq_iff_eq] at hnamed
        rw [← hnamed.1, ← hnamed.2]
        exact session.fits
      have hsome : ofDevice param gateway ≠ [] := List.ne_nil_of_mem hmem
      dsimp only
      by_cases honline : session.status = .online
      · -- the sub-device is online already
        rw [if_pos honline]
        constructor
        · intro _
          exact ⟨fun _ h => absurd h hsome, fun _ _ h => absurd honline (h session hfound)⟩
        · intro _
          exact onlineRight_failed (by simp) (List.Sublist.refl _) rfl
      rw [if_neg honline]
      by_cases htopic : (operationTopic param).length ≤ 128
      · rw [@requestOnline_right _ _ _ gateway gateway.sessionList session hfits hnames htopic hmem
          List.eraseP_sublist]
        constructor
        · intro hmeets
          exact ⟨fun _ h => absurd h hsome,
            fun _ _ _ _ hpublished hanswer => hmeets hpublished hanswer⟩
        · intro hmeets hpublished hanswer
          refine hmeets.waits hnames (fun h => absurd h hsome) ?_ htopic hpublished hanswer
          intro session' h
          rw [hfound] at h
          rwa [← Option.some.inj h]
      · rw [requestOnline_long (Nat.not_le.mp htopic)]
        constructor
        · intro _
          exact ⟨fun _ h => absurd h hsome, fun _ _ _ h => absurd h htopic⟩
        · intro _
          exact onlineRight_failed (by simp) (List.Sublist.refl _) rfl
  · rw [subdevOnline, if_pos (not_not.mp hnames)]
    refine ⟨fun _ => ⟨fun h => absurd h hnames, fun h => absurd h hnames⟩, fun _ => ?_⟩
    exact onlineRight_failed (by simp) (List.Sublist.refl _) rfl

/-- A message with so much payload, for which nothing is allocated in vain. -/
def message (payload : List UInt8) : Received := ⟨1, payload, fun _ => true⟩

def lamp : GatewayParam := ⟨ascii "G", ascii "g", ascii "P", ascii "d"⟩

/-- All sub-devices are taken away, and then one is online. -/
def takenAway : List (List Received) :=
  [[message (ascii "\x7b\"type\":" ++ ascii "\"unbind_all\"\x7d"),
    message (ascii "\x7b\"type\":\"online\"," ++ ascii "\"payload\":\x7b\"devices\":" ++
      ascii "[\x7b\"result\":0," ++ ascii "\"product_id\":\"P\"," ++
      ascii "\"device_name\":\"d\"\x7d]\x7d\x7d")]]

/-- The session is used after it was removed. -/
theorem subdevOnline_takenAway : ¬ ∀ (param : GatewayParam) (alloc published : Bool)
    (arrivals : List (List Received)) (gateway : Gateway),
    OnlineRight param gateway (subdevOnline param alloc published arrivals gateway) := by
  intro hall
  have hmemory := (hall lamp true true takenAway construct).memory
  have hused : (subdevOnline lamp true true takenAway construct).events.all harmless = false := by
    decide +kernel
  rw [hused] at hmemory
  cases hmemory

end Online

section BindLists
variable {param : GatewayParam} {published : Bool} {arrivals : List (List Received)}
  {gateway : Gateway}

def listedDevices (received : Received) : Option (List UInt8) :=
  (messageType received).bind fun type =>
    if (ascii "describe_sub_devices").isPrefixOf type
      then (getJsonDevices received.text).toOption.join
    else none

/-- The lists that arrive while the request is waited for. -/
def repliesInWait (param : GatewayParam) (published : Bool) (arrivals : List (List Received)) :
    List (List UInt8) :=
  if published ∧ (operationTopic param).length ≤ 128 then
    (arrivals.take 101).flatten.filterMap listedDevices
  else []

def namedDevice (entry : Entry) : Option BindInfo :=
  (getJsonProductId (entry.val.set entry.valLen 0)).toOption.join.bind fun productId =>
    (getJsonDeviceName (entry.val.set entry.valLen 0)).toOption.join.map fun deviceName =>
      bindInfo productId deviceName

def devicesOf (devices : List UInt8) : List BindInfo :=
  ((forEach .array (devices ++ [0])).entries.filterMap namedDevice).dedup

/-- A list that arrives is handed over with its length, and without one the call fails. -/
structure BindListRight (replies : List (List UInt8)) (got : Exit × Option (List BindInfo × ℤ)) :
    Prop where
  listed : ∀ devices, replies.head? = some devices → got.1.code = some 0 ∧
    ∃ list, got.2 = some (list, (list.length : ℤ)) ∧ list.Perm (devicesOf devices)
  silent : replies = [] → ∃ code, got.1.code = some code ∧ code ≠ 0

theorem wait_getBindlist (word : Gateway → ℤ) (res : ℤ) (rounds : ℕ)
    (arrivals : List (List Received))
    (gateway : Gateway) :
    (waitForResponse word res rounds arrivals gateway).1.getBindlist = gateway.getBindlist := by
  induction rounds generalizing arrivals gateway with
  | zero => rfl
  | succ rounds ih =>
    rw [waitForResponse]
    split_ifs
    · rfl
    · exact (ih _ _).trans (run_effect _ gateway).getBindlist

/-- No message answers the request, so that it fails in the end. -/
theorem subdevGetBindList_fails (param : GatewayParam) (published : Bool)
    (arrivals : List (List Received)) (gateway : Gateway) :
    (subdevGetBindList param published arrivals gateway).1.code = some (-1001) := by
  rw [subdevGetBindList]
  dsimp only
  split_ifs with htopic hpayload hcode
  · rfl
  · rfl
  · -- the result that is returned is the one that was set in front of the wait
    rw [gatewayPublishSync]
    dsimp only
    cases published with
    | false => rfl
    | true =>
      rw [if_neg (by decide), wait_getBindlist]
  · rw [gatewayPublishSync] at hcode
    dsimp only at hcode
    cases published with
    | false => exact absurd (by simp) hcode
    | true =>
      rw [if_neg (by decide), wait_getBindlist, if_pos rfl] at hcode
      exact absurd (by simp) hcode

/-- A list is never handed over. -/
theorem subdevGetBindList_right_iff (param : GatewayParam) (published : Bool)
    (arrivals : List (List Received)) (gateway : Gateway) :
    BindListRight (repliesInWait param published arrivals)
        (subdevGetBindList param published arrivals gateway) ↔
      repliesInWait param published arrivals = [] := by
  have hcode := subdevGetBindList_fails param published arrivals gateway
  constructor
  · intro hright
    cases hreplies : repliesInWait param published arrivals with
    | nil => rfl
    | cons devices replies =>
      have hsuccess := (hright.listed devices (by rw [hreplies]; rfl)).1
      rw [hcode] at hsuccess
      exact absurd (Option.some.inj hsuccess) (by decide)
  · intro hnone
    refine ⟨?_, fun _ => ⟨-1001, hcode, by decide⟩⟩
    intro devices h
    rw [hnone] at h
    cases h

def oneListed : List (List Received) :=
  [[message (ascii "\x7b\"type\":\"describe_sub_" ++ ascii "devices\"," ++
    ascii "\"payload\":\x7b" ++
    ascii "\"devices\":[\x7b" ++ ascii "\"product_id\":\"P\"," ++
    ascii "\"device_name\":\"d\"\x7d]\x7d\x7d")]]

theorem subdevGetBindList_oneListed : ¬ ∀ (param : GatewayParam) (published : Bool)
    (arrivals : List (List Received)) (gateway : Gateway),
    BindListRight (repliesInWait param published arrivals)
      (subdevGetBindList param published arrivals gateway) := by
  intro hall
  have hright := hall lamp true oneListed construct
  have hreplies : (repliesInWait lamp true oneListed).head? =
      some (ascii "[\x7b\"product_id\":\"P\"," ++ ascii "\"device_name\":\"d\"\x7d]") := by
    decide +kernel
  have hsuccess := (hright.listed _ hreplies).1
  rw [subdevGetBindList_fails] at hsuccess
  exact absurd (Option.some.inj hsuccess) (by decide)

end BindLists

end IotExplorer.GatewaySessions
