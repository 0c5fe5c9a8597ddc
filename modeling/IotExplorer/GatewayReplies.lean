import IotExplorer.GatewaySessions

/-!
The operations on a sub-device that wait for a reply of the server: going online or
offline, being bound or unbound. An operation keeps the text of its product and device
name; the handler compares no more of it than the text that it makes of a reply has, and no
more of the type than the word of the operation has.
-/
namespace IotExplorer.GatewayReplies

open Basis.Runs Basis.JsonText JsonParser JsonLookup TemplateJson GatewayClient GatewaySessions

section Operations

inductive Operation
  | online
  | offline
  | bind
  | unbind
  deriving DecidableEq, Repr

def Operation.word : Operation → List UInt8
  | .online => ascii "online"
  | .offline => ascii "offline"
  | .bind => ascii "bind"
  | .unbind => ascii "unbind"

/-- What a gateway keeps for an operation. -/
def Operation.data (gateway : Gateway) : Operation → ReplyData
  | .online => gateway.online
  | .offline => gateway.offline
  | .bind => gateway.bind
  | .unbind => gateway.unbind

def Operation.set (gateway : Gateway) (data : ReplyData) : Operation → Gateway
  | .online => { gateway with online := data }
  | .offline => { gateway with offline := data }
  | .bind => { gateway with bind := data }
  | .unbind => { gateway with unbind := data }

/-- A sub-device, whose names fit into the arrays for them. -/
structure Device where
  productId : List UInt8
  deviceName : List UInt8
  fits : Fits productId deviceName

def Device.client (device : Device) : List UInt8 := clientId device.productId device.deviceName

/-- The gateway from which an operation on a sub-device is published. -/
def pend (operation : Operation) (device : Device) (gateway : Gateway) : Gateway :=
  operation.set gateway ⟨-2, device.client.take 79⟩

/-- `IOT_Gateway_Subdev_Offline`. -/
def subdevOffline (param : GatewayParam) (published : Bool) (arrivals : List (List Received))
    (gateway : Gateway) : Exit :=
  if param.productId = [] ∨ param.deviceName = [] ∨ param.subdevProductId = [] ∨
      param.subdevDeviceName = [] then
    ⟨some (-1002), gateway, []⟩
  else
    match subdevFindSession param.subdevProductId param.subdevDeviceName gateway.sessionList with
    | none => ⟨some (-222), gateway, []⟩
    | some session =>
        let remove := subdevRemoveSession param.subdevProductId param.subdevDeviceName
        let topic := operationTopic param
        let payload := statusPayload (ascii "offline") param
        let client := clientId param.subdevProductId param.subdevDeviceName
        if session.status = .offline then
          ⟨some (-225), { gateway with sessionList := remove gateway.sessionList }, []⟩
        else if 128 < topic.length then ⟨some (-1001), gateway, []⟩
        else if 1024 < payload.length then ⟨some (-1001), gateway, []⟩
        else
          let named := { gateway with offline.clientId := client.take 79 }
          if 80 < client.length then ⟨some (-1001), named, []⟩
          else
            let synced := gatewayPublishSync topic payload (fun gateway => gateway.offline.result)
              published arrivals { named with offline.result := -2 }
            let sessions := synced.gateway.sessionList
            if synced.code ≠ some 0 then synced
            else if session.address ∈ sessions.list.map Session.address then
              { synced with gateway := { synced.gateway with sessionList := remove sessions } }
            else { synced with events := synced.events ++ [.usedAfterFree] }

/-- The payload of `IOT_Gateway_Subdev_Bind`, with the signature and what it was made over. -/
def bindPayload (device : Device) (sign : List UInt8) (nonce timestamp : ℤ) : List UInt8 :=
  ascii "\x7b\"type\":\"bind\",\"payload\":\x7b\"devices\":[\x7b\"product_id\":\"" ++
    (device.productId ++ (ascii "\",\"device_name\":\"" ++ (device.deviceName ++
      (ascii "\",\"signature\":\"" ++ (sign ++ (ascii "\",\"random\":" ++
        (ascii (toString nonce) ++ (ascii ",\"timestamp\":" ++ (ascii (toString timestamp) ++
          ascii ",\"signmethod\":\"hmacsha1\",\"authtype\":\"psk\"\x7d]\x7d\x7d")))))))))

/-- `IOT_Gateway_Subdev_Bind` and `IOT_Gateway_Subdev_Unbind` behind their payloads. -/
def requestBinding (operation : Operation) (device : Device) (topic payload : List UInt8)
    (published : Bool) (arrivals : List (List Received)) (gateway : Gateway) : Exit :=
  if 128 < topic.length then ⟨some (-1001), gateway, []⟩
  else if 1024 < payload.length then ⟨some (-1001), gateway, []⟩
  else
    let named := operation.set gateway ⟨(operation.data gateway).result, device.client.take 79⟩
    if 80 < device.client.length then ⟨some (-1001), named, []⟩
    else
      let synced :=
        gatewayPublishSync topic payload (fun gateway => (operation.data gateway).result)
        published arrivals (operation.set named ⟨-2, (operation.data named).clientId⟩)
      if synced.code ≠ some 0 then
        { synced with code := some (operation.data synced.gateway).result }
      else synced

/-- `IOT_Gateway_Subdev_Bind`; there may be no signature. -/
def subdevBind (param : GatewayParam) (device : Device) (sign : Option (List UInt8))
    (nonce timestamp : ℤ) (published : Bool) (arrivals : List (List Received)) (gateway : Gateway) :
    Exit :=
  if 128 < (operationTopic param).length then ⟨some (-1001), gateway, []⟩
  else
    match sign with
    | none => ⟨some (-1001), gateway, []⟩
    | some sign =>
        requestBinding .bind device (operationTopic param) (bindPayload device sign nonce timestamp)
          published arrivals gateway

/-- `IOT_Gateway_Subdev_Unbind`. -/
def subdevUnbind (param : GatewayParam) (device : Device) (published : Bool)
    (arrivals : List (List Received)) (gateway : Gateway) : Exit :=
  requestBinding .unbind device (operationTopic param)
    (statusPayload (ascii "unbind")
      { param with subdevProductId := device.productId, subdevDeviceName := device.deviceName })
    published arrivals gateway

end Operations

section Replies

structure DeviceReply where
  type : List UInt8
  productId : List UInt8
  deviceName : List UInt8
  result : ℤ
  deriving DecidableEq, Repr

def deviceText (devices : List UInt8) : List UInt8 :=
  if devices.head? = some openBracket then devices.tail else devices

/-- The names and the result in a text of a sub-device. -/
def namedReply (type text : List UInt8) : Option DeviceReply :=
  (getJsonResult (text ++ [0])).toOption.join.bind fun result =>
    (getJsonProductId (text ++ [0])).toOption.join.bind fun productId =>
      (getJsonDeviceName (text ++ [0])).toOption.join.map fun deviceName =>
        ⟨type, productId, deviceName, result⟩

def replyOf (received : Received) : Option DeviceReply :=
  (messageType received).bind fun type =>
    (getJsonDevices received.text).toOption.join.bind fun devices =>
      namedReply type (deviceText devices)

/-- The reply is of the type of an operation and names its sub-device. -/
def Answers (operation : Operation) (device : Device) (reply : DeviceReply) : Prop :=
  reply.type = operation.word ∧ reply.productId = device.productId ∧
    reply.deviceName = device.deviceName

instance (operation : Operation) (device : Device) (reply : DeviceReply) :
    Decidable (Answers operation device reply) := inferInstanceAs (Decidable (_ ∧ _))

/-- The result of an answer is stored, and nothing else is. -/
def StoredRight (operation : Operation) (device : Device) (gateway : Gateway)
    (received : Received) :
    Prop :=
  operation.data (gatewayMessageHandler received gateway).1 =
    match replyOf received with
    | some reply =>
        if Answers operation device reply then
          { operation.data gateway with result := reply.result }
        else operation.data gateway
    | none => operation.data gateway

/-- A type that the handler takes for an operation. -/
def TakenFor (operation : Operation) (type : List UInt8) : Prop :=
  operation.word <+: type ∧ ¬ ascii "unbind_all" <+: type

instance (operation : Operation) (type : List UInt8) : Decidable (TakenFor operation type) :=
  inferInstanceAs (Decidable (_ ∧ ¬ _))

/-- No reply of another type begins with the word of the operation, and none of another sub-device
has a text of its names that the one of the sub-device begins with, unless its result is there. -/
def Distinct (operation : Operation) (device : Device) (gateway : Gateway) (received : Received) :
    Prop :=
  ∀ reply, replyOf received = some reply → TakenFor operation reply.type →
    clientId reply.productId reply.deviceName <+: device.client →
    Answers operation device reply ∨ reply.result = (operation.data gateway).result

end Replies

section Words
variable {operation : Operation} {type : List UInt8}

theorem isPrefixOf_iff {word text : List UInt8} : word.isPrefixOf text = true ↔ word <+: text :=
  List.isPrefixOf_iff_prefix

/-- A text that begins with one word does not begin with another that they do not share. -/
theorem not_prefix_of {word word' text : List UInt8} (h : word <+: text)
    (hne : ¬ word <+: word' ∧ ¬ word' <+: word) : ¬ word' <+: text := by
  intro h'
  rcases List.prefix_or_prefix_of_prefix h h' with hle | hle
  · exact hne.1 hle
  · exact hne.2 hle

/-- The word of no operation is the beginning of that of another. -/
theorem words_apart {operation' : Operation} (hne : operation ≠ operation') :
    ¬ operation.word <+: operation'.word ∧ ¬ operation'.word <+: operation.word := by
  revert hne
  cases operation <;> cases operation' <;> decide

theorem handleResult_data (operation : Operation) (type client : List UInt8) (result : ℤ)
    (gateway : Gateway) : operation.data (handleResult type client result gateway) =
      if operation.word <+: type then (operation.data gateway).answered client result
      else operation.data gateway := by
  unfold handleResult
  simp only [isPrefixOf_iff]
  by_cases hword : operation.word <+: type
  · have hother : ∀ operation' : Operation, operation ≠ operation' → ¬ operation'.word <+: type :=
      fun operation' hne => not_prefix_of hword (words_apart hne)
    rw [if_pos hword]
    cases operation with
    | online =>
      rw [if_pos (show ascii "online" <+: type from hword)]
      rfl
    | offline =>
      rw [if_neg (show ¬ ascii "online" <+: type from hother .online (by decide)),
        if_pos (show ascii "offline" <+: type from hword)]
      rfl
    | bind =>
      rw [if_neg (show ¬ ascii "online" <+: type from hother .online (by decide)),
        if_neg (show ¬ ascii "offline" <+: type from hother .offline (by decide)),
        if_pos (show ascii "bind" <+: type from hword)]
      rfl
    | unbind =>
      rw [if_neg (show ¬ ascii "online" <+: type from hother .online (by decide)),
        if_neg (show ¬ ascii "offline" <+: type from hother .offline (by decide)),
        if_neg (show ¬ ascii "bind" <+: type from hother .bind (by decide)),
        if_pos (show ascii "unbind" <+: type from hword)]
      rfl
  · rw [if_neg hword]
    cases operation with
    | online =>
      rw [if_neg (show ¬ ascii "online" <+: type from hword)]
      split_ifs <;> rfl
    | offline =>
      rw [if_neg (show ¬ ascii "offline" <+: type from hword)]
      split_ifs <;> rfl
    | bind =>
      rw [if_neg (show ¬ ascii "bind" <+: type from hword)]
      split_ifs <;> rfl
    | unbind =>
      rw [if_neg (show ¬ ascii "unbind" <+: type from hword)]
      split_ifs <;> rfl

end Words

section Handler
variable {operation : Operation} {device : Device} {received : Received} {gateway : Gateway}

/-- What the handler makes of a reply that it reads. -/
def afterReply (operation : Operation) (gateway : Gateway) : Option DeviceReply → ReplyData
  | none => operation.data gateway
  | some reply =>
      if TakenFor operation reply.type ∧
          (clientId reply.productId reply.deviceName).length ≤ 80 then
        (operation.data gateway).answered (clientId reply.productId reply.deviceName) reply.result
      else operation.data gateway

theorem handleDevice_data (type text : List UInt8) (hall : ¬ ascii "unbind_all" <+: type) :
    operation.data (handleDevice type text gateway).1 =
      afterReply operation gateway (namedReply type text) := by
  unfold handleDevice namedReply
  dsimp only
  rcases getJsonResult (text ++ [0]) with e | _ | result
  · rfl
  · rfl
  rcases getJsonProductId (text ++ [0]) with e | _ | productId
  · rfl
  · rfl
  rcases getJsonDeviceName (text ++ [0]) with e | _ | deviceName
  · rfl
  · rfl
  change operation.data (if 80 < (clientId productId deviceName).length then gateway
    else handleResult type (clientId productId deviceName) result gateway) =
    if TakenFor operation type ∧ (clientId productId deviceName).length ≤ 80 then
      (operation.data gateway).answered (clientId productId deviceName) result
    else operation.data gateway
  by_cases hlong : 80 < (clientId productId deviceName).length
  · rw [if_pos hlong, if_neg fun h => absurd h.2 (Nat.not_le.mpr hlong)]
  · rw [if_neg hlong, handleResult_data]
    by_cases hword : operation.word <+: type
    · rw [if_pos hword, if_pos ⟨⟨hword, hall⟩, Nat.not_lt.mp hlong⟩]
    · rw [if_neg hword, if_neg fun h => hword h.1.1]

/-- A list of devices leaves the data of the operations. -/
theorem subdevProcDevlist_data (op : DeviceOp) (alloc : ℕ → Bool) (devices : List UInt8) :
    operation.data (subdevProcDevlist op alloc devices gateway).1 = operation.data gateway := by
  obtain ⟨hbinds, -⟩ := procEntries_bindsOnly op alloc (forEach .array (devices ++ [0])).ending
    (forEach .array (devices ++ [0])).entries ⟨gateway, none, none, 0, 0⟩
  rw [BindsOnly] at hbinds
  rw [subdevProcDevlist, hbinds]
  cases operation <;> rfl

/-- A reply of a type for something else. -/
theorem afterReply_other {type : List UInt8} (hother : ¬ TakenFor operation type)
    (reply : Option DeviceReply) (htype : ∀ r ∈ reply, r.type = type) :
    afterReply operation gateway reply = operation.data gateway := by
  cases reply with
  | none => rfl
  | some reply =>
    rw [afterReply, htype reply rfl, if_neg fun h => hother h.1]

theorem namedReply_type {type text : List UInt8} : ∀ r ∈ namedReply type text, r.type = type := by
  intro reply hreply
  simp only [namedReply, Option.mem_def, Option.bind_eq_some_iff, Option.map_eq_some_iff] at hreply
  obtain ⟨_, -, _, -, _, -, rfl⟩ := hreply
  rfl

/-- The first word of a type that is not one of an operation. -/
theorem not_taken {word type : List UInt8} (h : word <+: type)
    (hne : ∀ operation : Operation, ¬ word <+: operation.word ∧ ¬ operation.word <+: word) :
    ¬ TakenFor operation type := fun htaken => not_prefix_of h (hne operation) htaken.1

theorem handleDevices_data (type devices : List UInt8) (hall : ¬ ascii "unbind_all" <+: type) :
    operation.data (handleDevices type devices received gateway).1 =
      afterReply operation gateway (namedReply type (deviceText devices)) := by
  unfold handleDevices
  simp only [isPrefixOf_iff]
  by_cases hchange : ascii "change" <+: type
  · have hother : ¬ TakenFor operation type := not_taken hchange fun operation => by
      cases operation <;> decide
    rw [if_pos hchange, afterReply_other hother _ namedReply_type]
    rcases getJsonPayloadStatus received.text with e | _ | status
    · rfl
    · rfl
    · exact subdevProcDevlist_data _ _ devices
  · rw [if_neg hchange]
    exact handleDevice_data type (deviceText devices) hall

/-- What a message of a type makes of the data of an operation. -/
theorem handleType_data (type : List UInt8) :
    operation.data (handleType type received gateway).1 = afterReply operation gateway
      ((getJsonDevices received.text).toOption.join.bind fun devices =>
        namedReply type (deviceText devices)) := by
  have hreply : ¬ TakenFor operation type → afterReply operation gateway
      ((getJsonDevices received.text).toOption.join.bind fun devices =>
        namedReply type (deviceText devices)) = operation.data gateway := by
    intro hother
    refine afterReply_other hother _ fun reply hreply => ?_
    obtain ⟨devices, -, hnamed⟩ := Option.bind_eq_some_iff.mp hreply
    exact namedReply_type reply hnamed
  unfold handleType
  simp only [isPrefixOf_iff]
  by_cases hall : ascii "unbind_all" <+: type
  · rw [if_pos hall, hreply fun h => h.2 hall]
    cases operation <;> rfl
  rw [if_neg hall]
  by_cases hsearch : ascii "search_devices" <+: type
  · have hother : ¬ TakenFor operation type := not_taken hsearch fun operation => by
      cases operation <;> decide
    rw [if_pos hsearch, hreply hother]
    rcases getJsonPayloadStatus received.text with e | _ | status <;> rfl
  rw [if_neg hsearch]
  by_cases hdescribe : ascii "describe_sub_devices" <+: type
  · have hother : ¬ TakenFor operation type := not_taken hdescribe fun operation => by
      cases operation <;> decide
    rw [if_pos hdescribe, hreply hother]
  rw [if_neg hdescribe]
  rcases getJsonDevices received.text with e | _ | devices
  · rfl
  · rfl
  · exact handleDevices_data type devices hall

/-- What a message makes of the data of an operation. -/
theorem handler_data (operation : Operation) (received : Received) (gateway : Gateway) :
    operation.data (gatewayMessageHandler received gateway).1 =
      afterReply operation gateway (replyOf received) := by
  unfold gatewayMessageHandler replyOf messageType
  by_cases hrefused : received.topicLen = 0 ∨ 1024 < received.payload.length
  · rw [if_pos hrefused, if_pos hrefused]
    rfl
  rw [if_neg hrefused, if_neg hrefused]
  rcases getJsonType received.text with e | _ | type
  · rfl
  · rfl
  · exact handleType_data type

/-- The operation waits for a reply on the sub-device. -/
def Pending (operation : Operation) (device : Device) (gateway : Gateway) : Prop :=
  (operation.data gateway).clientId = device.client

theorem client_length (device : Device) : device.client.length ≤ 59 := by
  have hfits := device.fits
  rw [Device.client, clientId_length]
  unfold Fits at hfits
  omega

theorem pend_pending (operation : Operation) (device : Device) (gateway : Gateway) :
    Pending operation device (pend operation device gateway) := by
  have hlen := client_length device
  have htake : device.client.take 79 = device.client := List.take_of_length_le (by omega)
  unfold Pending pend
  rw [htake]
  cases operation <;> rfl

theorem Pending.handler (h : Pending operation device gateway) (received : Received) :
    Pending operation device (gatewayMessageHandler received gateway).1 := by
  unfold Pending
  rw [handler_data]
  unfold afterReply
  cases replyOf received with
  | none => exact h
  | some reply =>
    dsimp only
    split_ifs
    · unfold ReplyData.answered
      split_ifs <;> exact h
    · exact h

/-- Messages leave an operation waiting. -/
theorem Pending.run (h : Pending operation device gateway) (messages : List Received) :
    Pending operation device (run gatewayMessageHandler messages gateway).1 := by
  have hstep : ∀ s received, Pending operation device s → True →
      Pending operation device (gatewayMessageHandler received s).1 :=
    fun _ received hpending _ => hpending.handler received
  exact run_invariant hstep h (along_true _ messages gateway)

theorem answered_of_prefix {client : List UInt8} {result : ℤ} {data : ReplyData}
    (h : client <+: data.clientId) : data.answered client result = { data with result := result } :=
  if_pos (isPrefixOf_iff.mpr h)

theorem answered_other {client : List UInt8} {result : ℤ} {data : ReplyData}
    (h : ¬ client <+: data.clientId) : data.answered client result = data :=
  if_neg fun hprefix => h (isPrefixOf_iff.mp hprefix)

/-- The word of an operation is taken for it. -/
theorem word_taken (operation : Operation) : TakenFor operation operation.word := by
  cases operation <;> decide

theorem storedRight_iff (h : Pending operation device gateway) (received : Received) :
    StoredRight operation device gateway received ↔ Distinct operation device gateway received := by
  unfold StoredRight Distinct
  rw [handler_data]
  cases replyOf received with
  | none => exact iff_of_true rfl fun reply hreply => nomatch hreply
  | some reply =>
    simp only [Option.some.injEq, forall_eq', ← show (operation.data gateway).clientId =
      device.client from h]
    unfold afterReply
    dsimp only
    by_cases hanswers : Answers operation device reply
    · have hclient : clientId reply.productId reply.deviceName = device.client := by
        rw [hanswers.2.1, hanswers.2.2]
        rfl
      have hshort := client_length device
      have htaken : TakenFor operation reply.type := hanswers.1 ▸ word_taken operation
      rw [if_pos hanswers, hclient, if_pos ⟨htaken, by omega⟩,
        answered_of_prefix (show device.client <+: _ from h ▸ List.prefix_rfl)]
      exact iff_of_true rfl fun _ _ => .inl hanswers
    rw [if_neg hanswers]
    by_cases htaken : TakenFor operation reply.type
    · by_cases hprefix : clientId reply.productId reply.deviceName <+:
          (operation.data gateway).clientId
      · have hshort := client_length device
        have hle := hprefix.length_le
        rw [show (operation.data gateway).clientId = device.client from h] at hle
        rw [if_pos ⟨htaken, by omega⟩, answered_of_prefix hprefix]
        constructor
        · intro heq _ _
          exact .inr (congrArg ReplyData.result heq)
        · intro hdistinct
          rcases hdistinct htaken hprefix with hno | hsame
          · exact absurd hno hanswers
          · rw [hsame]
      · rw [answered_other hprefix, ite_self]
        exact iff_of_true rfl fun _ h => absurd h hprefix
    · rw [if_neg fun h => htaken h.1]
      exact iff_of_true rfl fun h => absurd h htaken

end Handler

section Calls
variable {param : GatewayParam} {device : Device} {published : Bool}
  {arrivals : List (List Received)}
variable {gateway : Gateway}

/-- The rounds of a wait hand the arrived messages to the handler, up to some round. -/
theorem waitForResponse_run (word : Gateway → ℤ) (res : ℤ) (rounds : ℕ)
    (arrivals : List (List Received)) (gateway : Gateway) :
    ∃ n, waitForResponse word res rounds arrivals gateway =
      run gatewayMessageHandler (arrivals.take n).flatten gateway := by
  induction rounds generalizing arrivals gateway with
  | zero => exact ⟨0, rfl⟩
  | succ rounds ih =>
    unfold waitForResponse
    split_ifs
    · exact ⟨0, rfl⟩
    · dsimp only
      obtain ⟨n, hn⟩ := ih arrivals.tail (run gatewayMessageHandler (arrivals.headD []) gateway).1
      refine ⟨n + 1, ?_⟩
      rw [hn]
      cases arrivals with
      | nil => cases n <;> rfl
      | cons first rest =>
        rw [List.take_succ_cons, List.flatten_cons, run_append]
        rfl

/-- A published operation waits from where its data have been set. -/
theorem publishSync_run (topic payload : List UInt8) (word : Gateway → ℤ)
    (arrivals : List (List Received)) (gateway : Gateway) : ∃ n,
    (gatewayPublishSync topic payload word true arrivals gateway).gateway =
      (run gatewayMessageHandler (arrivals.take n).flatten gateway).1 := by
  obtain ⟨n, hn⟩ := waitForResponse_run word (word gateway) 101 arrivals gateway
  refine ⟨n, ?_⟩
  unfold gatewayPublishSync
  dsimp only
  rw [if_neg (by decide), hn]

theorem requestBinding_pend (operation : Operation) (topic payload : List UInt8)
    (htopic : topic.length ≤ 128) (hpayload : payload.length ≤ 1024) :
    (requestBinding operation device topic payload published arrivals gateway).gateway =
      (gatewayPublishSync topic payload (fun gateway => (operation.data gateway).result) published
        arrivals (pend operation device gateway)).gateway := by
  have hlen := client_length device
  have hpend : operation.set (operation.set gateway ⟨(operation.data gateway).result,
      device.client.take 79⟩) ⟨-2, (operation.data (operation.set gateway
        ⟨(operation.data gateway).result, device.client.take 79⟩)).clientId⟩ =
      pend operation device gateway := by
    cases operation <;> rfl
  unfold requestBinding
  dsimp only
  rw [if_neg (by omega), if_neg (by omega), if_neg (by omega), hpend]
  split_ifs <;> rfl

theorem requestOnline_pend (session : ℕ) (hfits : Fits param.subdevProductId param.subdevDeviceName)
    (htopic : (operationTopic param).length ≤ 128)
    (hpayload : (statusPayload (ascii "online") param).length ≤ 1024) :
    (requestOnline param published arrivals session gateway).code =
      (gatewayPublishSync (operationTopic param) (statusPayload (ascii "online") param)
        (fun gateway => gateway.online.result) published arrivals
        (pend .online ⟨_, _, hfits⟩ gateway)).code := by
  have hlen : (clientId param.subdevProductId param.subdevDeviceName).length ≤ 59 :=
    client_length ⟨_, _, hfits⟩
  unfold requestOnline
  dsimp only
  rw [if_neg (by omega), if_neg (by omega), if_neg (by omega)]
  split_ifs <;> rfl

theorem subdevOffline_pend {session : Session} (hnames : NamesGiven param)
    (hsession : subdevFindSession param.subdevProductId param.subdevDeviceName gateway.sessionList =
      some session) (hstatus : session.status ≠ .offline)
    (hfits : Fits param.subdevProductId param.subdevDeviceName)
    (htopic : (operationTopic param).length ≤ 128)
    (hpayload : (statusPayload (ascii "offline") param).length ≤ 1024) :
    (subdevOffline param published arrivals gateway).code =
      (gatewayPublishSync (operationTopic param) (statusPayload (ascii "offline") param)
        (fun gateway => gateway.offline.result) published arrivals
        (pend .offline ⟨_, _, hfits⟩ gateway)).code := by
  have hlen : (clientId param.subdevProductId param.subdevDeviceName).length ≤ 59 :=
    client_length ⟨_, _, hfits⟩
  unfold subdevOffline
  rw [if_neg hnames, hsession]
  dsimp only
  rw [if_neg hstatus, if_neg (by omega), if_neg (by omega), if_neg (by omega)]
  split_ifs <;> rfl

end Calls

/-- In whatever messages come while an operation waits, the next one is stored for it as it should
exactly if it is not taken for it by what its type or its names begin with. -/
theorem replies_stored_iff (operation : Operation) (device : Device) (start : Gateway)
    (earlier : List Received) (received : Received) :
    StoredRight operation device (run gatewayMessageHandler earlier
        (pend operation device start)).1 received ↔
      Distinct operation device (run gatewayMessageHandler earlier
        (pend operation device start)).1 received :=
  storedRight_iff ((pend_pending operation device start).run earlier) received

def waitingLamp : Device := ⟨ascii "P", ascii "dev12", by decide⟩

/-- A reply on a sub-device whose name the other name begins with. -/
def otherLamp : Received :=
  message (ascii "\x7b\"type\":\"online\"," ++ ascii "\"payload\":\x7b\"devices\":" ++
    ascii "[\x7b\"result\":0," ++ ascii "\"product_id\":\"P\"," ++
    ascii "\"device_name\":\"dev1\"\x7d]\x7d\x7d")

/-- The result of the other sub-device is stored. -/
theorem replies_stored_wrong : ¬ ∀ (operation : Operation) (device : Device) (start : Gateway)
    (earlier : List Received) (received : Received),
    StoredRight operation device (run gatewayMessageHandler earlier
      (pend operation device start)).1 received := by
  intro hall
  have hright := hall .online waitingLamp construct [] otherLamp
  have hreply : replyOf otherLamp = some ⟨ascii "online", ascii "P", ascii "dev1", 0⟩ := by
    decide
  unfold StoredRight at hright
  rw [hreply, run_nil] at hright
  dsimp only at hright
  rw [if_neg (by decide)] at hright
  have hstored : (gatewayMessageHandler otherLamp
      (pend .online waitingLamp construct)).1.online.result = 0 := by
    decide +kernel
  have hresult := congrArg ReplyData.result hright
  exact absurd (hstored.symm.trans hresult) (by decide)

end IotExplorer.GatewayReplies
