import IotExplorer.EventObjects
import IotExplorer.TemplateSends

/-!
`IOT_Post_Event` and `IOT_Post_Event_Raw`. The entry that waits for the reply is put into
the event list by the first step of the construction, and no later step takes it back, so
that a post which fails behind that step uses up one of the places of the list.
-/
namespace IotExplorer.EventPosts

open Basis.JsonText Protocol PacketBytes PublishPacket Network ClientState WaitLists Requests
open TemplateJson DeviceProperty ReportArray DataTemplate EventDocuments EventObjects

section Posts

/-- What a post reads and changes: the event list and the token number, the name of the device and
the MQTT client. -/
structure PostClient where
  events : EventClient
  deviceName : List UInt8
  mqtt : Client

/-- The errors of a post, by the step that returns them. -/
inductive PostError where
  | construct (code : EventCode)
  | publish (rc : ReturnCode)

/-- The topic that `_publish_event_to_cloud` prints. -/
def eventTopic (client : PostClient) : List UInt8 :=
  ascii "$thing/up/event/" ++ client.events.template.productId ++ ascii "/" ++ client.deviceName

/-- `_publish_event_to_cloud`; a publish that succeeds returns its packet id. -/
def publishEventToCloud (env : RequestEnv) (jsonDoc : List UInt8) (client : PostClient) :
    Except ReturnCode ℕ × PostClient :=
  if (eventTopic client).length > maxSizeOfCloudTopic - 1 then (.error .failure, client)
  else
    let result :=
      qcloudIotMqttPublish (eventTopic client) ⟨.qos1, 0, 0, some jsonDoc⟩ env client.mqtt
    (result.1, { client with mqtt := result.2.1 })

/-- The end of a post, behind the construction of its document. -/
def publishDocument (env : RequestEnv) (jsonDoc : List UInt8) (client : PostClient) :
    Except PostError ℕ × PostClient :=
  match publishEventToCloud env jsonDoc client with
  | (.error rc, client) => (.error (.publish rc), client)
  | (.ok id, client) => (.ok id, client)

def iotPostEvent (call : EventCall) (env : RequestEnv) (client : PostClient) :
    Except PostError ℕ × PostClient :=
  match iotConstructEventJson call client.events with
  | (code, buffer, events) =>
      if code ≠ .json .success then (.error (.construct code), { client with events := events })
      else publishDocument env buffer.text { client with events := events }

/-- What `IOT_Post_Event_Raw` puts behind the client token. -/
def rawText (eventMsg : CString) : List UInt8 := ascii "\"events\":[" ++ eventMsg ++ ascii "]\x7d"

/-- The document of `IOT_Post_Event_Raw`, which is of several events whatever the message is. -/
def rawDocument (size : ℕ) (token : List UInt8) (eventMsg : CString) :
    JsonCode × ReportArray.Buffer :=
  andThen (print ⟨[], size⟩ 0 size (initText (eventMethod 2) token)) fun buffer =>
    if size ≤ buffer.text.length + 1 then (.bufferTooSmall, buffer)
    else print buffer buffer.text.length (size - buffer.text.length) (rawText eventMsg)

/-- `IOT_Post_Event_Raw`; the array of the call is not read. -/
def iotPostEventRaw (call : EventCall) (pEventMsg : Option CString) (env : RequestEnv)
    (client : PostClient) : Except PostError ℕ × PostClient :=
  if !call.jsonBuffer then (.error (.construct (.json .inval)), client)
  else
    match pEventMsg with
    | none => (.error (.construct (.json .inval)), client)
    | some eventMsg =>
        match createEventAddToList call client.events with
        | (none, events) => (.error (.construct .failure), { client with events := events })
        | (some reply, events) =>
            let document := rawDocument call.sizeOfBuffer reply.clientToken eventMsg
            if document.1 ≠ .success then
              (.error (.construct (.json document.1)), { client with events := events })
            else publishDocument env document.2.text { client with events := events }

end Posts

section Lists

/-- A post that returns an error leaves the event list as it was. -/
def KeepsList (client : PostClient) (result : Except PostError ℕ × PostClient) : Prop :=
  ∀ error, result.1 = .error error → result.2.events.eventList = client.events.eventList

/-- The document can be published: the topic fits, the client is connected, the packet fits its
buffer, another publish can wait for its acknowledgement, and the packet is sent. -/
def EventPublishable (env : RequestEnv) (jsonDoc : List UInt8) (client : PostClient) : Prop :=
  (eventTopic client).length < maxSizeOfCloudTopic ∧ client.mqtt.isConnected = true ∧
    ∃ packet, serializePublishPacket mqttTxBufLen 0 .qos1 0 client.mqtt.getNextPacketId.nextPacketId
        (eventTopic client) jsonDoc = .ok packet ∧
      packet.length ≤ mqttTxBufLen ∧ client.mqtt.listPubWaitAck.length < maxRepubNum ∧
      env.nodeOk = true ∧
      (sendMqttPacket (overwrite client.mqtt.writeBuf packet) packet.length env.writes).1 = .success

variable {call : EventCall} {env : RequestEnv} {client : PostClient} {jsonDoc : List UInt8}

theorem eventTopic_ne_nil (client : PostClient) : eventTopic client ≠ [] := by
  have hfront : ascii "$thing/up/event/" ≠ [] := by decide
  unfold eventTopic
  simp [hfront]

/-- A publish does not touch the events, and succeeds exactly if it can be done. -/
theorem publishEventToCloud_done (env : RequestEnv) (jsonDoc : List UInt8) (client : PostClient) :
    (publishEventToCloud env jsonDoc client).2.events = client.events ∧
      ((∃ id, (publishEventToCloud env jsonDoc client).1 = .ok id) ↔
        EventPublishable env jsonDoc client) := by
  have hmax : maxSizeOfCloudTopic = 128 := rfl
  have hfailed : ∀ {rc : ReturnCode}, ¬ EventPublishable env jsonDoc client →
      ((∃ id, (.error rc : Except ReturnCode ℕ) = .ok id) ↔
        EventPublishable env jsonDoc client) := by
    intro rc hnot
    refine iff_of_false ?_ hnot
    rintro ⟨id, hid⟩
    cases hid
  unfold publishEventToCloud
  by_cases htopic : (eventTopic client).length > maxSizeOfCloudTopic - 1
  · rw [if_pos htopic]
    exact ⟨rfl, hfailed fun h => absurd h.1 (by omega)⟩
  rw [if_neg htopic]
  refine ⟨rfl, ?_⟩
  dsimp only
  unfold qcloudIotMqttPublish
  rw [if_neg (eventTopic_ne_nil client), if_neg (by omega), if_neg fun hqos => QoS.noConfusion hqos]
  by_cases hconn : client.mqtt.isConnected = true
  · rw [if_neg (by rw [hconn]; decide)]
    unfold publishPacketId
    dsimp only
    rw [if_pos rfl]
    dsimp only
    cases hpacket : serializePublishPacket mqttTxBufLen 0 .qos1 0
        client.mqtt.getNextPacketId.nextPacketId (eventTopic client) jsonDoc with
    | error rc =>
      apply hfailed
      rintro ⟨-, -, packet, hsome, -⟩
      rw [hpacket] at hsome
      cases hsome
    | ok packet =>
      dsimp only
      rw [if_neg fun hqos => QoS.noConfusion hqos]
      have hother : ∀ {P : List UInt8 → Prop}, (∃ packet',
          serializePublishPacket mqttTxBufLen 0 .qos1 0 client.mqtt.getNextPacketId.nextPacketId
            (eventTopic client) jsonDoc = .ok packet' ∧ P packet') ↔ P packet := by
        intro P
        rw [hpacket]
        constructor
        · rintro ⟨packet', heq, hP⟩
          obtain rfl := Except.ok.inj heq
          exact hP
        · exact fun hP => ⟨packet, rfl, hP⟩
      rw [EventPublishable, hother]
      have hwrite : (writePacket packet client.mqtt.getNextPacketId).writeBuf =
          overwrite client.mqtt.writeBuf packet := rfl
      have hlength : (writePacket packet client.mqtt.getNextPacketId).listPubWaitAck =
          client.mqtt.listPubWaitAck := rfl
      have hnone : ∀ {rc : ReturnCode} {P : Prop}, ¬ P →
          ((∃ id, (.error rc : Except ReturnCode ℕ) = .ok id) ↔ P) := by
        intro rc P hP
        refine iff_of_false ?_ hP
        rintro ⟨id, hid⟩
        cases hid
      unfold maskPushPubInfoTo
      by_cases hlong : packet.length > mqttTxBufLen
      · rw [if_pos hlong]
        exact hnone fun h => absurd h.2.2.1 (Nat.not_le.mpr hlong)
      rw [if_neg hlong, hlength]
      by_cases hfull : client.mqtt.listPubWaitAck.length ≥ maxRepubNum
      · rw [if_pos hfull]
        exact hnone fun h => absurd h.2.2.2.1 (Nat.not_lt.mpr hfull)
      rw [if_neg hfull]
      by_cases hnode : env.nodeOk = true
      · rw [if_neg (by rw [hnode]; decide)]
        dsimp only
        unfold sendWritten
        dsimp only
        rw [hwrite]
        by_cases hsent : (sendMqttPacket (overwrite client.mqtt.writeBuf packet) packet.length
            env.writes).1 = .success
        · rw [if_neg (not_not.mpr hsent)]
          exact iff_of_true ⟨_, rfl⟩ ⟨by omega, hconn, by omega, by omega, hnode, hsent⟩
        · rw [if_pos hsent]
          exact hnone fun h => absurd h.2.2.2.2.2 hsent
      · rw [if_pos (by simpa using hnode)]
        exact hnone fun h => absurd h.2.2.2.2.1 hnode
  · rw [if_pos (by simpa using hconn)]
    exact hfailed fun h => hconn h.2.1

/-- What is left to do when the document has been built. -/
theorem publishDocument_keeps_iff {client' : PostClient}
    (hchanged : client'.events.eventList ≠ client.events.eventList) :
    KeepsList client (publishDocument env jsonDoc client') ↔
      EventPublishable env jsonDoc client' := by
  obtain ⟨hevents, hiff⟩ := publishEventToCloud_done env jsonDoc client'
  rw [← hiff]
  unfold publishDocument
  cases hresult : publishEventToCloud env jsonDoc client' with
  | mk result after =>
    rw [hresult] at hevents
    have hevents : after.events = client'.events := hevents
    cases result with
    | error rc =>
      refine iff_of_false (fun hkeeps => hchanged ?_) ?_
      · rw [← hevents]
        exact hkeeps _ rfl
      · rintro ⟨id, hid⟩
        cases hid
    | ok id =>
      refine iff_of_true ?_ ⟨id, rfl⟩
      intro error herror
      cases herror

def PostClient.withEntry (client : PostClient) (call : EventCall) : PostClient :=
  { client with events := (createEventAddToList call client.events).2 }

theorem append_ne_self {α : Type} (list : List α) (last : α) : list ++ [last] ≠ list := by
  intro h
  have hlength := congrArg List.length h
  rw [List.length_append, List.length_singleton] at hlength
  omega

/-- The entry that is made is added to the list. -/
theorem createEventAddToList_made (hmade : EntryMade call client.events) :
    ∃ reply, reply.clientToken = client.events.template.clientToken ∧
      createEventAddToList call client.events = (some reply, (client.withEntry call).events) ∧
      (client.withEntry call).events.eventList ≠ client.events.eventList := by
  obtain ⟨hfew, hreply, hnode⟩ := hmade
  rw [PostClient.withEntry, createEventAddToList, if_neg (Nat.not_le.mpr hfew), hreply, hnode]
  exact ⟨_, rfl, rfl, append_ne_self _ _⟩

/-- Without an entry the list is as it was. -/
theorem createEventAddToList_failed (hmade : ¬ EntryMade call client.events) :
    createEventAddToList call client.events = (none, (client.withEntry call).events) ∧
      (client.withEntry call).events.eventList = client.events.eventList := by
  rw [PostClient.withEntry, createEventAddToList]
  dsimp only
  split_ifs with hfull hreply hnode
  · exact ⟨rfl, rfl⟩
  · exact ⟨rfl, rfl⟩
  · exact ⟨rfl, rfl⟩
  · exact absurd ⟨Nat.not_le.mp hfull, by simpa using hreply, by simpa using hnode⟩ hmade

/-- Events that there is room for do not overrun the buffer. -/
theorem overruns_of_eventsFit {size count length : ℕ} {events : List (Option PostedEvent)}
    {later : Bool}
    (h : eventsFit size count length events = true) :
    overruns size count later length events = false := by
  induction events generalizing length later with
  | nil => rfl
  | cons event rest ih =>
    cases event with
    | none => rfl
    | some event =>
      rw [eventsFit, Bool.and_eq_true] at h
      have hhead : ¬ size ≤ length + (eventHead event).length := by
        have hfits := h.1
        rw [eventFits] at hfits
        simp only [Bool.and_eq_true, decide_eq_true_eq] at hfits
        omega
      rw [overruns, decide_eq_false hhead, Bool.and_false, Bool.false_or, h.1, Bool.true_and]
      exact ih h.2

/-- A document is built exactly if there is room for it. -/
theorem eventDocument_success_iff {size : ℕ} {token : List UInt8}
    {events : List (Option PostedEvent)}
    (hsize : size < 2 ^ 32) :
    (eventDocument size token events).1 = .success ↔
      size < 2 ^ 31 ∧ documentFits size token events = true := by
  by_cases hint : size < 2 ^ 31
  · cases hover : documentOverruns size token events with
    | true =>
      refine iff_of_false (eventDocument_overruns hint hover).failed ?_
      rintro ⟨-, hfits⟩
      rw [documentFits, Bool.and_eq_true] at hfits
      rw [documentOverruns, overruns_of_eventsFit hfits.1, Bool.and_false] at hover
      cases hover
    | false =>
      have hputs := eventDocument_puts hint hover
      constructor
      · intro hsuccess
        refine ⟨hint, ?_⟩
        by_contra hfull
        exact hputs.full hfull hsuccess
      · exact fun hfits => (hputs.done hfits.2).1
  · rw [eventDocument_large (Nat.not_lt.mp hint) hsize]
    exact iff_of_false JsonCode.noConfusion fun h => hint h.1

theorem eventDocument_text {size : ℕ} {token : List UInt8} {events : List (Option PostedEvent)}
    (hint : size < 2 ^ 31) (hfits : documentFits size token events = true) :
    (eventDocument size token events).2.text = documentText token events := by
  have hover : documentOverruns size token events = false := by
    have hroom := hfits
    rw [documentFits, Bool.and_eq_true] at hroom
    rw [documentOverruns, overruns_of_eventsFit hroom.1, Bool.and_false]
  exact ((eventDocument_puts hint hover).done hfits).2

/-- What `IOT_Post_Event_Raw` publishes. -/
def rawDocumentText (token : List UInt8) (eventMsg : CString) : List UInt8 :=
  initText (eventMethod 2) token ++ rawText eventMsg

theorem rawDocument_puts {size : ℕ} (token : List UInt8) (eventMsg : CString)
    (hint : size < 2 ^ 31) :
    Puts size ⟨[], size⟩ ((rawDocumentText token eventMsg).length < size)
      (rawDocumentText token eventMsg) (rawDocument size token eventMsg) := by
  have hputs : Puts size ⟨[], size⟩
      ((initText (eventMethod 2) token).length < size ∧
        (initText (eventMethod 2) token).length + 1 < size ∧
        (rawDocumentText token eventMsg).length < size)
      (rawDocumentText token eventMsg) (rawDocument size token eventMsg) := by
    apply (init_puts _ _ hint).andThen
    intro buffer htext _
    rw [← htext]
    apply Puts.guard
    intro hroom
    have hend := append_puts (rawText eventMsg) (show buffer.text.length < size by omega) hint
    have hwhole : buffer.text ++ rawText eventMsg = rawDocumentText token eventMsg := by
      rw [htext, rawDocumentText]
    rw [← List.length_append, hwhole] at hend
    exact hend
  have hopen : (ascii "\"events\":[").length = 10 := by decide
  have hlength : (initText (eventMethod 2) token).length + 10 ≤
      (rawDocumentText token eventMsg).length := by
    rw [rawDocumentText, List.length_append, rawText, List.length_append, List.length_append, hopen]
    omega
  exact hputs.congr ⟨fun h => ⟨by omega, by omega, h⟩, fun h => h.2.2⟩

theorem rawDocument_success_iff {size : ℕ} {token : List UInt8} {eventMsg : CString}
    (hsize : size < 2 ^ 32) :
    (rawDocument size token eventMsg).1 = .success ↔
      size < 2 ^ 31 ∧ (rawDocumentText token eventMsg).length < size := by
  by_cases hint : size < 2 ^ 31
  · have hputs := rawDocument_puts token eventMsg hint
    constructor
    · intro hsuccess
      refine ⟨hint, ?_⟩
      by_contra hfull
      exact hputs.full hfull hsuccess
    · exact fun h => (hputs.done h.2).1
  · have hlarge : rawDocument size token eventMsg = (.bufferTruncated, ⟨[], size⟩) := by
      rw [rawDocument, init_large (Nat.not_lt.mp hint) hsize]
      rfl
    rw [hlarge]
    exact iff_of_false JsonCode.noConfusion fun h => hint h.1

theorem publishable_withEntry (env : RequestEnv) (jsonDoc : List UInt8) (client : PostClient)
    (call : EventCall) : EventPublishable env jsonDoc (client.withEntry call) ↔
      EventPublishable env jsonDoc client := by
  have hproduct : (createEventAddToList call client.events).2.template.productId =
      client.events.template.productId := by
    rw [createEventAddToList]
    dsimp only
    split_ifs <;> rfl
  have htopic : eventTopic (client.withEntry call) = eventTopic client := by
    rw [eventTopic, PostClient.withEntry, hproduct, eventTopic]
  have hmqtt : (client.withEntry call).mqtt = client.mqtt := rfl
  rw [EventPublishable, htopic, hmqtt, EventPublishable]

/-- A post keeps the list when it fails, exactly if it has no entry or cannot fail any more: there
is room for the document, and it can be published. -/
theorem iotPostEvent_keeps_iff (call : EventCall) (env : RequestEnv) (client : PostClient)
    (hsize : call.sizeOfBuffer < 2 ^ 32) :
    KeepsList client (iotPostEvent call env client) ↔
      (call.jsonBuffer = true → EntryMade call client.events →
        ∀ events, call.pEventArry = some events →
          call.sizeOfBuffer < 2 ^ 31 ∧
            documentFits call.sizeOfBuffer client.events.template.clientToken events = true ∧
            EventPublishable env (documentText client.events.template.clientToken events)
              client) := by
  cases hbuffer : call.jsonBuffer with
  | false =>
    refine iff_of_true ?_ fun h => absurd h Bool.false_ne_true
    intro error _
    rw [iotPostEvent, iotConstructEventJson, hbuffer]
    rfl
  | true =>
    cases hevents : call.pEventArry with
    | none =>
      refine iff_of_true ?_ fun _ _ events h => by cases h
      intro error _
      rw [iotPostEvent, iotConstructEventJson, hbuffer, hevents]
      rfl
    | some events =>
      by_cases hmade : EntryMade call client.events
      · obtain ⟨reply, htoken, hpair, hchanged⟩ := createEventAddToList_made hmade
        have hconstruct : iotConstructEventJson call client.events =
            (.json (eventDocument call.sizeOfBuffer client.events.template.clientToken events).1,
              (eventDocument call.sizeOfBuffer client.events.template.clientToken events).2,
              (createEventAddToList call client.events).2) := by
          rw [iotConstructEventJson, hbuffer, hevents]
          dsimp only
          rw [hpair]
          dsimp only
          rw [htoken]
          rfl
        rw [iotPostEvent, hconstruct]
        dsimp only
        by_cases hsuccess :
            (eventDocument call.sizeOfBuffer client.events.template.clientToken events).1 = .success
        · rw [if_neg (not_not.mpr (congrArg EventCode.json hsuccess))]
          obtain ⟨hint, hfits⟩ := (eventDocument_success_iff hsize).mp hsuccess
          rw [eventDocument_text hint hfits]
          refine (publishDocument_keeps_iff hchanged).trans ?_
          rw [publishable_withEntry]
          constructor
          · rintro hpublish - - events' hevents'
            obtain rfl := Option.some.inj hevents'
            exact ⟨hint, hfits, hpublish⟩
          · exact fun h => (h rfl hmade events rfl).2.2
        · have hfailed : EventCode.json (eventDocument call.sizeOfBuffer
              client.events.template.clientToken events).1 ≠ .json .success :=
            fun h => hsuccess (EventCode.json.inj h)
          rw [if_pos hfailed]
          refine iff_of_false (fun hkeeps => hchanged (hkeeps _ rfl)) fun h => ?_
          obtain ⟨hint, hfits, -⟩ := h rfl hmade events rfl
          exact hsuccess ((eventDocument_success_iff hsize).mpr ⟨hint, hfits⟩)
      · refine iff_of_true ?_ fun _ h => absurd h hmade
        obtain ⟨hpair, hlist⟩ := createEventAddToList_failed hmade
        intro error _
        rw [iotPostEvent, iotConstructEventJson, hbuffer, hevents, hpair]
        exact hlist

theorem iotPostEventRaw_keeps_iff (call : EventCall) (pEventMsg : Option CString) (env : RequestEnv)
    (client : PostClient) (hsize : call.sizeOfBuffer < 2 ^ 32) :
    KeepsList client (iotPostEventRaw call pEventMsg env client) ↔
      (call.jsonBuffer = true → EntryMade call client.events →
        ∀ eventMsg, pEventMsg = some eventMsg →
          call.sizeOfBuffer < 2 ^ 31 ∧
            (rawDocumentText client.events.template.clientToken eventMsg).length <
              call.sizeOfBuffer ∧
            EventPublishable env (rawDocumentText client.events.template.clientToken eventMsg)
              client) := by
  cases hbuffer : call.jsonBuffer with
  | false =>
    refine iff_of_true ?_ fun h => absurd h Bool.false_ne_true
    intro error _
    unfold iotPostEventRaw
    rw [hbuffer]
    rfl
  | true =>
    cases pEventMsg with
    | none =>
      refine iff_of_true ?_ fun _ _ eventMsg h => by cases h
      intro error _
      unfold iotPostEventRaw
      rw [hbuffer]
      rfl
    | some eventMsg =>
      by_cases hmade : EntryMade call client.events
      · obtain ⟨reply, htoken, hpair, hchanged⟩ := createEventAddToList_made hmade
        unfold iotPostEventRaw
        rw [hbuffer, if_neg (by decide)]
        dsimp only
        rw [hpair]
        dsimp only
        rw [htoken]
        by_cases hsuccess : (rawDocument call.sizeOfBuffer client.events.template.clientToken
            eventMsg).1 = .success
        · rw [if_neg (not_not.mpr hsuccess)]
          obtain ⟨hint, hfits⟩ := (rawDocument_success_iff hsize).mp hsuccess
          rw [((rawDocument_puts client.events.template.clientToken eventMsg hint).done hfits).2]
          refine (publishDocument_keeps_iff hchanged).trans ?_
          rw [publishable_withEntry]
          constructor
          · rintro hpublish - - eventMsg' heventMsg
            obtain rfl := Option.some.inj heventMsg
            exact ⟨hint, hfits, hpublish⟩
          · exact fun h => (h rfl hmade eventMsg rfl).2.2
        · rw [if_pos hsuccess]
          refine iff_of_false (fun hkeeps => hchanged (hkeeps _ rfl)) fun h => ?_
          obtain ⟨hint, hfits, -⟩ := h rfl hmade eventMsg rfl
          exact hsuccess ((rawDocument_success_iff hsize).mpr ⟨hint, hfits⟩)
      · refine iff_of_true ?_ fun _ h => absurd h hmade
        obtain ⟨hpair, hlist⟩ := createEventAddToList_failed hmade
        intro error _
        unfold iotPostEventRaw
        rw [hbuffer, if_neg (by decide)]
        dsimp only
        rw [hpair]
        exact hlist

/-- Both posts, for every list and all arguments. -/
theorem posts_keep_iff (call : EventCall) (pEventMsg : Option CString) (env : RequestEnv)
    (client : PostClient) (hsize : call.sizeOfBuffer < 2 ^ 32) :
    (KeepsList client (iotPostEvent call env client) ↔
      (call.jsonBuffer = true → EntryMade call client.events →
        ∀ events, call.pEventArry = some events →
          call.sizeOfBuffer < 2 ^ 31 ∧
            documentFits call.sizeOfBuffer client.events.template.clientToken events = true ∧
            EventPublishable env (documentText client.events.template.clientToken events)
              client)) ∧
      (KeepsList client (iotPostEventRaw call pEventMsg env client) ↔
        (call.jsonBuffer = true → EntryMade call client.events →
          ∀ eventMsg, pEventMsg = some eventMsg →
            call.sizeOfBuffer < 2 ^ 31 ∧
              (rawDocumentText client.events.template.clientToken eventMsg).length <
                call.sizeOfBuffer ∧
              EventPublishable env (rawDocumentText client.events.template.clientToken eventMsg)
                client)) :=
  ⟨iotPostEvent_keeps_iff call env client hsize,
    iotPostEventRaw_keeps_iff call pEventMsg env client hsize⟩

/-- A connected client of the product `P` that waits for no replies. -/
def connectedP : PostClient :=
  ⟨clientP, ascii "d",
    { Client.init 0 5000 true ⟨⟨[], 4, 240, true⟩, true⟩ with isConnected := true }⟩

/-- The same client with ten events that wait for their replies. -/
def waitingP : PostClient :=
  { connectedP with events := { clientP with eventList := List.replicate 10 ⟨0, [], 0, none⟩ } }

theorem posts_keep_waiting :
    KeepsList waitingP
        (iotPostEvent (eventCall 250 [longEvent 1 [fiveItem]]) ⟨0, true, true, []⟩ waitingP) ∧
      KeepsList waitingP (iotPostEventRaw (eventCall 250 []) (some ⟨ascii "\x7b\x7d", by decide⟩)
        ⟨0, true, true, []⟩ waitingP) := by
  have hfull : ∀ call : EventCall, ¬ EntryMade call waitingP.events :=
    fun _ hmade => absurd hmade.1 (by decide)
  have hraw := posts_keep_iff (eventCall 250 []) (some ⟨ascii "\x7b\x7d", by decide⟩)
    ⟨0, true, true, []⟩ waitingP (by decide)
  exact ⟨(posts_keep_iff _ none _ _ (by decide)).1.mpr fun _ hmade => absurd hmade (hfull _),
    hraw.2.mpr fun _ hmade => absurd hmade (hfull _)⟩

/-- A post in a buffer of ten bytes fails, and its entry stays in the list. -/
theorem posts_keep_wrong :
    ¬ KeepsList connectedP
      (iotPostEvent (eventCall 10 [longEvent 1 [fiveItem]]) ⟨0, true, true, []⟩ connectedP) := by
  intro hkeeps
  obtain ⟨-, hfits, -⟩ := (iotPostEvent_keeps_iff _ _ _ (by decide)).mp hkeeps rfl
    ⟨by decide, rfl, rfl⟩ _ rfl
  exact absurd hfits (by decide +kernel)

end Lists

end IotExplorer.EventPosts
