import IotExplorer.DataTemplate
import IotExplorer.Requests

/-!
`send_template_request` over the publish of the client. The message is published
before the request is entered in the reply list, so that a full list or a failed
allocation turns a published message into an error; and a token that fills its
field is stored without a NUL.
-/
namespace IotExplorer.TemplateSends

open Protocol PacketBytes PublishPacket Network ClientState Requests JsonParser TemplateJson
open DataTemplate

section Sending

/-- The names in `device_info`. -/
structure DeviceInfo where
  productId : List UInt8
  deviceName : List UInt8

/-- The topic that `_publish_to_template_upstream_topic` prints. -/
def upstreamTopic (info : DeviceInfo) : List UInt8 :=
  ascii "$thing/up/property/" ++ info.productId ++ ascii "/" ++ info.deviceName

/-- `_publish_to_template_upstream_topic`. With the id 0 of the default parameters, a publish
that succeeds returns 0. -/
def publishToTemplateUpstreamTopic (info : DeviceInfo) (jsonDoc : List UInt8) (env : RequestEnv)
    (c : Client) : Except ReturnCode ℕ × Client × List Event :=
  if (upstreamTopic info).length > maxSizeOfCloudTopic - 1 then (.error .failure, c, [])
  else qcloudIotMqttPublish (upstreamTopic info) ⟨.qos0, 0, 0, some jsonDoc⟩ env c

/-- What a request does: its code, the template afterwards, and the events of the publish. -/
structure SendResult where
  code : TemplateCode
  template : Template
  notices : List Notice
  events : List Event

/-- The end of `send_template_request`: the document is published, then the request is
entered in the list. -/
def publishAndAdd (info : DeviceInfo) (call : RequestCall) (env : RequestEnv)
    (clientToken jsonDoc : List UInt8) (t : Template) : SendResult :=
  match publishToTemplateUpstreamTopic info jsonDoc env t.mqtt with
  | (.error rc, c, events) => ⟨.mqtt rc, { t with mqtt := c }, [], events⟩
  | (.ok _, c, events) =>
      if call.requestCallback = none then ⟨.success, { t with mqtt := c }, [], events⟩
      else
        let added := addRequestToTemplateList clientToken call { t with mqtt := c }
        ⟨added.1, added.2.1, added.2.2, events⟩

/-- `send_template_request` with its publish. -/
def sendTemplateRequestOver (info : DeviceInfo) (call : RequestCall) (env : RequestEnv)
    (t : Template) : SendResult :=
  match parseClientToken (call.jsonDoc ++ 0 :: call.behind) with
  | .error _ => ⟨.failure, { t with halted := true }, [], []⟩
  | .ok none => ⟨.inval, t, [], []⟩
  | .ok (some clientToken) =>
      match setTemplateJsonType call.jsonDoc call.sizeOfBuffer call.method with
      | none => ⟨.inval, t, [], []⟩
      | some jsonDoc => publishAndAdd info call env clientToken jsonDoc t

def publishedPackets (events : List Event) : List (List UInt8) :=
  events.filterMap fun event =>
    match event with
    | .sent packet .success _ => some packet
    | _ => none

end Sending

section Publish
variable {info : DeviceInfo} {jsonDoc : List UInt8} {env : RequestEnv} {c : Client}

/-- The topic fits, the client is connected, and the packet fits its buffer and is sent. -/
def Publishable (info : DeviceInfo) (jsonDoc : List UInt8) (env : RequestEnv) (c : Client) : Prop :=
  (upstreamTopic info).length < maxSizeOfCloudTopic ∧ c.isConnected = true ∧
    ∃ packet, serializePublishPacket mqttTxBufLen 0 .qos0 0 0 (upstreamTopic info) jsonDoc =
        .ok packet ∧
      (sendMqttPacket (overwrite c.writeBuf packet) packet.length env.writes).1 = .success

/-- What a publish did: it failed and nothing was published, or it succeeded and the
packet of the document was published once. -/
def PublishDone (info : DeviceInfo) (jsonDoc : List UInt8) (r : Except ReturnCode ℕ)
    (events : List Event) : Prop :=
  match r with
  | .error rc => rc ≠ .success ∧ publishedPackets events = []
  | .ok _ => ∃ packet, serializePublishPacket mqttTxBufLen 0 .qos0 0 0 (upstreamTopic info)
      jsonDoc = .ok packet ∧ publishedPackets events = [packet]

theorem publishedPackets_failed {packet taken : List UInt8} {rc : ReturnCode} (h : rc ≠ .success) :
    publishedPackets [.sent packet rc taken] = [] := by
  cases rc with
  | success => exact absurd rfl h
  | _ => rfl

theorem upstreamTopic_ne_nil (info : DeviceInfo) : upstreamTopic info ≠ [] := by
  have hfront : ascii "$thing/up/property/" ≠ [] := by decide
  unfold upstreamTopic
  simp [hfront]

theorem serialize_error {rc : ReturnCode} {topic : List UInt8}
    (h : serializePublishPacket mqttTxBufLen 0 .qos0 0 0 topic jsonDoc = .error rc) :
    rc ≠ .success := by
  have hheader : mqttInitPacketHeader .publish .qos0 0 0 = .ok 0x30 := rfl
  unfold serializePublishPacket at h
  dsimp only at h
  rw [hheader] at h
  by_cases hlong : getMqttPacketLen (getPublishPacketLen .qos0 topic jsonDoc.length) > mqttTxBufLen
  · rw [if_pos hlong] at h
    cases h
    decide
  · rw [if_neg hlong] at h
    cases h

/-- The publish of a document. -/
theorem publish_done (info : DeviceInfo) (jsonDoc : List UInt8) (env : RequestEnv) (c : Client) :
    let r := publishToTemplateUpstreamTopic info jsonDoc env c
    PublishDone info jsonDoc r.1 r.2.2 ∧
      ((∃ id, r.1 = .ok id) ↔ Publishable info jsonDoc env c) := by
  have hfailed : ∀ {rc : ReturnCode} {c' : Client} {events : List Event},
      rc ≠ .success → publishedPackets events = [] → ¬ Publishable info jsonDoc env c →
      let r : Except ReturnCode ℕ × Client × List Event := (.error rc, c', events)
      PublishDone info jsonDoc r.1 r.2.2 ∧
        ((∃ id, r.1 = .ok id) ↔ Publishable info jsonDoc env c) := by
    intro rc c' events hrc hnone hnot
    refine ⟨⟨hrc, hnone⟩, iff_of_false ?_ hnot⟩
    rintro ⟨id, hid⟩
    cases hid
  have hmax : maxSizeOfCloudTopic = 128 := rfl
  unfold publishToTemplateUpstreamTopic
  by_cases htopic : (upstreamTopic info).length > maxSizeOfCloudTopic - 1
  · rw [if_pos htopic]
    exact hfailed (by decide) rfl fun h => absurd h.1 (by omega)
  rw [if_neg htopic]
  unfold qcloudIotMqttPublish
  rw [if_neg (upstreamTopic_ne_nil info), if_neg (by omega),
    if_neg fun hqos => QoS.noConfusion hqos]
  by_cases hconn : c.isConnected = true
  · rw [if_neg (by rw [hconn]; decide)]
    unfold publishPacketId
    dsimp only
    rw [if_neg fun hqos => QoS.noConfusion hqos]
    dsimp only
    cases hpacket : serializePublishPacket mqttTxBufLen 0 .qos0 0 0
      (upstreamTopic info) jsonDoc with
    | error rc =>
      apply hfailed (serialize_error hpacket) rfl
      rintro ⟨-, -, packet, hsome, -⟩
      rw [hpacket] at hsome
      cases hsome
    | ok packet =>
      dsimp only
      rw [if_pos rfl]
      unfold sendWritten writePacket
      dsimp only
      by_cases hsent :
          (sendMqttPacket (overwrite c.writeBuf packet) packet.length env.writes).1 = .success
      · rw [if_neg (not_not.mpr hsent), hsent]
        exact ⟨⟨packet, hpacket, rfl⟩,
          iff_of_true ⟨0, rfl⟩ ⟨by omega, hconn, packet, hpacket, hsent⟩⟩
      · rw [if_pos hsent]
        apply hfailed hsent (publishedPackets_failed hsent)
        rintro ⟨-, -, packet', hsome, hsent'⟩
        rw [hpacket] at hsome
        cases hsome
        exact hsent hsent'
  · rw [if_pos (by simpa using hconn)]
    exact hfailed (by decide) rfl fun h => hconn h.2.1

end Publish

section Requests
variable {info : DeviceInfo} {call : RequestCall} {env : RequestEnv} {t : Template}

def returned : Except ReturnCode ℕ → ReturnCode
  | .error rc => rc
  | .ok _ => .success

theorem addRequest_mqtt (clientToken : List UInt8) (call : RequestCall) (t : Template)
    (c : Client) :
    let added := addRequestToTemplateList clientToken call { t with mqtt := c }
    (added.1, { added.2.1 with mqtt := t.mqtt }, added.2.2) =
      addRequestToTemplateList clientToken call t := by
  unfold addRequestToTemplateList
  split_ifs <;> rfl

/-- With the code of its publish as the one that the environment decides, this is the
request of the template model. -/
theorem sendTemplateRequestOver_eq (hpublish : ∀ jsonDoc,
      setTemplateJsonType call.jsonDoc call.sizeOfBuffer call.method = some jsonDoc →
        call.publish = returned (publishToTemplateUpstreamTopic info jsonDoc env t.mqtt).1) :
    let r := sendTemplateRequestOver info call env t
    (r.code, { r.template with mqtt := t.mqtt }, r.notices) = sendTemplateRequest call t := by
  unfold sendTemplateRequestOver sendTemplateRequest
  cases parseClientToken (call.jsonDoc ++ 0 :: call.behind) with
  | error e => rfl
  | ok found =>
    cases found with
    | none => rfl
    | some clientToken =>
      dsimp only
      cases hdoc : setTemplateJsonType call.jsonDoc call.sizeOfBuffer call.method with
      | none => rfl
      | some jsonDoc =>
        have hcode := hpublish jsonDoc hdoc
        have hdone := (publish_done info jsonDoc env t.mqtt).1
        dsimp only
        unfold publishAndAdd
        cases hresult : publishToTemplateUpstreamTopic info jsonDoc env t.mqtt with
        | mk result rest =>
          rw [hresult] at hcode hdone
          cases result with
          | error rc =>
            have hrc : call.publish ≠ .success :=
              fun hsuccess => hdone.1 (hcode.symm.trans hsuccess)
            rw [if_pos hrc, hcode]
            rfl
          | ok id =>
            have hrc : call.publish = .success := hcode
            rw [if_neg (not_not.mpr hrc)]
            dsimp only
            by_cases hcallback : call.requestCallback = none
            · rw [if_pos hcallback, if_pos hcallback]
            · rw [if_neg hcallback, if_neg hcallback]
              exact addRequest_mqtt clientToken call t rest.1

/-- The last step of a request can be done, and keeps the token. -/
structure Registers (clientToken : List UInt8) (call : RequestCall) (t : Template) : Prop where
  room : t.replyList.length < maxAppendingRequest
  requestOk : call.requestOk = true
  nodeOk : call.nodeOk = true
  token : storedToken clientToken call.beyond = clientToken

/-- What a request has to do: with an error nothing is published and the list is as it was;
with success and a callback the message was published once and the list has one more
request, with the client token. -/
structure RequestRight (info : DeviceInfo) (call : RequestCall) (t : Template) (r : SendResult) :
    Prop where
  failed : r.code ≠ .success →
    publishedPackets r.events = [] ∧ r.template.replyList = t.replyList
  succeeded : r.code = .success → call.requestCallback ≠ none →
    ∃ clientToken jsonDoc packet request,
      parseClientToken (call.jsonDoc ++ 0 :: call.behind) = .ok (some clientToken) ∧
      setTemplateJsonType call.jsonDoc call.sizeOfBuffer call.method = some jsonDoc ∧
      serializePublishPacket mqttTxBufLen 0 .qos0 0 0 (upstreamTopic info) jsonDoc = .ok packet ∧
      publishedPackets r.events = [packet] ∧
      r.template.replyList = t.replyList ++ [request] ∧ request.clientToken = clientToken

/-- An error in front of the publish. -/
theorem requestRight_error {code : TemplateCode} {t' : Template} (hcode : code ≠ .success)
    (hlist : t'.replyList = t.replyList) : RequestRight info call t ⟨code, t', [], []⟩ := by
  constructor
  · intro _
    exact ⟨rfl, hlist⟩
  · intro hsuccess
    exact absurd hsuccess hcode

/-- The request that is entered behind a publish. -/
theorem added_right_iff {clientToken jsonDoc packet : List UInt8} {c : Client} {events : List Event}
    (hcallback : call.requestCallback ≠ none)
    (htoken : parseClientToken (call.jsonDoc ++ 0 :: call.behind) = .ok (some clientToken))
    (hdoc : setTemplateJsonType call.jsonDoc call.sizeOfBuffer call.method = some jsonDoc)
    (hpacket : serializePublishPacket mqttTxBufLen 0 .qos0 0 0 (upstreamTopic info) jsonDoc =
      .ok packet) (hevents : publishedPackets events = [packet]) :
    let added := addRequestToTemplateList clientToken call { t with mqtt := c }
    RequestRight info call t ⟨added.1, added.2.1, added.2.2, events⟩ ↔
      Registers clientToken call t := by
  have hwrong : ∀ {code : TemplateCode} {t' : Template} {notices : List Notice},
      code ≠ .success → ¬ RequestRight info call t ⟨code, t', notices, events⟩ := by
    intro code t' notices hcode hright
    have hnone := (hright.failed hcode).1
    rw [hevents] at hnone
    cases hnone
  unfold addRequestToTemplateList
  by_cases hfull : t.replyList.length ≥ maxAppendingRequest
  · rw [if_pos hfull]
    exact iff_of_false (hwrong fun hcode => TemplateCode.noConfusion hcode) fun h => absurd h.room
      (Nat.not_lt.mpr hfull)
  rw [if_neg hfull]
  by_cases hrequest : call.requestOk = true
  swap
  · rw [if_pos (by simpa using hrequest)]
    exact iff_of_false (hwrong fun hcode => TemplateCode.noConfusion hcode) fun h =>
      hrequest h.requestOk
  rw [if_neg (by simpa using hrequest)]
  by_cases hnode : call.nodeOk = true
  swap
  · rw [if_pos (by simpa using hnode)]
    exact iff_of_false (hwrong fun hcode => TemplateCode.noConfusion hcode) fun h => hnode h.nodeOk
  rw [if_neg (by simpa using hnode)]
  dsimp only
  constructor
  · intro hright
    obtain ⟨token, -, -, request, hsome, -, -, -, hlist, hrequestToken⟩ :=
      hright.succeeded rfl hcallback
    rw [htoken] at hsome
    obtain rfl := Option.some.inj (Except.ok.inj hsome)
    have hlast := List.append_cancel_left hlist
    rw [List.cons.injEq] at hlast
    refine ⟨Nat.lt_of_not_le hfull, hrequest, hnode, ?_⟩
    rw [← hlast.1] at hrequestToken
    exact hrequestToken
  · intro h
    constructor
    · intro hcode
      exact absurd rfl hcode
    · intro _ _
      exact ⟨clientToken, jsonDoc, packet, _, htoken, hdoc, hpacket, hevents, rfl, h.token⟩

theorem publishAndAdd_right_iff {clientToken jsonDoc : List UInt8}
    (htoken : parseClientToken (call.jsonDoc ++ 0 :: call.behind) = .ok (some clientToken))
    (hdoc : setTemplateJsonType call.jsonDoc call.sizeOfBuffer call.method = some jsonDoc) :
    RequestRight info call t (publishAndAdd info call env clientToken jsonDoc t) ↔
      (Publishable info jsonDoc env t.mqtt → call.requestCallback ≠ none →
        Registers clientToken call t) := by
  obtain ⟨hdone, hpublishable⟩ := publish_done info jsonDoc env t.mqtt
  rw [← hpublishable]
  unfold publishAndAdd
  cases hresult : publishToTemplateUpstreamTopic info jsonDoc env t.mqtt with
  | mk result rest =>
    rw [hresult] at hdone
    cases result with
    | error rc =>
      apply iff_of_true
      · constructor
        · intro _
          exact ⟨hdone.2, rfl⟩
        · intro hcode
          cases hcode
      · rintro ⟨id, hid⟩
        cases hid
    | ok id =>
      obtain ⟨packet, hpacket, hevents⟩ := hdone
      dsimp only
      by_cases hcallback : call.requestCallback = none
      · rw [if_pos hcallback]
        apply iff_of_true
        · constructor
          · intro hcode
            exact absurd rfl hcode
          · intro _ hsome
            exact absurd hcallback hsome
        · intro _ hsome
          exact absurd hcallback hsome
      · rw [if_neg hcallback]
        refine (added_right_iff hcallback htoken hdoc hpacket hevents).trans ?_
        exact ⟨fun h _ _ => h, fun h => h ⟨id, rfl⟩ hcallback⟩

/-- `send_template_request` is right exactly if, where it publishes a message with a callback,
the reply list has room, both allocations succeed and the token fits its field. -/
theorem request_sent_iff (info : DeviceInfo) (call : RequestCall) (env : RequestEnv)
    (t : Template) :
    RequestRight info call t (sendTemplateRequestOver info call env t) ↔
      ∀ clientToken jsonDoc,
        parseClientToken (call.jsonDoc ++ 0 :: call.behind) = .ok (some clientToken) →
        setTemplateJsonType call.jsonDoc call.sizeOfBuffer call.method = some jsonDoc →
        Publishable info jsonDoc env t.mqtt → call.requestCallback ≠ none →
          Registers clientToken call t := by
  unfold sendTemplateRequestOver
  cases htoken : parseClientToken (call.jsonDoc ++ 0 :: call.behind) with
  | error e =>
    refine iff_of_true (requestRight_error (fun hcode => TemplateCode.noConfusion hcode) rfl) ?_
    intro _ _ hsome
    cases hsome
  | ok found =>
    cases found with
    | none =>
      refine iff_of_true (requestRight_error (fun hcode => TemplateCode.noConfusion hcode) rfl) ?_
      intro _ _ hsome
      cases hsome
    | some clientToken =>
      dsimp only
      cases hdoc : setTemplateJsonType call.jsonDoc call.sizeOfBuffer call.method with
      | none =>
        refine iff_of_true (requestRight_error (fun hcode => TemplateCode.noConfusion hcode) rfl) ?_
        intro _ _ _ hsome
        cases hsome
      | some jsonDoc =>
        dsimp only
        rw [publishAndAdd_right_iff htoken hdoc]
        constructor
        · intro h token doc htoken' hdoc'
          obtain rfl := Option.some.inj (Except.ok.inj htoken')
          obtain rfl := Option.some.inj hdoc'
          exact h
        · intro h
          exact h clientToken jsonDoc rfl rfl

/-- A connected client with ten requests in its list. -/
def fullTemplate : Template :=
  { Template.init
      { Client.init 0 5000 true ⟨⟨[], 4, 240, true⟩, true⟩ with isConnected := true }
        false none with
    replyList := List.replicate 10 ⟨0, [], [], .get, none, 0, none⟩ }

/-- A report of the document `{"clientToken":"t"}`, in a buffer of a hundred bytes. -/
def reportCall : RequestCall where
  method := .report
  timeoutSec := 5
  requestCallback := some 0
  userContext := none
  jsonDoc := ascii "\x7b\"clientToken\":\"t\"\x7d"
  sizeOfBuffer := 100
  behind := []
  publish := .success
  requestOk := true
  nodeOk := true
  now := 0
  beyond := []

/-- With ten requests in the list, the message is published and an error is returned. -/
theorem request_sent_and_refused :
    ¬ ∀ (info : DeviceInfo) (call : RequestCall) (env : RequestEnv) (t : Template),
      RequestRight info call t (sendTemplateRequestOver info call env t) := by
  intro h
  have hright := h ⟨ascii "p", ascii "d"⟩ reportCall ⟨0, true, true, [.accept 2047]⟩ fullTemplate
  have hnone := (hright.failed (by decide +kernel)).1
  revert hnone
  decide +kernel

end Requests

end IotExplorer.TemplateSends
