import IotExplorer.RequestPackets

/-!
The lengths of outgoing packets. Each serializer checks the buffer against a
length from a routine of its own, and then writes without looking at the buffer
again: CONNECT with every optional field, PUBLISH, and the requests for one
filter.
-/
namespace IotExplorer.PacketLengths

open Protocol PacketBytes PublishPacket ControlPackets RequestPackets

section Connect

/-- What a password adds to the length of a CONNECT request. -/
def passwordLen (password : Option (List UInt8)) : ℕ :=
  match password with
  | none => 0
  | some password => password.length + 2

/-- `_get_packet_connect_rem_len`; the user name is there whenever it is called. -/
def connectRemLen (options : ConnectOptions) (username : List UInt8)
    (password : Option (List UInt8)) : ℕ :=
  let head := if options.mqttVersion = 3 then 12 else if options.mqttVersion = 4 then 10 else 0
  (head + (options.clientId.length + 2) + (username.length + 2) + passwordLen password) % 2 ^ 32

/-- The password of a connection with `AUTH_WITH_NOTLS` and `AUTH_MODE_KEY`: the
signature of the user name, cut by `HAL_Snprintf` to its block of 51 bytes. -/
def signedPassword (hmacSha1 : List UInt8 → List UInt8 → List UInt8)
    (username secret : List UInt8) : List UInt8 :=
  (hmacSha1 username secret ++ [59, 104, 109, 97, 99, 115, 104, 97, 49]).take 50

/-- The password that `_serialize_connect_packet` sends, from the one in its
options: `keyAuth` is the build with `AUTH_WITH_NOTLS` and `AUTH_MODE_KEY`. -/
def connectPassword (hmacSha1 : List UInt8 → List UInt8 → List UInt8) (keyAuth : Bool)
    (username : List UInt8) (password secret : Option (List UInt8)) : Option (List UInt8) :=
  match keyAuth, secret with
  | true, some secret => some (signedPassword hmacSha1 username secret)
  | _, _ => password

/-- What `_serialize_connect_packet` writes behind the remaining length. The
password is written only under its flag, which is a matter of the build. -/
def connectBody (keyAuth : Bool) (options : ConnectOptions) (username : List UInt8)
    (password : Option (List UInt8)) : List UInt8 :=
  let protocol : List UInt8 :=
    if options.mqttVersion = 4 then mqttWriteUtf8String [77, 81, 84, 84] ++ [4]
    else mqttWriteUtf8String [77, 81, 73, 115, 100, 112] ++ [3]
  let flags : UInt8 :=
    (if options.cleanSession then 0x02 else 0) ||| 0x80 ||| (if keyAuth then 0x40 else 0)
  let passwordField := match keyAuth, password with
    | true, some password => mqttWriteUtf8String password
    | _, _ => []
  protocol ++ [flags] ++ mqttWriteUint16 options.keepAliveInterval ++
    mqttWriteUtf8String options.clientId ++ mqttWriteUtf8String username ++ passwordField

/-- `_serialize_connect_packet` with every optional field; `passwordOk` is whether
the signed password could be allocated. -/
def serializeConnectPacketFull (hmacSha1 : List UInt8 → List UInt8 → List UInt8) (keyAuth : Bool)
    (bufLen : ℕ) (options : ConnectOptions) (password secret : Option (List UInt8))
    (connId : List UInt8) (usernameOk passwordOk : Bool) : Except ReturnCode (List UInt8) :=
  if options.clientId = [] then .error .inval
  else if !usernameOk then .error .malloc
  else if keyAuth ∧ secret.isSome ∧ !passwordOk then .error .malloc
  else
    let username := connectUsername options.clientId connId
    let password := connectPassword hmacSha1 keyAuth username password secret
    let remLen := connectRemLen options username password
    if getMqttPacketLen remLen > bufLen then .error .bufTooShort
    else
      match mqttInitPacketHeader .connect .qos0 0 0 with
      | .error rc => .error rc
      | .ok header =>
          .ok (header :: mqttWritePacketRemLen remLen ++ connectBody keyAuth options
            username password)

/-- Over TLS and without a password this is the packet of a connection. -/
theorem serializeConnectPacketFull_tls (hmacSha1 : List UInt8 → List UInt8 → List UInt8)
    (bufLen : ℕ) (options : ConnectOptions) (secret : Option (List UInt8)) (connId : List UInt8)
    (usernameOk passwordOk : Bool) :
    serializeConnectPacketFull hmacSha1 false bufLen options none secret connId usernameOk
      passwordOk = serializeConnectPacket bufLen options connId usernameOk := by
  have hflags : ∀ flags : UInt8, flags ||| 0 = flags := fun flags => UInt8.or_zero
  have hremLen : connectRemLen options (connectUsername options.clientId connId)
      (connectPassword hmacSha1 false (connectUsername options.clientId connId) none secret) =
        getPacketConnectRemLen options (connectUsername options.clientId connId) := by
    simp only [connectPassword, connectRemLen, passwordLen, getPacketConnectRemLen, Nat.add_zero]
  unfold serializeConnectPacketFull serializeConnectPacket
  dsimp only
  rw [hremLen]
  cases mqttInitPacketHeader .connect .qos0 0 0 <;>
    simp only [connectBody, Bool.false_eq_true, false_and, if_false, List.append_nil,
      List.nil_append, List.append_assoc, List.cons_append, hflags]

end Connect

/-- What a serialized packet has to be: the remaining length field holds the
number of bytes behind it, the reported length, of 32 bits, is the number of
bytes written, and these are inside the buffer. -/
structure PacketRight (bufLen : ℕ) (packet : List UInt8) : Prop where
  remLen : ∃ start, start ≤ packet.length ∧
    mqttReadPacketRemLenFormBuf packet 1 = .ok (packet.length - start, start)
  reported : packet.length % 2 ^ 32 = packet.length
  inside : packet.length ≤ bufLen

/-- A serializer that refuses has not written a byte. -/
def SerializeRight (bufLen : ℕ) (result : Except ReturnCode (List UInt8)) : Prop :=
  ∀ packet, result = .ok packet → PacketRight bufLen packet

theorem serializeRight_error (bufLen : ℕ) (rc : ReturnCode) :
    SerializeRight bufLen (.error rc) := by
  intro packet hpacket
  cases hpacket

section Lengths
variable {bufLen remLen : ℕ} {body : List UInt8}

variable (body) in
/-- A packet whose buffer was checked for `remLen` bytes behind the field. -/
theorem packetRight_iff (header : UInt8) (hlen : getMqttPacketLen remLen ≤ bufLen)
    (hword : remLen < 2 ^ 32) :
    PacketRight bufLen (header :: mqttWritePacketRemLen remLen ++ body) ↔
      remLen < 2 ^ 28 ∧ body.length = remLen := by
  have hshape : header :: mqttWritePacketRemLen remLen ++ body =
      [header] ++ mqttWritePacketRemLen remLen ++ body := rfl
  have hcount : ([header] ++ mqttWritePacketRemLen remLen ++ body).length =
      1 + (mqttWritePacketRemLen remLen).length + body.length := by
    simp only [List.length_append, List.length_singleton]
  rw [hshape]
  constructor
  · intro hright
    obtain ⟨start, hstart, hread⟩ := hright.remLen
    by_cases hlt : remLen < 2 ^ 28
    · rw [mqttReadPacketRemLenFormBuf_write [header] body 1 remLen rfl hlt] at hread
      simp only [Except.ok.injEq, Prod.mk.injEq] at hread
      omega
    · rw [mqttReadPacketRemLenFormBuf_write_eq_error [header] body 1 remLen rfl (by omega)
        (by omega)] at hread
      cases hread
  · rintro ⟨hlt, hbody⟩
    have hfit := packet_length_le remLen hlt
    have hfour := (mqttWritePacketRemLen_length_le_iff 3 remLen (by omega)).mpr (by omega)
    refine ⟨⟨1 + (mqttWritePacketRemLen remLen).length, by omega, ?_⟩, by omega, by omega⟩
    rw [mqttReadPacketRemLenFormBuf_write [header] body 1 remLen rfl hlt, hcount, hbody,
      Nat.add_sub_cancel_left]

/-- A serializer that counts its body in 32 bits. -/
theorem serializeRight_iff {result : Except ReturnCode (List UInt8)} (header : UInt8)
    (hresult : result = if getMqttPacketLen (body.length % 2 ^ 32) > bufLen then
        .error .bufTooShort
      else .ok (header :: mqttWritePacketRemLen (body.length % 2 ^ 32) ++ body)) :
    SerializeRight bufLen result ↔
      bufLen < getMqttPacketLen (body.length % 2 ^ 32) ∨ body.length < 2 ^ 28 := by
  rw [hresult]
  split
  · next hshort =>
    constructor
    · intro _
      exact .inl hshort
    · intro _
      exact serializeRight_error _ _
  · next hroom =>
    have hiff := packetRight_iff body header (Nat.le_of_not_lt hroom)
      (Nat.mod_lt _ (by decide))
    constructor
    · intro hright
      have hlen := hiff.mp (hright _ rfl)
      right
      omega
    · intro hcond packet hpacket
      cases hpacket
      apply hiff.mpr
      omega

end Lengths

section Serializers
variable (bufLen : ℕ)

theorem publish_right_iff (dup retained : UInt8) (qos : QoS) (packetId : ℕ)
    (topicName payload : List UInt8) :
    SerializeRight bufLen
        (serializePublishPacket bufLen dup qos retained packetId topicName payload) ↔
      bufLen < getMqttPacketLen (publishBodyLen qos topicName payload % 2 ^ 32) ∨
        publishBodyLen qos topicName payload < 2 ^ 28 := by
  obtain ⟨header, hheader, -⟩ := publish_header qos dup retained
  have hbody : (mqttWriteUtf8String topicName ++
      ((if qos.code > 0 then mqttWriteUint16 packetId else []) ++ payload)).length =
      publishBodyLen qos topicName payload := by
    have hid := packetIdField_length qos packetId
    simp only [packetIdField] at hid
    simp only [List.length_append, mqttWriteUtf8String_length, hid, publishBodyLen]
    omega
  rw [← hbody]
  apply serializeRight_iff header
  simp only [serializePublishPacket, hheader, getPublishPacketLen, hbody, publishBodyLen,
    List.append_assoc, List.cons_append]

/-- The requests have one filter in every call. -/
theorem subscribe_right_iff (dup : UInt8) (packetId : ℕ) (filter : List UInt8) (qos : QoS) :
    SerializeRight bufLen (serializeSubscribePacket bufLen dup packetId 1 [filter] [qos]) ↔
      bufLen < getMqttPacketLen ((5 + filter.length) % 2 ^ 32) ∨ 5 + filter.length < 2 ^ 28 := by
  obtain ⟨header, hheader, -⟩ := request_header .subscribe dup (.inl rfl)
  have hbody : (mqttWriteUint16 packetId ++ (mqttWriteUtf8String filter ++ [qos.code])).length =
      5 + filter.length := by
    simp only [List.length_append, mqttWriteUtf8String_length, mqttWriteUint16, List.length_cons,
      List.length_nil]
    omega
  have hremLen : getSubscribePacketRemLen 1 [filter] = (5 + filter.length) % 2 ^ 32 := by
    simp only [getSubscribePacketRemLen, filterAt, List.range_one, List.map_cons, List.map_nil,
      List.sum_cons, List.sum_nil, List.headD_cons, List.drop_zero]
    omega
  rw [← hbody]
  apply serializeRight_iff header
  simp only [serializeSubscribePacket, hheader, hremLen, hbody, filterAt, List.range_one,
    List.flatMap_cons, List.flatMap_nil, List.headD_cons, List.drop_zero, List.append_nil,
    List.getD_cons_zero, List.append_assoc, List.cons_append]

theorem unsubscribe_packet_right_iff (dup : UInt8) (packetId : ℕ) (filter : List UInt8) :
    SerializeRight bufLen (serializeUnsubscribePacket bufLen dup packetId 1 [filter]) ↔
      bufLen < getMqttPacketLen ((4 + filter.length) % 2 ^ 32) ∨ 4 + filter.length < 2 ^ 28 := by
  obtain ⟨header, hheader, -⟩ := request_header .unsubscribe dup (.inr rfl)
  have hbody : (mqttWriteUint16 packetId ++ mqttWriteUtf8String filter).length =
      4 + filter.length := by
    simp only [List.length_append, mqttWriteUtf8String_length, mqttWriteUint16, List.length_cons,
      List.length_nil]
    omega
  have hremLen : getUnsubscribePacketRemLen 1 [filter] = (4 + filter.length) % 2 ^ 32 := by
    simp only [getUnsubscribePacketRemLen, filterAt, List.range_one, List.map_cons, List.map_nil,
      List.sum_cons, List.sum_nil, List.headD_cons, List.drop_zero]
    omega
  rw [← hbody]
  apply serializeRight_iff header
  simp only [serializeUnsubscribePacket, hheader, hremLen, hbody, filterAt, List.range_one,
    List.flatMap_cons, List.flatMap_nil, List.headD_cons, List.drop_zero, List.append_nil,
    List.append_assoc, List.cons_append]

end Serializers

section ConnectRight
variable (hmacSha1 : List UInt8 → List UInt8 → List UInt8) (options : ConnectOptions)
  (secret : Option (List UInt8)) (connId : List UInt8)

theorem connectUsername_length_le (clientId : List UInt8) :
    (connectUsername clientId connId).length ≤ clientId.length + 33 := by
  have happid : deviceSdkAppid.length = 8 := by decide
  unfold connectUsername
  simp only [List.length_take, happid]
  omega

theorem connectBody_length {username : List UInt8} (keyAuth : Bool)
    (password : Option (List UInt8)) (h : options.mqttVersion = 3 ∨ options.mqttVersion = 4) :
    (connectBody keyAuth options username password).length =
      (if options.mqttVersion = 3 then 12 else 10) + (options.clientId.length + 2) +
        (username.length + 2) + (if keyAuth then passwordLen password else 0) := by
  have hfield : (match keyAuth, password with
      | true, some password => mqttWriteUtf8String password
      | _, _ => []).length = if keyAuth then passwordLen password else 0 := by
    cases keyAuth <;> cases password <;> simp [passwordLen, mqttWriteUtf8String_length]
    omega
  simp only [connectBody, List.length_append, hfield]
  rcases h with h | h <;> simp [h, mqttWriteUtf8String_length, mqttWriteUint16] <;> omega

theorem passwordLen_connectPassword_le (keyAuth : Bool) (username : List UInt8)
    {password : Option (List UInt8)} (h : passwordLen password ≤ 2 ^ 17) :
    passwordLen (connectPassword hmacSha1 keyAuth username password secret) ≤ 2 ^ 17 := by
  unfold connectPassword
  split
  · simp only [passwordLen, signedPassword, List.length_take]
    omega
  · exact h

/-- Only the build that sets the password flag writes the password that the
length counts. -/
theorem connect_right_iff (bufLen : ℕ) (keyAuth usernameOk passwordOk : Bool)
    {password : Option (List UInt8)} (hversion : options.mqttVersion = 3 ∨ options.mqttVersion = 4)
    (hclient : options.clientId.length ≤ 65535) (hpassword : ∀ p ∈ password, p.length ≤ 65535) :
    SerializeRight bufLen (serializeConnectPacketFull hmacSha1 keyAuth bufLen options password
        secret connId usernameOk passwordOk) ↔
      keyAuth = true ∨ password = none ∨ options.clientId = [] ∨ usernameOk = false ∨
        bufLen < getMqttPacketLen
          (connectRemLen options (connectUsername options.clientId connId) password) := by
  have huser := connectUsername_length_le connId options.clientId
  have hlen : passwordLen password ≤ 2 ^ 17 := by
    cases password with
    | none => exact Nat.zero_le _
    | some p =>
      have hp := hpassword p rfl
      simp only [passwordLen]
      omega
  unfold serializeConnectPacketFull
  by_cases hempty : options.clientId = []
  · rw [if_pos hempty]
    exact iff_of_true (serializeRight_error _ _) (.inr (.inr (.inl hempty)))
  rw [if_neg hempty]
  cases usernameOk with
  | false => exact iff_of_true (serializeRight_error _ _) (.inr (.inr (.inr (.inl rfl))))
  | true =>
    have hthere : ¬ (!true) = true := by decide
    rw [if_neg hthere]
    by_cases hsign : keyAuth ∧ secret.isSome ∧ !passwordOk
    · rw [if_pos hsign]
      exact iff_of_true (serializeRight_error _ _) (.inl hsign.1)
    rw [if_neg hsign]
    dsimp only
    generalize connectUsername options.clientId connId = username at huser ⊢
    have hsent := passwordLen_connectPassword_le hmacSha1 secret keyAuth username hlen
    have hheader : mqttInitPacketHeader .connect .qos0 0 0 = .ok 0x10 := by decide
    have hremLen : ∀ p, passwordLen p ≤ 2 ^ 17 → connectRemLen options username p =
        (connectBody keyAuth options username p).length +
          (if keyAuth then 0 else passwordLen p) := by
      intro p hp
      rw [connectBody_length options keyAuth p hversion]
      unfold connectRemLen
      rcases hversion with h | h <;> cases keyAuth <;> simp [h] <;> omega
    have hword : ∀ p, passwordLen p ≤ 2 ^ 17 → connectRemLen options username p < 2 ^ 28 := by
      intro p hp
      unfold connectRemLen
      rcases hversion with h | h <;> simp [h] <;> omega
    rw [hheader]
    dsimp only
    split
    · next hshort =>
      refine iff_of_true (serializeRight_error _ _) ?_
      cases keyAuth with
      | true => exact .inl rfl
      | false => exact .inr (.inr (.inr (.inr hshort)))
    · next hroom =>
      have hiff := packetRight_iff (connectBody keyAuth options username
        (connectPassword hmacSha1 keyAuth username password secret)) 0x10
        (Nat.le_of_not_lt hroom) (Nat.lt_trans (hword _ hsent) (by decide))
      have hcount := hremLen _ hsent
      constructor
      · intro hright
        obtain ⟨-, hbody⟩ := hiff.mp (hright _ rfl)
        cases keyAuth with
        | true => exact .inl rfl
        | false =>
          cases password with
          | none => exact .inr (.inl rfl)
          | some p =>
            exfalso
            simp only [connectPassword, Bool.false_eq_true, if_false, passwordLen] at hcount hbody
            omega
      · intro hcond packet hpacket
        cases hpacket
        refine hiff.mpr ⟨hword _ hsent, ?_⟩
        cases keyAuth with
        | true => simpa using hcount.symm
        | false =>
          have hnone : password = none := by
            rcases hcond with h | h | h | h | h
            · cases h
            · exact h
            · exact absurd h hempty
            · cases h
            · exact absurd h hroom
          simpa [hnone, connectPassword, passwordLen] using hcount.symm

/-- Which packets have the lengths that were computed for them. -/
theorem serializers_right_iff (bufLen : ℕ) (keyAuth usernameOk passwordOk : Bool)
    {password : Option (List UInt8)} (dup retained : UInt8) (qos : QoS) (packetId : ℕ)
    (topicName payload filter : List UInt8)
    (hversion : options.mqttVersion = 3 ∨ options.mqttVersion = 4)
    (hclient : options.clientId.length ≤ 65535) (hpassword : ∀ p ∈ password, p.length ≤ 65535) :
    (SerializeRight bufLen (serializeConnectPacketFull hmacSha1 keyAuth bufLen options password
        secret connId usernameOk passwordOk) ↔
      keyAuth = true ∨ password = none ∨ options.clientId = [] ∨ usernameOk = false ∨
        bufLen < getMqttPacketLen
          (connectRemLen options (connectUsername options.clientId connId) password)) ∧
    (SerializeRight bufLen
        (serializePublishPacket bufLen dup qos retained packetId topicName payload) ↔
      bufLen < getMqttPacketLen (publishBodyLen qos topicName payload % 2 ^ 32) ∨
        publishBodyLen qos topicName payload < 2 ^ 28) ∧
    (SerializeRight bufLen (serializeSubscribePacket bufLen dup packetId 1 [filter] [qos]) ↔
      bufLen < getMqttPacketLen ((5 + filter.length) % 2 ^ 32) ∨ 5 + filter.length < 2 ^ 28) ∧
    (SerializeRight bufLen (serializeUnsubscribePacket bufLen dup packetId 1 [filter]) ↔
      bufLen < getMqttPacketLen ((4 + filter.length) % 2 ^ 32) ∨ 4 + filter.length < 2 ^ 28) := by
  refine ⟨?_, ?_, ?_, ?_⟩
  · exact connect_right_iff hmacSha1 options secret connId bufLen keyAuth usernameOk passwordOk
      hversion hclient hpassword
  · exact publish_right_iff bufLen dup retained qos packetId topicName payload
  · exact subscribe_right_iff bufLen dup packetId filter qos
  · exact unsubscribe_packet_right_iff bufLen dup packetId filter

end ConnectRight

/-- The options of a device `a` over TLS. -/
def sampleOptions : ConnectOptions :=
  { clientId := [97], mqttVersion := 4, keepAliveInterval := 240, cleanSession := true }

/-- The four packets of a small client. -/
theorem serializers_right_iff_small :
    SerializeRight 128 (serializeConnectPacketFull (fun _ _ => []) false 128 sampleOptions none none
      [49] true true) ∧
    SerializeRight 128 (serializePublishPacket 128 0 .qos1 0 7 [97, 47, 98] [1, 2, 3]) ∧
    SerializeRight 128 (serializeSubscribePacket 128 0 7 1 [[97, 47, 98]] [.qos1]) ∧
    SerializeRight 128 (serializeUnsubscribePacket 128 0 7 1 [[97, 47, 98]]) := by
  have hnone : ∀ p ∈ (none : Option (List UInt8)), p.length ≤ 65535 := by simp
  obtain ⟨hconnect, hpublish, hsubscribe, hunsubscribe⟩ := serializers_right_iff (fun _ _ => [])
    sampleOptions none [49] 128 false true true 0 0 .qos1 7 [97, 47, 98] [1, 2, 3] [97, 47, 98]
    (.inr rfl) (by decide) hnone
  exact ⟨hconnect.mpr (.inr (.inl rfl)), hpublish.mpr (.inr (by decide)),
    hsubscribe.mpr (.inr (by decide)), hunsubscribe.mpr (.inr (by decide))⟩

/-- The CONNECT request of that device with the password `x`. -/
def samplePacket : List UInt8 :=
  [0x10, 50, 0, 4, 77, 81, 84, 84, 4, 0x82, 0, 240, 0, 1, 97, 0, 32, 97, 59, 50, 49, 48, 49, 48, 52,
    48, 54, 59, 49, 59, 57, 50, 50, 51, 51, 55, 50, 48, 51, 54, 56, 53, 52, 55, 55, 53, 56, 48, 55]

/-- A password over TLS is counted and not written, and a payload of `2 ^ 28`
bytes needs a fifth length byte. -/
theorem serializers_wrong :
    serializeConnectPacketFull (fun _ _ => []) false 128 sampleOptions (some [120]) none [49] true
        true = .ok samplePacket ∧
    ¬ SerializeRight 128 (serializeConnectPacketFull (fun _ _ => []) false 128 sampleOptions
        (some [120]) none [49] true true) ∧
    ¬ SerializeRight (2 ^ 28 + 8) (serializePublishPacket (2 ^ 28 + 8) 0 .qos0 0 0 [97]
      (List.replicate (2 ^ 28) 0)) := by
  have hpacket : serializeConnectPacketFull (fun _ _ => []) false 128 sampleOptions (some [120])
      none [49] true true = .ok samplePacket := by decide +kernel
  refine ⟨hpacket, ?_, ?_⟩
  · intro hright
    have hread : mqttReadPacketRemLenFormBuf samplePacket 1 = .ok (50, 2) := by decide
    have hlength : samplePacket.length = 49 := rfl
    obtain ⟨start, -, hfield⟩ := (hright _ hpacket).remLen
    rw [hread, hlength] at hfield
    simp only [Except.ok.injEq, Prod.mk.injEq] at hfield
    omega
  · have hbody : publishBodyLen .qos0 [97] (List.replicate (2 ^ 28) 0) = 2 ^ 28 + 3 := by
      rw [publishBodyLen, List.length_replicate]
      norm_num [QoS.code]
    rw [publish_right_iff, hbody]
    norm_num [getMqttPacketLen]

section Estimate

/-- `get_mqtt_packet_len` compares the length behind the header byte, and its last threshold is one
too low: it is exact except in front of the thresholds. -/
theorem getMqttPacketLen_right_iff (n : ℕ) (h : n < 2 ^ 28) :
    getMqttPacketLen n = 1 + (mqttWritePacketRemLen n).length + n ↔
      n ≠ 127 ∧ n ≠ 16383 ∧ n ≠ 2097150 ∧ n ≠ 2097151 := by
  have hpos := mqttWritePacketRemLen_length_pos n
  have hone := mqttWritePacketRemLen_length_le_iff 0 n (by omega)
  have htwo := mqttWritePacketRemLen_length_le_iff 1 n (by omega)
  have hthree := mqttWritePacketRemLen_length_le_iff 2 n (by omega)
  have hfour := mqttWritePacketRemLen_length_le_iff 3 n (by omega)
  simp only [Nat.reducePow, Nat.reduceAdd] at hone htwo hthree hfour h
  unfold getMqttPacketLen
  dsimp only
  split_ifs
  · omega
  · omega
  · omega
  · omega

theorem getMqttPacketLen_right_iff_small :
    getMqttPacketLen 126 = 1 + (mqttWritePacketRemLen 126).length + 126 ↔
      126 ≠ 127 ∧ 126 ≠ 16383 ∧ 126 ≠ 2097150 ∧ 126 ≠ 2097151 :=
  getMqttPacketLen_right_iff 126 (by norm_num)

/-- A length of 127 is written in one byte and counted as two. -/
theorem getMqttPacketLen_wrong :
    ¬∀ n < 2 ^ 28, getMqttPacketLen n = 1 + (mqttWritePacketRemLen n).length + n := by
  intro h
  exact absurd (h 127 (by norm_num)) (by decide)

end Estimate

end IotExplorer.PacketLengths
