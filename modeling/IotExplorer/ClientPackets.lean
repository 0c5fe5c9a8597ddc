import IotExplorer.PacketLengths

/-!
The packets of a client as a server reads them. A packet has a known type with the flags that
go with it, its remaining length is the number of bytes behind it, and its fields fill them
without a rest. What the serializers write is read as what they were asked for.
-/
namespace IotExplorer.ClientPackets

open Protocol PacketBytes PublishPacket ControlPackets RequestPackets PacketLengths

section Reader

inductive ClientPacket where
  | connect (level : UInt8) (cleanSession : Bool) (keepAlive : ℕ) (clientId : List UInt8)
      (username password : Option (List UInt8))
  | publish (dup retain : Bool) (qos : QoS) (packetId : Option ℕ) (topicName payload : List UInt8)
  | ack (type : MessageType) (packetId : ℕ)
  | subscribe (packetId : ℕ) (topicFilter : List UInt8) (qos : QoS)
  | unsubscribe (packetId : ℕ) (topicFilter : List UInt8)
  | pingreq
  | disconnect
  deriving DecidableEq

/-- Two bytes, the high one first. -/
def readWord : List UInt8 → Option (ℕ × List UInt8)
  | a :: b :: rest => some (256 * a.toNat + b.toNat, rest)
  | _ => none

def readText (bytes : List UInt8) : Option (List UInt8 × List UInt8) :=
  (readWord bytes).bind fun word =>
    if word.1 ≤ word.2.length then some (word.2.take word.1, word.2.drop word.1) else none

/-- A text that is there under its flag. -/
def readTextIf (isThere : Bool) (bytes : List UInt8) : Option (Option (List UInt8) × List UInt8) :=
  if isThere then (readText bytes).map fun text => (some text.1, text.2) else some (none, bytes)

def readQos (code : UInt8) : Option QoS :=
  if code = 0 then some .qos0 else if code = 1 then some .qos1
  else if code = 2 then some .qos2 else none

/-- A request with a will is not one of a client here. -/
def readConnectFields (level flags : UInt8) (bytes : List UInt8) : Option ClientPacket :=
  if flags &&& 0x3D ≠ 0 then none
  else
    (readWord bytes).bind fun keepAlive =>
    (readText keepAlive.2).bind fun clientId =>
    (readTextIf (flags &&& 0x80 ≠ 0) clientId.2).bind fun username =>
    (readTextIf (flags &&& 0x40 ≠ 0) username.2).bind fun password =>
      if password.2 = [] then
        some (.connect level (flags &&& 0x02 ≠ 0) keepAlive.1 clientId.1 username.1 password.1)
      else none

/-- The protocol's name with its level comes first. -/
def readConnect (body : List UInt8) : Option ClientPacket :=
  (readText body).bind fun name =>
    match name.2 with
    | level :: flags :: bytes =>
        if name.1 = [77, 81, 84, 84] ∧ level = 4 ∨ name.1 = [77, 81, 73, 115, 100, 112] ∧ level = 3
        then readConnectFields level flags bytes
        else none
    | _ => none

/-- A message of quality 0 has no packet id, and is never a duplicate. -/
def readPublish (header : UInt8) (body : List UInt8) : Option ClientPacket :=
  (readQos (headerQos header)).bind fun qos =>
  (readText body).bind fun topic =>
    if qos = .qos0 then
      if headerDup header = 0 then
        some (.publish false (headerRetained header ≠ 0) qos none topic.1 topic.2)
      else none
    else
      (readWord topic.2).map fun id =>
        .publish (headerDup header ≠ 0) (headerRetained header ≠ 0) qos (some id.1) topic.1 id.2

def readAck (type : MessageType) (body : List UInt8) : Option ClientPacket :=
  (readWord body).bind fun id => if id.2 = [] then some (.ack type id.1) else none

/-- A request for one filter. -/
def readSubscribe (body : List UInt8) : Option ClientPacket :=
  (readWord body).bind fun id =>
  (readText id.2).bind fun filter =>
    match filter.2 with
    | [code] => (readQos code).map (.subscribe id.1 filter.1)
    | _ => none

def readUnsubscribe (body : List UInt8) : Option ClientPacket :=
  (readWord body).bind fun id =>
  (readText id.2).bind fun filter =>
    if filter.2 = [] then some (.unsubscribe id.1 filter.1) else none

/-- The fields of a packet, by its first byte. -/
def readBody (header : UInt8) (body : List UInt8) : Option ClientPacket :=
  if headerType header = MessageType.publish.code then readPublish header body
  else if header = 0x10 then readConnect body
  else if header = 0x40 then readAck .puback body
  else if header = 0x50 then readAck .pubrec body
  else if header = 0x62 then readAck .pubrel body
  else if header = 0x70 then readAck .pubcomp body
  else if header = 0x82 then readSubscribe body
  else if header = 0xA2 then readUnsubscribe body
  else if header = 0xC0 ∧ body = [] then some .pingreq
  else if header = 0xE0 ∧ body = [] then some .disconnect
  else none

/-- A packet; the remaining length has at most four digits and is all there is. -/
def readPacket : List UInt8 → Option ClientPacket
  | [] => none
  | header :: bytes =>
      (Basis.VarLength.decode 128 4 (bytes.map UInt8.toNat)).bind fun remLen =>
        if remLen.2.length = remLen.1 then
          readBody header (bytes.drop (bytes.length - remLen.1))
        else none

end Reader

section Fields
variable {rest : List UInt8}

theorem readWord_write {n : ℕ} (h : n < 2 ^ 16) :
    readWord (mqttWriteUint16 n ++ rest) = some (n, rest) := by
  rw [mqttWriteUint16, List.cons_append, List.singleton_append, readWord, UInt8.toNat_ofNat',
    UInt8.toNat_ofNat']
  congr 2
  omega

theorem readText_write {text : List UInt8} (h : text.length < 2 ^ 16) :
    readText (mqttWriteUtf8String text ++ rest) = some (text, rest) := by
  rw [readText, mqttWriteUtf8String, Nat.mod_eq_of_lt h, List.append_assoc, readWord_write h,
    Option.bind_some, if_pos (by rw [List.length_append]; omega), List.take_left, List.drop_left]

/-- A password is written by `connectBody` only when it is there. -/
theorem readTextIf_write {isThere : Bool} {text : Option (List UInt8)}
    (hthere : isThere = text.isSome) (h : ∀ t ∈ text, t.length < 2 ^ 16) :
    readTextIf isThere ((match isThere, text with
      | true, some t => mqttWriteUtf8String t
      | _, _ => []) ++ rest) = some (text, rest) := by
  cases text with
  | none => simp [readTextIf, hthere]
  | some t =>
    have hread : readText (mqttWriteUtf8String t ++ rest) = some (t, rest) :=
      readText_write (h t rfl)
    simp [readTextIf, hthere, hread]

/-- Each first byte of the client has its reader. -/
theorem readBody_headers (body : List UInt8) :
    readBody 0x10 body = readConnect body ∧ readBody 0x40 body = readAck .puback body ∧
      readBody 0x50 body = readAck .pubrec body ∧ readBody 0x62 body = readAck .pubrel body ∧
      readBody 0x82 body = readSubscribe body ∧ readBody 0xA2 body = readUnsubscribe body := by
  refine ⟨?_, ?_, ?_, ?_, ?_, ?_⟩ <;> simp +decide only [readBody, if_false, if_true]

theorem readQos_code (qos : QoS) : readQos qos.code = some qos := by
  cases qos <;> rfl

/-- A packet whose remaining length is the number of bytes behind it. -/
theorem readPacket_write (header : UInt8) {body : List UInt8} {remLen : ℕ}
    (hlen : body.length = remLen) (hlt : remLen < 2 ^ 28) :
    readPacket (header :: mqttWritePacketRemLen remLen ++ body) = readBody header body := by
  have hdecode := Basis.VarLength.decode_encode (b := 128) (by decide) 4 3 remLen
    (body.map UInt8.toNat) (by omega) (by omega)
  rw [List.cons_append, readPacket, List.map_append, mqttWritePacketRemLen_toNat, hdecode,
    Option.bind_some, if_pos (by rw [List.length_map, hlen]), List.length_append, hlen,
    Nat.add_sub_cancel, List.drop_left]

end Fields

section Serializers
variable {bufLen packetId : ℕ} {packet : List UInt8}

theorem read_publish {retained : UInt8} {qos : QoS} {topicName payload : List UInt8}
    (htopic : topicName.length < 2 ^ 16) (hlen : publishBodyLen qos topicName payload < 2 ^ 28)
    (hid : qos ≠ .qos0 → packetId < 2 ^ 16)
    (h : serializePublishPacket bufLen 0 qos retained packetId topicName payload = .ok packet) :
    readPacket packet = some (.publish false (retained &&& 1 ≠ 0) qos
      (if qos = .qos0 then none else some packetId) topicName payload) := by
  obtain ⟨header, hheader, -, rfl⟩ := serializePublishPacket_eq_ok _ _ _ _ _ _ _ h
  obtain ⟨header', hheader', htype, hdup, hqos, hretained⟩ := publish_header qos 0 retained
  obtain rfl : header = header' := Except.ok.inj (hheader.symm.trans hheader')
  have hbody : (mqttWriteUtf8String topicName ++ (packetIdField qos packetId ++ payload)).length =
      publishBodyLen qos topicName payload := by
    rw [List.length_append, List.length_append, mqttWriteUtf8String_length, packetIdField_length,
      publishBodyLen]
    omega
  have hread : readQos (headerQos header) = some qos := by rw [hqos, readQos_code]
  rw [getPublishPacketLen_eq _ _ _ (by omega), List.append_assoc, List.append_assoc,
    readPacket_write header hbody hlen, readBody, if_pos htype, readPublish, hread,
    Option.bind_some, readText_write htopic, Option.bind_some, hdup, hretained]
  cases qos with
  | qos0 => rfl
  | qos1 => simp [packetIdField, QoS.code, readWord_write (hid (by decide))]
  | qos2 => simp [packetIdField, QoS.code, readWord_write (hid (by decide))]

/-- The acknowledgements that the client sends. -/
theorem read_ack {type : MessageType} (htype : type = .puback ∨ type = .pubrec ∨ type = .pubrel)
    (hid : packetId < 2 ^ 16) (h : serializePubAckPacket bufLen type 0 packetId = .ok packet) :
    readPacket packet = some (.ack type packetId) := by
  have hword : readWord (mqttWriteUint16 packetId) = some (packetId, []) := by
    have hread : readWord (mqttWriteUint16 packetId ++ []) = some (packetId, []) :=
      readWord_write hid
    rwa [List.append_nil] at hread
  have hack (type : MessageType) :
      readAck type (mqttWriteUint16 packetId) = some (.ack type packetId) := by
    rw [readAck, hword, Option.bind_some, if_pos rfl]
  have hlen : (mqttWriteUint16 packetId).length = 2 := rfl
  obtain ⟨-, hpuback, hpubrec, hpubrel, -⟩ := readBody_headers (mqttWriteUint16 packetId)
  unfold serializePubAckPacket at h
  dsimp only at h
  split at h
  · cases h
  rcases htype with rfl | rfl | rfl
  · obtain rfl := Except.ok.inj h
    exact (readPacket_write 0x40 hlen (by decide)).trans (hpuback.trans (hack .puback))
  · obtain rfl := Except.ok.inj h
    exact (readPacket_write 0x50 hlen (by decide)).trans (hpubrec.trans (hack .pubrec))
  · obtain rfl := Except.ok.inj h
    exact (readPacket_write 0x62 hlen (by decide)).trans (hpubrel.trans (hack .pubrel))

theorem read_pingreq (h : serializePacketWithZeroPayload bufLen .pingreq = .ok packet) :
    readPacket packet = some .pingreq := by
  unfold serializePacketWithZeroPayload at h
  split at h
  · cases h
  · obtain rfl := Except.ok.inj h
    rfl

theorem read_disconnect (h : serializePacketWithZeroPayload bufLen .disconnect = .ok packet) :
    readPacket packet = some .disconnect := by
  unfold serializePacketWithZeroPayload at h
  split at h
  · cases h
  · obtain rfl := Except.ok.inj h
    rfl

theorem read_subscribe {filter : List UInt8} {qos : QoS} (hfilter : filter.length < 2 ^ 16)
    (hid : packetId < 2 ^ 16)
    (h : serializeSubscribePacket bufLen 0 packetId 1 [filter] [qos] = .ok packet) :
    readPacket packet = some (.subscribe packetId filter qos) := by
  have hlen : (mqttWriteUint16 packetId ++ (mqttWriteUtf8String filter ++ [qos.code])).length =
      5 + filter.length := by
    simp only [List.length_append, mqttWriteUtf8String_length, mqttWriteUint16, List.length_cons,
      List.length_nil]
    omega
  have hremLen : getSubscribePacketRemLen 1 [filter] = 5 + filter.length := by
    simp only [getSubscribePacketRemLen, filterAt, List.range_one, List.map_cons, List.map_nil,
      List.sum_cons, List.sum_nil, List.headD_cons, List.drop_zero]
    omega
  unfold serializeSubscribePacket at h
  dsimp only at h
  rw [hremLen] at h
  split at h
  · cases h
  · have heq := (Except.ok.inj h).symm
    simp only [filterAt, List.range_one, List.flatMap_cons, List.flatMap_nil, List.headD_cons,
      List.drop_zero, List.append_nil, List.getD_cons_zero, List.append_assoc] at heq
    subst heq
    refine (readPacket_write 0x82 hlen (by omega)).trans ?_
    rw [(readBody_headers _).2.2.2.2.1, readSubscribe, readWord_write hid, Option.bind_some,
      readText_write hfilter, Option.bind_some]
    dsimp only
    rw [readQos_code, Option.map_some]

theorem read_unsubscribe {filter : List UInt8} (hfilter : filter.length < 2 ^ 16)
    (hid : packetId < 2 ^ 16)
    (h : serializeUnsubscribePacket bufLen 0 packetId 1 [filter] = .ok packet) :
    readPacket packet = some (.unsubscribe packetId filter) := by
  have hlen : (mqttWriteUint16 packetId ++ mqttWriteUtf8String filter).length =
      4 + filter.length := by
    simp only [List.length_append, mqttWriteUtf8String_length, mqttWriteUint16, List.length_cons,
      List.length_nil]
    omega
  have hremLen : getUnsubscribePacketRemLen 1 [filter] = 4 + filter.length := by
    simp only [getUnsubscribePacketRemLen, filterAt, List.range_one, List.map_cons, List.map_nil,
      List.sum_cons, List.sum_nil, List.headD_cons, List.drop_zero]
    omega
  have htext : readText (mqttWriteUtf8String filter) = some (filter, []) := by
    have hread : readText (mqttWriteUtf8String filter ++ []) = some (filter, []) :=
      readText_write hfilter
    rwa [List.append_nil] at hread
  unfold serializeUnsubscribePacket at h
  dsimp only at h
  rw [hremLen] at h
  split at h
  · cases h
  · have heq := (Except.ok.inj h).symm
    simp only [filterAt, List.range_one, List.flatMap_cons, List.flatMap_nil, List.headD_cons,
      List.drop_zero, List.append_nil, List.append_assoc] at heq
    subst heq
    refine (readPacket_write 0xA2 hlen (by omega)).trans ?_
    rw [(readBody_headers _).2.2.2.2.2, readUnsubscribe, readWord_write hid, Option.bind_some,
      htext, Option.bind_some, if_pos rfl]

end Serializers

section Connect
variable {hmacSha1 : List UInt8 → List UInt8 → List UInt8} {options : ConnectOptions}
  {username : List UInt8} {password : Option (List UInt8)}

/-- The fields of a build that sets the flag of a password when there is one. -/
theorem readConnectFields_write {level : UInt8} {keyAuth : Bool}
    (hkeepAlive : options.keepAliveInterval < 2 ^ 16) (hclient : options.clientId.length < 2 ^ 16)
    (hname : username.length < 2 ^ 16) (hthere : keyAuth = password.isSome)
    (hpassword : ∀ p ∈ password, p.length < 2 ^ 16) :
    readConnectFields level
        ((if options.cleanSession then 0x02 else 0) ||| 0x80 ||| (if keyAuth then 0x40 else 0))
        (mqttWriteUint16 options.keepAliveInterval ++ (mqttWriteUtf8String options.clientId ++
          (mqttWriteUtf8String username ++ match keyAuth, password with
            | true, some password => mqttWriteUtf8String password
            | _, _ => []))) =
      some (.connect level options.cleanSession options.keepAliveInterval options.clientId
        (some username) password) := by
  have hlast := @readTextIf_write [] _ _ hthere hpassword
  rw [List.append_nil] at hlast
  have hflags (clean auth : Bool) :
      let flags : UInt8 := (if clean then 0x02 else 0) ||| 0x80 ||| (if auth then 0x40 else 0)
      flags &&& 0x3D = 0 ∧ decide (flags &&& 0x80 ≠ 0) = true ∧
        decide (flags &&& 0x40 ≠ 0) = auth ∧ decide (flags &&& 0x02 ≠ 0) = clean := by
    cases clean <;> cases auth <;> decide
  obtain ⟨hwill, huser, hauth, hclean⟩ := hflags options.cleanSession keyAuth
  rw [readConnectFields, if_neg (not_not_intro hwill), readWord_write hkeepAlive,
    Option.bind_some, readText_write hclient, Option.bind_some, huser, hauth, hclean, readTextIf,
    if_pos rfl, readText_write hname, Option.map_some, Option.bind_some, hlast, Option.bind_some,
    if_pos rfl]

theorem readConnect_body {keyAuth : Bool}
    (hversion : options.mqttVersion = 3 ∨ options.mqttVersion = 4)
    (hkeepAlive : options.keepAliveInterval < 2 ^ 16) (hclient : options.clientId.length < 2 ^ 16)
    (hname : username.length < 2 ^ 16) (hthere : keyAuth = password.isSome)
    (hpassword : ∀ p ∈ password, p.length < 2 ^ 16) :
    readConnect (connectBody keyAuth options username password) =
      some (.connect (UInt8.ofNat options.mqttVersion) options.cleanSession
        options.keepAliveInterval options.clientId (some username) password) := by
  have hfields (level : UInt8) :=
    @readConnectFields_write options username password level keyAuth hkeepAlive hclient hname
      hthere hpassword
  unfold connectBody
  rcases hversion with hversion | hversion
  · have hthree : ¬ options.mqttVersion = 4 := by omega
    simp only [if_neg hthree, List.append_assoc]
    rw [readConnect, readText_write (by decide), Option.bind_some, hversion]
    exact hfields 3
  · simp only [if_pos hversion, List.append_assoc]
    rw [readConnect, readText_write (by decide), Option.bind_some, hversion]
    exact hfields 4

/-- The CONNECT request, in a build that sends a password when its options have one. -/
theorem read_connect {bufLen : ℕ} {keyAuth usernameOk passwordOk : Bool}
    {secret : Option (List UInt8)} {connId packet : List UInt8} (hbuf : bufLen ≤ 2 ^ 15)
    (hversion : options.mqttVersion = 3 ∨ options.mqttVersion = 4)
    (hkeepAlive : options.keepAliveInterval < 2 ^ 16) (hclient : options.clientId.length < 2 ^ 27)
    (hpassword : passwordLen password ≤ 2 ^ 17)
    (hthere : keyAuth = (connectPassword hmacSha1 keyAuth
      (connectUsername options.clientId connId) password secret).isSome)
    (h : serializeConnectPacketFull hmacSha1 keyAuth bufLen options password secret connId
      usernameOk passwordOk = .ok packet) :
    readPacket packet = some (.connect (UInt8.ofNat options.mqttVersion) options.cleanSession
      options.keepAliveInterval options.clientId (some (connectUsername options.clientId connId))
      (connectPassword hmacSha1 keyAuth (connectUsername options.clientId connId) password
        secret)) := by
  have hname := connectUsername_length_le connId options.clientId
  have hsent := passwordLen_connectPassword_le hmacSha1 secret keyAuth
    (connectUsername options.clientId connId) hpassword
  unfold serializeConnectPacketFull at h
  split_ifs at h
  dsimp only at h
  generalize connectUsername options.clientId connId = username at *
  generalize connectPassword hmacSha1 keyAuth username password secret = written at *
  have hbody := @connectBody_length options username keyAuth written hversion
  have hauth : (if keyAuth then passwordLen written else 0) = passwordLen written := by
    cases written <;> simp [hthere, passwordLen]
  rw [hauth] at hbody
  have hcount : (connectBody keyAuth options username written).length =
      connectRemLen options username written := by
    rw [hbody, connectRemLen, Nat.mod_eq_of_lt]
    · rcases hversion with hversion | hversion <;> simp [hversion]
    · split_ifs <;> omega
  split at h
  · cases h
  next hroom =>
  have hfit : connectRemLen options username written + 2 ≤
      getMqttPacketLen (connectRemLen options username written) := by
    unfold getMqttPacketLen
    dsimp only
    split_ifs <;> omega
  obtain rfl := Except.ok.inj h
  refine (readPacket_write 0x10 hcount (by omega)).trans ?_
  rw [(readBody_headers _).1]
  refine readConnect_body hversion hkeepAlive (by omega) (by omega) hthere fun p hp => ?_
  obtain rfl : written = some p := hp
  rw [passwordLen] at hbody
  omega

end Connect

end IotExplorer.ClientPackets
