import IotExplorer.Basis.Decimals
import IotExplorer.PacketBytes

/-!
The control packets of the client: acknowledgements in both directions, the
SUBSCRIBE and UNSUBSCRIBE requests, CONNECT and CONNACK. The requests take a
count and an array of filters, and reach the i-th filter by advancing the first
string by i bytes.
-/
namespace IotExplorer.ControlPackets

open Basis.Decimals Protocol PacketBytes

/-- `deserialize_ack_packet`: message type, duplicate flag and packet id. -/
def deserializeAckPacket (buf : Buffer) (bufLen : ℕ) : Except ReturnCode (UInt8 × UInt8 × ℕ) :=
  if 4 > bufLen then .error .bufTooShort
  else
    let header := byteAt buf 0
    match mqttReadPacketRemLenFormBuf buf 1 with
    | .error rc => .error rc
    | .ok (decodedLen, curdata) =>
        if decodedLen < 2 then .error .failure
        else if decodedLen - 2 ≥ 1 ∧ byteAt buf (curdata + 2) ≠ 0 then .error .failure
        else .ok (headerType header, headerDup header, mqttReadUint16 buf curdata)

/-- The payload loop of `deserialize_suback_packet`: one return code a byte, and
at most one more than `max_count`. -/
def readGrantedQos (buf : Buffer) (maxCount : ℕ) : ℕ → ℕ → ℕ → Except ReturnCode (List UInt8)
  | 0, _, _ => .ok []
  | left + 1, pos, count =>
      if count > maxCount then .error .failure
      else
        match readGrantedQos buf maxCount left (pos + 1) (count + 1) with
        | .error rc => .error rc
        | .ok granted => .ok (byteAt buf pos :: granted)

/-- `deserialize_suback_packet`: packet id and return codes. -/
def deserializeSubackPacket (maxCount : ℕ) (buf : Buffer) (bufLen : ℕ) :
    Except ReturnCode (ℕ × List UInt8) :=
  if 5 > bufLen then .error .bufTooShort
  else if headerType (byteAt buf 0) ≠ MessageType.suback.code then .error .failure
  else
    match mqttReadPacketRemLenFormBuf buf 1 with
    | .error rc => .error rc
    | .ok (decodedLen, curdata) =>
        if decodedLen < 2 then .error .failure
        else
          match readGrantedQos buf maxCount (decodedLen - 2) (curdata + 2) 0 with
          | .error rc => .error rc
          | .ok granted => .ok (mqttReadUint16 buf curdata, granted)

def deserializeUnsubackPacket (buf : Buffer) (bufLen : ℕ) : Except ReturnCode ℕ :=
  match deserializeAckPacket buf bufLen with
  | .error rc => .error rc
  | .ok (type, _, packetId) =>
      if type ≠ MessageType.unsuback.code then .error .failure else .ok packetId

/-- `serialize_pub_ack_packet`; PUBREL carries QoS 1 in its header. -/
def serializePubAckPacket (bufLen : ℕ) (packetType : MessageType) (dup : UInt8) (packetId : ℕ) :
    Except ReturnCode (List UInt8) :=
  let requestQos : QoS := if packetType = .pubrel then .qos1 else .qos0
  if 4 > bufLen then .error .bufTooShort
  else
    match mqttInitPacketHeader packetType requestQos dup 0 with
    | .error rc => .error rc
    | .ok header => .ok (header :: mqttWritePacketRemLen 2 ++ mqttWriteUint16 packetId)

def serializePacketWithZeroPayload (bufLen : ℕ) (packetType : MessageType) :
    Except ReturnCode (List UInt8) :=
  if 4 > bufLen then .error .bufTooShort
  else
    match mqttInitPacketHeader packetType .qos0 0 0 with
    | .error rc => .error rc
    | .ok header => .ok (header :: mqttWritePacketRemLen 0)

/-- The string at `*topicFilters + i`. -/
def filterAt (topicFilters : List (List UInt8)) (i : ℕ) : List UInt8 :=
  (topicFilters.headD []).drop i

def getSubscribePacketRemLen (count : ℕ) (topicFilters : List (List UInt8)) : ℕ :=
  (2 + ((List.range count).map fun i => 2 + (filterAt topicFilters i).length + 1).sum) % 2 ^ 32

def serializeSubscribePacket (bufLen : ℕ) (dup : UInt8) (packetId count : ℕ)
    (topicFilters : List (List UInt8)) (requestedQoSs : List QoS) :
    Except ReturnCode (List UInt8) :=
  let remLen := getSubscribePacketRemLen count topicFilters
  if getMqttPacketLen remLen > bufLen then .error .bufTooShort
  else
    match mqttInitPacketHeader .subscribe .qos1 dup 0 with
    | .error rc => .error rc
    | .ok header =>
        .ok (header :: mqttWritePacketRemLen remLen ++ mqttWriteUint16 packetId ++
          (List.range count).flatMap fun i =>
            mqttWriteUtf8String (filterAt topicFilters i) ++ [(requestedQoSs.getD i .qos0).code])

def getUnsubscribePacketRemLen (count : ℕ) (topicFilters : List (List UInt8)) : ℕ :=
  (2 + ((List.range count).map fun i => 2 + (filterAt topicFilters i).length).sum) % 2 ^ 32

def serializeUnsubscribePacket (bufLen : ℕ) (dup : UInt8) (packetId count : ℕ)
    (topicFilters : List (List UInt8)) : Except ReturnCode (List UInt8) :=
  let remLen := getUnsubscribePacketRemLen count topicFilters
  if getMqttPacketLen remLen > bufLen then .error .bufTooShort
  else
    match mqttInitPacketHeader .unsubscribe .qos1 dup 0 with
    | .error rc => .error rc
    | .ok header =>
        .ok (header :: mqttWritePacketRemLen remLen ++ mqttWriteUint16 packetId ++
          (List.range count).flatMap fun i => mqttWriteUtf8String (filterAt topicFilters i))

/-- The options of a CONNECT request. -/
structure ConnectOptions where
  clientId : List UInt8
  mqttVersion : ℕ
  keepAliveInterval : ℕ
  cleanSession : Bool
  deriving DecidableEq

def deviceSdkAppid : List UInt8 := decimal 21010406

/-- The user name `client_id;app_id;conn_id;expiry`, cut by `HAL_Snprintf` to the
block that was allocated for it. The access never expires, so the expiry is
`LONG_MAX`. -/
def connectUsername (clientId connId : List UInt8) : List UInt8 :=
  let usernameLen := clientId.length + deviceSdkAppid.length + 6 + 20
  (clientId ++ [59] ++ deviceSdkAppid ++ [59] ++ connId ++ [59] ++
    decimal 9223372036854775807).take (usernameLen - 1)

/-- `_get_packet_connect_rem_len` without a password. -/
def getPacketConnectRemLen (options : ConnectOptions) (username : List UInt8) : ℕ :=
  let head := if options.mqttVersion = 3 then 12 else if options.mqttVersion = 4 then 10 else 0
  (head + (options.clientId.length + 2) + (username.length + 2)) % 2 ^ 32

/-- `_serialize_connect_packet` over TLS; `connId` is the random part of the user
name, and `usernameOk` whether the user name could be allocated. -/
def serializeConnectPacket (bufLen : ℕ) (options : ConnectOptions) (connId : List UInt8)
    (usernameOk : Bool) : Except ReturnCode (List UInt8) :=
  if options.clientId = [] then .error .inval
  else if !usernameOk then .error .malloc
  else
    let username := connectUsername options.clientId connId
    let remLen := getPacketConnectRemLen options username
    if getMqttPacketLen remLen > bufLen then .error .bufTooShort
    else
      match mqttInitPacketHeader .connect .qos0 0 0 with
      | .error rc => .error rc
      | .ok header =>
          let protocol : List UInt8 :=
            if options.mqttVersion = 4 then mqttWriteUtf8String [77, 81, 84, 84] ++ [4]
            else mqttWriteUtf8String [77, 81, 73, 115, 100, 112] ++ [3]
          let flags : UInt8 := (if options.cleanSession then 0x02 else 0) ||| 0x80
          .ok (header :: mqttWritePacketRemLen remLen ++ protocol ++ [flags] ++
            mqttWriteUint16 options.keepAliveInterval ++ mqttWriteUtf8String options.clientId ++
            mqttWriteUtf8String username)

/-- The return code that `_deserialize_connack_packet` reports for a code byte. -/
def connackReturnCode (code : UInt8) : ReturnCode :=
  if code = 0 then .mqttConnackConnectionAccepted
  else if code = 1 then .mqttConnackUnacceptableProtocolVersion
  else if code = 2 then .mqttConnackIdentifierRejected
  else if code = 3 then .mqttConnackServerUnavailable
  else if code = 4 then .mqttConnackBadUserdata
  else if code = 5 then .mqttConnackNotAuthorized
  else .mqttConnackUnknown

/-- `_deserialize_connack_packet`: session present flag and return code. -/
def deserializeConnackPacket (buf : Buffer) (bufLen : ℕ) : Except ReturnCode (UInt8 × ReturnCode) :=
  if 4 > bufLen then .error .bufTooShort
  else if headerType (byteAt buf 0) ≠ MessageType.connack.code then .error .failure
  else
    match mqttReadPacketRemLenFormBuf buf 1 with
    | .error rc => .error rc
    | .ok (decodedLen, curdata) =>
        if decodedLen ≠ 2 then .error .failure
        else .ok (byteAt buf curdata &&& 0x01, connackReturnCode (byteAt buf (curdata + 1)))

end IotExplorer.ControlPackets
