import Mathlib.Data.Nat.Notation

/-!
Message types, quality of service, return codes and limits that the MQTT client
shares between its files.
-/
namespace IotExplorer.Protocol

/-- `MessageTypes`. -/
inductive MessageType where
  | reserved | connect | connack | publish | puback | pubrec | pubrel | pubcomp
  | subscribe | suback | unsubscribe | unsuback | pingreq | pingresp | disconnect
  deriving DecidableEq

/-- The value a message type has in the upper half of the first packet byte. -/
def MessageType.code : MessageType → UInt8
  | .reserved => 0
  | .connect => 1
  | .connack => 2
  | .publish => 3
  | .puback => 4
  | .pubrec => 5
  | .pubrel => 6
  | .pubcomp => 7
  | .subscribe => 8
  | .suback => 9
  | .unsubscribe => 10
  | .unsuback => 11
  | .pingreq => 12
  | .pingresp => 13
  | .disconnect => 14

/-- `QoS` as the application chooses it. -/
inductive QoS where
  | qos0 | qos1 | qos2
  deriving DecidableEq

def QoS.code : QoS → UInt8
  | .qos0 => 0
  | .qos1 => 1
  | .qos2 => 2

/-- The return codes of qcloud_iot_export_error.h that the client uses. The ones
from `failure` on are negative; a function that returns a packet id or one of
them returns an `Except`. -/
inductive ReturnCode where
  | success
  | mqttReconnected
  | mqttManuallyDisconnected
  | mqttConnackConnectionAccepted
  | mqttAlreadyConnected
  | failure
  | inval
  | malloc
  | mqttPushToListFailed
  | mqttNoConn
  | mqttUnknown
  | mqttAttemptingReconnect
  | mqttReconnectTimeout
  | mqttMaxSubscriptions
  | mqttSub
  | mqttNothingToRead
  | mqttPacketRead
  | mqttRequestTimeout
  | mqttConnackUnknown
  | mqttConnackUnacceptableProtocolVersion
  | mqttConnackIdentifierRejected
  | mqttConnackServerUnavailable
  | mqttConnackBadUserdata
  | mqttConnackNotAuthorized
  | rxMessageInval
  | bufTooShort
  | mqttQosNotSupport
  | mqttUnsubFail
  | mqttReconnecting
  | maxTopicLength
  | tcpReadTimeout
  | tcpWriteTimeout
  | tcpReadFail
  | tcpWriteFail
  | tcpPeerShutdown
  | tcpNothingToRead
  | sslWriteTimeout
  | sslWrite
  | sslReadTimeout
  | sslRead
  | sslNothingToRead
  deriving DecidableEq

/-- `QCLOUD_IOT_MQTT_TX_BUF_LEN` and `QCLOUD_IOT_MQTT_RX_BUF_LEN`. -/
def mqttTxBufLen : ℕ := 2048
def mqttRxBufLen : ℕ := 2048

def maxSizeOfCloudTopic : ℕ := 128

/-- `MAX_MESSAGE_HANDLERS`: entries of the subscription table. -/
def maxMessageHandlers : ℕ := 10

/-- `MAX_REPUB_NUM`: nodes of the list of unacknowledged publishes. -/
def maxRepubNum : ℕ := 20

def maxPacketId : ℕ := 65535

def mqttMaxRepeatBufLen : ℕ := 10

def maxNoOfRemainingLengthBytes : ℕ := 4

/-- `MAX_RECONNECT_WAIT_INTERVAL`, in milliseconds. -/
def maxReconnectWaitInterval : ℕ := 60000

def mqttPingRetryTimes : ℕ := 2

end IotExplorer.Protocol
