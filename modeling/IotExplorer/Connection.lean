import IotExplorer.PacketHandlers

/-!
Connecting, disconnecting, keeping alive and reconnecting, and the yield loop
that drives them. Opening the network decides the whole byte stream the server
will send on that connection; closing it forgets the rest. The loops of
`wait_for_read` and yield run over the environments of their rounds, and end
when their timer expires with the last one.
-/
namespace IotExplorer.Connection

open Protocol PacketBytes ControlPackets Network ClientState WaitLists Requests PacketHandlers

/-- `network_stack.connect`: the stream of the new connection, or a failure. -/
inductive ConnectChoice where
  | opened (stream : List UInt8)
  | refused (rc : ReturnCode) (failed : rc ≠ .success)

/-- What the environment decides when a connection is set up: the network, the
random part of the user name and its allocation, the writes of the request, the
rounds of waiting for the CONNACK, and the time after them. -/
structure ConnectEnv where
  network : ConnectChoice
  connId : List UInt8
  usernameOk : Bool
  writes : List WriteChoice
  rounds : List CycleEnv
  now : ℕ

/-- `network_stack.disconnect`. -/
def closeNetwork (c : Client) : Client := { c with pending := [], stream := [] }

/-- `_mqtt_connect` up to the CONNECT request. -/
def sendConnect (options : ConnectParams) (env : ConnectEnv) (c : Client) :
    ReturnCode × Client × List Event :=
  let c := { c with options := options }
  match env.network with
  | .refused rc _ => (rc, c, [])
  | .opened stream =>
      let c := { c with stream := stream, pending := stream }
      match serializeConnectPacket mqttTxBufLen options.toConnectOptions env.connId
          env.usernameOk with
      | .error rc => (rc, c, [])
      | .ok packet =>
          let c := writePacket packet c
          let sent := sendWritten packet env.writes c
          (sent.1, c, sent.2)

def waitForRead (packetType : UInt8) : List CycleEnv → Client → ReturnCode × Client × List Event
  | [], c => (.mqttRequestTimeout, c, [])
  | env :: rounds, c =>
      match cycleForRead env c with
      | (rc, read, c, events) =>
          if rc = .success ∧ read ≠ some packetType then
            let r := waitForRead packetType rounds c
            (r.1, r.2.1, events ++ r.2.2)
          else (rc, c, events)

/-- `_mqtt_connect` after the CONNACK was read. -/
def acceptConnack (now : ℕ) (c : Client) : ReturnCode × Client :=
  match deserializeConnackPacket c.readBuf mqttRxBufLen with
  | .error rc => (rc, c)
  | .ok (_, rc) =>
      if rc ≠ .mqttConnackConnectionAccepted then (rc, c)
      else
        (.success,
          { c with
            isConnected := true
            wasManuallyDisconnected := false
            isPingOutstanding := 0
            pingTimer := now + c.options.keepAliveInterval * 1000 })

def mqttConnect (options : ConnectParams) (env : ConnectEnv) (c : Client) :
    ReturnCode × Client × List Event :=
  match sendConnect options env c with
  | (rc, c, sent) =>
      if rc ≠ .success then (rc, c, sent)
      else
        match waitForRead MessageType.connack.code env.rounds c with
        | (rc, c, events) =>
            if rc ≠ .success then (rc, c, sent ++ events)
            else
              let r := acceptConnack env.now c
              (r.1, r.2, sent ++ events)

def qcloudIotMqttConnect (options : ConnectParams) (env : ConnectEnv) (c : Client) :
    ReturnCode × Client × List Event :=
  if c.isConnected then (.mqttAlreadyConnected, c, [])
  else
    let r := mqttConnect options env c
    if r.1 ≠ .success then (r.1, closeNetwork r.2.1, r.2.2) else r

/-- `qcloud_iot_mqtt_attempt_reconnect`; `resub i` is met when the i-th entry of
the table is subscribed again. -/
def qcloudIotMqttAttemptReconnect (env : ConnectEnv) (resub : ℕ → RequestEnv) (c : Client) :
    ReturnCode × Client × List Event :=
  if c.isConnected then (.mqttAlreadyConnected, c, [])
  else
    match qcloudIotMqttConnect c.options env c with
    | (rc, c, events) =>
        if !c.isConnected then (rc, c, events)
        else
          let r := qcloudIotMqttResubscribe resub c
          (if r.1 ≠ .success then r.1 else .mqttReconnected, r.2.1, events ++ r.2.2)

def qcloudIotMqttDisconnect (writes : List WriteChoice) (c : Client) :
    ReturnCode × Client × List Event :=
  if !c.isConnected then (.mqttNoConn, c, [])
  else
    match serializePacketWithZeroPayload mqttTxBufLen .disconnect with
    | .error rc => (rc, c, [])
    | .ok packet =>
        let c := writePacket packet c
        let sent := sendWritten packet writes c
        if sent.1 ≠ .success then (sent.1, c, sent.2)
        else
          (.success,
            { closeNetwork c with isConnected := false, wasManuallyDisconnected := true }, sent.2)

/-- `_handle_disconnect`: the network is closed by force when the DISCONNECT
request could not be sent. -/
def handleDisconnect (writes : List WriteChoice) (c : Client) :
    ReturnCode × Client × List Event :=
  if !c.isConnected then (.mqttNoConn, c, [])
  else
    match qcloudIotMqttDisconnect writes c with
    | (rc, c, events) =>
        let c := if rc ≠ .success then { closeNetwork c with isConnected := false } else c
        (.mqttNoConn, { c with wasManuallyDisconnected := false },
          events ++ raiseEvent c.eventHandle .disconnect 0)

/-- What the environment decides during `_mqtt_keep_alive`. -/
structure KeepAliveEnv where
  now : ℕ
  pings : ℕ → List WriteChoice
  disconnect : List WriteChoice

/-- The tries to send the PINGREQ, at most as many as the first argument says. -/
def pingTries (packet : List UInt8) (pings : ℕ → List WriteChoice) (c : Client) :
    ℕ → ReturnCode × List Event
  | 0 => (.failure, [])
  | tries + 1 =>
      let sent := sendWritten packet (pings tries) c
      if sent.1 ≠ .success ∧ tries > 0 then
        let r := pingTries packet pings c tries
        (r.1, sent.2 ++ r.2)
      else sent

def mqttKeepAlive (env : KeepAliveEnv) (c : Client) : ReturnCode × Client × List Event :=
  if c.options.keepAliveInterval = 0 then (.success, c, [])
  else if env.now < c.pingTimer then (.success, c, [])
  else if c.isPingOutstanding ≥ mqttPingRetryTimes then handleDisconnect env.disconnect c
  else
    match serializePacketWithZeroPayload mqttTxBufLen .pingreq with
    | .error rc => (rc, c, [])
    | .ok packet =>
        let c := writePacket packet c
        let sent := pingTries packet env.pings c 4
        if sent.1 ≠ .success then
          let r := handleDisconnect env.disconnect c
          (r.1, r.2.1, sent.2 ++ r.2.2)
        else
          (.success,
            { c with
              isPingOutstanding := c.isPingOutstanding + 1
              pingTimer := env.now + min 5 (c.options.keepAliveInterval / 2) * 1000 },
            sent.2)

/-- What the environment decides during `_handle_reconnect`. -/
structure ReconnectEnv where
  now : ℕ
  connect : ConnectEnv
  resub : ℕ → RequestEnv

/-- `_handle_reconnect`; the TLS network always reports a physical connection. -/
def handleReconnect (env : ReconnectEnv) (c : Client) : ReturnCode × Client × List Event :=
  if env.now < c.reconnectDelayTimer then (.mqttAttemptingReconnect, c, [])
  else
    match qcloudIotMqttAttemptReconnect env.connect env.resub c with
    | (rc, c, events) =>
        if rc = .mqttReconnected then
          (.mqttReconnected, c, events ++ raiseEvent c.eventHandle .reconnect 0)
        else
          let interval := c.currentReconnectWaitInterval * 2
          let c := { c with currentReconnectWaitInterval := interval }
          if maxReconnectWaitInterval < interval then (.mqttReconnectTimeout, c, events)
          else
            (.mqttAttemptingReconnect, { c with reconnectDelayTimer := env.now + interval }, events)

/-- What the environment decides during one round of the yield loop. -/
structure YieldEnv where
  reconnect : ReconnectEnv
  cycle : CycleEnv
  pubIterOk : Bool
  pubClock : ℕ → ℕ
  subIterOk : Bool
  subClock : ℕ → ℕ
  keepAlive : KeepAliveEnv
  disconnect : List WriteChoice
  randomInterval : ℕ
  now : ℕ

/-- The codes on which yield gives the connection up. -/
def fatalRead (rc : ReturnCode) : Prop :=
  rc = .sslReadTimeout ∨ rc = .sslRead ∨ rc = .tcpPeerShutdown ∨ rc = .tcpReadFail

instance (rc : ReturnCode) : Decidable (fatalRead rc) :=
  inferInstanceAs (Decidable (rc = .sslReadTimeout ∨ rc = .sslRead ∨ rc = .tcpPeerShutdown ∨
    rc = .tcpReadFail))

/-- The part of a yield round that reads a packet, and gives the connection up when
the read failed. -/
def yieldRead (env : CycleEnv) (disconnect : List WriteChoice) (c : Client) :
    ReturnCode × Client × List Event :=
  match cycleForRead env c with
  | (rc, _, c, events) =>
      if fatalRead rc then
        let r := handleDisconnect disconnect c
        (r.1, r.2.1, events ++ r.2.2)
      else (rc, c, events)

/-- The walks of the wait lists and the ping after a successful read. -/
def yieldUpkeep (env : YieldEnv) (c : Client) : ReturnCode × Client × List Event :=
  let pubs := pubInfoProc env.pubIterOk env.pubClock c
  let subs := subInfoProc env.subIterOk env.subClock pubs.1
  let alive := mqttKeepAlive env.keepAlive subs.1
  (alive.1, alive.2.1, pubs.2 ++ subs.2 ++ alive.2.2)

/-- The end of a yield round: a lost connection is counted and the first reconnect
is put off. The flag says whether the loop goes on. -/
def noteConnection (env : YieldEnv) (rc : ReturnCode) (c : Client) : ReturnCode × Bool × Client :=
  if rc = .mqttNoConn then
    let c := { c with counterNetworkDisconnected := c.counterNetworkDisconnected + 1 }
    if !c.options.autoConnectEnable then (rc, false, c)
    else
      (.mqttAttemptingReconnect, true,
        { c with
          currentReconnectWaitInterval := env.randomInterval
          reconnectDelayTimer := env.now + env.randomInterval })
  else (rc, rc = .success, c)

/-- One round of the loop in `qcloud_iot_mqtt_yield`. -/
def yieldRound (env : YieldEnv) (c : Client) : (ReturnCode × Bool) × Client × List Event :=
  if !c.isConnected then
    if c.currentReconnectWaitInterval > maxReconnectWaitInterval then
      ((.mqttReconnectTimeout, false), c, [])
    else
      let r := handleReconnect env.reconnect c
      ((r.1, true), r.2.1, r.2.2)
  else
    let read := yieldRead env.cycle env.disconnect c
    let r :=
      if read.1 = .success then
        let upkeep := yieldUpkeep env read.2.1
        (upkeep.1, upkeep.2.1, read.2.2 ++ upkeep.2.2)
      else read
    let noted := noteConnection env r.1 r.2.1
    ((noted.1, noted.2.1), noted.2.2, r.2.2)

/-- The loop of `qcloud_iot_mqtt_yield`, with the return code so far. -/
def yieldLoop : ReturnCode → List YieldEnv → Client → ReturnCode × Client × List Event
  | rc, [], c => (rc, c, [])
  | _, env :: rounds, c =>
      match yieldRound env c with
      | ((rc, goesOn), c, events) =>
          if goesOn then
            let r := yieldLoop rc rounds c
            (r.1, r.2.1, events ++ r.2.2)
          else (rc, c, events)

def qcloudIotMqttYield (rounds : List YieldEnv) (c : Client) : ReturnCode × Client × List Event :=
  if !c.isConnected ∧ c.wasManuallyDisconnected then (.mqttManuallyDisconnected, c, [])
  else if !c.isConnected ∧ !c.options.autoConnectEnable then (.mqttNoConn, c, [])
  else yieldLoop .success rounds c

/-- The loop of `qcloud_iot_mqtt_reconnect`; without a return code it still waits. -/
def reconnectLoop : List ReconnectEnv → Client → Option ReturnCode × Client × List Event
  | [], c =>
      (if c.isConnected then some .mqttReconnected
        else if c.currentReconnectWaitInterval > maxReconnectWaitInterval then
          some .mqttReconnectTimeout
        else none, c, [])
  | env :: rounds, c =>
      if c.isConnected then (some .mqttReconnected, c, [])
      else if c.currentReconnectWaitInterval > maxReconnectWaitInterval then
        (some .mqttReconnectTimeout, c, [])
      else
        let r := handleReconnect env c
        let rest := reconnectLoop rounds r.2.1
        (rest.1, rest.2.1, r.2.2 ++ rest.2.2)

/-- What the environment decides during `qcloud_iot_mqtt_reconnect`. -/
structure ForcedEnv where
  disconnect : List WriteChoice
  randomInterval : ℕ
  now : ℕ
  rounds : List ReconnectEnv

def qcloudIotMqttReconnect (env : ForcedEnv) (c : Client) :
    Option ReturnCode × Client × List Event :=
  if !c.isConnected ∧ c.options.autoConnectEnable then (some .mqttReconnecting, c, [])
  else
    let down := handleDisconnect env.disconnect c
    let r := reconnectLoop env.rounds
      { down.2.1 with
        currentReconnectWaitInterval := env.randomInterval
        reconnectDelayTimer := env.now + env.randomInterval }
    (r.1, r.2.1, down.2.2 ++ r.2.2)

end IotExplorer.Connection
