import IotExplorer.ClientState

/-!
The two lists of requests that wait for an acknowledgement. A node is appended
when its request is written, marked invalid when an acknowledgement carries its
packet id, and removed by the next scan of the list; a scan also removes the
nodes that have timed out and reports them. The iterator of a walk is allocated,
and without one the walk does not happen. Walks go from the tail to the head.
-/
namespace IotExplorer.WaitLists

open Basis.Ownership Protocol ClientState

/-- `_mask_pubInfo_from` on the nodes. -/
def maskPubNodes (msgId : ℕ) (nodes : List PubInfo) : List PubInfo :=
  nodes.map fun node => if node.msgId = msgId then { node with nodeState := .invalid } else node

def maskPubInfoFrom (iterOk : Bool) (msgId : ℕ) (c : Client) : Client :=
  if iterOk then { c with listPubWaitAck := maskPubNodes msgId c.listPubWaitAck } else c

/-- The marking done by `_mask_sub_info_from`. -/
def maskSubNodes (msgId : ℕ) (nodes : List SubInfo) : List SubInfo :=
  nodes.map fun node => if node.msgId = msgId then { node with nodeState := .invalid } else node

/-- The handle that `_mask_sub_info_from` leaves in the caller's record: that of
the last matching node of the walk, else what was there. -/
def maskedHandler (msgId : ℕ) (record : SubTopicHandle) (nodes : List SubInfo) : SubTopicHandle :=
  nodes.foldr (fun node record => if node.msgId = msgId then node.handler else record) record

/-- `_mask_sub_info_from`: the record and the client. -/
def maskSubInfoFrom (iterOk : Bool) (msgId : ℕ) (record : SubTopicHandle) (c : Client) :
    SubTopicHandle × Client :=
  if iterOk then
    (maskedHandler msgId record c.listSubWaitAck,
      { c with listSubWaitAck := maskSubNodes msgId c.listSubWaitAck })
  else (record, c)

def maskPushPubInfoTo (mallocOk : Bool) (now len msgId : ℕ) (c : Client) :
    Except ReturnCode Client :=
  if len > mqttTxBufLen then .error .failure
  else if c.listPubWaitAck.length ≥ maxRepubNum then .error .failure
  else if !mallocOk then .error .failure
  else
    .ok { c with
      listPubWaitAck := c.listPubWaitAck ++
        [{ pubStartTime := now + c.commandTimeoutMs, nodeState := .normal, msgId := msgId,
           buf := c.writeBuf.take len, draw := c.draws }] }

def pushSubInfoTo (mallocOk : Bool) (now len msgId : ℕ) (type : MessageType)
    (handler : SubTopicHandle) (c : Client) : Except ReturnCode Client :=
  if c.listSubWaitAck.length ≥ maxMessageHandlers then .error .mqttMaxSubscriptions
  else if !mallocOk then .error .failure
  else
    .ok { c with
      listSubWaitAck := c.listSubWaitAck ++
        [{ type := type, msgId := msgId, subStartTime := now + c.commandTimeoutMs,
           nodeState := .normal, handler := handler, buf := c.writeBuf.take len,
           draw := c.draws }] }

/-- The walk of `qcloud_iot_mqtt_pub_info_proc`, over the nodes from the tail on;
`clock i` is the time at which the i-th node is looked at. -/
def pubInfoScan (isConnected eventHandle : Bool) (clock : ℕ → ℕ) :
    ℕ → List PubInfo → List PubInfo × List Event
  | _, [] => ([], [])
  | i, node :: nodes =>
      let r := pubInfoScan isConnected eventHandle clock (i + 1) nodes
      if node.nodeState = .invalid then r
      else if !isConnected then (node :: r.1, r.2)
      else if clock i < node.pubStartTime then (node :: r.1, r.2)
      else (r.1, .expired node.draw :: raiseEvent eventHandle .publishTimeout node.msgId ++ r.2)

/-- `qcloud_iot_mqtt_pub_info_proc`. -/
def pubInfoProc (iterOk : Bool) (clock : ℕ → ℕ) (c : Client) : Client × List Event :=
  if iterOk then
    let r := pubInfoScan c.isConnected c.eventHandle clock 0 c.listPubWaitAck.reverse
    ({ c with listPubWaitAck := r.1.reverse }, r.2)
  else (c, [])

/-- The events of a subscription request that timed out: without a client event
handler the subscription's handler is not told either. -/
def subTimeoutEvents (eventHandle : Bool) (node : SubInfo) : List Event :=
  if eventHandle then
    if node.type = .subscribe then
      node.handler.raise .subcribeTimeout ++ [.mqtt .subcribeTimeout node.msgId]
    else [.mqtt .unsubcribeTimeout node.msgId]
  else []

/-- The walk of `qcloud_iot_mqtt_sub_info_proc`, over the nodes from the tail on. -/
def subInfoScan (isConnected eventHandle : Bool) (clock : ℕ → ℕ) :
    ℕ → List SubInfo → Heap → List SubInfo × Heap × List Event
  | _, [], heap => ([], heap, [])
  | i, node :: nodes, heap =>
      if node.nodeState = .invalid then
        subInfoScan isConnected eventHandle clock (i + 1) nodes heap
      else if !isConnected ∨ clock i < node.subStartTime then
        let r := subInfoScan isConnected eventHandle clock (i + 1) nodes heap
        (node :: r.1, r.2.1, r.2.2)
      else
        let freed := halFree heap node.handler.topicFilter
        let r := subInfoScan isConnected eventHandle clock (i + 1) nodes freed.1
        (r.1, r.2.1,
          .expired node.draw :: subTimeoutEvents eventHandle node ++ freed.2 ++ r.2.2)

/-- `qcloud_iot_mqtt_sub_info_proc`. -/
def subInfoProc (iterOk : Bool) (clock : ℕ → ℕ) (c : Client) : Client × List Event :=
  if iterOk then
    let r := subInfoScan c.isConnected c.eventHandle clock 0 c.listSubWaitAck.reverse c.heap
    ({ c with listSubWaitAck := r.1.reverse, heap := r.2.1 }, r.2.2)
  else (c, [])

/-- The walk over the publishes changes their list only. -/
theorem pubInfoProc_frame (iterOk : Bool) (clock : ℕ → ℕ) (c : Client) :
    (pubInfoProc iterOk clock c).1 =
      { c with listPubWaitAck := (pubInfoProc iterOk clock c).1.listPubWaitAck } := by
  unfold pubInfoProc
  split <;> rfl

/-- The walk over the subscription requests changes their list and frees filter strings. -/
theorem subInfoProc_frame (iterOk : Bool) (clock : ℕ → ℕ) (c : Client) :
    (subInfoProc iterOk clock c).1 =
      { c with
        listSubWaitAck := (subInfoProc iterOk clock c).1.listSubWaitAck
        heap := (subInfoProc iterOk clock c).1.heap } := by
  unfold subInfoProc
  split <;> rfl

end IotExplorer.WaitLists
