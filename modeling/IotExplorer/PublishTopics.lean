import IotExplorer.SessionSteps
import Mathlib.Data.List.TakeWhile

/-!
The topic of an incoming PUBLISH, as its receiver sees it. The bytes are copied
to a zeroed array of `MAX_SIZE_OF_CLOUD_TOPIC` bytes. A longer topic is cut and
passed on, and a topic of exactly this length leaves no room for the NUL.
-/
namespace IotExplorer.PublishTopics

open Protocol PacketBytes PublishPacket ReadPacket ClientState DeliverMessage PacketHandlers

section CString
variable {buf : Buffer} {k : ℕ}

theorem zero_notMem_cString (buf : Buffer) : (0 : UInt8) ∉ cString buf := by
  intro hmem
  have hne := List.mem_takeWhile_imp hmem
  simp at hne

/-- A string that is terminated among the first bytes is shorter than they are. -/
theorem cString_length_lt (h : (0 : UInt8) ∈ buf.take k) : (cString buf).length < k := by
  induction buf generalizing k with
  | nil => simp at h
  | cons b buf ih =>
    cases k with
    | zero => simp at h
    | succ k =>
      unfold cString
      by_cases hb : b = 0
      · rw [List.takeWhile_cons_of_neg (by simpa using hb)]
        exact Nat.succ_pos k
      · rw [List.take_succ_cons, List.mem_cons] at h
        rw [List.takeWhile_cons_of_pos (by simpa using hb), List.length_cons]
        have hlater := ih (h.resolve_left (Ne.symm hb))
        unfold cString at hlater
        omega

end CString

def receivedTopic (readBuf : Buffer) (fields : PublishFields) : List UInt8 :=
  slice readBuf fields.topicName fields.topicNameLen

/-- The memory at the topic pointer that `_handle_publish_packet` passes on. -/
def passedTopic (env : CycleEnv) (readBuf : Buffer) (fields : PublishFields) : Buffer :=
  fixTopic readBuf fields.topicName (fixTopicLen fields.topicNameLen) env.after

/-- The topic is terminated inside its array, and is the one that was received,
both as a string and by the length in the message. -/
structure TopicSeen (env : CycleEnv) (readBuf : Buffer) (fields : PublishFields)
    (message : Message) : Prop where
  terminated : (0 : UInt8) ∈ (passedTopic env readBuf fields).take maxSizeOfCloudTopic
  string : cString (passedTopic env readBuf fields) = receivedTopic readBuf fields
  ptopic : message.ptopic = receivedTopic readBuf fields

section Delivery
variable {env : CycleEnv} {c : Client} {fields : PublishFields}

/-- A handler gets the message that the delivery was started with. -/
theorem delivered_message {slot handler userData : ℕ} {message : Message}
    (h : Event.delivered slot handler userData message ∈ deliverPublish env fields c) :
    message.ptopic = slice (passedTopic env c.readBuf fields) 0
      (fixTopicLen fields.topicNameLen) := by
  unfold deliverPublish deliverMessage at h
  dsimp only at h
  rcases deliverScan_spec env.before (passedTopic env c.readBuf fields)
      (fixTopicLen fields.topicNameLen)
      ⟨fields, slice (passedTopic env c.readBuf fields) 0 (fixTopicLen fields.topicNameLen)⟩ 0
      c.subHandles.slots with ⟨hnone, -⟩ | ⟨i, handle, found, -, -, -, hscan⟩
  · unfold passedTopic at hnone
    rw [hnone] at h
    dsimp only at h
    split_ifs at h <;> simp at h
  · unfold passedTopic at hscan
    rw [hscan, List.mem_singleton] at h
    rw [(Event.delivered.inj h).2.2.2]
    rfl

/-- An acknowledgement delivers nothing. -/
theorem sendPubAck_delivers_nothing (packetType : MessageType) (packetId : ℕ) (c : Client)
    {slot handler userData : ℕ} {message : Message} :
    Event.delivered slot handler userData message ∉ (sendPubAck env packetType packetId c).2.2 := by
  unfold sendPubAck
  split
  · exact List.not_mem_nil
  · simp [Requests.sendWritten]

/-- What `_handle_publish_packet` delivers, it delivers as this packet. -/
theorem handlePublish_delivers {slot handler userData : ℕ} {message : Message}
    (hparse : deserializePublishPacket c.readBuf mqttRxBufLen = .ok fields)
    (h : Event.delivered slot handler userData message ∈ (handlePublishPacket env c).2.2) :
    Event.delivered slot handler userData message ∈ deliverPublish env fields c := by
  unfold handlePublishPacket at h
  rw [hparse] at h
  dsimp only at h
  split_ifs at h
  · exact h
  all_goals
    rcases List.mem_append.mp h with hdelivered | hack
    · first
      | exact hdelivered
      | cases hdelivered
    · exact absurd hack (sendPubAck_delivers_nothing _ _ _)

/-- A topic that fits is seen as it is. -/
theorem topicSeen_of_fits {slot handler userData : ℕ} {message : Message}
    (h : Event.delivered slot handler userData message ∈ deliverPublish env fields c)
    (hfit : fields.topicNameLen < maxSizeOfCloudTopic)
    (hnul : (0 : UInt8) ∉ receivedTopic c.readBuf fields) :
    TopicSeen env c.readBuf fields message := by
  have hlen : fixTopicLen fields.topicNameLen = fields.topicNameLen := if_neg (by omega)
  have hroom : maxSizeOfCloudTopic - fields.topicNameLen =
      (maxSizeOfCloudTopic - fields.topicNameLen - 1) + 1 := by omega
  have hpassed : passedTopic env c.readBuf fields = receivedTopic c.readBuf fields ++
      0 :: (List.replicate (maxSizeOfCloudTopic - fields.topicNameLen - 1) 0 ++ env.after) := by
    unfold passedTopic fixTopic
    rw [hlen, hroom, List.replicate_succ, List.append_assoc]
    rfl
  have hreceived : (receivedTopic c.readBuf fields).length = fields.topicNameLen :=
    slice_length _ _ _
  constructor
  · have hroom' : maxSizeOfCloudTopic - (receivedTopic c.readBuf fields).length =
        (maxSizeOfCloudTopic - fields.topicNameLen - 1) + 1 := by rw [hreceived, ← hroom]
    rw [hpassed, List.take_append, hroom', List.take_succ_cons]
    exact List.mem_append_right _ (List.mem_cons_self ..)
  · rw [hpassed]
    exact cString_append _ _ hnul
  · rw [delivered_message h, hlen, hpassed]
    exact slice_block [] _ _ 0 _ rfl hreceived

/-- A topic that is seen as it is has fitted. -/
theorem TopicSeen.fits {message : Message} (h : TopicSeen env c.readBuf fields message) :
    fields.topicNameLen < maxSizeOfCloudTopic ∧ (0 : UInt8) ∉ receivedTopic c.readBuf fields := by
  have hlt := cString_length_lt h.terminated
  rw [h.string] at hlt
  constructor
  · simpa [receivedTopic] using hlt
  · rw [← h.string]
    exact zero_notMem_cString _

end Delivery

/-- The topic of a PUBLISH that reaches a message handler is seen as it was
received exactly if it is shorter than the array and holds no NUL. -/
theorem publish_topic_seen_iff (env : CycleEnv) (c : Client) (fields : PublishFields)
    (slot handler userData : ℕ) (message : Message)
    (hparse : deserializePublishPacket c.readBuf mqttRxBufLen = .ok fields)
    (hdelivered : Event.delivered slot handler userData message ∈ (handlePublishPacket env c).2.2) :
    TopicSeen env c.readBuf fields message ↔
      fields.topicNameLen < maxSizeOfCloudTopic ∧
        (0 : UInt8) ∉ receivedTopic c.readBuf fields := by
  have hdelivery := handlePublish_delivers hparse hdelivered
  constructor
  · exact TopicSeen.fits
  · rintro ⟨hfit, hnul⟩
    exact topicSeen_of_fits hdelivery hfit hnul

section LongTopics

/-- A client that is subscribed to one filter, with a PUBLISH of this topic in its buffer. -/
def publishedClient (filter topic : List UInt8) : Client :=
  { Client.init 0 5000 true ⟨⟨[], 4, 240, true⟩, true⟩ with
    readBuf := 0x30 :: mqttWritePacketRemLen (2 + topic.length) ++
      mqttWriteUint16 topic.length ++ topic
    subHandles := SubTable.empty.set 0 ⟨some ⟨0, filter⟩, some 1, none, 5, .qos0⟩ }

def idleEnv : CycleEnv := ⟨[], [], true, 0, none, 0, []⟩

theorem publish_topic_seen_iff_short :
    TopicSeen idleEnv (publishedClient [97] [97]).readBuf ⟨0, 0, 0, none, 4, 1, 5, 0⟩
        ⟨⟨0, 0, 0, none, 4, 1, 5, 0⟩, [97]⟩ ↔
      1 < maxSizeOfCloudTopic ∧ (0 : UInt8) ∉ receivedTopic (publishedClient [97] [97]).readBuf
        ⟨0, 0, 0, none, 4, 1, 5, 0⟩ :=
  publish_topic_seen_iff idleEnv (publishedClient [97] [97]) ⟨0, 0, 0, none, 4, 1, 5, 0⟩ 0 1 5
    ⟨⟨0, 0, 0, none, 4, 1, 5, 0⟩, [97]⟩ (by decide) (by decide)

/-- A topic of 129 letters reaches the subscriber of the topic with 127 of them. -/
theorem publish_topic_cut : ¬ ∀ (env : CycleEnv) (c : Client) (fields : PublishFields)
    (slot handler userData : ℕ) (message : Message),
    deserializePublishPacket c.readBuf mqttRxBufLen = .ok fields →
    Event.delivered slot handler userData message ∈ (handlePublishPacket env c).2.2 →
    TopicSeen env c.readBuf fields message := by
  intro h
  have hseen := h idleEnv (publishedClient (List.replicate 127 97) (List.replicate 129 97))
    ⟨0, 0, 0, none, 5, 129, 134, 0⟩ 0 1 5
    ⟨⟨0, 0, 0, none, 5, 129, 134, 0⟩, List.replicate 127 97⟩ (by decide +kernel)
    (by decide +kernel)
  exact absurd hseen.fits.1 (by decide)

end LongTopics

end IotExplorer.PublishTopics
