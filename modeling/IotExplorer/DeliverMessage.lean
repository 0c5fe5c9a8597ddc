import IotExplorer.ClientState
import IotExplorer.TopicFilter

/-!
`_deliver_message`: the first entry of the subscription table whose filter
accepts the topic and that has a message handler gets the message; without one
the client's event handler gets it.
-/
namespace IotExplorer.DeliverMessage

open Protocol PacketBytes ClientState TopicFilter

/-- The bytes before the terminating NUL. -/
def cString (buf : Buffer) : List UInt8 := buf.takeWhile (· ≠ 0)

/-- The test that `_deliver_message` makes on a filter. -/
def filterAccepts (prev : UInt8) (topicName : Buffer) (topicNameLen : ℕ) (filter : List UInt8) :
    Bool :=
  isTopicEquals (cString topicName) filter ||
    isTopicMatched prev filter (slice topicName 0 topicNameLen)

/-- The loop of `_deliver_message`, from the entry with number `i` on. -/
def deliverScan (prev : UInt8) (topicName : Buffer) (topicNameLen : ℕ) (message : Message) :
    ℕ → List SubTopicHandle → Option Event
  | _, [] => none
  | i, handle :: handles =>
      match handle.topicFilter, handle.messageHandler with
      | some filter, some handler =>
          if filterAccepts prev topicName topicNameLen filter.text then
            some (.delivered i handler handle.handlerUserData message)
          else deliverScan prev topicName topicNameLen message (i + 1) handles
      | _, _ => deliverScan prev topicName topicNameLen message (i + 1) handles

/-- `_deliver_message`. `topicName` is the memory at the topic pointer and `prev`
the byte before it. -/
def deliverMessage (c : Client) (prev : UInt8) (topicName : Buffer) (topicNameLen : ℕ)
    (message : Message) : List Event :=
  match deliverScan prev topicName topicNameLen message 0 c.subHandles.slots with
  | some event => [event]
  | none => if c.eventHandle then [.received message] else []

/-- What the topic matcher answers, in terms of levels: on an empty topic a filter
that starts with `+` is decided by the byte before the topic. -/
def Routed (prev : UInt8) (filter topic : List UInt8) : Prop :=
  if topic = [] ∧ filter.head? = some plus then prev = slash else Accepts filter topic

theorem isTopicMatched_iff_routed (prev : UInt8) (filter topic : List UInt8)
    (hv : ValidFilter filter) :
    isTopicMatched prev filter topic = true ↔ Routed prev filter topic := by
  unfold Routed
  split
  next h =>
    obtain ⟨rfl, hplus⟩ := h
    cases filter with
    | nil => simp at hplus
    | cons f fs =>
      obtain rfl : f = plus := by simpa using hplus
      have hnext : (fs.head? == some hash) = false := by
        rcases plus_cons_cases fs hv with rfl | ⟨rest, rfl⟩ <;> rfl
      have hhash : (plus == hash) = false := by decide
      simp [hnext, hhash]
  next h =>
    refine isTopicMatched_iff_accepts prev filter topic hv ?_
    by_cases htopic : topic = []
    · exact Or.inr (Or.inr fun hplus => h ⟨htopic, hplus⟩)
    · exact Or.inr (Or.inl htopic)

/-- The filters and topics on which the matcher and the rules differ. -/
def Undecided (filter topic : List UInt8) : Prop :=
  Misrouted (levels filter) (levels topic) ∨ (topic = [] ∧ filter.head? = some plus)

/-- The matcher follows the rules, whatever lies before the topic, exactly on the
other filters and topics. -/
theorem isTopicMatched_iff_matches_iff (filter topic : List UInt8) (hv : ValidFilter filter) :
    (∀ prev, isTopicMatched prev filter topic = true ↔ TopicMatches filter topic) ↔
      ¬ Undecided filter topic := by
  simp only [isTopicMatched_iff_routed _ _ _ hv]
  by_cases hempty : topic = [] ∧ filter.head? = some plus
  · have hrouted : ∀ prev, Routed prev filter topic ↔ prev = slash := fun prev => by
      rw [Routed, if_pos hempty]
    constructor
    · intro h
      by_cases hm : TopicMatches filter topic
      · exact absurd ((hrouted 0).mp ((h 0).mpr hm)) (by decide)
      · exact absurd ((h slash).mp ((hrouted slash).mpr rfl)) hm
    · intro h
      exact absurd (Or.inr hempty) h
  · have hrouted : ∀ prev, Routed prev filter topic ↔ Accepts filter topic := fun prev => by
      rw [Routed, if_neg hempty]
    constructor
    · rintro h (hmis | h')
      · exact hmis.not_matches ((h 0).mp ((hrouted 0).mpr (Or.inr hmis)))
      · exact hempty h'
    · intro h prev
      rw [hrouted prev]
      exact or_iff_left fun hmis => h (Or.inl hmis)

section Delivery
variable (c : Client) (prev : UInt8) (topicName : Buffer) (topicNameLen : ℕ) (message : Message)

/-- An entry to which `_deliver_message` would hand the message. -/
def Candidate (handle : SubTopicHandle) : Prop :=
  ∃ filter handler, handle.topicFilter = some filter ∧ handle.messageHandler = some handler ∧
    filterAccepts prev topicName topicNameLen filter.text = true

/-- The scan stops at the first candidate. -/
theorem deliverScan_spec (k : ℕ) (handles : List SubTopicHandle) :
    (deliverScan prev topicName topicNameLen message k handles = none ∧
        ∀ handle ∈ handles, ¬ Candidate prev topicName topicNameLen handle) ∨
      ∃ i handle handler, handles[i]? = some handle ∧
        Candidate prev topicName topicNameLen handle ∧
        (∀ j handle', j < i → handles[j]? = some handle' →
          ¬ Candidate prev topicName topicNameLen handle') ∧
        deliverScan prev topicName topicNameLen message k handles =
          some (.delivered (k + i) handler handle.handlerUserData message) := by
  induction handles generalizing k with
  | nil => exact Or.inl ⟨rfl, by simp⟩
  | cons handle handles ih =>
    have hskip : ¬ Candidate prev topicName topicNameLen handle →
        deliverScan prev topicName topicNameLen message k (handle :: handles) =
          deliverScan prev topicName topicNameLen message (k + 1) handles := by
      intro hnot
      rw [deliverScan]
      cases hfilter : handle.topicFilter with
      | none => rfl
      | some filter =>
        cases hhandler : handle.messageHandler with
        | none => rfl
        | some handler =>
          dsimp only
          rw [if_neg fun haccept => hnot ⟨filter, handler, hfilter, hhandler, haccept⟩]
    by_cases hcand : Candidate prev topicName topicNameLen handle
    · obtain ⟨filter, handler, hfilter, hhandler, haccept⟩ := hcand
      refine Or.inr ⟨0, handle, handler, rfl, ⟨filter, handler, hfilter, hhandler, haccept⟩,
        fun j _ hj => absurd hj (Nat.not_lt_zero j), ?_⟩
      unfold deliverScan
      rw [hfilter, hhandler]
      dsimp only
      rw [if_pos haccept, Nat.add_zero]
    · rw [hskip hcand]
      rcases ih (k + 1) with ⟨hnone, hall⟩ | ⟨i, found, handler, hi, hfound, hbefore, hscan⟩
      · refine Or.inl ⟨hnone, fun h hmem => ?_⟩
        rcases List.mem_cons.mp hmem with rfl | hmem
        · exact hcand
        · exact hall h hmem
      · refine Or.inr ⟨i + 1, found, handler, hi, hfound, fun j h hj hget => ?_, ?_⟩
        · cases j with
          | zero =>
            obtain rfl : handle = h := by simpa using hget
            exact hcand
          | succ j => exact hbefore j h (by omega) hget
        · rw [hscan, Nat.add_right_comm, Nat.add_assoc]

/-- The entry with number `i` was handed the message. -/
def DeliversTo (i : ℕ) : Prop :=
  ∃ handler userData,
    Event.delivered i handler userData message ∈ deliverMessage c prev topicName
      topicNameLen message

/-- The entry with number `i` would be handed the message. -/
def CandidateAt (i : ℕ) : Prop :=
  ∃ handle, c.subHandles.slots[i]? = some handle ∧ Candidate prev topicName topicNameLen handle

theorem deliversTo_iff (i : ℕ) :
    DeliversTo c prev topicName topicNameLen message i ↔
      CandidateAt c prev topicName topicNameLen i ∧
        ∀ j, j < i → ¬ CandidateAt c prev topicName topicNameLen j := by
  unfold DeliversTo deliverMessage
  rcases deliverScan_spec prev topicName topicNameLen message 0 c.subHandles.slots with
    ⟨hnone, hall⟩ | ⟨first, handle, handler, hfirst, hcand, hbefore, hscan⟩
  · rw [hnone]
    constructor
    · rintro ⟨handler, userData, hmem⟩
      dsimp only at hmem
      split at hmem <;> simp at hmem
    · rintro ⟨⟨handle, hget, hcand⟩, -⟩
      exact absurd hcand (hall handle (List.mem_of_getElem? hget))
  · rw [hscan]
    simp only [Nat.zero_add, List.mem_singleton, Event.delivered.injEq, and_true]
    constructor
    · rintro ⟨-, -, rfl, -, -⟩
      exact ⟨⟨handle, hfirst, hcand⟩, fun j hj ⟨other, hget, hother⟩ =>
        hbefore j other hj hget hother⟩
    · rintro ⟨⟨other, hget, hother⟩, hleast⟩
      refine ⟨handler, handle.handlerUserData, ?_, rfl, rfl⟩
      rcases Nat.lt_trichotomy i first with hlt | heq | hgt
      · exact absurd hother (hbefore i other hlt hget)
      · exact heq
      · exact absurd ⟨handle, hfirst, hcand⟩ (hleast first hgt)

end Delivery

/-- A choice of the least index with a property agrees with a second property
exactly if the second implies the first, holds at most once, and holds somewhere
up to every index that has the first. -/
theorem least_iff {cand sel : ℕ → Prop} :
    (∀ i, (cand i ∧ ∀ j, j < i → ¬ cand j) ↔ sel i) ↔
      (∀ i, sel i → cand i) ∧ (∀ i j, sel i → sel j → i = j) ∧
        ∀ j, cand j → ∃ m, m ≤ j ∧ sel m := by
  constructor
  · intro h
    refine ⟨fun i hi => ((h i).mpr hi).1, fun i j hi hj => ?_, fun j hj => ?_⟩
    · have hi' := (h i).mpr hi
      have hj' := (h j).mpr hj
      rcases Nat.lt_trichotomy i j with hlt | heq | hgt
      · exact absurd hi'.1 (hj'.2 i hlt)
      · exact heq
      · exact absurd hj'.1 (hi'.2 j hgt)
    · induction j using Nat.strongRecOn with
      | ind j ih =>
        by_cases hleast : ∀ k, k < j → ¬ cand k
        · exact ⟨j, Nat.le_refl j, (h j).mp ⟨hj, hleast⟩⟩
        · simp only [not_forall, not_not] at hleast
          obtain ⟨k, hk, hcand⟩ := hleast
          obtain ⟨m, hm, hsel⟩ := ih k hk hcand
          exact ⟨m, by omega, hsel⟩
  · rintro ⟨hcand, huniq, hup⟩ i
    constructor
    · rintro ⟨hi, hleast⟩
      obtain ⟨m, hm, hsel⟩ := hup i hi
      rcases Nat.lt_or_eq_of_le hm with hlt | rfl
      · exact absurd (hcand m hsel) (hleast m hlt)
      · exact hsel
    · intro hi
      refine ⟨hcand i hi, fun j hj hc => ?_⟩
      obtain ⟨m, hm, hsel⟩ := hup j hc
      have heq := huniq i m hi hsel
      omega

section Subscriptions
variable (c : Client) (prev : UInt8) (topic : List UInt8)

/-- The entry with number `i` is occupied and its filter matches the topic. -/
def SlotMatches (i : ℕ) : Prop :=
  ∃ handle filter, c.subHandles.slots[i]? = some handle ∧ handle.topicFilter = some filter ∧
    TopicMatches filter.text topic

/-- The entry with number `i` has a handler, and the matcher lets the topic pass. -/
def SlotRouted (i : ℕ) : Prop :=
  ∃ handle filter handler, c.subHandles.slots[i]? = some handle ∧
    handle.topicFilter = some filter ∧ handle.messageHandler = some handler ∧
    Routed prev filter.text topic

theorem cString_append (rest : Buffer) (h : (0 : UInt8) ∉ topic) :
    cString (topic ++ 0 :: rest) = topic := by
  unfold cString
  rw [List.takeWhile_append_of_pos, List.takeWhile_cons_of_neg (by simp), List.append_nil]
  intro b hb
  have hne : b ≠ 0 := fun e => h (e ▸ hb)
  simpa using hne

theorem filterAccepts_iff (rest : Buffer) (filter : List UInt8) (hlit : Literal topic)
    (hnul : (0 : UInt8) ∉ topic) (hv : ValidFilter filter) :
    filterAccepts prev (topic ++ 0 :: rest) topic.length filter = true ↔
      Routed prev filter topic := by
  have hslice : slice (topic ++ 0 :: rest) 0 topic.length = topic :=
    slice_block [] topic (0 :: rest) 0 topic.length rfl rfl
  unfold filterAccepts
  rw [cString_append topic rest hnul, hslice, Bool.or_eq_true,
    isTopicMatched_iff_routed prev filter topic hv]
  constructor
  · rintro (heq | h)
    · have hsame : topic = filter := by
        unfold isTopicEquals at heq
        simpa using (Bool.and_eq_true_iff.mp heq).2
      rw [← isTopicMatched_iff_routed prev filter topic hv, ← hsame]
      exact isTopicMatched_self prev topic hlit
    · exact h
  · exact Or.inr

/-- Matching and delivery. The matcher follows the rules exactly away from the
undecided pairs; a message reaches exactly the matching entries exactly if every
matching entry has a handler and passes the matcher, at most one matches, and no
other entry with a handler that passes the matcher comes before it. -/
theorem deliver_message_iff (rest : Buffer) (message : Message) (hlit : Literal topic)
    (hnul : (0 : UInt8) ∉ topic)
    (hv : ∀ handle ∈ c.subHandles.slots, ∀ filter, handle.topicFilter = some filter →
      ValidFilter filter.text) :
    (∀ filter, ValidFilter filter →
      ((∀ prev, isTopicMatched prev filter topic = true ↔ TopicMatches filter topic) ↔
        ¬ Undecided filter topic)) ∧
    ((∀ i, DeliversTo c prev (topic ++ 0 :: rest) topic.length message i ↔
        SlotMatches c topic i) ↔
      (∀ i, SlotMatches c topic i → SlotRouted c prev topic i) ∧
      (∀ i j, SlotMatches c topic i → SlotMatches c topic j → i = j) ∧
      ∀ j, SlotRouted c prev topic j → ∃ m, m ≤ j ∧ SlotMatches c topic m) := by
  refine ⟨fun filter => isTopicMatched_iff_matches_iff filter topic, ?_⟩
  have hcand : ∀ i, CandidateAt c prev (topic ++ 0 :: rest) topic.length i ↔
      SlotRouted c prev topic i := by
    intro i
    constructor
    · rintro ⟨handle, hget, filter, handler, hfilter, hhandler, haccept⟩
      have hvalid := hv handle (List.mem_of_getElem? hget) filter hfilter
      exact ⟨handle, filter, handler, hget, hfilter, hhandler,
        (filterAccepts_iff prev topic rest filter.text hlit hnul hvalid).mp haccept⟩
    · rintro ⟨handle, filter, handler, hget, hfilter, hhandler, hrouted⟩
      have hvalid := hv handle (List.mem_of_getElem? hget) filter hfilter
      exact ⟨handle, hget, filter, handler, hfilter, hhandler,
        (filterAccepts_iff prev topic rest filter.text hlit hnul hvalid).mpr hrouted⟩
  simp only [deliversTo_iff, hcand]
  exact least_iff

end Subscriptions

def subscribedToA : Client :=
  { Client.init 0 5000 true ⟨⟨[], 4, 240, true⟩, true⟩ with
    subHandles := SubTable.empty.set 0 ⟨some ⟨1, [97, 47, 35]⟩, some 5, none, 0, .qos0⟩ }

theorem subscribedToA_valid : ∀ handle ∈ subscribedToA.subHandles.slots, ∀ filter,
    handle.topicFilter = some filter → ValidFilter filter.text := by
  intro handle hmem filter hfilter
  have hslots : subscribedToA.subHandles.slots =
      ⟨some ⟨1, [97, 47, 35]⟩, some 5, none, 0, .qos0⟩ :: List.replicate 9 .zero := rfl
  rw [hslots] at hmem
  rcases List.mem_cons.mp hmem with rfl | hzero
  · obtain rfl := Option.some.inj hfilter
    decide
  · rw [List.eq_of_mem_replicate hzero] at hfilter
    cases hfilter

theorem deliver_message_iff_sample :
    (∀ filter, ValidFilter filter →
      ((∀ prev, isTopicMatched prev filter [97, 47, 98] = true ↔
          TopicMatches filter [97, 47, 98]) ↔ ¬ Undecided filter [97, 47, 98])) ∧
    ((∀ i, DeliversTo subscribedToA 0 [97, 47, 98, 0] 3 ⟨⟨0, 0, 0, none, 0, 0, 0, 0⟩, []⟩ i ↔
        SlotMatches subscribedToA [97, 47, 98] i) ↔
      (∀ i, SlotMatches subscribedToA [97, 47, 98] i →
        SlotRouted subscribedToA 0 [97, 47, 98] i) ∧
      (∀ i j, SlotMatches subscribedToA [97, 47, 98] i →
        SlotMatches subscribedToA [97, 47, 98] j → i = j) ∧
      ∀ j, SlotRouted subscribedToA 0 [97, 47, 98] j →
        ∃ m, m ≤ j ∧ SlotMatches subscribedToA [97, 47, 98] m) :=
  deliver_message_iff subscribedToA 0 [97, 47, 98] [] ⟨⟨0, 0, 0, none, 0, 0, 0, 0⟩, []⟩
    (by decide) (by decide) subscribedToA_valid

/-- The valid filter `a/#` takes the topic `ab`, which is not below `a`. -/
theorem topic_ab_reaches_a_hash :
    ValidFilter [97, 47, 35] ∧ Literal [97, 98] ∧ ¬ TopicMatches [97, 47, 35] [97, 98] ∧
      (∀ prev, isTopicMatched prev [97, 47, 35] [97, 98] = true) ∧
      DeliversTo subscribedToA 0 [97, 98, 0] 2 ⟨⟨0, 0, 0, none, 0, 0, 0, 0⟩, []⟩ 0 ∧
      ¬ SlotMatches subscribedToA [97, 98] 0 := by
  refine ⟨by decide, by decide, by decide, fun _ => rfl, ⟨5, 0, by decide⟩, ?_⟩
  rintro ⟨handle, filter, hget, hfilter, hm⟩
  obtain rfl : (⟨some ⟨1, [97, 47, 35]⟩, some 5, none, 0, .qos0⟩ : SubTopicHandle) = handle :=
    Option.some.inj hget
  obtain rfl := Option.some.inj hfilter
  exact absurd hm (by decide)

end IotExplorer.DeliverMessage
