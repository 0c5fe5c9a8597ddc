import IotExplorer.FilterOwnership

/-!
What a granted subscription does to the table. The loop of the handler looks for
an entry with the same filter and handlers and for a free element in one pass. A
new entry takes the whole handle; an entry that is already there only takes over
the user data, and keeps the QoS it was subscribed with before.
-/
namespace IotExplorer.SubackTable

open Protocol PacketBytes ControlPackets ClientState WaitLists PacketHandlers SessionSteps
open FilterOwnership

/-- The request is in exactly one entry of the table, with its user data and its
QoS, and the entries of other requests are where they were. -/
structure Entered (handle : SubTopicHandle) (before after : SubTable) : Prop where
  entry : ∃ (i : ℕ) (entry : SubTopicHandle), after.slots[i]? = some entry ∧
    handleIsIdentical handle entry = true ∧ entry.handlerUserData = handle.handlerUserData ∧
    entry.qos = handle.qos ∧
    ∀ (j : ℕ) (other : SubTopicHandle), after.slots[j]? = some other →
      handleIsIdentical handle other = true → j = i
  others : ∀ (i : ℕ) (entry : SubTopicHandle), entry.topicFilter ≠ none →
    handleIsIdentical handle entry = false →
    (after.slots[i]? = some entry ↔ before.slots[i]? = some entry)

/-- What the handler has to do with a request: enter it, or, without a place for
it, fail and leave the table alone. -/
structure InstalledRight (handle : SubTopicHandle) (before : SubTable) (rc : ReturnCode)
    (after : SubTable) : Prop where
  place : HasPlace handle before → Entered handle before after
  full : ¬ HasPlace handle before → rc ≠ .success ∧ after = before

/-- The table can take the request: no two entries have its filter and handlers,
one that has them was subscribed with the same QoS, and the wait list can be
walked, or there is nothing to do. -/
structure TakesRequest (iterOk : Bool) (handle : SubTopicHandle) (table : SubTable) : Prop where
  one : ∀ (i j : ℕ) (entry other : SubTopicHandle), table.slots[i]? = some entry →
    table.slots[j]? = some other → handleIsIdentical handle entry = true →
    handleIsIdentical handle other = true → i = j
  qos : ∀ entry ∈ table.slots, handleIsIdentical handle entry = true → entry.qos = handle.qos
  walk : iterOk = true ∨ ¬ HasPlace handle table ∨
    ∃ entry ∈ table.slots, handleIsIdentical handle entry = true ∧
      entry.handlerUserData = handle.handlerUserData

section Install
variable {handle : SubTopicHandle} {table : SubTable} {c : Client} {packetId i : ℕ}

theorem identical_self (h : handle.topicFilter ≠ none) :
    handleIsIdentical handle handle = true := by
  obtain ⟨filter, hfilter⟩ := Option.ne_none_iff_exists'.mp h
  simp [handleIsIdentical, hfilter]

/-- The user data is not compared. -/
theorem identical_userData (entry : SubTopicHandle) (userData : ℕ) :
    handleIsIdentical handle { entry with handlerUserData := userData } =
      handleIsIdentical handle entry := rfl

/-- The element of the table after the user data of one of them was replaced. -/
theorem getElem?_modify_userData (userData j : ℕ) :
    (table.modify i fun entry => { entry with handlerUserData := userData }).slots[j]? =
      table.slots[j]?.map fun entry =>
        if i = j then { entry with handlerUserData := userData } else entry := by
  unfold SubTable.modify
  dsimp only
  rw [List.getElem?_modify]
  split_ifs
  · rfl
  · rfl

/-- The entry that is there takes over the user data. -/
theorem modify_right_iff (rc : ReturnCode) {entry : SubTopicHandle}
    (hentry : table.slots[i]? = some entry) (hself : handleIsIdentical handle entry = true) :
    InstalledRight handle table rc (table.modify i fun entry =>
        { entry with handlerUserData := handle.handlerUserData }) ↔
      TakesRequest true handle table := by
  have hplace : HasPlace handle table := ⟨entry, List.mem_of_getElem? hentry, .inl hself⟩
  constructor
  · intro hright
    obtain ⟨i', entry', hget, -, -, hqos, honly⟩ := (hright.place hplace).entry
    -- an entry of the table is still an entry of the request at its place
    have hone : ∀ j other, table.slots[j]? = some other →
        handleIsIdentical handle other = true → j = i' := by
      intro j other hother hsame
      apply honly j
      · rw [getElem?_modify_userData, hother]
        rfl
      · split_ifs
        · exact hsame
        · exact hsame
    have hi : i = i' := hone i entry hentry hself
    rw [← hi, getElem?_modify_userData, hentry, Option.map_some, if_pos rfl] at hget
    obtain rfl := Option.some.inj hget
    refine ⟨?_, ?_, .inl rfl⟩
    · intro j k other other' hj hk hsame hsame'
      exact (hone j other hj hsame).trans (hone k other' hk hsame').symm
    · intro other hmem hsame
      obtain ⟨j, hj⟩ := List.mem_iff_getElem?.mp hmem
      have hji : j = i := (hone j other hj hsame).trans hi.symm
      rw [hji, hentry] at hj
      rw [← Option.some.inj hj]
      exact hqos
  · intro htakes
    refine ⟨fun _ => ⟨⟨i, { entry with handlerUserData := handle.handlerUserData }, ?_, hself, rfl,
      ?_, ?_⟩, ?_⟩, fun hnone => absurd hplace hnone⟩
    · rw [getElem?_modify_userData, hentry, Option.map_some, if_pos rfl]
    · exact htakes.qos entry (List.mem_of_getElem? hentry) hself
    · intro j other hother hsame
      rw [getElem?_modify_userData] at hother
      obtain ⟨old, hold, rfl⟩ := Option.map_eq_some_iff.mp hother
      apply htakes.one j i old entry hold hentry _ hself
      split_ifs at hsame
      · exact hsame
      · exact hsame
    · intro j other hused hother
      rw [getElem?_modify_userData]
      by_cases hij : i = j
      · -- the element that changed is the request's before and after
        rw [← hij, hentry, Option.map_some, if_pos rfl]
        constructor
        · intro heq
          rw [← Option.some.inj heq, identical_userData, hself] at hother
          cases hother
        · intro heq
          rw [← Option.some.inj heq, hself] at hother
          cases hother
      · simp [hij]

/-- A free element takes the handle. -/
theorem set_right (rc : ReturnCode) {entry : SubTopicHandle}
    (hhandle : handle.topicFilter ≠ none) (hentry : table.slots[i]? = some entry)
    (hfree : entry.topicFilter = none)
    (hother : ∀ other ∈ table.slots, handleIsIdentical handle other = false) :
    InstalledRight handle table rc (table.set i handle) := by
  have hplace : HasPlace handle table := ⟨entry, List.mem_of_getElem? hentry, .inr hfree⟩
  have hlt : i < table.slots.length := (List.getElem?_eq_some_iff.mp hentry).1
  have hget : ∀ j, (table.set i handle).slots[j]? =
      if i = j then some handle else table.slots[j]? := by
    intro j
    unfold SubTable.set
    dsimp only
    rw [List.getElem?_set]
    by_cases hij : i = j
    · rw [if_pos hij, if_pos hij, if_pos (hij ▸ hlt)]
    · rw [if_neg hij, if_neg hij]
  refine ⟨fun _ => ⟨⟨i, handle, ?_, identical_self hhandle, rfl, rfl, ?_⟩, ?_⟩,
    fun hnone => absurd hplace hnone⟩
  · rw [hget, if_pos rfl]
  · intro j other hj hsame
    rw [hget] at hj
    by_contra hne
    rw [if_neg (Ne.symm hne)] at hj
    rw [hother other (List.mem_of_getElem? hj)] at hsame
    cases hsame
  · intro j other hused hsame
    rw [hget]
    by_cases hij : i = j
    · rw [if_pos hij, ← hij, hentry]
      constructor
      · intro heq
        rw [← Option.some.inj heq, identical_self hhandle] at hsame
        cases hsame
      · intro heq
        exact absurd (Option.some.inj heq ▸ hfree) hused
    · rw [if_neg hij]

/-- Where no entry has the filter and handlers, the request can be taken. -/
theorem takesRequest_of_new
    (hother : ∀ other ∈ table.slots, handleIsIdentical handle other = false) :
    TakesRequest true handle table where
  one := by
    intro i j entry other hi hj hsame
    rw [hother entry (List.mem_of_getElem? hi)] at hsame
    cases hsame
  qos := by
    intro entry hmem hsame
    rw [hother entry hmem] at hsame
    cases hsame
  walk := .inl rfl

theorem installHandle_right_iff (hhandle : handle.topicFilter ≠ none) :
    InstalledRight handle c.subHandles (installHandle packetId handle c).1
        (installHandle packetId handle c).2.1.subHandles ↔
      TakesRequest true handle c.subHandles := by
  by_cases hplace : HasPlace handle c.subHandles
  · obtain ⟨i, entry, hentry, hfind, hinstall⟩ | ⟨i, entry, hentry, hfree, hfind, hinstall⟩ :=
      installHandle_cases packetId hplace
    · rw [hinstall]
      exact modify_right_iff _ hentry (List.find?_some hfind)
    · have hother : ∀ other ∈ c.subHandles.slots, handleIsIdentical handle other = false := by
        simpa using List.find?_eq_none.mp hfind
      rw [hinstall]
      exact iff_of_true (set_right _ hhandle hentry hfree hother) (takesRequest_of_new hother)
  · have hother : ∀ other ∈ c.subHandles.slots, handleIsIdentical handle other = false := by
      intro other hmem
      cases hsame : handleIsIdentical handle other with
      | false => rfl
      | true => exact absurd ⟨other, hmem, .inl hsame⟩ hplace
    have hused : ∀ other ∈ c.subHandles.slots, other.topicFilter.isNone = false := by
      intro other hmem
      cases hfilter : other.topicFilter with
      | some filter => rfl
      | none => exact absurd ⟨other, hmem, .inr hfilter⟩ hplace
    have hfull : installHandle packetId handle c = (.failure, c, []) := by
      unfold installHandle
      rw [List.findIdx?_eq_none_iff.mpr hother]
      dsimp only
      rw [List.findIdx?_eq_none_iff.mpr hused]
    rw [hfull]
    refine iff_of_true ⟨fun h => absurd h hplace, fun _ => ⟨?_, rfl⟩⟩ (takesRequest_of_new hother)
    intro hrc
    cases hrc

theorem concludeSuback_granted (hhandle : handle.topicFilter ≠ none) :
    concludeSuback packetId false handle c = installHandle packetId handle c := by
  unfold concludeSuback
  rw [if_neg hhandle]
  rfl

/-- Without an iterator the table is left alone. -/
theorem kept_right_iff {rc : ReturnCode} (hrc : rc ≠ .success) :
    InstalledRight handle table rc table ↔ TakesRequest false handle table := by
  by_cases hplace : HasPlace handle table
  · constructor
    · intro hright
      obtain ⟨i, entry, hget, hself, hdata, hqos, honly⟩ := (hright.place hplace).entry
      refine ⟨?_, ?_, .inr (.inr ⟨entry, List.mem_of_getElem? hget, hself, hdata⟩)⟩
      · intro j k other other' hj hk hsame hsame'
        exact (honly j other hj hsame).trans (honly k other' hk hsame').symm
      · intro other hmem hsame
        obtain ⟨j, hj⟩ := List.mem_iff_getElem?.mp hmem
        rw [honly j other hj hsame, hget] at hj
        rw [← Option.some.inj hj]
        exact hqos
    · intro htakes
      rcases htakes.walk with hiter | hnone | ⟨entry, hmem, hself, hdata⟩
      · cases hiter
      · exact absurd hplace hnone
      · obtain ⟨i, hi⟩ := List.mem_iff_getElem?.mp hmem
        refine ⟨fun _ => ⟨⟨i, entry, hi, hself, hdata, htakes.qos entry hmem hself, ?_⟩, ?_⟩,
          fun hnone => absurd hplace hnone⟩
        · intro j other hj hsame
          exact htakes.one j i other entry hj hi hsame hself
        · intro j other _ _
          exact Iff.rfl
  · refine iff_of_true ⟨fun h => absurd h hplace, fun _ => ⟨hrc, rfl⟩⟩ ?_
    have hother : ∀ other ∈ table.slots, handleIsIdentical handle other = false := by
      intro other hmem
      cases hsame : handleIsIdentical handle other with
      | false => rfl
      | true => exact absurd ⟨other, hmem, .inl hsame⟩ hplace
    have hnew := takesRequest_of_new hother
    exact ⟨hnew.one, hnew.qos, .inr (.inl hplace)⟩

end Install

/-- A SUBACK that grants a waiting request does the right thing to the table
exactly if the table can take the request. -/
theorem suback_installs_iff (env : CycleEnv) (c : Client) (packetId : ℕ) (code : UInt8)
    (codes : List UInt8) (node : SubInfo)
    (hparse : deserializeSubackPacket 1 c.readBuf mqttRxBufLen = .ok (packetId, code :: codes))
    (hgranted : code ≠ 0x80)
    (hnode : c.listSubWaitAck.find? (fun node => node.msgId = packetId) = some node)
    (hfilter : node.handler.topicFilter ≠ none) :
    InstalledRight node.handler c.subHandles (handleSubackPacket env c).1
        (handleSubackPacket env c).2.1.subHandles ↔
      TakesRequest env.iterOk node.handler c.subHandles := by
  have hnack : ((code :: codes).head? == some 0x80) = false := by simpa using hgranted
  unfold handleSubackPacket
  rw [hparse]
  dsimp only
  rw [hnack]
  unfold resolveSuback
  cases hiter : env.iterOk with
  | true =>
    have hlookup : lookup true packetId c.listSubWaitAck = some node := hnode
    rw [maskSubInfoFrom_some _ hlookup]
    dsimp only
    rw [concludeSuback_granted hfilter]
    exact installHandle_right_iff
      (c := { c with listSubWaitAck := maskSubNodes packetId _ }) hfilter
  | false =>
    -- the handle is still the zeroed record, and has no filter
    apply kept_right_iff
    intro hrc
    cases hrc

section Resubscribed

/-- A subscription that was granted with QoS 0, and is asked for again with QoS 1. -/
def resubscribedClient (qos : QoS) : Client :=
  { Client.init 0 5000 true ⟨⟨[], 4, 240, true⟩, true⟩ with
    readBuf := [0x90, 3, 0, 7, 1]
    subHandles := SubTable.empty.set 0 ⟨some ⟨0, [97]⟩, some 1, none, 5, qos⟩
    listSubWaitAck :=
      [⟨.subscribe, 7, 0, .normal, ⟨some ⟨1, [97]⟩, some 1, none, 6, .qos1⟩, [], 0⟩] }

def plainEnv : CycleEnv := ⟨[], [], true, 0, none, 0, []⟩

theorem suback_installs_iff_same_qos :
    InstalledRight ⟨some ⟨1, [97]⟩, some 1, none, 6, .qos1⟩ (resubscribedClient .qos1).subHandles
        (handleSubackPacket plainEnv (resubscribedClient .qos1)).1
        (handleSubackPacket plainEnv (resubscribedClient .qos1)).2.1.subHandles ↔
      TakesRequest true ⟨some ⟨1, [97]⟩, some 1, none, 6, .qos1⟩
        (resubscribedClient .qos1).subHandles :=
  suback_installs_iff plainEnv (resubscribedClient .qos1) 7 1 []
    ⟨.subscribe, 7, 0, .normal, ⟨some ⟨1, [97]⟩, some 1, none, 6, .qos1⟩, [], 0⟩
    (by decide) (by decide) (by decide) (by decide)

/-- The table keeps QoS 0 where QoS 1 was granted. -/
theorem suback_keeps_old_qos : ¬ ∀ (env : CycleEnv) (c : Client) (packetId : ℕ) (code : UInt8)
    (codes : List UInt8) (node : SubInfo),
    deserializeSubackPacket 1 c.readBuf mqttRxBufLen = .ok (packetId, code :: codes) →
    code ≠ 0x80 → c.listSubWaitAck.find? (fun node => node.msgId = packetId) = some node →
    node.handler.topicFilter ≠ none →
    InstalledRight node.handler c.subHandles (handleSubackPacket env c).1
      (handleSubackPacket env c).2.1.subHandles := by
  intro h
  have hright := h plainEnv (resubscribedClient .qos0) 7 1 []
    ⟨.subscribe, 7, 0, .normal, ⟨some ⟨1, [97]⟩, some 1, none, 6, .qos1⟩, [], 0⟩
    (by decide) (by decide) (by decide) (by decide)
  have hplace : HasPlace ⟨some ⟨1, [97]⟩, some 1, none, 6, .qos1⟩
      (resubscribedClient .qos0).subHandles := by decide
  obtain ⟨i, entry, hget, hself, -, hqos, -⟩ := (hright.place hplace).entry
  have hall :
      ∀ entry ∈ (handleSubackPacket plainEnv (resubscribedClient .qos0)).2.1.subHandles.slots,
      handleIsIdentical ⟨some ⟨1, [97]⟩, some 1, none, 6, .qos1⟩ entry = true →
        entry.qos = .qos0 := by decide
  rw [hall entry (List.mem_of_getElem? hget) hself] at hqos
  cases hqos

end Resubscribed

end IotExplorer.SubackTable
