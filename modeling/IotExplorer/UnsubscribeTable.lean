import IotExplorer.SubReady

/-!
What a call of unsubscribe does to the subscription table and to its event
handlers, when it succeeds and when it fails. The scan comes first: every entry
it selects is cleared and its handler called before the connection is checked,
and a filter with a wildcard level selects every element of the table.
-/
namespace IotExplorer.UnsubscribeTable

open Basis.Runs Protocol PacketBytes ClientState Requests SessionSteps ClientRuns SubReady

section Selection
variable {α β : Type*} {p q : α → Bool} {g : α → Option β}

/-- Two selections yield the same values if they differ on elements without one. -/
theorem filterMap_filter_congr {l : List α} (h : ∀ x ∈ l, p x ≠ q x → g x = none) :
    (l.filter p).filterMap g = (l.filter q).filterMap g := by
  induction l with
  | nil => rfl
  | cons x l ih =>
    have hrest := ih fun y hy => h y (List.mem_cons_of_mem _ hy)
    by_cases hx : p x = q x
    · cases hq : q x with
      | true =>
        rw [List.filter_cons_of_pos (hx.trans hq), List.filter_cons_of_pos hq]
        simp only [List.filterMap_cons, hrest]
      | false =>
        rw [List.filter_cons_of_neg (by simp [hx, hq]), List.filter_cons_of_neg (by simp [hq]),
          hrest]
    · have hnone := h x (List.mem_cons_self ..) hx
      have hskip : ∀ r : α → Bool, ((x :: l).filter r).filterMap g = (l.filter r).filterMap g := by
        intro r
        cases hr : r x with
        | true => rw [List.filter_cons_of_pos hr, List.filterMap_cons_none hnone]
        | false => rw [List.filter_cons_of_neg (by simp [hr])]
      rw [hskip, hskip, hrest]

/-- A smaller selection yields fewer values unless the rest has none. -/
theorem filterMap_filter_eq_all {l : List α}
    (h : (l.filter p).filterMap g = l.filterMap g) : ∀ x ∈ l, p x = true ∨ g x = none := by
  have hle : ∀ l : List α, ((l.filter p).filterMap g).length ≤ (l.filterMap g).length := by
    intro l
    exact ((List.filter_sublist (p := p)).filterMap g).length_le
  induction l with
  | nil =>
    intro x hx
    cases hx
  | cons y l ih =>
    cases hp : p y with
    | true =>
      have hrest : (l.filter p).filterMap g = l.filterMap g := by
        rw [List.filter_cons_of_pos hp] at h
        cases hg : g y with
        | none => simpa [List.filterMap_cons, hg] using h
        | some b => simpa [List.filterMap_cons, hg] using h
      intro x hx
      rcases List.mem_cons.mp hx with rfl | hx
      · exact .inl hp
      · exact ih hrest x hx
    | false =>
      rw [List.filter_cons_of_neg (by simp [hp])] at h
      cases hg : g y with
      | none =>
        rw [List.filterMap_cons_none hg] at h
        intro x hx
        rcases List.mem_cons.mp hx with rfl | hx
        · exact .inr hg
        · exact ih h x hx
      | some b =>
        have hlen := hle l
        rw [h, List.filterMap_cons_some hg, List.length_cons] at hlen
        omega

end Selection

/-- The call of an entry's event handler, with the user data it gets. -/
def handlerCall (handle : SubTopicHandle) : Option (ℕ × ℕ) :=
  handle.subEventHandler.map fun handler => (handler, handle.handlerUserData)

/-- The event handlers that were told about an unsubscription. -/
def unsubscribeCalls (events : List Event) : List (ℕ × ℕ) :=
  events.filterMap fun event =>
    match event with
    | .sub handler .unsubscribe userData => some (handler, userData)
    | _ => none

section Calls
variable {topicFilter : List UInt8}

theorem unsubscribeCalls_append (events events' : List Event) :
    unsubscribeCalls (events ++ events') = unsubscribeCalls events ++ unsubscribeCalls events' :=
  List.filterMap_append

theorem unsubscribeCalls_plain {events : List Event} (h : ∀ e ∈ events, Plain e) :
    unsubscribeCalls events = [] := by
  apply List.filterMap_eq_nil_iff.mpr
  intro e he
  have hplain := h e he
  cases e with
  | sub handler type userData => exact hplain.elim
  | _ => rfl

theorem unsubscribeCalls_raise (handle : SubTopicHandle) :
    unsubscribeCalls (handle.raise .unsubscribe) = (handlerCall handle).toList := by
  unfold SubTopicHandle.raise handlerCall
  cases handle.subEventHandler <;> rfl

theorem unsubscribeCalls_halFree (heap : Basis.Ownership.Heap) (filter : Option FilterString) :
    unsubscribeCalls (halFree heap filter).2 = [] := by
  cases filter with
  | none => rfl
  | some filter =>
    unfold halFree
    dsimp only
    split <;> rfl

variable (topicFilter) in
/-- The scan calls the handlers of the entries it selects, in the order of the table. -/
theorem unsubscribeScan_calls (slots : List SubTopicHandle) (heap : Basis.Ownership.Heap) :
    unsubscribeCalls (unsubscribeScan topicFilter slots heap).2 =
      (slots.filter (unsubscribes topicFilter)).filterMap handlerCall := by
  induction slots generalizing heap with
  | nil => rfl
  | cons handle slots ih =>
    unfold unsubscribeScan
    cases hsel : unsubscribes topicFilter handle with
    | false =>
      rw [if_neg Bool.false_ne_true, List.filter_cons_of_neg (by simp [hsel])]
      exact ih heap
    | true =>
      rw [if_pos rfl, List.filter_cons_of_pos hsel]
      dsimp only
      rw [unsubscribeCalls_append, unsubscribeCalls_append, unsubscribeCalls_halFree,
        unsubscribeCalls_raise, ih, List.append_nil]
      cases hcall : handlerCall handle with
      | none => rw [List.filterMap_cons_none hcall, Option.toList_none, List.nil_append]
      | some call => rw [List.filterMap_cons_some hcall, Option.toList_some, List.singleton_append]

/-- Past its checks, unsubscribe clears what the scan selects and sends nothing to
the handlers but the calls of the scan. -/
theorem unsubscribe_effect (env : RequestEnv) (c : Client) (hempty : topicFilter ≠ [])
    (hshort : topicFilter.length ≤ maxSizeOfCloudTopic) :
    (qcloudIotMqttUnsubscribe topicFilter env c).2.1.subHandles =
        c.subHandles.map (clearEntry topicFilter) ∧
      unsubscribeCalls (qcloudIotMqttUnsubscribe topicFilter env c).2.2 =
        (c.subHandles.slots.filter (unsubscribes topicFilter)).filterMap handlerCall := by
  have htable := unsubscribe_table topicFilter env c
  have hsound : ¬ (topicFilter = [] ∨ topicFilter.length > maxSizeOfCloudTopic) := by
    rintro (h | h)
    · exact hempty h
    · omega
  rw [if_neg hsound] at htable
  refine ⟨htable, ?_⟩
  have hscan := unsubscribeScan_calls topicFilter c.subHandles.slots c.heap
  have hlong : ¬ topicFilter.length > maxSizeOfCloudTopic := by omega
  unfold qcloudIotMqttUnsubscribe
  rw [if_neg hempty, if_neg hlong]
  dsimp only
  split
  · exact hscan
  · have hplain := (sendUnsubscribe_requested env (removeEntries topicFilter c).1 hempty hshort).2
    dsimp only
    rw [unsubscribeCalls_append, unsubscribeCalls_plain hplain, List.append_nil]
    exact hscan

end Calls

/-- What a successful call has to do: the entries of its filter are gone and their
handlers were told once each, every other entry is as it was. -/
structure UnsubscribeRight (topicFilter : List UInt8) (c c' : Client) (events : List Event) :
    Prop where
  removed : ∀ (i : ℕ) handle, c.subHandles.slots[i]? = some handle →
    filterIs topicFilter handle = true →
    ∃ handle' : SubTopicHandle, c'.subHandles.slots[i]? = some handle' ∧
      handle'.topicFilter = none
  kept : ∀ (i : ℕ) handle, c.subHandles.slots[i]? = some handle →
    filterIs topicFilter handle = false →
    handle.topicFilter ≠ none → c'.subHandles.slots[i]? = some handle
  calls : unsubscribeCalls events =
    (c.subHandles.slots.filter (filterIs topicFilter)).filterMap handlerCall

/-- The scan selects no element but the entries of the filter, as far as there is
anything to clear or to call. -/
def SelectsOwn (topicFilter : List UInt8) (c : Client) : Prop :=
  hasWildcardLevel topicFilter = false ∨
    ∀ handle ∈ c.subHandles.slots, filterIs topicFilter handle = true ∨
      (handle.topicFilter = none ∧ handle.subEventHandler = none)

/-- A successful call does what it should exactly if its filter has no wildcard
level, or there is nothing else in the table. -/
theorem unsubscribe_right_iff (topicFilter : List UInt8) (env : RequestEnv) (c c' : Client)
    (packetId : ℕ) (events : List Event)
    (h : qcloudIotMqttUnsubscribe topicFilter env c = (.ok packetId, c', events)) :
    UnsubscribeRight topicFilter c c' events ↔ SelectsOwn topicFilter c := by
  have hempty : topicFilter ≠ [] := by
    rintro rfl
    unfold qcloudIotMqttUnsubscribe at h
    rw [if_pos rfl] at h
    cases h
  have hshort : topicFilter.length ≤ maxSizeOfCloudTopic := by
    by_contra hlong
    unfold qcloudIotMqttUnsubscribe at h
    rw [if_neg hempty, if_pos (Nat.lt_of_not_le hlong)] at h
    cases h
  obtain ⟨htable, hcalls⟩ := unsubscribe_effect env c hempty hshort
  rw [h] at htable hcalls
  dsimp only at htable hcalls
  have hslot : ∀ (i : ℕ) handle, c.subHandles.slots[i]? = some handle →
      c'.subHandles.slots[i]? = some (clearEntry topicFilter handle) := by
    intro i handle hat
    rw [htable, SubTable.map, List.getElem?_map, hat, Option.map_some]
  constructor
  · intro hright
    by_cases hwild : hasWildcardLevel topicFilter = true
    · right
      have hall : ∀ handle, unsubscribes topicFilter handle = true := by
        intro handle
        rw [unsubscribes, hwild, Bool.or_true]
      have hevery : c.subHandles.slots.filter (unsubscribes topicFilter) = c.subHandles.slots :=
        List.filter_eq_self.mpr fun handle _ => hall handle
      have hsame := hright.calls
      rw [hcalls, hevery] at hsame
      intro handle hmem
      cases hown : filterIs topicFilter handle with
      | true => exact .inl rfl
      | false =>
        right
        refine ⟨?_, ?_⟩
        · by_contra hused
          obtain ⟨i, hi⟩ := List.getElem?_of_mem hmem
          have hkept := hright.kept i handle hi hown hused
          rw [hslot i handle hi, clearEntry, if_pos (hall handle)] at hkept
          exact hused (congrArg SubTopicHandle.topicFilter (Option.some.inj hkept)).symm
        · have hnone :=
            (filterMap_filter_eq_all hsame.symm handle hmem).resolve_left (by simp [hown])
          exact Option.map_eq_none_iff.mp hnone
    · exact .inl (by simpa using hwild)
  · intro hown
    have hagree : ∀ handle ∈ c.subHandles.slots, filterIs topicFilter handle = false →
        unsubscribes topicFilter handle = true →
          handle.topicFilter = none ∧ handle.subEventHandler = none := by
      intro handle hmem hother hselected
      rcases hown with hplain | hrest
      · rw [unsubscribes, hother, hplain] at hselected
        cases hselected
      · exact (hrest handle hmem).resolve_left (by simp [hother])
    constructor
    · intro i handle hat hfilter
      refine ⟨_, hslot i handle hat, ?_⟩
      rw [clearEntry, unsubscribes, hfilter, Bool.true_or, if_pos rfl]
    · intro i handle hat hother hused
      rw [hslot i handle hat, clearEntry]
      by_cases hselected : unsubscribes topicFilter handle = true
      · exact absurd (hagree handle (List.mem_of_getElem? hat) hother hselected).1 hused
      · rw [if_neg hselected]
    · rw [hcalls]
      apply filterMap_filter_congr
      intro handle hmem hdiffer
      cases hfilter : filterIs topicFilter handle with
      | true =>
        rw [unsubscribes, hfilter, Bool.true_or] at hdiffer
        exact absurd rfl hdiffer
      | false =>
        have hselected : unsubscribes topicFilter handle = true := by simpa [hfilter] using hdiffer
        rw [handlerCall, (hagree handle hmem hfilter hselected).2, Option.map_none]

def subscribedRun : List Op :=
  handshake [0x90, 3, 0, 7, 1] ++
    [subscribeT, .yieldRead (cycleWith [.deliver, .deliver, .deliver]) []]

def subscribedClient : Client := reached 5 5000 true deviceOptions subscribedRun

/-- The topic is unsubscribed. -/
theorem unsubscribe_right_iff_topic :
    (qcloudIotMqttUnsubscribe [116] (calmRequest 0) subscribedClient).1 = .ok 8 ∧
      UnsubscribeRight [116] subscribedClient
        (qcloudIotMqttUnsubscribe [116] (calmRequest 0) subscribedClient).2.1
        (qcloudIotMqttUnsubscribe [116] (calmRequest 0) subscribedClient).2.2 := by
  have hok : (qcloudIotMqttUnsubscribe [116] (calmRequest 0) subscribedClient).1 = .ok 8 := by
    decide +kernel
  refine ⟨hok, ?_⟩
  apply (unsubscribe_right_iff [116] (calmRequest 0) subscribedClient _ 8 _ (Prod.ext hok rfl)).mpr
  exact .inl (by decide)

/-- Unsubscribing `a/#` clears the topic `t` and calls its handler. -/
theorem unsubscribe_wildcard_clears :
    ¬ ∀ (topicFilter : List UInt8) (env : RequestEnv) (c c' : Client) (packetId : ℕ)
        (events : List Event),
      qcloudIotMqttUnsubscribe topicFilter env c = (.ok packetId, c', events) →
        UnsubscribeRight topicFilter c c' events := by
  intro hall
  have hok : (qcloudIotMqttUnsubscribe [97, 47, 35] (calmRequest 0) subscribedClient).1 =
      .ok 8 := by
    decide +kernel
  have hright := hall [97, 47, 35] (calmRequest 0) subscribedClient _ 8 _ (Prod.ext hok rfl)
  have hcalls : unsubscribeCalls
      (qcloudIotMqttUnsubscribe [97, 47, 35] (calmRequest 0) subscribedClient).2.2 = [(3, 0)] := by
    decide +kernel
  have hnone : (subscribedClient.subHandles.slots.filter
      (filterIs [97, 47, 35])).filterMap handlerCall = [] := by
    decide +kernel
  have hsame : [(3, 0)] = ([] : List (ℕ × ℕ)) := hcalls.symm.trans (hright.calls.trans hnone)
  cases hsame

section Failures

/-- The scan finds nothing to clear, or is not reached. -/
def NothingCleared (topicFilter : List UInt8) (c : Client) : Prop :=
  topicFilter = [] ∨ topicFilter.length > maxSizeOfCloudTopic ∨
    ∀ handle ∈ c.subHandles.slots, unsubscribes topicFilter handle = true →
      handle.topicFilter = none

instance (topicFilter : List UInt8) (c : Client) : Decidable (NothingCleared topicFilter c) := by
  unfold NothingCleared
  infer_instance

theorem map_clearEntry_eq_iff (topicFilter : List UInt8) (table : SubTable) :
    table.map (clearEntry topicFilter) = table ↔
      ∀ handle ∈ table.slots, unsubscribes topicFilter handle = true →
        handle.topicFilter = none := by
  have hslots : table.map (clearEntry topicFilter) = table ↔
      table.slots.map (clearEntry topicFilter) = table.slots := by
    constructor
    · intro h
      exact congrArg SubTable.slots h
    · intro h
      cases table
      simpa [SubTable.map] using h
  have hone : ∀ handle : SubTopicHandle, clearEntry topicFilter handle = handle ↔
      (unsubscribes topicFilter handle = true → handle.topicFilter = none) := by
    intro handle
    unfold clearEntry
    split
    next hselected =>
      constructor
      · intro h _
        exact (congrArg SubTopicHandle.topicFilter h).symm
      · intro h
        have hnone := h hselected
        cases handle
        dsimp only at hnone
        rw [hnone]
    next hskipped => exact iff_of_true rfl fun h => absurd h hskipped
  have hmap := List.map_inj_left (l := table.slots) (f := clearEntry topicFilter) (g := id)
  rw [List.map_id] at hmap
  rw [hslots, hmap]
  simp only [id_eq, hone]

/-- The table after a call, whatever the call returns. -/
theorem unsubscribe_keeps_iff (topicFilter : List UInt8) (env : RequestEnv) (c : Client) :
    (qcloudIotMqttUnsubscribe topicFilter env c).2.1.subHandles = c.subHandles ↔
      NothingCleared topicFilter c := by
  have htable := unsubscribe_table topicFilter env c
  dsimp only [exec] at htable
  rw [htable]
  unfold NothingCleared
  by_cases hrefused : topicFilter = [] ∨ topicFilter.length > maxSizeOfCloudTopic
  · rw [if_pos hrefused]
    refine iff_of_true rfl ?_
    rcases hrefused with h | h
    · exact .inl h
    · exact .inr (.inl h)
  · obtain ⟨hempty, hlong⟩ := not_or.mp hrefused
    rw [if_neg hrefused, map_clearEntry_eq_iff]
    simp only [hempty, hlong, false_or]

/-- A call that returns an error leaves the table as it was. -/
def FailureKeepsTable (c : Client) (op : Op) : Prop :=
  ∀ topicFilter env rc, op = .unsubscribe topicFilter env →
    (qcloudIotMqttUnsubscribe topicFilter env c).1 = .error rc →
      (qcloudIotMqttUnsubscribe topicFilter env c).2.1.subHandles = c.subHandles

/-- In every run a failing call keeps the table exactly if its scan had nothing to
clear, so a run in which every call is of that kind loses no entry. -/
theorem failed_unsubscribe_keeps_iff (random commandTimeout : ℕ) (eventHandle : Bool)
    (options : ConnectParams) (ops : List Op) :
    Along exec (fun c op => ∀ topicFilter env rc, op = .unsubscribe topicFilter env →
        (qcloudIotMqttUnsubscribe topicFilter env c).1 = .error rc →
          ((qcloudIotMqttUnsubscribe topicFilter env c).2.1.subHandles = c.subHandles ↔
            NothingCleared topicFilter c))
      ops (Client.init random commandTimeout eventHandle options) ∧
    (Along exec (fun c op => ∀ topicFilter env, op = .unsubscribe topicFilter env →
        NothingCleared topicFilter c)
        ops (Client.init random commandTimeout eventHandle options) →
      Along exec FailureKeepsTable ops
        (Client.init random commandTimeout eventHandle options)) := by
  constructor
  · apply Along.mono (along_true exec ops _)
    intro c op _ topicFilter env rc _ _
    exact unsubscribe_keeps_iff topicFilter env c
  · intro hcalls
    apply hcalls.mono
    intro c op hcall topicFilter env rc hop _
    exact (unsubscribe_keeps_iff topicFilter env c).mpr (hcall topicFilter env hop)

/-- The connection is closed before the topic is unsubscribed: the call fails, and
the subscription is gone. -/
theorem failed_unsubscribe_loses_entry :
    ¬ ∀ (random commandTimeout : ℕ) (eventHandle : Bool) (options : ConnectParams) (ops : List Op),
      Along exec FailureKeepsTable ops
        (Client.init random commandTimeout eventHandle options) := by
  intro hall
  have hstep := (hall 5 5000 true deviceOptions (subscribedRun ++ [.disconnect [.accept 2047]] ++
    .unsubscribe [116] (calmRequest 0) :: [])).at
  have hkept := hstep [116] (calmRequest 0) .mqttNoConn rfl (by decide +kernel)
  have hcleared : ¬ NothingCleared [116] (run exec (subscribedRun ++ [.disconnect [.accept 2047]])
      (Client.init 5 5000 true deviceOptions)).1 := by
    decide +kernel
  exact hcleared ((unsubscribe_keeps_iff _ _ _).mp hkept)

end Failures

end IotExplorer.UnsubscribeTable
