import IotExplorer.PacketIds
import Mathlib.Data.List.Nodup

/-!
Who owns the filter strings. The client copies the filter of a request to the
heap; the copy belongs to the wait node of the request, then to the entry of the
table it is installed in, and is released when neither needs it any more. The
lookup that an acknowledgement makes goes by the packet id alone, so ownership
is kept as long as each lookup finds the node that waits for this
acknowledgement, or no node at all.
-/
namespace IotExplorer.FilterOwnership

open Basis.Runs Basis.Ownership Protocol PacketBytes Network ClientState WaitLists Requests
open PacketHandlers SessionSteps ClientRuns PacketIds

section Lookup

/-- The node still waits for the acknowledgement of such a request with this id. -/
structure Waits (request : MessageType) (packetId : ℕ) (node : SubInfo) : Prop where
  nodeState : node.nodeState = .normal
  type : node.type = request
  msgId : node.msgId = packetId

instance (request : MessageType) (packetId : ℕ) (node : SubInfo) :
    Decidable (Waits request packetId node) :=
  decidable_of_iff (node.nodeState = .normal ∧ node.type = request ∧ node.msgId = packetId)
    ⟨fun h => ⟨h.1, h.2.1, h.2.2⟩, fun h => ⟨h.nodeState, h.type, h.msgId⟩⟩

/-- The node whose handle `_mask_sub_info_from` returns: it walks from the tail, so the
first node with the id overwrites the others. -/
def lookup (iterOk : Bool) (packetId : ℕ) (nodes : List SubInfo) : Option SubInfo :=
  if iterOk then nodes.find? fun node => node.msgId = packetId else none

/-- The lookup finds the node that waits, if one does, and touches no other node that
still waits for anything. -/
def FindsWaiting (iterOk : Bool) (request : MessageType) (packetId : ℕ) (nodes : List SubInfo) :
    Prop :=
  match lookup iterOk packetId nodes with
  | none => ∀ node ∈ nodes, ¬ Waits request packetId node
  | some node => Waits request packetId node ∧
      ∀ other ∈ nodes, other.nodeState = .normal → other.msgId = packetId → other = node

instance (iterOk : Bool) (request : MessageType) (packetId : ℕ) (nodes : List SubInfo) :
    Decidable (FindsWaiting iterOk request packetId nodes) := by
  unfold FindsWaiting
  split <;> infer_instance

/-- The table has an entry with the same filter and handlers, or a free one. -/
def HasPlace (handle : SubTopicHandle) (table : SubTable) : Prop :=
  ∃ entry ∈ table.slots, handleIsIdentical handle entry = true ∨ entry.topicFilter = none

instance (handle : SubTopicHandle) (table : SubTable) : Decidable (HasPlace handle table) :=
  inferInstanceAs (Decidable (∃ entry ∈ table.slots,
    handleIsIdentical handle entry = true ∨ entry.topicFilter = none))

/-- The lookups of an acknowledgement meet the node that waits for it, a granted handle
has a place in the table, and an UNSUBACK that meets no node finds its uninitialised
handle NULL. -/
def LookupSound (env : CycleEnv) (packet : Incoming) (c : Client) : Prop :=
  match packet with
  | .suback packetId nack =>
      FindsWaiting env.iterOk .subscribe packetId c.listSubWaitAck ∧
        (nack = false → ∀ node ∈ lookup env.iterOk packetId c.listSubWaitAck,
          HasPlace node.handler c.subHandles)
  | .unsuback packetId =>
      FindsWaiting env.iterOk .unsubscribe packetId c.listSubWaitAck ∧
        (lookup env.iterOk packetId c.listSubWaitAck = none → env.garbage = none)
  | _ => True

instance (env : CycleEnv) (packet : Incoming) (c : Client) :
    Decidable (LookupSound env packet c) := by
  unfold LookupSound
  split <;> infer_instance

/-- `LookupSound` for the packet that an operation handles. -/
def AcksMeetNodes (c : Client) (op : Op) : Prop :=
  ∀ env ∈ op.cycle c, LookupSound env (incoming env.reads c) c

instance (c : Client) (op : Op) : Decidable (AcksMeetNodes c op) :=
  inferInstanceAs (Decidable (∀ env ∈ op.cycle c, LookupSound env (incoming env.reads c) c))

variable {c : Client} {iterOk : Bool} {packetId : ℕ} {nodes : List SubInfo} {node : SubInfo}

theorem lookup_some (h : lookup iterOk packetId nodes = some node) :
    iterOk = true ∧ node ∈ nodes ∧ node.msgId = packetId := by
  unfold lookup at h
  split at h
  next hiter => exact ⟨hiter, List.mem_of_find?_eq_some h, by simpa using List.find?_some h⟩
  · cases h

theorem maskedHandler_eq (record : SubTopicHandle) :
    maskedHandler packetId record nodes =
      match nodes.find? fun node => node.msgId = packetId with
      | some node => node.handler
      | none => record := by
  induction nodes with
  | nil => rfl
  | cons node nodes ih =>
    unfold maskedHandler at ih ⊢
    rw [List.foldr_cons]
    by_cases hid : node.msgId = packetId
    · rw [if_pos hid, List.find?_cons_of_pos (by simpa using hid)]
    · rw [if_neg hid, List.find?_cons_of_neg (by simpa using hid), ih]

/-- Nodes without the id are left alone. -/
theorem maskSubNodes_of_no_id (h : ∀ node ∈ nodes, node.msgId ≠ packetId) :
    maskSubNodes packetId nodes = nodes := by
  unfold maskSubNodes
  conv_rhs => rw [← List.map_id nodes]
  exact List.map_congr_left fun node hnode => if_neg (h node hnode)

theorem maskSubInfoFrom_none (record : SubTopicHandle)
    (h : lookup iterOk packetId c.listSubWaitAck = none) :
    maskSubInfoFrom iterOk packetId record c = (record, c) := by
  unfold lookup at h
  rw [maskSubInfoFrom_eq]
  cases iterOk with
  | false => rfl
  | true =>
    rw [if_pos rfl] at h ⊢
    rw [if_pos rfl, maskedHandler_eq, h, maskSubNodes_of_no_id]
    simpa using h

theorem maskSubInfoFrom_some (record : SubTopicHandle)
    (h : lookup iterOk packetId c.listSubWaitAck = some node) :
    maskSubInfoFrom iterOk packetId record c =
      (node.handler, { c with listSubWaitAck := maskSubNodes packetId c.listSubWaitAck }) := by
  have hiter := (lookup_some h).1
  unfold lookup at h
  rw [maskSubInfoFrom_eq]
  rw [if_pos hiter] at h ⊢
  rw [if_pos hiter, maskedHandler_eq, h]

end Lookup

section Owners

def addrOf (handle : SubTopicHandle) : Option ℕ := handle.topicFilter.map FilterString.addr

theorem addrOf_some {handle : SubTopicHandle} {filter : FilterString}
    (h : handle.topicFilter = some filter) : addrOf handle = some filter.addr := by
  rw [addrOf, h, Option.map_some]

def tableAddrs (slots : List SubTopicHandle) : List ℕ := slots.filterMap addrOf

def validNodes (nodes : List SubInfo) : List SubInfo :=
  nodes.filter fun node => node.nodeState = .normal

def nodeAddr (node : SubInfo) : Option ℕ := addrOf node.handler

/-- The strings that the waiting nodes hold. -/
def nodeAddrs (nodes : List SubInfo) : List ℕ := (validNodes nodes).filterMap nodeAddr

def Stored (handle : SubTopicHandle) : Prop :=
  ∃ filter, handle.topicFilter = some filter ∧ filter.text ≠ [] ∧
    filter.text.length ≤ maxSizeOfCloudTopic

/-- Every live string has one owner, an entry or a node that waits. -/
structure FiltersOwned (c : Client) : Prop where
  owned : Owned c.heap (tableAddrs c.subHandles.slots ++ nodeAddrs c.listSubWaitAck)
  entries : ∀ handle ∈ c.subHandles.slots, handle.topicFilter ≠ none → Stored handle
  nodes : ∀ node ∈ c.listSubWaitAck, Stored node.handler

variable {c c' : Client} {nodes : List SubInfo} {slots : List SubTopicHandle} {node : SubInfo}
  {packetId : ℕ}

theorem FiltersOwned.of_same (h : FiltersOwned c) (hheap : c'.heap = c.heap)
    (htable : c'.subHandles = c.subHandles) (hnodes : c'.listSubWaitAck = c.listSubWaitAck) :
    FiltersOwned c' :=
  ⟨by rw [hheap, htable, hnodes]; exact h.owned, by rw [htable]; exact h.entries,
    by rw [hnodes]; exact h.nodes⟩

theorem filtersOwned_init (random commandTimeout : ℕ) (eventHandle : Bool)
    (options : ConnectParams) :
    FiltersOwned (Client.init random commandTimeout eventHandle options) where
  owned := owned_empty
  entries := fun handle hmem hfilter => absurd (by
    rw [List.eq_of_mem_replicate hmem]
    rfl) hfilter
  nodes := fun node hmem => absurd hmem List.not_mem_nil

theorem nodeAddrs_append (nodes nodes' : List SubInfo) :
    nodeAddrs (nodes ++ nodes') = nodeAddrs nodes ++ nodeAddrs nodes' := by
  simp [nodeAddrs, validNodes]

theorem nodeAddrs_reverse (nodes : List SubInfo) :
    (nodeAddrs nodes.reverse).Perm (nodeAddrs nodes) :=
  ((List.reverse_perm nodes).filter _).filterMap _

theorem validNodes_maskSubNodes (packetId : ℕ) (nodes : List SubInfo) :
    validNodes (maskSubNodes packetId nodes) =
      (validNodes nodes).filter fun node => node.msgId ≠ packetId := by
  induction nodes with
  | nil => rfl
  | cons node nodes ih =>
    unfold maskSubNodes validNodes at ih ⊢
    by_cases hid : node.msgId = packetId <;> by_cases hstate : node.nodeState = .normal <;>
      simp [hid, hstate, ih]

/-- The lookup takes the one waiting node it finds out of the valid ones. -/
theorem validNodes_perm (hnodup : (validNodes nodes).Nodup) (hmem : node ∈ nodes)
    (hstate : node.nodeState = .normal) (hid : node.msgId = packetId)
    (hone : ∀ other ∈ nodes, other.nodeState = .normal → other.msgId = packetId → other = node) :
    (validNodes nodes).Perm (node :: validNodes (maskSubNodes packetId nodes)) := by
  have hsplit := List.filter_append_perm (fun node : SubInfo => node.msgId = packetId)
    (validNodes nodes)
  have hrest : (validNodes nodes).filter (fun node => !decide (node.msgId = packetId)) =
      validNodes (maskSubNodes packetId nodes) := by
    rw [validNodes_maskSubNodes]
    exact List.filter_congr fun node _ => by simp
  have hself : (validNodes nodes).filter (fun node => node.msgId = packetId) = [node] := by
    refine List.perm_singleton.mp ?_
    refine (List.perm_ext_iff_of_nodup (hnodup.filter _) (List.nodup_singleton _)).mpr fun m => ?_
    simp only [validNodes, List.mem_filter, decide_eq_true_eq, List.mem_singleton]
    constructor
    · rintro ⟨⟨hm, hnormal⟩, hmid⟩
      exact hone m hm hnormal hmid
    · rintro rfl
      exact ⟨⟨hmem, hstate⟩, hid⟩
  rw [hrest, hself] at hsplit
  exact hsplit.symm

/-- Strings that are owned once belong to different nodes. -/
theorem FiltersOwned.validNodes_nodup (h : FiltersOwned c) :
    (validNodes c.listSubWaitAck).Nodup := by
  have haddrs : (nodeAddrs c.listSubWaitAck).Nodup := (List.nodup_append.mp h.owned.1).2.1
  have hstored : ∀ node ∈ validNodes c.listSubWaitAck, Stored node.handler :=
    fun node hnode => h.nodes node (List.mem_of_mem_filter hnode)
  unfold nodeAddrs at haddrs
  generalize validNodes c.listSubWaitAck = nodes at haddrs hstored
  induction nodes with
  | nil => exact List.nodup_nil
  | cons node nodes ih =>
    obtain ⟨filter, hfilter, -⟩ := hstored node List.mem_cons_self
    have haddr : nodeAddr node = some filter.addr := by
      rw [nodeAddr, addrOf, hfilter, Option.map_some]
    rw [List.filterMap_cons_some haddr, List.nodup_cons] at haddrs
    refine List.nodup_cons.mpr ⟨fun hmem => haddrs.1 ?_, ih haddrs.2 fun node' hnode' =>
      hstored node' (List.mem_cons_of_mem node hnode')⟩
    exact List.mem_filterMap.mpr ⟨node, hmem, haddr⟩

end Owners

section Releases
variable {heap : Heap} {owners : List ℕ} {handle : SubTopicHandle} {a : ℕ}
  {slots : List SubTopicHandle} {nodes : List SubInfo}

theorem halFree_none (h : addrOf handle = none) : halFree heap handle.topicFilter = (heap, []) := by
  rw [Option.map_eq_none_iff.mp h]
  rfl

theorem halFree_some (h : addrOf handle = some a) :
    (halFree heap handle.topicFilter).1 = heap.free a := by
  obtain ⟨filter, hfilter, rfl⟩ := Option.map_eq_some_iff.mp h
  rw [hfilter]
  rfl

/-- The release of an owned string is no fault. -/
theorem halFree_owned (h : addrOf handle = some a) (howned : Owned heap (a :: owners)) :
    halFree heap handle.topicFilter = (heap.free a, []) := by
  obtain ⟨filter, hfilter, rfl⟩ := Option.map_eq_some_iff.mp h
  rw [hfilter]
  dsimp only [halFree]
  rw [if_pos (howned.mem List.mem_cons_self)]

theorem tableAddrs_cons_none (h : addrOf handle = none) :
    tableAddrs (handle :: slots) = tableAddrs slots := List.filterMap_cons_none h

theorem tableAddrs_cons_some (h : addrOf handle = some a) :
    tableAddrs (handle :: slots) = a :: tableAddrs slots := List.filterMap_cons_some h

/-- The scan of unsubscribe releases the strings of the entries it clears. -/
theorem unsubscribeScan_owned (topicFilter : List UInt8) (slots : List SubTopicHandle)
    {owners : List ℕ} {heap : Heap} (h : Owned heap (tableAddrs slots ++ owners)) :
    Owned (unsubscribeScan topicFilter slots heap).1
      (tableAddrs (slots.map (clearEntry topicFilter)) ++ owners) := by
  induction slots generalizing heap owners with
  | nil => exact h
  | cons handle slots ih =>
    rw [List.map_cons]
    unfold unsubscribeScan
    by_cases hclear : unsubscribes topicFilter handle = true
    · have hcleared : addrOf (clearEntry topicFilter handle) = none := by
        rw [clearEntry, if_pos hclear]
        rfl
      rw [if_pos hclear, tableAddrs_cons_none hcleared]
      cases haddr : addrOf handle with
      | none =>
        rw [tableAddrs_cons_none haddr] at h
        rw [halFree_none haddr]
        exact ih h
      | some a =>
        rw [tableAddrs_cons_some haddr] at h
        dsimp only
        rw [halFree_some haddr]
        exact ih h.free
    · have hkept : clearEntry topicFilter handle = handle := if_neg hclear
      rw [if_neg hclear, hkept]
      cases haddr : addrOf handle with
      | none =>
        rw [tableAddrs_cons_none haddr] at h ⊢
        exact ih h
      | some a =>
        rw [tableAddrs_cons_some haddr] at h ⊢
        exact (ih (h.perm List.perm_middle)).perm List.perm_middle.symm

theorem nodeAddrs_cons_invalid {node : SubInfo} (h : node.nodeState = .invalid) :
    nodeAddrs (node :: nodes) = nodeAddrs nodes := by
  simp [nodeAddrs, validNodes, h]

theorem nodeAddrs_cons_valid {node : SubInfo} (h : ¬ node.nodeState = .invalid)
    (haddr : nodeAddr node = some a) : nodeAddrs (node :: nodes) = a :: nodeAddrs nodes := by
  have hnormal : node.nodeState = .normal := by
    cases hstate : node.nodeState with
    | normal => rfl
    | invalid => exact absurd hstate h
  simp [nodeAddrs, validNodes, hnormal, haddr]

theorem Stored.addr (h : Stored handle) : ∃ a, addrOf handle = some a := by
  obtain ⟨filter, hfilter, -⟩ := h
  exact ⟨filter.addr, addrOf_some hfilter⟩

/-- The walk of the waiting requests releases the strings of those that timed out. -/
theorem subInfoScan_owned (isConnected eventHandle : Bool) (clock : ℕ → ℕ) (i : ℕ)
    (nodes : List SubInfo) (hstored : ∀ node ∈ nodes, Stored node.handler) {owners : List ℕ}
    {heap : Heap} (h : Owned heap (nodeAddrs nodes ++ owners)) :
    Owned (subInfoScan isConnected eventHandle clock i nodes heap).2.1
      (nodeAddrs (subInfoScan isConnected eventHandle clock i nodes heap).1 ++ owners) := by
  induction nodes generalizing i heap owners with
  | nil => exact h
  | cons node nodes ih =>
    have hlater := fun m hm => hstored m (List.mem_cons_of_mem node hm)
    obtain ⟨a, haddr⟩ := (hstored node List.mem_cons_self).addr
    have hnode : nodeAddr node = some a := haddr
    unfold subInfoScan
    by_cases hstate : node.nodeState = .invalid
    · rw [if_pos hstate]
      rw [nodeAddrs_cons_invalid hstate] at h
      exact ih (i + 1) hlater h
    · rw [if_neg hstate]
      rw [nodeAddrs_cons_valid hstate hnode] at h
      split
      · dsimp only
        rw [nodeAddrs_cons_valid hstate hnode]
        exact (ih (i + 1) hlater (h.perm List.perm_middle)).perm List.perm_middle.symm
      · dsimp only
        rw [halFree_some haddr]
        exact ih (i + 1) hlater h.free

end Releases

section Steps
variable {c c' : Client} {node : SubInfo} {packetId : ℕ} {iterOk : Bool} {request : MessageType}

theorem FiltersOwned.requested (h : FiltersOwned c) (hrequest : Requested c c') :
    FiltersOwned c' := by
  cases hrequest with
  | same buf => exact h.of_same rfl rfl rfl
  | drew buf => exact h.of_same rfl rfl rfl
  | published buf deadline => exact h.of_same rfl rfl rfl
  | dropped buf => exact ⟨h.owned.alloc.free, h.entries, h.nodes⟩
  | pushed buf node fresh =>
    obtain ⟨text, hfilter, hne, hlen⟩ := fresh.filter
    have haddr : nodeAddr node = some c.heap.next := by
      rw [nodeAddr, addrOf, hfilter, Option.map_some]
    have hvalid : ¬ node.nodeState = .invalid := by simp [fresh.nodeState]
    refine ⟨h.owned.alloc.perm ?_, h.entries, fun m hm => ?_⟩
    · dsimp only
      rw [nodeAddrs_append, nodeAddrs_cons_valid hvalid haddr, ← List.append_assoc]
      exact List.perm_append_singleton _ _
    · rcases List.mem_append.mp hm with hold | hnew
      · exact h.nodes m hold
      · rw [List.mem_singleton.mp hnew]
        exact ⟨_, hfilter, hne, hlen⟩

theorem FiltersOwned.removeEntries (h : FiltersOwned c) (topicFilter : List UInt8) :
    FiltersOwned (removeEntries topicFilter c).1 where
  owned := unsubscribeScan_owned topicFilter c.subHandles.slots h.owned
  entries := by
    intro handle hmem hfilter
    obtain ⟨old, hold, rfl⟩ := List.mem_map.mp hmem
    unfold clearEntry at hfilter ⊢
    split at hfilter
    · exact absurd rfl hfilter
    next hkept =>
      rw [if_neg hkept]
      exact h.entries old hold hfilter
  nodes := h.nodes

theorem FiltersOwned.subInfoProc (h : FiltersOwned c) (iterOk : Bool) (clock : ℕ → ℕ) :
    FiltersOwned (subInfoProc iterOk clock c).1 := by
  have hsub := subInfoProc_sublist iterOk clock c
  have hentries : (WaitLists.subInfoProc iterOk clock c).1.subHandles = c.subHandles := by
    unfold WaitLists.subInfoProc
    split <;> rfl
  refine ⟨?_, by rw [hentries]; exact h.entries, fun m hm => h.nodes m (hsub.subset hm)⟩
  unfold WaitLists.subInfoProc
  split
  · have hscan := @subInfoScan_owned c.isConnected c.eventHandle clock 0 c.listSubWaitAck.reverse
      (fun m hm => h.nodes m (List.mem_reverse.mp hm)) (tableAddrs c.subHandles.slots) c.heap
      (h.owned.perm (((nodeAddrs_reverse _).append_right _).trans List.perm_append_comm))
    refine hscan.perm (List.perm_append_comm.trans ?_)
    exact (nodeAddrs_reverse _).append_right _
  · exact h.owned

/-- The node that a sound lookup finds gives up its string. -/
theorem FiltersOwned.take (h : FiltersOwned c)
    (hsound : FindsWaiting iterOk request packetId c.listSubWaitAck)
    (hfound : lookup iterOk packetId c.listSubWaitAck = some node) :
    ∃ filter, node.handler.topicFilter = some filter ∧
      Owned c.heap (filter.addr :: (tableAddrs c.subHandles.slots ++
        nodeAddrs (maskSubNodes packetId c.listSubWaitAck))) := by
  obtain ⟨-, hmem, hid⟩ := lookup_some hfound
  unfold FindsWaiting at hsound
  rw [hfound] at hsound
  obtain ⟨hwaits, hone⟩ := hsound
  obtain ⟨filter, hfilter, -⟩ := h.nodes node hmem
  have haddr : nodeAddr node = some filter.addr := by
    rw [nodeAddr, addrOf, hfilter, Option.map_some]
  have hperm :=
    (validNodes_perm h.validNodes_nodup hmem hwaits.nodeState hid hone).filterMap nodeAddr
  rw [List.filterMap_cons_some haddr] at hperm
  refine ⟨filter, hfilter, h.owned.perm ?_⟩
  exact List.perm_middle.symm.trans (hperm.symm.append_left _)

theorem stored_maskSubNodes {nodes : List SubInfo} (h : ∀ node ∈ nodes, Stored node.handler) :
    ∀ node ∈ maskSubNodes packetId nodes, Stored node.handler := by
  intro node hmem
  obtain ⟨old, hold, rfl⟩ := List.mem_map.mp hmem
  split
  · exact h old hold
  · exact h old hold

end Steps

section Acks
variable {c c' : Client} {node : SubInfo} {packetId : ℕ} {env : CycleEnv} {nack : Bool}
  {handle : SubTopicHandle}

/-- The event of a refusal, raised before the lookup. -/
def nackEvents (eventHandle : Bool) (packetId : ℕ) (nack : Bool) : List Event :=
  if !nack then []
  else if eventHandle then [.mqtt .subcribeNack packetId]
  else [.fault .nullCall]

theorem resolveSuback_none (h : lookup env.iterOk packetId c.listSubWaitAck = none) :
    (resolveSuback env packetId nack c).2 = (c, nackEvents c.eventHandle packetId nack) := by
  unfold resolveSuback
  rw [maskSubInfoFrom_none _ h]
  rfl

theorem resolveSuback_refused (h : lookup env.iterOk packetId c.listSubWaitAck = some node)
    (hfilter : node.handler.topicFilter ≠ none) :
    (resolveSuback env packetId true c).2 =
      ({ c with
          listSubWaitAck := maskSubNodes packetId c.listSubWaitAck
          heap := (halFree c.heap node.handler.topicFilter).1 },
        nackEvents c.eventHandle packetId true ++ node.handler.raise .subcribeNack ++
          (halFree c.heap node.handler.topicFilter).2) := by
  unfold resolveSuback
  rw [maskSubInfoFrom_some _ h]
  dsimp only
  unfold concludeSuback
  rw [if_neg hfilter]
  rfl

theorem resolveSuback_granted (h : lookup env.iterOk packetId c.listSubWaitAck = some node)
    (hfilter : node.handler.topicFilter ≠ none) :
    (resolveSuback env packetId false c).2 =
      (installHandle packetId node.handler
        { c with listSubWaitAck := maskSubNodes packetId c.listSubWaitAck }).2 := by
  unfold resolveSuback
  rw [maskSubInfoFrom_some _ h]
  dsimp only
  unfold concludeSuback
  rw [if_neg hfilter]
  rfl

theorem handleIsIdentical_spec {entry : SubTopicHandle}
    (h : handleIsIdentical handle entry = true) :
    entry.topicFilter.map FilterString.text = handle.topicFilter.map FilterString.text ∧
      entry.messageHandler = handle.messageHandler ∧
      entry.subEventHandler = handle.subEventHandler := by
  unfold handleIsIdentical at h
  split at h
  next filter filter' hfilter hfilter' =>
    rw [Bool.and_eq_true, Bool.and_eq_true, beq_iff_eq, beq_iff_eq, beq_iff_eq] at h
    obtain ⟨⟨htext, hmessage⟩, hevent⟩ := h
    rw [hfilter, hfilter', Option.map_some, Option.map_some, htext]
    exact ⟨rfl, hmessage, hevent⟩
  · cases h

/-- A granted handle that has a place goes there. -/
theorem installHandle_cases (packetId : ℕ) (hplace : HasPlace handle c.subHandles) :
    (∃ i entry, c.subHandles.slots[i]? = some entry ∧
      c.subHandles.slots.find? (handleIsIdentical handle) = some entry ∧
      (installHandle packetId handle c).2 =
        ({ c with
            subHandles := c.subHandles.modify i fun entry =>
              { entry with handlerUserData := handle.handlerUserData }
            heap := (halFree c.heap handle.topicFilter).1 },
          (halFree c.heap handle.topicFilter).2 ++
            subscribedEvents c.eventHandle packetId handle)) ∨
    ∃ i entry, c.subHandles.slots[i]? = some entry ∧ entry.topicFilter = none ∧
      c.subHandles.slots.find? (handleIsIdentical handle) = none ∧
      (installHandle packetId handle c).2 =
        ({ c with subHandles := c.subHandles.set i handle },
          subscribedEvents c.eventHandle packetId handle) := by
  unfold installHandle
  cases hident : c.subHandles.slots.findIdx? (handleIsIdentical handle) with
  | some i =>
    obtain ⟨hlt, hself, hbefore⟩ := List.findIdx?_eq_some_iff_getElem.mp hident
    refine Or.inl ⟨i, c.subHandles.slots[i], List.getElem?_eq_getElem hlt, ?_, rfl⟩
    refine List.find?_eq_some_iff_getElem.mpr ⟨hself, i, hlt, rfl, fun j hj => ?_⟩
    simpa using hbefore j hj
  | none =>
    have hother := List.findIdx?_eq_none_iff.mp hident
    obtain ⟨entry, hmem, hself | hfree⟩ := hplace
    · rw [hother entry hmem] at hself
      cases hself
    dsimp only
    cases hslot : c.subHandles.slots.findIdx? fun entry => entry.topicFilter.isNone with
    | none =>
      have hfull := List.findIdx?_eq_none_iff.mp hslot entry hmem
      rw [hfree] at hfull
      cases hfull
    | some i =>
      obtain ⟨hlt, hnone, -⟩ := List.findIdx?_eq_some_iff_getElem.mp hslot
      refine Or.inr ⟨i, c.subHandles.slots[i], List.getElem?_eq_getElem hlt,
        Option.isNone_iff_eq_none.mp hnone, ?_, rfl⟩
      exact List.find?_eq_none.mpr fun entry hentry => by simp [hother entry hentry]

/-- A string that was taken from its node is released. -/
theorem FiltersOwned.release {a : ℕ} {nodes : List SubInfo} (h : FiltersOwned c)
    (howned : Owned c.heap (a :: (tableAddrs c.subHandles.slots ++ nodeAddrs nodes)))
    (hnodes : ∀ node ∈ nodes, Stored node.handler) (table : SubTable)
    (htable : table.slots.map SubTopicHandle.topicFilter =
      c.subHandles.slots.map SubTopicHandle.topicFilter) :
    FiltersOwned { c with
      listSubWaitAck := nodes
      subHandles := table
      heap := c.heap.free a } where
  owned := by
    have haddrs : tableAddrs table.slots = tableAddrs c.subHandles.slots := by
      have hmap : ∀ slots : List SubTopicHandle, tableAddrs slots =
          (slots.map SubTopicHandle.topicFilter).filterMap fun filter =>
            filter.map FilterString.addr := by
        intro slots
        rw [List.filterMap_map]
        rfl
      rw [hmap, hmap, htable]
    dsimp only
    rw [haddrs]
    exact howned.free
  entries := by
    intro handle hmem hfilter
    have hsame : handle.topicFilter ∈ c.subHandles.slots.map SubTopicHandle.topicFilter := by
      rw [← htable]
      exact List.mem_map_of_mem hmem
    obtain ⟨old, hold, heq⟩ := List.mem_map.mp hsame
    obtain ⟨filter, hstored⟩ := h.entries old hold (heq ▸ hfilter)
    exact ⟨filter, heq ▸ hstored⟩
  nodes := hnodes

/-- A handle put into a slot that does not count adds one to what is counted. -/
theorem filterMap_set {β : Type} {g : SubTopicHandle → Option β} {slots : List SubTopicHandle}
    {i : ℕ} {entry : SubTopicHandle} {b : β} (hslot : slots[i]? = some entry)
    (hnone : g entry = none) (hsome : g handle = some b) :
    ((slots.set i handle).filterMap g).Perm (b :: slots.filterMap g) := by
  induction slots generalizing i with
  | nil => cases hslot
  | cons first slots ih =>
    cases i with
    | zero =>
      obtain rfl : first = entry := Option.some.inj hslot
      rw [List.set_cons_zero, List.filterMap_cons_some hsome, List.filterMap_cons_none hnone]
    | succ i =>
      have hrest := ih hslot
      rw [List.set_cons_succ]
      cases hfirst : g first with
      | none => rwa [List.filterMap_cons_none hfirst, List.filterMap_cons_none hfirst]
      | some a =>
        rw [List.filterMap_cons_some hfirst, List.filterMap_cons_some hfirst]
        exact (hrest.cons a).trans (List.Perm.swap b a _)

theorem modify_topicFilter (table : SubTable) (i userData : ℕ) :
    (table.modify i fun entry => { entry with handlerUserData := userData }).slots.map
      SubTopicHandle.topicFilter = table.slots.map SubTopicHandle.topicFilter := by
  refine List.ext_getElem? fun j => ?_
  rw [List.getElem?_map, List.getElem?_map]
  dsimp only [SubTable.modify]
  rw [List.getElem?_modify]
  cases table.slots[j]? with
  | none => rfl
  | some entry =>
    by_cases hj : i = j
    · simp [hj]
    · simp [hj]

/-- A string that was taken from its node is installed. -/
theorem FiltersOwned.install (h : FiltersOwned c)
    (hsound : FindsWaiting env.iterOk .subscribe packetId c.listSubWaitAck)
    (hfound : lookup env.iterOk packetId c.listSubWaitAck = some node)
    (hplace : HasPlace node.handler c.subHandles) :
    FiltersOwned (installHandle packetId node.handler
      { c with listSubWaitAck := maskSubNodes packetId c.listSubWaitAck }).2.1 := by
  obtain ⟨filter, hfilter, howned⟩ := h.take hsound hfound
  have haddr := addrOf_some hfilter
  have hnodes := @stored_maskSubNodes packetId c.listSubWaitAck h.nodes
  rcases @installHandle_cases
      { c with listSubWaitAck := maskSubNodes packetId c.listSubWaitAck } node.handler
        packetId hplace
    with ⟨i, entry, hslot, -, heq⟩ | ⟨i, entry, hslot, hfree, -, heq⟩
  · rw [heq, halFree_some haddr]
    exact h.release howned hnodes _ (modify_topicFilter c.subHandles i _)
  · rw [heq]
    refine ⟨howned.perm ?_, fun handle hmem hsome => ?_, hnodes⟩
    · have hnone : addrOf entry = none := by rw [addrOf, hfree, Option.map_none]
      exact (filterMap_set hslot hnone haddr).append_right _
    · rcases List.mem_or_eq_of_mem_set hmem with hold | rfl
      · exact h.entries handle hold hsome
      · exact h.nodes node (lookup_some hfound).2.1

/-- A packet whose lookup is sound keeps every string owned once. -/
theorem FiltersOwned.applyIncoming {packet : Incoming} (h : FiltersOwned c)
    (hsound : LookupSound env packet c) : FiltersOwned (applyIncoming env packet c).1 := by
  cases packet with
  | other => exact h
  | puback packetId =>
    dsimp only [SessionSteps.applyIncoming]
    rw [maskPubInfoFrom_eq]
    exact h.of_same rfl rfl rfl
  | suback packetId nack =>
    obtain ⟨hfinds, hplace⟩ := hsound
    dsimp only [SessionSteps.applyIncoming]
    cases hfound : lookup env.iterOk packetId c.listSubWaitAck with
    | none =>
      rw [resolveSuback_none hfound]
      exact h
    | some node =>
      obtain ⟨filter, hfilter, howned⟩ := h.take hfinds hfound
      have hsome : node.handler.topicFilter ≠ none := by simp [hfilter]
      cases nack with
      | true =>
        have haddr := addrOf_some hfilter
        rw [resolveSuback_refused hfound hsome, halFree_some haddr]
        exact h.release howned (stored_maskSubNodes h.nodes) c.subHandles rfl
      | false =>
        rw [resolveSuback_granted hfound hsome]
        exact h.install hfinds hfound (hplace rfl node hfound)
  | unsuback packetId =>
    obtain ⟨hfinds, hgarbage⟩ := hsound
    dsimp only [SessionSteps.applyIncoming, resolveUnsuback]
    cases hfound : lookup env.iterOk packetId c.listSubWaitAck with
    | none =>
      rw [maskSubInfoFrom_none _ hfound]
      dsimp only
      rw [hgarbage hfound]
      exact h.of_same rfl rfl rfl
    | some node =>
      obtain ⟨filter, hfilter, howned⟩ := h.take hfinds hfound
      have haddr := addrOf_some hfilter
      rw [maskSubInfoFrom_some _ hfound]
      dsimp only
      rw [halFree_some haddr]
      exact h.release howned (stored_maskSubNodes h.nodes) c.subHandles rfl
  | publish fields =>
    dsimp only [SessionSteps.applyIncoming]
    unfold addPacketIdToRepeatBuf
    split
    · exact h
    · split
      · exact h
      · exact h.of_same rfl rfl rfl

/-- One operation whose lookup is sound keeps every string owned once. -/
theorem FiltersOwned.step (h : FiltersOwned c) (op : Op) (hsound : AcksMeetNodes c op) :
    FiltersOwned (exec op c).1 := by
  have hstep := exec_session op c
  generalize (exec op c).1 = c' at hstep ⊢
  generalize (exec op c).2 = events at hstep
  cases hstep with
  | same noReceipt same plain => exact h.of_same same.heap same.subHandles same.listSubWaitAck
  | requested noReceipt request plain => exact h.requested request
  | unsubscribed topicFilter env isOp nonempty short request plain =>
    exact (h.removeEntries topicFilter).requested request
  | received env cycle same plain =>
    exact (h.applyIncoming (hsound env cycle)).of_same same.heap same.subHandles
      same.listSubWaitAck
  | pubScan iterOk clock isOp =>
    refine h.of_same ?_ ?_ ?_
    all_goals rw [pubInfoProc_frame]
  | subScan iterOk clock isOp => exact h.subInfoProc iterOk clock
  | setEventHandler isSet isOp => exact h.of_same rfl rfl rfl
  | resetRepeatBuffer isOp => exact h.of_same rfl rfl rfl

/-- Every filter string has one owner, in every run whose lookups are sound. -/
theorem filtersOwned_run (random commandTimeout : ℕ) (eventHandle : Bool) (options : ConnectParams)
    {ops : List Op}
    (hsound : Along exec AcksMeetNodes ops
      (Client.init random commandTimeout eventHandle options)) :
    FiltersOwned (reached random commandTimeout eventHandle options ops) :=
  run_invariant (fun _ op h hop => h.step op hop)
    (filtersOwned_init random commandTimeout eventHandle options) hsound

end Acks

end IotExplorer.FilterOwnership
