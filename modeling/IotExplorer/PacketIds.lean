import IotExplorer.Basis.CyclicIds
import IotExplorer.ClientRuns
import Mathlib.Data.List.Nodup

/-!
The packet ids of the waiting requests. Every node keeps the number of the draw
that gave it its id, so its id is the one a cyclic counter hands out at that
draw. The generator never looks at the wait lists: an id that is still waiting
is handed out again when the counter has gone round.
-/
namespace IotExplorer.PacketIds

open Basis.Runs Basis.Ownership Basis.CyclicIds Protocol PacketBytes PublishPacket Network
open ClientState WaitLists Requests PacketHandlers SessionSteps ClientRuns

/-- The packet id of the d-th draw of a client that starts at `start`. -/
def packetId (start d : ℕ) : ℕ := cyclicId maxPacketId start d

/-- The counter of a client after `qcloud_iot_mqtt_init`. -/
def startId (random : ℕ) : ℕ := (random % 65536 + 1) % 2 ^ 16

section Keys

/-- The packet id and the draw of each node of the two wait lists. -/
def pubKeys (c : Client) : List (ℕ × ℕ) := c.listPubWaitAck.map fun node => (node.msgId, node.draw)
def subKeys (c : Client) : List (ℕ × ℕ) := c.listSubWaitAck.map fun node => (node.msgId, node.draw)

/-- What a step can do to the ids: keep the counter and some of the nodes, or draw
one id and append at most one node, which gets it. -/
inductive KeyStep (c c' : Client) : Prop
  | kept (pub : (pubKeys c').Sublist (pubKeys c)) (sub : (subKeys c').Sublist (subKeys c))
      (draws : c'.draws = c.draws) (next : c'.nextPacketId = c.nextPacketId) : KeyStep c c'
  | drew (pub sub : List (ℕ × ℕ)) (pubs : pubKeys c' = pubKeys c ++ pub)
      (subs : subKeys c' = subKeys c ++ sub)
      (fresh : (pub ++ sub).Sublist [(c.getNextPacketId.nextPacketId, c.draws + 1)])
      (draws : c'.draws = c.draws + 1)
      (next : c'.nextPacketId = c.getNextPacketId.nextPacketId) : KeyStep c c'

variable {c c' : Client}

theorem keyStep_of_session (h : SameSession c c') : KeyStep c c' := by
  refine .kept ?_ ?_ h.draws h.nextPacketId
  · rw [pubKeys, pubKeys, h.listPubWaitAck]
  · rw [subKeys, subKeys, h.listSubWaitAck]

theorem keyStep_of_request (h : Requested c c') : KeyStep c c' := by
  cases h with
  | same buf => exact .kept (List.Sublist.refl _) (List.Sublist.refl _) rfl rfl
  | drew buf =>
    exact .drew [] [] (List.append_nil _).symm (List.append_nil _).symm (by simp) rfl rfl
  | published buf deadline =>
    refine .drew [(c.getNextPacketId.nextPacketId, c.draws + 1)] [] ?_ (List.append_nil _).symm
      (List.Sublist.refl _) rfl rfl
    simp [pubKeys]
  | dropped buf =>
    exact .drew [] [] (List.append_nil _).symm (List.append_nil _).symm (by simp) rfl rfl
  | pushed buf node fresh =>
    refine .drew [] [(c.getNextPacketId.nextPacketId, c.draws + 1)] (List.append_nil _).symm ?_
      (List.Sublist.refl _) rfl rfl
    simp [subKeys, fresh.msgId, fresh.draw]

theorem pubKeys_maskPubNodes (msgId : ℕ) (nodes : List PubInfo) :
    (maskPubNodes msgId nodes).map (fun node => (node.msgId, node.draw)) =
      nodes.map fun node => (node.msgId, node.draw) := by
  rw [maskPubNodes, List.map_map]
  refine List.map_congr_left fun node _ => ?_
  dsimp only [Function.comp]
  split <;> rfl

theorem subKeys_maskSubNodes (msgId : ℕ) (nodes : List SubInfo) :
    (maskSubNodes msgId nodes).map (fun node => (node.msgId, node.draw)) =
      nodes.map fun node => (node.msgId, node.draw) := by
  rw [maskSubNodes, List.map_map]
  refine List.map_congr_left fun node _ => ?_
  dsimp only [Function.comp]
  split <;> rfl

theorem pubInfoScan_sublist (isConnected eventHandle : Bool) (clock : ℕ → ℕ) (i : ℕ)
    (nodes : List PubInfo) :
    (pubInfoScan isConnected eventHandle clock i nodes).1.Sublist nodes := by
  induction nodes generalizing i with
  | nil => exact List.Sublist.refl _
  | cons node nodes ih =>
    unfold pubInfoScan
    dsimp only
    split_ifs
    · exact (ih (i + 1)).cons node
    · exact (ih (i + 1)).cons_cons node
    · exact (ih (i + 1)).cons_cons node
    · exact (ih (i + 1)).cons node

theorem subInfoScan_sublist (isConnected eventHandle : Bool) (clock : ℕ → ℕ) (i : ℕ)
    (nodes : List SubInfo) (heap : Heap) :
    (subInfoScan isConnected eventHandle clock i nodes heap).1.Sublist nodes := by
  induction nodes generalizing i heap with
  | nil => exact List.Sublist.refl _
  | cons node nodes ih =>
    unfold subInfoScan
    dsimp only
    split_ifs
    · exact (ih (i + 1) heap).cons node
    · exact (ih (i + 1) heap).cons_cons node
    · exact (ih (i + 1) _).cons node

theorem pubInfoProc_sublist (iterOk : Bool) (clock : ℕ → ℕ) (c : Client) :
    (pubInfoProc iterOk clock c).1.listPubWaitAck.Sublist c.listPubWaitAck := by
  unfold pubInfoProc
  split
  · exact List.reverse_sublist.mp (by
      rw [List.reverse_reverse]
      exact pubInfoScan_sublist c.isConnected c.eventHandle clock 0 c.listPubWaitAck.reverse)
  · exact List.Sublist.refl _

theorem subInfoProc_sublist (iterOk : Bool) (clock : ℕ → ℕ) (c : Client) :
    (subInfoProc iterOk clock c).1.listSubWaitAck.Sublist c.listSubWaitAck := by
  unfold subInfoProc
  split
  · exact List.reverse_sublist.mp (by
      rw [List.reverse_reverse]
      exact subInfoScan_sublist c.isConnected c.eventHandle clock 0 c.listSubWaitAck.reverse c.heap)
  · exact List.Sublist.refl _

/-- The cases of one operation, as far as the ids are concerned. -/
theorem exec_keys (op : Op) (c : Client) : KeyStep c (exec op c).1 := by
  have hstep := exec_session op c
  generalize exec op c = r at hstep ⊢
  obtain ⟨c', events⟩ := r
  cases hstep with
  | same noReceipt same plain => exact keyStep_of_session same
  | requested noReceipt request plain => exact keyStep_of_request request
  | unsubscribed topicFilter env isOp nonempty short request plain =>
    rcases keyStep_of_request request with ⟨hpub, hsub, hdraws, hnext⟩ |
      ⟨pub, sub, hpub, hsub, hfresh, hdraws, hnext⟩
    · exact .kept hpub hsub hdraws hnext
    · exact .drew pub sub hpub hsub hfresh hdraws hnext
  | received env cycle same plain =>
    obtain ⟨hdraws, hnext, -⟩ := applyIncoming_frame env (incoming env.reads c) c
    refine .kept ?_ ?_ (same.draws.trans hdraws) (same.nextPacketId.trans hnext)
    · rw [pubKeys, same.listPubWaitAck, applyIncoming_listPubWaitAck]
      split
      · split
        · rw [pubKeys_maskPubNodes]
          exact List.Sublist.refl _
        · exact List.Sublist.refl _
      · exact List.Sublist.refl _
    · rw [subKeys, same.listSubWaitAck, applyIncoming_listSubWaitAck]
      split
      · split
        · rw [subKeys_maskSubNodes]
          exact List.Sublist.refl _
        · exact List.Sublist.refl _
      · split
        · rw [subKeys_maskSubNodes]
          exact List.Sublist.refl _
        · exact List.Sublist.refl _
      · exact List.Sublist.refl _
  | pubScan iterOk clock isOp =>
    refine .kept ((pubInfoProc_sublist iterOk clock c).map _) ?_ ?_ ?_
    · rw [pubInfoProc_frame]
      exact List.Sublist.refl _
    · rw [pubInfoProc_frame]
    · rw [pubInfoProc_frame]
  | subScan iterOk clock isOp =>
    refine .kept ?_ ((subInfoProc_sublist iterOk clock c).map _) ?_ ?_
    · rw [subInfoProc_frame]
      exact List.Sublist.refl _
    · rw [subInfoProc_frame]
    · rw [subInfoProc_frame]
  | setEventHandler isSet isOp => exact .kept (List.Sublist.refl _) (List.Sublist.refl _) rfl rfl
  | resetRepeatBuffer isOp => exact .kept (List.Sublist.refl _) (List.Sublist.refl _) rfl rfl

theorem draws_mono (op : Op) (c : Client) : c.draws ≤ (exec op c).1.draws := by
  rcases exec_keys op c with ⟨-, -, hdraws, -⟩ | ⟨-, -, -, -, -, hdraws, -⟩ <;> omega

end Keys

section Numbered
variable {start : ℕ} {c c' : Client}

/-- Every node has the id of its draw, and no two nodes come from one draw. -/
structure Numbered (start : ℕ) (c : Client) : Prop where
  counter : c.nextPacketId = if c.draws = 0 then start else packetId start c.draws
  drawn : ∀ key ∈ pubKeys c ++ subKeys c,
    key.1 = packetId start key.2 ∧ 1 ≤ key.2 ∧ key.2 ≤ c.draws
  distinct : ((pubKeys c ++ subKeys c).map Prod.snd).Nodup

theorem startId_le (random : ℕ) : startId random ≤ maxPacketId := by
  unfold startId maxPacketId
  omega

theorem packetId_pos (start d : ℕ) : packetId start d ≠ 0 := Nat.pos_iff_ne_zero.mp cyclicId_pos

theorem numbered_init (random commandTimeout : ℕ) (eventHandle : Bool) (options : ConnectParams) :
    Numbered (startId random) (Client.init random commandTimeout eventHandle options) where
  counter := (if_pos rfl).symm
  drawn := fun key hkey => by simp [pubKeys, subKeys, Client.init] at hkey
  distinct := List.nodup_nil

/-- On 16 bits the counter goes round after `MAX_PACKET_ID`. -/
theorem getNextPacketId_eq (hle : c.nextPacketId ≤ maxPacketId) :
    c.getNextPacketId.nextPacketId = nextId maxPacketId c.nextPacketId := by
  dsimp only [Client.getNextPacketId, nextId]
  split
  · rfl
  next hne =>
    rw [Nat.mod_eq_of_lt]
    unfold maxPacketId at hle hne
    omega

/-- The next id is that of the next draw. -/
theorem Numbered.next (hstart : start ≤ maxPacketId) (h : Numbered start c) :
    c.getNextPacketId.nextPacketId = packetId start (c.draws + 1) := by
  have hpos : 0 < maxPacketId := by decide
  have hcounter := h.counter
  by_cases hzero : c.draws = 0
  · rw [if_pos hzero] at hcounter
    rw [getNextPacketId_eq (hcounter.trans_le hstart), hcounter, hzero]
    by_cases hfirst : start = 0
    · subst hfirst
      exact (cyclicId_one_of_zero hpos).symm
    · rw [packetId, cyclicId_succ hpos, cyclicId_zero (Nat.pos_of_ne_zero hfirst) hstart]
  · rw [if_neg hzero] at hcounter
    rw [getNextPacketId_eq (hcounter.trans_le (cyclicId_le hpos)), hcounter, packetId, packetId,
      cyclicId_succ hpos]

theorem Numbered.step (hstart : start ≤ maxPacketId) (h : Numbered start c) (hstep : KeyStep c c') :
    Numbered start c' := by
  cases hstep with
  | kept pub sub draws next =>
    have hsub := pub.append sub
    refine ⟨?_, fun key hkey => ?_, (hsub.map Prod.snd).nodup h.distinct⟩
    · rw [next, draws]
      exact h.counter
    · rw [draws]
      exact h.drawn key (hsub.subset hkey)
  | drew pub sub pubs subs fresh draws next =>
    have hnext := h.next hstart
    have hperm : (pubKeys c' ++ subKeys c').Perm ((pubKeys c ++ subKeys c) ++ (pub ++ sub)) := by
      rw [pubs, subs, List.append_assoc, List.append_assoc]
      refine List.Perm.append_left _ ?_
      rw [← List.append_assoc, ← List.append_assoc]
      exact List.perm_append_comm.append_right sub
    have hfresh : ∀ key ∈ pub ++ sub, key = (packetId start (c.draws + 1), c.draws + 1) := by
      intro key hkey
      rw [← hnext]
      exact List.mem_singleton.mp (fresh.subset hkey)
    refine ⟨?_, fun key hkey => ?_, ?_⟩
    · rw [next, hnext, draws, if_neg (Nat.succ_ne_zero _)]
    · rw [draws]
      rcases List.mem_append.mp (hperm.mem_iff.mp hkey) with hold | hnew
      · obtain ⟨hid, hlow, hhigh⟩ := h.drawn key hold
        exact ⟨hid, hlow, Nat.le_succ_of_le hhigh⟩
      · rw [hfresh key hnew]
        exact ⟨rfl, Nat.succ_le_succ (Nat.zero_le _), le_rfl⟩
    · rw [(hperm.map Prod.snd).nodup_iff, List.map_append]
      refine List.Nodup.append h.distinct ((fresh.map Prod.snd).nodup (List.nodup_singleton _)) ?_
      intro d hold hnew
      obtain ⟨key, hkey, rfl⟩ := List.mem_map.mp hold
      obtain ⟨key', hkey', heq⟩ := List.mem_map.mp hnew
      have hhigh := (h.drawn key hkey).2.2
      rw [hfresh key' hkey'] at heq
      dsimp only at heq
      omega

theorem numbered_reached (random commandTimeout : ℕ) (eventHandle : Bool)
    (options : ConnectParams) (ops : List Op) :
    Numbered (startId random) (reached random commandTimeout eventHandle options ops) :=
  run_invariant (fun c op h _ => h.step (startId_le random) (exec_keys op c))
    (numbered_init random commandTimeout eventHandle options) (along_true exec ops _)

end Numbered

section Waiting

/-- The packet id and the draw of each valid node. -/
def waiting (c : Client) : List (ℕ × ℕ) :=
  ((c.listPubWaitAck.filter fun node => node.nodeState = .normal).map
      fun node => (node.msgId, node.draw)) ++
    (c.listSubWaitAck.filter fun node => node.nodeState = .normal).map
      fun node => (node.msgId, node.draw)

theorem waiting_sublist (c : Client) : (waiting c).Sublist (pubKeys c ++ subKeys c) :=
  ((List.filter_sublist).map _).append ((List.filter_sublist).map _)

theorem mem_waiting {c : Client} {key : ℕ × ℕ} :
    key ∈ waiting c ↔
      (∃ node ∈ c.listPubWaitAck, node.nodeState = .normal ∧ (node.msgId, node.draw) = key) ∨
        ∃ node ∈ c.listSubWaitAck, node.nodeState = .normal ∧ (node.msgId, node.draw) = key := by
  simp [waiting, and_assoc]

theorem waiting_subset {c c' : Client}
    (hpub : ∀ node ∈ c'.listPubWaitAck, node.nodeState = .normal → node ∈ c.listPubWaitAck)
    (hsub : ∀ node ∈ c'.listSubWaitAck, node.nodeState = .normal → node ∈ c.listSubWaitAck) :
    ∀ key ∈ waiting c', key ∈ waiting c := by
  intro key hkey
  rcases mem_waiting.mp hkey with ⟨node, hmem, hstate, heq⟩ | ⟨node, hmem, hstate, heq⟩
  · exact mem_waiting.mpr (Or.inl ⟨node, hpub node hmem hstate, hstate, heq⟩)
  · exact mem_waiting.mpr (Or.inr ⟨node, hsub node hmem hstate, hstate, heq⟩)

theorem waiting_requested {c c' : Client} (h : Requested c c') :
    ∀ key ∈ waiting c', key ∈ waiting c ∨ key.2 = c.draws + 1 ∧ c'.draws = c.draws + 1 := by
  intro key hkey
  cases h with
  | same buf => exact Or.inl hkey
  | drew buf => exact Or.inl hkey
  | dropped buf => exact Or.inl hkey
  | published buf deadline =>
    rcases mem_waiting.mp hkey with ⟨node, hmem, hstate, heq⟩ | hsub
    · rcases List.mem_append.mp hmem with hold | hnew
      · exact Or.inl (mem_waiting.mpr (Or.inl ⟨node, hold, hstate, heq⟩))
      · rw [← heq, List.mem_singleton.mp hnew]
        exact Or.inr ⟨rfl, rfl⟩
    · exact Or.inl (mem_waiting.mpr (Or.inr hsub))
  | pushed buf new fresh =>
    rcases mem_waiting.mp hkey with hpub | ⟨node, hmem, hstate, heq⟩
    · exact Or.inl (mem_waiting.mpr (Or.inl hpub))
    · rcases List.mem_append.mp hmem with hold | hnew
      · exact Or.inl (mem_waiting.mpr (Or.inr ⟨node, hold, hstate, heq⟩))
      · rw [← heq, List.mem_singleton.mp hnew]
        exact Or.inr ⟨fresh.draw, rfl⟩

/-- A packet makes no node of the publish list valid. -/
theorem mem_of_normal_pub {env : CycleEnv} {packet : Incoming} {c : Client} {node : PubInfo}
    (hmem : node ∈ (applyIncoming env packet c).1.listPubWaitAck)
    (hstate : node.nodeState = .normal) : node ∈ c.listPubWaitAck := by
  rw [applyIncoming_listPubWaitAck] at hmem
  split at hmem
  · split at hmem
    · obtain ⟨old, hold, rfl⟩ := List.mem_map.mp hmem
      split at hstate
      · cases hstate
      next hid => rwa [if_neg hid]
    · exact hmem
  · exact hmem

theorem mem_of_normal_masked {packetId : ℕ} {nodes : List SubInfo} {node : SubInfo}
    (hmem : node ∈ maskSubNodes packetId nodes) (hstate : node.nodeState = .normal) :
    node ∈ nodes := by
  obtain ⟨old, hold, rfl⟩ := List.mem_map.mp hmem
  split at hstate
  · cases hstate
  next hid => rwa [if_neg hid]

/-- A packet makes no node of the subscription list valid. -/
theorem mem_of_normal_sub {env : CycleEnv} {packet : Incoming} {c : Client} {node : SubInfo}
    (hmem : node ∈ (applyIncoming env packet c).1.listSubWaitAck)
    (hstate : node.nodeState = .normal) : node ∈ c.listSubWaitAck := by
  rw [applyIncoming_listSubWaitAck] at hmem
  split at hmem
  · split at hmem
    · exact mem_of_normal_masked hmem hstate
    · exact hmem
  · split at hmem
    · exact mem_of_normal_masked hmem hstate
    · exact hmem
  · exact hmem

/-- What waits after an operation waited before, or comes from a new draw. -/
theorem exec_waiting (op : Op) (c : Client) :
    ∀ key ∈ waiting (exec op c).1,
      key ∈ waiting c ∨ key.2 = c.draws + 1 ∧ (exec op c).1.draws = c.draws + 1 := by
  have hstep := exec_session op c
  generalize (exec op c).1 = c' at hstep ⊢
  generalize (exec op c).2 = events at hstep
  intro key hkey
  cases hstep with
  | same noReceipt same plain =>
    refine Or.inl (waiting_subset (fun node hnode _ => ?_) (fun node hnode _ => ?_) key hkey)
    · exact same.listPubWaitAck ▸ hnode
    · exact same.listSubWaitAck ▸ hnode
  | requested noReceipt request plain => exact waiting_requested request key hkey
  | unsubscribed topicFilter env isOp nonempty short request plain =>
    exact waiting_requested request key hkey
  | received env cycle same plain =>
    refine Or.inl (waiting_subset (fun node hnode hstate => ?_)
      (fun node hnode hstate => ?_) key hkey)
    · rw [same.listPubWaitAck] at hnode
      exact mem_of_normal_pub hnode hstate
    · rw [same.listSubWaitAck] at hnode
      exact mem_of_normal_sub hnode hstate
  | pubScan iterOk clock isOp =>
    refine Or.inl (waiting_subset (fun node hnode _ => ?_) (fun node hnode _ => ?_) key hkey)
    · exact (pubInfoProc_sublist iterOk clock c).subset hnode
    · rwa [pubInfoProc_frame] at hnode
  | subScan iterOk clock isOp =>
    refine Or.inl (waiting_subset (fun node hnode _ => ?_) (fun node hnode _ => ?_) key hkey)
    · rwa [subInfoProc_frame] at hnode
    · exact (subInfoProc_sublist iterOk clock c).subset hnode
  | setEventHandler isSet isOp => exact Or.inl hkey
  | resetRepeatBuffer isOp => exact Or.inl hkey

/-- A time-out is reported for a node that waits. -/
theorem waiting_of_expired {op : Op} {c : Client} {d : ℕ} (h : Event.expired d ∈ (exec op c).2) :
    ∃ key ∈ waiting c, key.2 = d := by
  have hstep := exec_session op c
  generalize (exec op c).1 = c' at hstep
  generalize (exec op c).2 = events at hstep h
  cases hstep with
  | same noReceipt same plain => exact (plain _ h).elim
  | requested noReceipt request plain => exact (plain _ h).elim
  | unsubscribed topicFilter env isOp nonempty short request plain =>
    rcases List.mem_append.mp h with h | h
    · exact (unsubscribeScan_aboutSub topicFilter _ _ _ h).elim
    · exact (plain _ h).elim
  | received env cycle same plain =>
    rcases List.mem_append.mp h with h | h
    · rcases applyIncoming_events env _ c _ h with h | ⟨packetId, -, -, h⟩
      · exact h.elim
      · cases h
    · exact (plain _ h).elim
  | pubScan iterOk clock isOp =>
    unfold pubInfoProc at h
    split at h
    · obtain ⟨node, hmem, hstate, h | h⟩ := pubInfoScan_events _ _ _ _ _ _ h
      · refine ⟨(node.msgId, node.draw), ?_, (Event.expired.inj h).symm⟩
        exact mem_waiting.mpr (Or.inl ⟨node, List.mem_reverse.mp hmem, hstate, rfl⟩)
      · cases h
    · exact absurd h List.not_mem_nil
  | subScan iterOk clock isOp =>
    unfold subInfoProc at h
    split at h
    · rcases subInfoScan_events _ _ _ _ _ _ _ h with h | ⟨node, hmem, hstate, h⟩
      · exact h.elim
      · refine ⟨(node.msgId, node.draw), ?_, (Event.expired.inj h).symm⟩
        exact mem_waiting.mpr (Or.inr ⟨node, List.mem_reverse.mp hmem, hstate, rfl⟩)
    · exact absurd h List.not_mem_nil
  | setEventHandler isSet isOp => exact absurd h List.not_mem_nil
  | resetRepeatBuffer isOp => exact absurd h List.not_mem_nil

/-- What waits no more never times out. -/
theorem not_expired_run {d : ℕ} {c : Client} (hdrawn : d ≤ c.draws)
    (hgone : ∀ key ∈ waiting c, key.2 ≠ d) (ops : List Op) :
    Event.expired d ∉ (run exec ops c).2 := by
  induction ops generalizing c with
  | nil => exact List.not_mem_nil
  | cons op ops ih =>
    rw [run_cons, List.mem_append]
    rintro (hnow | hlater)
    · obtain ⟨key, hkey, hdraw⟩ := waiting_of_expired hnow
      exact hgone key hkey hdraw
    · refine ih (hdrawn.trans (draws_mono op c)) (fun key hkey => ?_) hlater
      rcases exec_waiting op c key hkey with hold | ⟨hnew, -⟩
      · exact hgone key hold
      · omega

/-- The ids that wait are never zero, and two of them are equal exactly when the
counter went round between their draws; so they are distinct as long as fewer than
`MAX_PACKET_ID` ids were drawn since the oldest of them. -/
theorem waiting_ids (random commandTimeout : ℕ) (eventHandle : Bool) (options : ConnectParams)
    (ops : List Op) :
    let c := reached random commandTimeout eventHandle options ops
    (∀ key ∈ waiting c, key.1 ≠ 0) ∧ ((waiting c).map Prod.snd).Nodup ∧
      (∀ key ∈ waiting c, ∀ key' ∈ waiting c, key.1 = key'.1 ↔ key.2 ≡ key'.2 [MOD maxPacketId]) ∧
      ((∀ key ∈ waiting c, c.draws < key.2 + maxPacketId) → ((waiting c).map Prod.fst).Nodup) := by
  intro c
  have h : Numbered (startId random) c :=
    numbered_reached random commandTimeout eventHandle options ops
  have hdrawn := fun key hkey => h.drawn key ((waiting_sublist c).subset hkey)
  have hdistinct := ((waiting_sublist c).map Prod.snd).nodup h.distinct
  refine ⟨fun key hkey => ?_, hdistinct, fun key hkey key' hkey' => ?_, fun hyoung => ?_⟩
  · rw [(hdrawn key hkey).1]
    exact packetId_pos _ _
  · rw [(hdrawn key hkey).1, (hdrawn key' hkey').1]
    exact cyclicId_eq_iff
  · refine List.Nodup.map_on (fun key hkey key' hkey' heq => ?_) (List.Nodup.of_map _ hdistinct)
    obtain ⟨hid, hlow, hhigh⟩ := hdrawn key hkey
    obtain ⟨hid', hlow', hhigh'⟩ := hdrawn key' hkey'
    have hy := hyoung key hkey
    have hy' := hyoung key' hkey'
    have hsame : packetId (startId random) key.2 = packetId (startId random) key'.2 := by
      rw [← hid, ← hid', heq]
    have hdraw : key.2 = key'.2 :=
      @cyclicId_inj_window _ _ _ _ (c.draws - maxPacketId) (by omega) (by omega) hsame
    exact Prod.ext heq hdraw

def publishT (payload : Option (List UInt8)) : Op :=
  .publish [116] { qos := .qos1, retained := 0, id := 0, payload := payload } (calmRequest 0)

/-- A publish without a payload fails after it has drawn its id. -/
theorem publishT_none {c : Client} (hconnected : c.isConnected = true) :
    exec (publishT none) c = (c.getNextPacketId, []) := by
  simp [exec, publishT, qcloudIotMqttPublish, publishPacketId, maxSizeOfCloudTopic, hconnected]

/-- A publish with a payload appends its node while there is room. -/
theorem publishT_some {c : Client} (hconnected : c.isConnected = true)
    (hroom : c.listPubWaitAck.length < maxRepubNum) :
    ∃ buf copy, (exec (publishT (some [])) c).1 = { c.getNextPacketId with
      writeBuf := buf
      listPubWaitAck := c.listPubWaitAck ++
        [⟨c.commandTimeoutMs, .normal, c.getNextPacketId.nextPacketId, copy, c.draws + 1⟩] } := by
  have hpacket : ∀ id, serializePublishPacket mqttTxBufLen 0 .qos1 0 id [116] [] =
      .ok ([0x32, 5, 0, 1, 116] ++ mqttWriteUint16 id) := fun _ => rfl
  have hlen : ∀ id, ([0x32, 5, 0, 1, 116] ++ mqttWriteUint16 id).length = 7 := fun _ => rfl
  have hsent : ∀ buf, sendMqttPacket buf 7 [.accept 2047] = (.success, slice buf 0 7) :=
    fun buf => sendMqttPacket_accept buf 7 2047 [] (by decide) (by decide) (by decide)
  have hfull : ¬ c.getNextPacketId.listPubWaitAck.length ≥ maxRepubNum := Nat.not_le.mpr hroom
  have hshort : ¬ 7 > mqttTxBufLen := by decide
  have hlong : ¬ [(116 : UInt8)].length > maxSizeOfCloudTopic := by decide
  change ∃ buf copy, (qcloudIotMqttPublish [116] ⟨.qos1, 0, 0, some []⟩ (calmRequest 0) c).2.1 = _
  unfold qcloudIotMqttPublish publishPacketId
  rw [if_neg (by simp), if_neg hlong, if_neg (by simp), if_neg (by simp [hconnected])]
  dsimp only
  rw [if_pos rfl, hpacket]
  dsimp only
  rw [if_neg (by simp), maskPushPubInfoTo, hlen, if_neg hshort, if_neg (by exact hfull),
    if_neg (by simp [calmRequest])]
  dsimp only
  rw [sendWritten, hlen, calmRequest, hsent]
  dsimp only
  rw [if_neg (by simp), Nat.zero_add]
  exact ⟨_, _, rfl⟩

/-- Failing publishes advance the counter and nothing else. -/
theorem publishT_none_run (n : ℕ) {c : Client} (hconnected : c.isConnected = true) :
    (run exec (List.replicate n (publishT none)) c).1.listPubWaitAck = c.listPubWaitAck ∧
      (run exec (List.replicate n (publishT none)) c).1.listSubWaitAck = c.listSubWaitAck ∧
      (run exec (List.replicate n (publishT none)) c).1.draws = c.draws + n ∧
      (run exec (List.replicate n (publishT none)) c).1.isConnected = true := by
  induction n generalizing c with
  | zero => exact ⟨rfl, rfl, rfl, hconnected⟩
  | succ n ih =>
    rw [List.replicate_succ, run_cons, publishT_none hconnected]
    obtain ⟨hpub, hsub, hdraws, hstill⟩ := @ih c.getNextPacketId hconnected
    refine ⟨hpub, hsub, ?_, hstill⟩
    rw [hdraws]
    dsimp only [Client.getNextPacketId]
    omega

/-- A publish that waits, `n` that fail after drawing their ids, and one more that waits. -/
def publishAround (n : ℕ) : List Op :=
  handshake [] ++ publishT (some []) :: (List.replicate n (publishT none) ++ [publishT (some [])])

theorem waiting_publishAround (n : ℕ) :
    ∃ id id', waiting (reached 5 5000 true deviceOptions (publishAround n)) =
      [(id, 1), (id', n + 2)] := by
  obtain ⟨hconnected, hpub, hsub, hdraws⟩ :
      (reached 5 5000 true deviceOptions (handshake [])).isConnected = true ∧
        (reached 5 5000 true deviceOptions (handshake [])).listPubWaitAck = [] ∧
        (reached 5 5000 true deviceOptions (handshake [])).listSubWaitAck = [] ∧
        (reached 5 5000 true deviceOptions (handshake [])).draws = 0 := by decide
  unfold reached publishAround at *
  rw [run_append, run_cons, run_append, run_cons, run_nil]
  dsimp only
  generalize (run exec (handshake []) (Client.init 5 5000 true deviceOptions)).1 = c at *
  obtain ⟨buf, copy, hfirst⟩ := publishT_some hconnected (by rw [hpub]; decide)
  rw [hfirst]
  obtain ⟨hpub', hsub', hdraws', hstill⟩ := @publishT_none_run n
    { c.getNextPacketId with
      writeBuf := buf
      listPubWaitAck := c.listPubWaitAck ++
        [⟨c.commandTimeoutMs, .normal, c.getNextPacketId.nextPacketId, copy, c.draws + 1⟩] }
    hconnected
  generalize (run exec (List.replicate n (publishT none)) _).1 = c' at hpub' hsub' hdraws' hstill ⊢
  rw [hpub] at hpub'
  obtain ⟨buf', copy', hsecond⟩ := publishT_some hstill (by
    rw [hpub']
    exact (by decide : 1 < maxRepubNum))
  have hsubs : c'.getNextPacketId.listSubWaitAck = [] := hsub'.trans hsub
  have hnumber : c'.draws + 1 = n + 2 := by
    rw [hdraws']
    dsimp only [Client.getNextPacketId]
    omega
  rw [hsecond]
  exact ⟨c.getNextPacketId.nextPacketId, c'.getNextPacketId.nextPacketId, by
    simp [waiting, hpub', hsubs, hdraws, hnumber]⟩

/-- A publish waits, 65534 others fail after drawing their ids, and the next one gets
the id that still waits. -/
theorem waiting_id_drawn_again :
    ¬ ∀ (random commandTimeout : ℕ) (eventHandle : Bool) (options : ConnectParams) (ops : List Op),
      (∀ key ∈ waiting (reached random commandTimeout eventHandle options ops), key.1 ≠ 0) ∧
        ((waiting (reached random commandTimeout eventHandle options ops)).map Prod.fst).Nodup := by
  intro hclaim
  obtain ⟨id, id', hids⟩ := waiting_publishAround 65534
  have hnodup := (hclaim 5 5000 true deviceOptions (publishAround 65534)).2
  have hnumbered := numbered_reached 5 5000 true deviceOptions (publishAround 65534)
  have hdrawn := fun key hkey => hnumbered.drawn key ((waiting_sublist _).subset hkey)
  rw [hids] at hdrawn hnodup
  have hfirst : id = packetId (startId 5) 1 := (hdrawn (id, 1) (by simp)).1
  have hsecond : id' = packetId (startId 5) (65534 + 2) := (hdrawn (id', 65534 + 2) (by simp)).1
  have hsame : packetId (startId 5) 1 = packetId (startId 5) (65534 + 2) :=
    cyclicId_eq_iff.mpr (by decide)
  simp only [List.map_cons, List.map_nil, List.nodup_cons, List.mem_singleton] at hnodup
  exact hnodup.1 (hfirst.trans (hsame.trans hsecond.symm))

end Waiting

end IotExplorer.PacketIds
