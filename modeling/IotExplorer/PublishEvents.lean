import IotExplorer.PacketIds
import Mathlib.Data.List.Perm.Subperm

/-!
The final events of QoS 1 publishes. A packet id is settled by one success or
one time-out: the ids of the final events so far and the ids of the valid nodes
together never hold an id twice, until the counter has gone round. The PUBACK
handler reports a success without looking whether the id waits.
-/
namespace IotExplorer.PublishEvents

open Basis.Runs Basis.Ownership Basis.CyclicIds Protocol ClientState WaitLists Requests
open PacketHandlers SessionSteps ClientRuns PacketIds

def finalId : Event → Option ℕ
  | .mqtt .publishSuccess packetId => some packetId
  | .mqtt .publishTimeout packetId => some packetId
  | _ => none

def finalIds (log : List Event) : List ℕ := log.filterMap finalId

def validIds (nodes : List PubInfo) : List ℕ :=
  (nodes.filter fun node => node.nodeState = .normal).map PubInfo.msgId

/-- A PUBACK that is handled carries an id that waits, and its list can be walked. -/
def PubackWaits (c : Client) (op : Op) : Prop :=
  ∀ env, op.cycle c = some env → ∀ packetId, incoming env.reads c = .puback packetId →
    env.iterOk = true ∧ packetId ∈ validIds c.listPubWaitAck

/-- `PubackWaits` as a test. -/
def pubackWaits (c : Client) (op : Op) : Bool :=
  match op.cycle c with
  | none => true
  | some env =>
      match incoming env.reads c with
      | .puback packetId => env.iterOk && decide (packetId ∈ validIds c.listPubWaitAck)
      | _ => true

theorem pubackWaits_iff (c : Client) (op : Op) : pubackWaits c op = true ↔ PubackWaits c op := by
  unfold PubackWaits pubackWaits
  cases op.cycle c with
  | none => simp
  | some env =>
    simp only [Option.some.injEq, forall_eq']
    cases incoming env.reads c <;> simp

instance (c : Client) (op : Op) : Decidable (PubackWaits c op) :=
  decidable_of_iff _ (pubackWaits_iff c op)

/-- In a run from this client no packet id gets two final events, and a success is
raised only for an id that waits. -/
def FinalOnce (c : Client) (ops : List Op) : Prop :=
  (∀ packetId, (finalIds (run exec ops c).2).count packetId ≤ 1) ∧
    ∀ earlier op later, ops = earlier ++ op :: later → ∀ packetId,
      Event.mqtt .publishSuccess packetId ∈ (exec op (run exec earlier c).1).2 →
      packetId ∈ validIds (run exec earlier c).1.listPubWaitAck

section Events

@[simp] theorem finalIds_nil : finalIds [] = [] := rfl

@[simp] theorem finalIds_append (log events : List Event) :
    finalIds (log ++ events) = finalIds log ++ finalIds events := List.filterMap_append

theorem finalIds_of_plain {events : List Event} (h : ∀ e ∈ events, Plain e) :
    finalIds events = [] := by
  refine List.filterMap_eq_nil_iff.mpr fun e he => ?_
  have hplain := h e he
  cases e with
  | mqtt type packetId => cases type <;> first | rfl | exact hplain.elim
  | _ => rfl

theorem finalIds_of_aboutSub {events : List Event} (h : ∀ e ∈ events, AboutSub e) :
    finalIds events = [] := by
  refine List.filterMap_eq_nil_iff.mpr fun e he => ?_
  have hsub := h e he
  cases e with
  | mqtt type packetId => cases type <;> first | rfl | exact hsub.elim
  | _ => rfl

theorem finalIds_subInfoScan (isConnected eventHandle : Bool) (clock : ℕ → ℕ) (i : ℕ)
    (nodes : List SubInfo) (heap : Heap) :
    finalIds (subInfoScan isConnected eventHandle clock i nodes heap).2.2 = [] := by
  refine List.filterMap_eq_nil_iff.mpr fun e he => ?_
  rcases subInfoScan_events isConnected eventHandle clock i nodes heap e he with
    hsub | ⟨node, -, -, rfl⟩
  · exact List.filterMap_eq_nil_iff.mp
      (@finalIds_of_aboutSub [e] fun e' he' => List.mem_singleton.mp he' ▸ hsub) e
      List.mem_cons_self
  · rfl

/-- The final events of one packet: only a PUBACK raises one. -/
theorem finalIds_applyIncoming (env : CycleEnv) (packet : Incoming) (c : Client) :
    finalIds (applyIncoming env packet c).2 =
      match packet with
      | .puback packetId => if c.eventHandle then [packetId] else []
      | _ => [] := by
  cases packet with
  | puback packetId =>
    dsimp only [applyIncoming, raiseEvent]
    split <;> rfl
  | _ =>
    refine finalIds_of_aboutSub fun e he => ?_
    rcases applyIncoming_events env _ c e he with hsub | ⟨packetId, hpacket, -⟩
    · exact hsub
    · cases hpacket

end Events

section Nodes

theorem validIds_cons_invalid {node : PubInfo} {nodes : List PubInfo}
    (h : node.nodeState = .invalid) : validIds (node :: nodes) = validIds nodes := by
  simp [validIds, h]

theorem validIds_cons_valid {node : PubInfo} {nodes : List PubInfo}
    (h : ¬ node.nodeState = .invalid) :
    validIds (node :: nodes) = node.msgId :: validIds nodes := by
  have hnormal : node.nodeState = .normal := by
    cases hstate : node.nodeState with
    | normal => rfl
    | invalid => exact absurd hstate h
  simp [validIds, hnormal]

theorem validIds_reverse (nodes : List PubInfo) :
    (validIds nodes.reverse).Perm (validIds nodes) :=
  ((List.reverse_perm nodes).filter _).map _

theorem validIds_maskPubNodes (msgId : ℕ) (nodes : List PubInfo) :
    validIds (maskPubNodes msgId nodes) = (validIds nodes).filter (· ≠ msgId) := by
  induction nodes with
  | nil => rfl
  | cons node nodes ih =>
    unfold maskPubNodes at ih ⊢
    rw [List.map_cons]
    by_cases hid : node.msgId = msgId
    · rw [if_pos hid, validIds_cons_invalid rfl, ih]
      by_cases hstate : node.nodeState = .invalid
      · rw [validIds_cons_invalid hstate]
      · rw [validIds_cons_valid hstate, List.filter_cons_of_neg (by simpa using hid)]
    · rw [if_neg hid]
      by_cases hstate : node.nodeState = .invalid
      · rw [validIds_cons_invalid hstate, validIds_cons_invalid hstate, ih]
      · rw [validIds_cons_valid hstate, validIds_cons_valid hstate, ih,
          List.filter_cons_of_pos (by simpa using hid)]

/-- Taking an id that waits out of the list pays for its final event. -/
theorem settle_subperm {msgId : ℕ} {ids : List ℕ} (h : msgId ∈ ids) :
    (msgId :: ids.filter (· ≠ msgId)).Subperm ids := by
  have hsplit := List.filter_append_perm (· = msgId) ids
  have hone : [msgId].Sublist (ids.filter (· = msgId)) :=
    List.singleton_sublist.mpr (List.mem_filter.mpr ⟨h, by simp⟩)
  have hrest : ids.filter (fun id => !decide (id = msgId)) = ids.filter (· ≠ msgId) :=
    List.filter_congr fun id _ => by simp
  rw [hrest] at hsplit
  exact (hone.append_right _).subperm.trans hsplit.subperm

/-- A walk reports each node it drops for its age, and no other one. -/
theorem pubInfoScan_settles (isConnected eventHandle : Bool) (clock : ℕ → ℕ) (i : ℕ)
    (nodes : List PubInfo) :
    (finalIds (pubInfoScan isConnected eventHandle clock i nodes).2 ++
        validIds (pubInfoScan isConnected eventHandle clock i nodes).1).Subperm
      (validIds nodes) := by
  induction nodes generalizing i with
  | nil => exact List.Subperm.refl _
  | cons node nodes ih =>
    have hrest := ih (i + 1)
    unfold pubInfoScan
    dsimp only
    by_cases hstate : node.nodeState = .invalid
    · rw [if_pos hstate, validIds_cons_invalid hstate]
      exact hrest
    · rw [if_neg hstate, validIds_cons_valid hstate]
      have hkeep : (finalIds (pubInfoScan isConnected eventHandle clock (i + 1) nodes).2 ++
          validIds (node :: (pubInfoScan isConnected eventHandle clock (i + 1) nodes).1)).Subperm
          (node.msgId :: validIds nodes) := by
        rw [validIds_cons_valid hstate]
        exact List.perm_middle.subperm.trans ((List.subperm_cons node.msgId).mpr hrest)
      split
      · exact hkeep
      · split
        · exact hkeep
        · rw [finalIds_append]
          cases eventHandle with
          | true => exact (List.subperm_cons node.msgId).mpr hrest
          | false => exact hrest.cons_right node.msgId

theorem pubInfoProc_settles (iterOk : Bool) (clock : ℕ → ℕ) (c : Client) :
    (finalIds (pubInfoProc iterOk clock c).2 ++
        validIds (pubInfoProc iterOk clock c).1.listPubWaitAck).Subperm
      (validIds c.listPubWaitAck) := by
  unfold pubInfoProc
  split
  · have hscan := pubInfoScan_settles c.isConnected c.eventHandle clock 0 c.listPubWaitAck.reverse
    refine List.Subperm.trans ?_ (hscan.trans (validIds_reverse _).subperm)
    exact ((validIds_reverse _).append_left _).subperm
  · exact List.Subperm.refl _

end Nodes

section Steps
variable {start : ℕ} {c c' : Client} {log events : List Event}

/-- What a step can do to the ids of publishes: settle some that wait, or append the
one it draws. -/
inductive SettleStep (c c' : Client) (events : List Event) : Prop
  | settled (ids : (finalIds events ++ validIds c'.listPubWaitAck).Subperm
      (validIds c.listPubWaitAck)) : SettleStep c c' events
  | fresh (none : finalIds events = []) (draws : c'.draws = c.draws + 1)
      (ids : validIds c'.listPubWaitAck =
        validIds c.listPubWaitAck ++ [c.getNextPacketId.nextPacketId]) : SettleStep c c' events

theorem settleStep_of_same (hlist : c'.listPubWaitAck = c.listPubWaitAck)
    (hnone : finalIds events = []) : SettleStep c c' events :=
  .settled (by rw [hnone, hlist]; exact List.Subperm.refl _)

theorem settleStep_of_request (h : Requested c c') (hnone : finalIds events = []) :
    SettleStep c c' events := by
  cases h with
  | same buf => exact settleStep_of_same rfl hnone
  | drew buf => exact settleStep_of_same rfl hnone
  | published buf deadline => exact .fresh hnone rfl (by simp [validIds])
  | dropped buf => exact settleStep_of_same rfl hnone
  | pushed buf node fresh => exact settleStep_of_same rfl hnone

theorem exec_settles (op : Op) (hacks : PubackWaits c op) :
    SettleStep c (exec op c).1 (exec op c).2 := by
  have hstep := exec_session op c
  generalize (exec op c).1 = c' at hstep ⊢
  generalize (exec op c).2 = events at hstep ⊢
  cases hstep with
  | same noReceipt same plain =>
    exact settleStep_of_same same.listPubWaitAck (finalIds_of_plain plain)
  | requested noReceipt request plain =>
    exact settleStep_of_request request (finalIds_of_plain plain)
  | unsubscribed topicFilter env isOp nonempty short request plain =>
    have hnone : finalIds ((removeEntries topicFilter c).2 ++ ‹List Event›) = [] := by
      rw [finalIds_append, finalIds_of_plain plain, removeEntries,
        finalIds_of_aboutSub (unsubscribeScan_aboutSub topicFilter _ _)]
      rfl
    rcases settleStep_of_request request hnone with hids | ⟨-, hdraws, hids⟩
    · exact .settled hids
    · exact .fresh hnone hdraws hids
  | received env cycle same plain =>
    refine .settled ?_
    rw [finalIds_append, finalIds_of_plain plain, List.append_nil, finalIds_applyIncoming,
      same.listPubWaitAck, applyIncoming_listPubWaitAck]
    cases hpacket : incoming env.reads c with
    | puback packetId =>
      obtain ⟨hiter, hwaits⟩ := hacks env cycle packetId hpacket
      dsimp only
      rw [hiter, if_pos rfl, validIds_maskPubNodes]
      have hsettle := settle_subperm hwaits
      split
      · exact hsettle
      · exact (List.sublist_cons_self _ _).subperm.trans hsettle
    | _ => exact List.Subperm.refl _
  | pubScan iterOk clock isOp => exact .settled (pubInfoProc_settles iterOk clock c)
  | subScan iterOk clock isOp =>
    refine settleStep_of_same ?_ ?_
    all_goals unfold subInfoProc; split
    all_goals first | rfl | exact finalIds_subInfoScan _ _ _ _ _ _
  | setEventHandler isSet isOp => exact settleStep_of_same rfl rfl
  | resetRepeatBuffer isOp => exact settleStep_of_same rfl rfl

/-- No id is settled twice or settled while it waits, and every one was drawn. -/
structure Settled (start : ℕ) (c : Client) (log : List Event) : Prop where
  numbered : Numbered start c
  once : (finalIds log ++ validIds c.listPubWaitAck).Nodup
  drawn : ∀ id ∈ finalIds log ++ validIds c.listPubWaitAck,
    ∃ d, 1 ≤ d ∧ d ≤ c.draws ∧ id = packetId start d

theorem Settled.step (hstart : start ≤ maxPacketId) (h : Settled start c log) (op : Op)
    (hacks : PubackWaits c op) (hwrap : (exec op c).1.draws ≤ maxPacketId) :
    Settled start (exec op c).1 (log ++ (exec op c).2) := by
  have hmono := draws_mono op c
  refine ⟨h.numbered.step hstart (exec_keys op c), ?_, ?_⟩
  · rw [finalIds_append, List.append_assoc]
    rcases exec_settles op hacks with hids | ⟨hnone, hdraws, hids⟩
    · obtain ⟨ids, hperm, hsub⟩ := (List.subperm_append_left (finalIds log)).mpr hids
      exact hperm.nodup_iff.mp (hsub.nodup h.once)
    · rw [hnone, List.nil_append, hids, ← List.append_assoc]
      refine List.Nodup.append h.once (List.nodup_singleton _) ?_
      intro id hold hnew
      obtain ⟨d, hlow, hhigh, rfl⟩ := h.drawn id hold
      rw [List.mem_singleton, h.numbered.next hstart] at hnew
      have hsame : d = c.draws + 1 :=
        @cyclicId_inj_window _ _ _ _ 0 (by omega) (by omega) hnew
      omega
  · intro id hid
    rw [finalIds_append, List.append_assoc] at hid
    rcases exec_settles op hacks with hids | ⟨hnone, hdraws, hids⟩
    · have hold : id ∈ finalIds log ++ validIds c.listPubWaitAck :=
        (List.mem_append.mp hid).elim (List.mem_append_left _)
          fun hid => List.mem_append_right _ (hids.subset hid)
      obtain ⟨d, hlow, hhigh, heq⟩ := h.drawn id hold
      exact ⟨d, hlow, hhigh.trans hmono, heq⟩
    · rw [hnone, List.nil_append, hids, ← List.append_assoc] at hid
      rcases List.mem_append.mp hid with hold | hnew
      · obtain ⟨d, hlow, hhigh, heq⟩ := h.drawn id hold
        exact ⟨d, hlow, hhigh.trans hmono, heq⟩
      · rw [List.mem_singleton, h.numbered.next hstart] at hnew
        exact ⟨c.draws + 1, by omega, hdraws.ge, hnew⟩

end Steps

section Runs
variable {c : Client}

theorem draws_run_mono (ops : List Op) (c : Client) : c.draws ≤ (run exec ops c).1.draws := by
  induction ops generalizing c with
  | nil => exact le_rfl
  | cons op ops ih => exact (draws_mono op c).trans (ih _)

/-- The counter of a run that ends before it went round had not gone round before. -/
theorem along_unwrapped {ops : List Op} (hwrap : (run exec ops c).1.draws ≤ maxPacketId) :
    Along exec (fun c op => (exec op c).1.draws ≤ maxPacketId) ops c := by
  induction ops generalizing c with
  | nil => trivial
  | cons op ops ih => exact ⟨(draws_run_mono ops _).trans hwrap, ih hwrap⟩

/-- A success is raised by a PUBACK that carries its id. -/
theorem success_of_puback {op : Op} {packetId : ℕ}
    (h : Event.mqtt .publishSuccess packetId ∈ (exec op c).2) :
    ∃ env, op.cycle c = some env ∧ incoming env.reads c = .puback packetId := by
  have hnone : ∀ {events : List Event}, finalIds events = [] →
      Event.mqtt .publishSuccess packetId ∉ events := by
    intro events hnone hmem
    have hid : packetId ∈ finalIds events := List.mem_filterMap.mpr ⟨_, hmem, rfl⟩
    rw [hnone] at hid
    exact List.not_mem_nil hid
  have hstep := exec_session op c
  generalize (exec op c).1 = c' at hstep
  generalize (exec op c).2 = events at hstep h
  cases hstep with
  | same noReceipt same plain => exact absurd h (hnone (finalIds_of_plain plain))
  | requested noReceipt request plain => exact absurd h (hnone (finalIds_of_plain plain))
  | unsubscribed topicFilter env isOp nonempty short request plain =>
    refine absurd h (hnone ?_)
    rw [finalIds_append, finalIds_of_plain plain, removeEntries,
      finalIds_of_aboutSub (unsubscribeScan_aboutSub topicFilter _ _)]
    rfl
  | received env cycle same plain =>
    have hid :
        packetId ∈ finalIds ((applyIncoming env (incoming env.reads c) c).2 ++ ‹List Event›) :=
      List.mem_filterMap.mpr ⟨_, h, rfl⟩
    rw [finalIds_append, finalIds_of_plain plain, List.append_nil, finalIds_applyIncoming] at hid
    refine ⟨env, cycle, ?_⟩
    cases hpacket : incoming env.reads c with
    | puback id =>
      rw [hpacket] at hid
      dsimp only at hid
      split at hid
      · rw [List.mem_singleton.mp hid]
      · exact absurd hid List.not_mem_nil
    | _ =>
      rw [hpacket] at hid
      exact absurd hid List.not_mem_nil
  | pubScan iterOk clock isOp =>
    unfold pubInfoProc at h
    split at h
    · obtain ⟨node, -, -, hreport | hreport⟩ := pubInfoScan_events _ _ _ _ _ _ h
      · cases hreport
      · cases hreport
    · exact absurd h List.not_mem_nil
  | subScan iterOk clock isOp =>
    refine absurd h (hnone ?_)
    unfold subInfoProc
    split
    · exact finalIds_subInfoScan _ _ _ _ _ _
    · rfl
  | setEventHandler isSet isOp => exact absurd h List.not_mem_nil
  | resetRepeatBuffer isOp => exact absurd h List.not_mem_nil

/-- When every PUBACK that is handled carries an id that waits, every id has at most one
final event until the counter has gone round. -/
theorem one_final_event (random commandTimeout : ℕ) (eventHandle : Bool) (options : ConnectParams)
    (ops : List Op)
    (hacks : Along exec PubackWaits ops (Client.init random commandTimeout eventHandle options))
    (hwrap : (reached random commandTimeout eventHandle options ops).draws ≤ maxPacketId) :
    FinalOnce (Client.init random commandTimeout eventHandle options) ops := by
  constructor
  · have hinit : Settled (startId random)
        (Client.init random commandTimeout eventHandle options) [] :=
      ⟨numbered_init random commandTimeout eventHandle options, List.nodup_nil, by
        simp [validIds, Client.init]⟩
    have h := run_history (fun c log op h hop => h.step (startId_le random) op hop.1 hop.2) hinit
      (hacks.and (along_unwrapped hwrap))
    intro packetId
    exact List.nodup_iff_count_le_one.mp (List.Nodup.of_append_left h.once) packetId
  · rintro earlier op later rfl packetId hsuccess
    obtain ⟨env, hcycle, hpacket⟩ := success_of_puback hsuccess
    exact (hacks.at env hcycle packetId hpacket).2

/-- A publish that is acknowledged, and a walk that removes its node. -/
theorem one_final_event_sample :
    FinalOnce (Client.init 5 5000 true deviceOptions) (handshake [0x40, 2, 0, 7] ++
      [publishT (some []), .yieldRead (cycleWith [.deliver, .deliver, .deliver]) [],
        .pubInfoProc true fun _ => 9000]) :=
  one_final_event 5 5000 true deviceOptions _ (by decide) (by decide)

/-- A PUBACK for an id that was never used raises a success for it. -/
theorem unknown_puback_succeeds :
    ¬ ∀ (random commandTimeout : ℕ) (eventHandle : Bool) (options : ConnectParams) (ops : List Op),
      (reached random commandTimeout eventHandle options ops).draws ≤ maxPacketId →
      FinalOnce (Client.init random commandTimeout eventHandle options) ops := by
  intro hclaim
  have hwaits := (hclaim 5 5000 true deviceOptions (handshake [0x40, 2, 0, 9] ++
    [.yieldRead (cycleWith [.deliver, .deliver, .deliver]) []]) (by decide)).2
    (handshake [0x40, 2, 0, 9]) (.yieldRead (cycleWith [.deliver, .deliver, .deliver]) []) [] rfl 9
    (by decide)
  exact absurd hwaits (by decide)

end Runs

end IotExplorer.PublishEvents
