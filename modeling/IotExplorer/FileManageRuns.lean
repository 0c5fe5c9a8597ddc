import IotExplorer.FileManageClient

/-!
Runs of the client of the file management. What has been accepted since the last reset,
and what has been stored and released, is read from the events. As long as no message and
no call is one of those that the client does not take into account, a handle that has a
file to fetch has the values of the accepted message, and each string is released once or
still held.
-/
namespace IotExplorer.FileManageRuns

open Basis.Runs JsonParser JsonLookup TemplateJson DeviceProperty HttpClient FileManageClient

section Logs
variable {log events : List Event} {handle : Handle} {field field' : Field}

/-- What an event makes of the update that is accepted. -/
def noteAccepted (current : Option Announced) : Event → Option Announced
  | .accepted announced => some announced
  | .reset => none
  | _ => current

/-- The update that was accepted since the last reset. -/
def acceptedSince (log : List Event) : Option Announced := log.foldl noteAccepted none

def Event.storedIn (field : Field) : Event → Option (List UInt8)
  | .stored field' text => if field' = field then some text else none
  | _ => none

def Event.releasedFrom (field : Field) : Event → Option (List UInt8)
  | .released field' text => if field' = field then some text else none
  | _ => none

/-- Each string that was stored in a field has been released once, or is held. -/
def Ledger (handle : Handle) (log : List Event) : Prop :=
  ∀ field, log.filterMap (Event.storedIn field) =
    log.filterMap (Event.releasedFrom field) ++ (handle.get field).toList

/-- An event that has nothing to do with a download. -/
def Event.Aside (event : Event) : Prop :=
  (∀ current, noteAccepted current event = current) ∧
    ∀ field, Event.storedIn field event = none ∧ Event.releasedFrom field event = none

theorem acceptedSince_append (log events : List Event) :
    acceptedSince (log ++ events) = events.foldl noteAccepted (acceptedSince log) :=
  List.foldl_append

theorem foldl_noteAccepted (h : ∀ event ∈ events, ∀ current, noteAccepted current event = current)
    (current : Option Announced) : events.foldl noteAccepted current = current := by
  induction events generalizing current with
  | nil => rfl
  | cons event events ih =>
    rw [List.foldl_cons, h event (List.mem_cons_self ..)]
    exact ih (fun event' h' => h event' (List.mem_cons_of_mem event h')) current

theorem acceptedSince_aside (h : ∀ event ∈ events, Event.Aside event) :
    acceptedSince (log ++ events) = acceptedSince log := by
  rw [acceptedSince_append]
  exact foldl_noteAccepted (fun event hmem => (h event hmem).1) _

theorem get_set_self (handle : Handle) (value : Option (List UInt8)) (field : Field) :
    (handle.set value field).get field = value := by
  cases field <;> rfl

theorem get_set_other (handle : Handle) (value : Option (List UInt8)) (h : field' ≠ field) :
    (handle.set value field).get field' = handle.get field' := by
  cases field <;> cases field' <;> first | rfl | exact absurd rfl h

theorem Ledger.aside (h : Ledger handle log) {handle' : Handle}
    (hget : ∀ field, handle'.get field = handle.get field)
    (haside : ∀ event ∈ events, ∀ field, Event.storedIn field event = none ∧
      Event.releasedFrom field event = none) : Ledger handle' (log ++ events) := by
  intro field
  have hstored : events.filterMap (Event.storedIn field) = [] :=
    List.filterMap_eq_nil_iff.mpr fun event hmem => (haside event hmem field).1
  have hreleased : events.filterMap (Event.releasedFrom field) = [] :=
    List.filterMap_eq_nil_iff.mpr fun event hmem => (haside event hmem field).2
  rw [List.filterMap_append, List.filterMap_append, hstored, hreleased, List.append_nil,
    List.append_nil, hget field]
  exact h field

theorem Ledger.store (h : Ledger handle log) (hnone : handle.get field = none)
    (value : Option (List UInt8)) :
    Ledger (store field value handle).1 (log ++ (store field value handle).2) := by
  intro field'
  have hheld := h field'
  rw [FileManageClient.store, List.filterMap_append, List.filterMap_append, hheld]
  by_cases heq : field' = field
  · rw [heq, get_set_self, hnone]
    cases value <;> simp [Event.storedIn, Event.releasedFrom]
  · rw [get_set_other handle value heq]
    have hne : ¬field = field' := fun h' => heq h'.symm
    cases value <;> simp [Event.storedIn, Event.releasedFrom, List.filterMap_cons, hne]

theorem Ledger.release (h : Ledger handle log) (field : Field) :
    Ledger (release field handle).1 (log ++ (release field handle).2) := by
  intro field'
  have hheld := h field'
  rw [FileManageClient.release, List.filterMap_append, List.filterMap_append, hheld]
  by_cases heq : field' = field
  · rw [heq, get_set_self]
    cases handle.get field <;> simp [Event.storedIn, Event.releasedFrom, List.filterMap_cons]
  · rw [get_set_other handle none heq]
    have hne : ¬field = field' := fun h' => heq h'.symm
    cases handle.get field <;> simp [Event.storedIn, Event.releasedFrom, List.filterMap_cons, hne]

def Keeps (handle : Handle) (part : Handle → Handle × List Event) : Prop :=
  ∀ log, Ledger handle log → Ledger (part handle).1 (log ++ (part handle).2)

theorem Ledger.inOrder {parts : List (Handle → Handle × List Event)} (h : Ledger handle log)
    (hkeeps : Along (fun part => part) Keeps parts handle) :
    Ledger (inOrder parts handle).1 (log ++ (inOrder parts handle).2) :=
  run_history (fun _ _ _ hledger hkeeps => hkeeps _ hledger) h hkeeps

theorem keeps_release (field : Field) (handle : Handle) : Keeps handle (release field) :=
  fun _ h => h.release field

theorem keeps_store {value : Option (List UInt8)} (hnone : handle.get field = none) :
    Keeps handle (store field value) :=
  fun _ h => h.store hnone value

theorem keeps_reset (handle : Handle) : Keeps handle fun handle => (handle, [.reset]) := by
  intro log h field
  simpa [Event.storedIn, Event.releasedFrom, List.filterMap_cons] using h field

theorem Ledger.congr (h : Ledger handle log) {handle' : Handle}
    (hget : ∀ field, handle'.get field = handle.get field) : Ledger handle' log := by
  intro field
  rw [hget field]
  exact h field

end Logs

section Rights
variable {log events : List Event} {handle handle' : Handle}

/-- A handle has the values of an update; its digest is a string. -/
structure Carries (handle : Handle) (announced : Announced) : Prop where
  version : handle.version = some announced.version
  url : handle.url = some announced.url
  fileName : handle.fileName = some announced.fileName
  fileType : handle.fileType = some announced.fileType
  md5sum : ∃ rest, handle.md5sum = announced.md5sum ++ 0 :: rest

/-- A handle that has a file to fetch or has fetched it has the values of the update that was
accepted since the last reset, and a size; a file that is fetched is there as a whole; and each
string has been released once or is held. -/
structure HandleRight (handle : Handle) (log : List Event) : Prop where
  carries : handle.state = .fetching ∨ handle.state = .fetched →
    ∃ announced, acceptedSince log = some announced ∧ Carries handle announced
  sized : handle.state = .fetching ∨ handle.state = .fetched → 0 < handle.sizeFile
  fetched : handle.state = .fetched → handle.sizeFile ≤ handle.sizeFetched
  ledger : Ledger handle log

/-- Each string that was stored has been released once. -/
def Settled (log : List Event) : Prop :=
  ∀ field, log.filterMap (Event.storedIn field) = log.filterMap (Event.releasedFrom field)

/-- A message that the client takes into account: it does not refuse a version; an update or a
deletion finds no string in its place; and an update has a digest that fits and a size. -/
structure MeetsMessage (handle : Handle) (outside : Outside) (text : CString) : Prop where
  versionRsp : lookup outside.alloc (text.val ++ [0]) (ascii "method") =
      .ok (some (ascii "report_version_rsp")) →
    ∀ code, lookup outside.alloc (text.val ++ [0]) (ascii "result_code") = .ok code →
      code = some (ascii "0")
  update : lookup outside.alloc (text.val ++ [0]) (ascii "method") =
    .ok (some (ascii "update_resource")) →
    ∀ fields, updateFields outside.alloc (text.val ++ [0]) = .ok fields →
      (∀ field, handle.get field = none) ∧ ∀ announced fileSize,
        fields.announced = some (announced, fileSize) →
          announced.md5sum.length ≤ 32 ∧ atoi fileSize % 2 ^ 32 ≠ 0
  delete : lookup outside.alloc (text.val ++ [0]) (ascii "method") =
    .ok (some (ascii "del_resource")) →
    ∀ fields, deleteFields outside.alloc (text.val ++ [0]) = .ok fields →
      handle.version = none ∧ handle.fileType = none ∧ handle.fileName = none

/-- A step that the client takes into account: a message of that kind, if it is looked at, and a
download that does not start again before the end of a file that is fetched. -/
def Meets (handle : Handle) : Step → Prop
  | .message msgLen outside text =>
      ¬(handle.state = .fetching ∨ handle.state = .fetched ∨ handle.state = .deleting) →
        msgLen ≠ 0 →
        MeetsMessage handle outside text
  | .startDownload offset => handle.state = .fetched → handle.sizeFile ≤ offset % 2 ^ 32
  | _ => True

structure Inv (handle : Handle) (log : List Event) : Prop where
  right : HandleRight handle log
  initted : handle.state ≠ .uninitted

/-- A handle that has no file to fetch. -/
theorem inv_idle (hstate : handle.state = .initted ∨ handle.state = .deleting)
    (hledger : Ledger handle log) : Inv handle log := by
  have hloaded : ¬(handle.state = .fetching ∨ handle.state = .fetched) := by
    rcases hstate with hstate | hstate <;> rw [hstate] <;> decide
  refine ⟨⟨fun h => absurd h hloaded, fun h => absurd h hloaded, ?_, hledger⟩, ?_⟩
  · intro h
    exact absurd (Or.inr h) hloaded
  · rcases hstate with hstate | hstate <;> rw [hstate] <;> decide

theorem inv_init : Inv init [] := by
  apply inv_idle (Or.inl rfl)
  intro field
  cases field <;> rfl

/-- A step aside from the download. -/
theorem inv_aside (h : Inv handle log) (hstate : handle'.state = handle.state)
    (hget : ∀ field, handle'.get field = handle.get field)
    (hmd5sum : handle'.md5sum = handle.md5sum)
    (hsize : handle'.sizeFile = handle.sizeFile)
    (hfetched : handle'.sizeFetched = handle.sizeFetched)
    (haside : ∀ event ∈ events, Event.Aside event) : Inv handle' (log ++ events) := by
  refine ⟨⟨?_, ?_, ?_, ?_⟩, hstate ▸ h.initted⟩
  · intro hloaded
    rw [hstate] at hloaded
    obtain ⟨announced, haccepted, hcarries⟩ := h.right.carries hloaded
    refine ⟨announced, (acceptedSince_aside haside).trans haccepted, ?_⟩
    exact ⟨(hget .version).trans hcarries.version, (hget .url).trans hcarries.url,
      (hget .fileName).trans hcarries.fileName, (hget .fileType).trans hcarries.fileType,
      hmd5sum ▸ hcarries.md5sum⟩
  · rw [hstate, hsize]
    exact h.right.sized
  · rw [hstate, hsize, hfetched]
    exact h.right.fetched
  · exact h.right.ledger.aside hget fun event hmem => (haside event hmem).2

theorem inv_nil (h : Inv handle log) : Inv handle (log ++ []) := by
  rwa [List.append_nil]

theorem resetHandleStatus_state (handle : Handle) :
    (resetHandleStatus handle).1.state = .initted := rfl

theorem inv_reset (hledger : Ledger handle log) :
    Inv (resetHandleStatus handle).1 (log ++ (resetHandleStatus handle).2) := by
  apply inv_idle (Or.inl (resetHandleStatus_state handle))
  have hstart : Ledger { handle with state := .initted } log := hledger.congr fun field => by
    cases field <;> rfl
  apply hstart.inOrder
  exact ⟨keeps_release _ _, keeps_release _ _, keeps_release _ _, keeps_release _ _,
    keeps_reset _, trivial⟩

theorem report_cases (version : Option (List UInt8)) (reportType : ReportType) (memory : Bool)
    (handle : Handle) : fileManageReportUpgradeResult version reportType memory handle =
    (handle, []) ∨
      fileManageReportUpgradeResult version reportType memory handle =
        resetHandleStatus handle := by
  rw [fileManageReportUpgradeResult]
  cases version.or handle.version with
  | none => simp
  | some version =>
    dsimp only
    split_ifs <;> simp

theorem inv_report (version : Option (List UInt8)) (reportType : ReportType) (memory : Bool)
    (h : Inv handle log) : Inv (fileManageReportUpgradeResult version reportType memory handle).1
      (log ++ (fileManageReportUpgradeResult version reportType memory handle).2) := by
  rcases report_cases version reportType memory handle with hreport | hreport
  · rw [hreport]
    exact inv_nil h
  · rw [hreport]
    exact inv_reset h.right.ledger

theorem inOrder_concat (parts : List (Handle → Handle × List Event))
    (part : Handle → Handle × List Event) (handle : Handle) :
    inOrder (parts ++ [part]) handle = ((part (inOrder parts handle).1).1,
      (inOrder parts handle).2 ++ (part (inOrder parts handle).1).2) := by
  rw [inOrder, inOrder, run_append, run_cons, run_nil, List.append_nil]

end Rights

section Steps
variable {log : List Event} {handle : Handle} {outside : Outside}

theorem strncpy_ends {text : List UInt8} (h : text.length ≤ 32) :
    ∃ rest, strncpy text 33 = text ++ 0 :: rest := by
  refine ⟨List.replicate (32 - text.length) 0, ?_⟩
  have hlen : 33 - text.length = 32 - text.length + 1 := by omega
  rw [strncpy, List.take_of_length_le (by omega), hlen, List.replicate_succ]

theorem announced_fields {fields : UpdateFields} {announced : Announced} {fileSize : List UInt8}
    (h : fields.announced = some (announced, fileSize)) :
    fields.version = some announced.version ∧ fields.url = some announced.url ∧
      fields.fileName = some announced.fileName ∧ fields.fileType = some announced.fileType := by
  obtain ⟨version, url, fileName, fileType, md5sum, size⟩ := fields
  simp only [UpdateFields.announced, Option.bind_eq_bind, Option.bind_eq_some_iff] at h
  obtain ⟨version', rfl, url', rfl, fileName', rfl, fileType', rfl, md5sum', -, size', -, hsome⟩ :=
    h
  cases hsome
  exact ⟨rfl, rfl, rfl, rfl⟩

def updateStores (fields : UpdateFields) : List (Handle → Handle × List Event) :=
  [store .version fields.version, store .url fields.url, store .fileName fields.fileName,
    store .fileType fields.fileType]

def deleteStores (fields : DeleteFields) : List (Handle → Handle × List Event) :=
  [store .version fields.version, store .fileType fields.fileType, store .fileName fields.fileName]

theorem updateStores_ledger (h : Ledger handle log) (hnone : ∀ field, handle.get field = none)
    (fields : UpdateFields) : Ledger (inOrder (updateStores fields) handle).1
      (log ++ (inOrder (updateStores fields) handle).2) := by
  apply h.inOrder
  exact ⟨keeps_store (hnone .version), keeps_store (hnone .url), keeps_store (hnone .fileName),
    keeps_store (hnone .fileType), trivial⟩

theorem deleteStores_ledger (h : Ledger handle log) (hversion : handle.version = none)
    (hfileType : handle.fileType = none) (hfileName : handle.fileName = none)
    (fields : DeleteFields) :
    Ledger (inOrder (deleteStores fields) handle).1
      (log ++ (inOrder (deleteStores fields) handle).2) := by
  apply h.inOrder
  exact ⟨keeps_store hversion, keeps_store hfileType, keeps_store hfileName, trivial⟩

theorem inv_update {fields : UpdateFields} (h : Inv handle log) (hstate : handle.state = .initted)
    (hnone : ∀ field, handle.get field = none)
    (hmeets : ∀ announced fileSize, fields.announced = some (announced, fileSize) →
      announced.md5sum.length ≤ 32 ∧ atoi fileSize % 2 ^ 32 ≠ 0) :
    Inv (updateResource fields outside handle).1
      (log ++ (updateResource fields outside handle).2) := by
  have hledger := updateStores_ledger h.right.ledger hnone fields
  rw [show updateResource fields outside handle = inOrder (updateStores fields ++ [_])
    handle from rfl, inOrder_concat, ← List.append_assoc]
  cases hannounced : fields.announced with
  | none =>
    dsimp only
    apply inv_report
    exact inv_idle (Or.inl hstate) hledger
  | some announced =>
    obtain ⟨announced, fileSize⟩ := announced
    obtain ⟨hmd5sum, hsize⟩ := hmeets announced fileSize hannounced
    obtain ⟨hversion, hurl, hfileName, hfileType⟩ := announced_fields hannounced
    have hpos : 0 < (atoi fileSize % 2 ^ 32).toNat := by omega
    dsimp only
    refine ⟨⟨fun _ => ⟨announced, ?_, ?_⟩, fun _ => hpos, ?_, ?_⟩, ?_⟩
    · rw [acceptedSince_append]
      rfl
    · exact ⟨hversion, hurl, hfileName, hfileType, strncpy_ends hmd5sum⟩
    · intro hfetched
      cases hfetched
    · apply Ledger.aside hledger
      · intro field
        cases field <;> rfl
      · intro event hmem field
        rw [List.mem_singleton.mp hmem]
        exact ⟨rfl, rfl⟩
    · intro hinitted
      cases hinitted

theorem inv_delete {fields : DeleteFields} (h : Inv handle log) (hversion : handle.version = none)
    (hfileType : handle.fileType = none) (hfileName : handle.fileName = none) :
    Inv (deleteResource fields outside handle).1
      (log ++ (deleteResource fields outside handle).2) := by
  have hstart : Ledger { handle with state := .deleting } log :=
    h.right.ledger.congr fun field => by
    cases field <;> rfl
  have hledger := deleteStores_ledger hstart hversion hfileType hfileName fields
  rw [show deleteResource fields outside handle =
      inOrder (deleteStores fields ++ [_]) { handle with state := .deleting } from rfl,
    inOrder_concat, ← List.append_assoc]
  apply inv_report
  exact inv_idle (Or.inr rfl) hledger

/-- What a lookup removes are entries that have expired. -/
theorem getInfoByRequestId_removed (now : ℕ) (requestId : ℤ) (infos : List FilePostInfo) :
    ∀ event ∈ (getInfoByRequestId now requestId infos).2.2, ∃ info, event = .expired info := by
  induction infos with
  | nil =>
    intro event hmem
    exact absurd hmem List.not_mem_nil
  | cons info infos ih =>
    intro event hmem
    rw [getInfoByRequestId] at hmem
    split_ifs at hmem
    · exact absurd hmem List.not_mem_nil
    · rcases List.mem_cons.mp hmem with hhead | htail
      · exact ⟨info, hhead⟩
      · exact ih event htail
    · exact ih event hmem

/-- An event that is about the files that wait. -/
theorem aside_post {event : Event} (h : (∃ info, event = .expired info) ∨ event = .fault ∨
    (∃ info, event = .handled info) ∨ (∃ requestId, event = .posted requestId) ∨
    (∃ requestId, event = .reported requestId) ∨
    ∃ requestId field, event = .releasedPost requestId field) : Event.Aside event := by
  rcases h with ⟨_, rfl⟩ | rfl | ⟨_, rfl⟩ | ⟨_, rfl⟩ | ⟨_, rfl⟩ | ⟨_, _, rfl⟩ <;>
    exact ⟨fun _ => rfl, fun _ => ⟨rfl, rfl⟩⟩

theorem mem_report {success memory sent : Bool} {token : List UInt8} {requestId : ℤ} {event : Event}
    (hmem : event ∈ fileManageReportPostResult success memory sent token requestId handle) :
    event = .reported requestId := by
  rw [fileManageReportPostResult] at hmem
  split_ifs at hmem
  · exact List.mem_singleton.mp hmem
  · exact absurd hmem List.not_mem_nil

/-- The part for a URL changes the files that wait, and nothing else. -/
theorem requestUrlResp_aside (fields : Except Overrun (Option (List UInt8 × List UInt8)))
    (requestId : ℤ)
    (outside : Outside) (handle : Handle) :
    (∃ infos, (requestUrlResp fields requestId outside handle).1 =
      { handle with fileWaitPostList := infos }) ∧
        ∀ event ∈ (requestUrlResp fields requestId outside handle).2, Event.Aside event := by
  have hremoved := getInfoByRequestId_removed handle.now requestId handle.fileWaitPostList.reverse
  rw [requestUrlResp]
  split_ifs
  · exact ⟨⟨handle.fileWaitPostList, rfl⟩, fun event hmem => absurd hmem List.not_mem_nil⟩
  · rcases hlookup : getInfoByRequestId handle.now requestId handle.fileWaitPostList.reverse with
      ⟨found, left, removed⟩
    rw [hlookup] at hremoved
    dsimp only at hremoved ⊢
    have haside : ∀ event ∈ removed, Event.Aside event := fun event hmem =>
      aside_post (Or.inl (hremoved event hmem))
    cases found with
    | none => exact ⟨⟨_, rfl⟩, haside⟩
    | some info =>
      rcases fields with _ | _ | ⟨token, url⟩
      · refine ⟨⟨_, rfl⟩, fun event hmem => ?_⟩
        rcases List.mem_append.mp hmem with hmem | hmem
        · exact haside event hmem
        · exact aside_post (Or.inr (Or.inl (List.mem_singleton.mp hmem)))
      · exact ⟨⟨_, rfl⟩, haside⟩
      · refine ⟨⟨_, rfl⟩, fun event hmem => ?_⟩
        rcases List.mem_append.mp hmem with hmem | hmem
        · exact haside event hmem
        · apply aside_post
          rcases List.mem_cons.mp hmem with rfl | hmem
          · simp
          · rcases List.mem_append.mp hmem with hmem | hmem
            · simp [mem_report hmem]
            · simp only [List.mem_cons, List.not_mem_nil, or_false] at hmem
              rcases hmem with rfl | rfl | rfl <;> simp

theorem inv_requestUrlResp (fields : Except Overrun (Option (List UInt8 × List UInt8)))
    (requestId : ℤ)
    (h : Inv handle log) : Inv (requestUrlResp fields requestId outside handle).1
      (log ++ (requestUrlResp fields requestId outside handle).2) := by
  obtain ⟨⟨infos, hhandle⟩, haside⟩ := requestUrlResp_aside fields requestId outside handle
  rw [hhandle]
  exact inv_aside h rfl (fun field => by cases field <;> rfl) rfl rfl rfl haside

theorem inv_fault (h : Inv handle log) : Inv handle (log ++ [.fault]) := by
  apply inv_aside h rfl (fun _ => rfl) rfl rfl rfl
  intro event hmem
  exact aside_post (Or.inr (Or.inl (List.mem_singleton.mp hmem)))

/-- A message that is taken into account keeps what a run keeps. -/
theorem inv_message {msgLen : ℕ} {text : CString} (h : Inv handle log)
    (hmeets : Meets handle (.message msgLen outside text)) :
    Inv (fileManageMsgCallback msgLen outside text handle).1
      (log ++ (fileManageMsgCallback msgLen outside text handle).2) := by
  rw [fileManageMsgCallback]
  by_cases hbusy : handle.state = .fetching ∨ handle.state = .fetched ∨ handle.state = .deleting
  · rw [if_pos hbusy]
    exact inv_nil h
  rw [if_neg hbusy]
  by_cases hlen : msgLen = 0
  · rw [if_pos hlen]
    exact inv_nil h
  rw [if_neg hlen]
  have hmessage := hmeets hbusy hlen
  have hstate : handle.state = .initted := by
    have hinitted := h.initted
    cases hs : handle.state <;> simp_all
  cases hmethod : lookup outside.alloc (text.val ++ [0]) (ascii "method") with
  | error _ => exact inv_fault h
  | ok method =>
    cases method with
    | none => exact inv_nil h
    | some method =>
      dsimp only
      split_ifs with hversion hupdate hdelete hurl
      · rw [hversion] at hmethod
        cases hcode : lookup outside.alloc (text.val ++ [0]) (ascii "result_code") with
        | error _ => exact inv_fault h
        | ok code =>
          dsimp only
          rw [if_pos (hmessage.versionRsp hmethod code hcode)]
          exact inv_nil h
      · rw [hupdate] at hmethod
        cases hfields : updateFields outside.alloc (text.val ++ [0]) with
        | error _ => exact inv_fault h
        | ok fields =>
          obtain ⟨hnone, hannounced⟩ := hmessage.update hmethod fields hfields
          exact inv_update h hstate hnone hannounced
      · rw [hdelete] at hmethod
        cases hfields : deleteFields outside.alloc (text.val ++ [0]) with
        | error _ => exact inv_fault h
        | ok fields =>
          obtain ⟨hversion, hfileType, hfileName⟩ := hmessage.delete hmethod fields hfields
          exact inv_delete h hversion hfileType hfileName
      · cases lookup outside.alloc (text.val ++ [0]) (ascii "request_id") with
        | error _ => exact inv_fault h
        | ok requestId =>
          cases requestId with
          | none => exact inv_nil h
          | some requestId => exact inv_requestUrlResp _ _ h
      · exact inv_nil h

theorem inv_fetchYield {result : FetchResult} {memory : Bool} (h : Inv handle log) :
    Inv (fetchYield result memory handle).1 (log ++ (fetchYield result memory handle).2) := by
  by_cases hfetching : handle.state = .fetching
  · rw [fetchYield.eq_def, if_neg (not_not.mpr hfetching)]
    cases result with
    | authFail => exact inv_report _ _ _ h
    | notExist => exact inv_report _ _ _ h
    | failed => exact inv_nil h
    | fetched size =>
      have hloaded : handle.state = .fetching ∨ handle.state = .fetched := Or.inl hfetching
      obtain ⟨announced, haccepted, hcarries⟩ := h.right.carries hloaded
      have hsized := h.right.sized hloaded
      dsimp only
      rw [if_neg (by omega)]
      have haside : ∀ event ∈ [Event.percent (fetchPercent ((handle.sizeFetched + size) % 2 ^ 32)
          handle.sizeFile)], Event.Aside event := by
        intro event hmem
        rw [List.mem_singleton.mp hmem]
        exact ⟨fun _ => rfl, fun _ => ⟨rfl, rfl⟩⟩
      refine ⟨⟨fun _ => ⟨announced, (acceptedSince_aside haside).trans haccepted, ?_⟩,
        fun _ => hsized, ?_, ?_⟩, ?_⟩
      · exact ⟨hcarries.version, hcarries.url, hcarries.fileName, hcarries.fileType,
          hcarries.md5sum⟩
      · dsimp only
        split_ifs with hwhole
        · exact fun _ => hwhole
        · intro hfetched
          cases hfetched
      · exact h.right.ledger.aside (fun field => by cases field <;> rfl)
          fun event hmem => (haside event hmem).2
      · dsimp only
        split_ifs <;> decide
  · rw [fetchYield.eq_def, if_pos hfetching]
    exact inv_nil h

theorem inv_startDownload {offset : ℕ} (h : Inv handle log)
    (hmeets : Meets handle (.startDownload offset)) : Inv (startDownload offset handle) log := by
  refine ⟨⟨fun hloaded => ?_, h.right.sized, hmeets, h.right.ledger.congr fun field => by
    cases field <;> rfl⟩, h.initted⟩
  obtain ⟨announced, haccepted, hcarries⟩ := h.right.carries hloaded
  exact ⟨announced, haccepted, hcarries.version, hcarries.url, hcarries.fileName, hcarries.fileType,
    hcarries.md5sum⟩

theorem inv_postRequest {timeoutMs : ℕ} {fileName fileVersion fileType : List UInt8}
    {outcome : PostOutcome} (h : Inv handle log) :
    Inv (postRequest timeoutMs fileName fileVersion fileType outcome handle).1
      (log ++ (postRequest timeoutMs fileName fileVersion fileType outcome handle).2) := by
  have hget : ∀ (requestId : ℤ) (infos : List FilePostInfo) (field : Field),
      Handle.get { handle with requestId := requestId, fileWaitPostList := infos } field =
        handle.get field := by
    intro requestId infos field
    cases field <;> rfl
  rw [postRequest]
  dsimp only
  split_ifs
  · refine inv_aside h rfl (fun field => hget _ _ field) rfl rfl rfl ?_
    intro event hmem
    rw [List.mem_singleton.mp hmem]
    exact ⟨fun _ => rfl, fun _ => ⟨rfl, rfl⟩⟩
  all_goals
    refine inv_aside h rfl (fun field => hget _ _ field) rfl rfl rfl ?_
    intro event hmem
    simp only [List.mem_cons, List.not_mem_nil, or_false] at hmem
    rcases hmem with rfl | rfl <;> exact ⟨fun _ => rfl, fun _ => ⟨rfl, rfl⟩⟩

/-- A step keeps what a run keeps. -/
theorem inv_step (handle : Handle) (log : List Event) (s : Step) (h : Inv handle log)
    (hmeets : Meets handle s) : Inv (step s handle).1 (log ++ (step s handle).2) := by
  cases s with
  | message msgLen outside text => exact inv_message h hmeets
  | reportVersion =>
    rw [step, reportVersion, if_neg h.initted]
    exact inv_reset h.right.ledger
  | reportUpgradeResult version reportType memory => exact inv_report version reportType memory h
  | startDownload offset => exact inv_nil (inv_startDownload h hmeets)
  | fetchYield result memory => exact inv_fetchYield h
  | checkFirmware wellPlaced right memory =>
    rw [step, checkFirmware]
    split_ifs
    · exact inv_nil h
    · exact inv_report _ _ _ h
  | postRequest timeoutMs fileName fileVersion fileType outcome => exact inv_postRequest h
  | tick ms =>
    refine inv_aside h rfl (fun field => ?_) rfl rfl rfl fun event hmem =>
      absurd hmem List.not_mem_nil
    cases field <;> rfl

/-- What is held when a handle is destroyed is released. -/
theorem settled_destroy (h : Inv handle log) : Settled (log ++ (destroy handle).2) := by
  have hstart : Ledger { handle with state := .uninitted } log :=
    h.right.ledger.congr fun field => by
    cases field <;> rfl
  have hkeeps : Along (fun part => part) Keeps
      [release .url, release .version, release .fileName, release .fileType]
      { handle with state := .uninitted } :=
    ⟨keeps_release _ _, keeps_release _ _, keeps_release _ _, keeps_release _ _, trivial⟩
  have hledger := hstart.inOrder hkeeps
  intro field
  rw [destroy, if_neg h.initted]
  refine (hledger field).trans ?_
  have hnone : Handle.get
      (inOrder [release .url, release .version, release .fileName, release .fileType]
      { handle with state := .uninitted }).1 field = none := by
    cases field <;> rfl
  rw [hnone, Option.toList_none, List.append_nil]

/-- In a run of messages and calls that the client takes into account, a handle stays right, and
when it is destroyed each string has been released once. -/
theorem run_handleRight (steps : List Step) (hmeets : Along step Meets steps init) :
    HandleRight (run step steps init).1 (run step steps init).2 ∧
      Settled ((run step steps init).2 ++ (destroy (run step steps init).1).2) := by
  have hinv := run_history inv_step inv_init hmeets
  rw [List.nil_append] at hinv
  exact ⟨hinv.right, settled_destroy hinv⟩

def generous : Outside := ⟨fun _ => true, true, true, true, true⟩

def updateText : CString :=
  ⟨ascii "\x7b\"method\":\"update_" ++
    (ascii "resource\",\"version\":" ++ (ascii "\"1\",\"url\":\"u\"," ++
    (ascii "\"resource_name\":\"n\"," ++ (ascii "\"resource_type\":\"t\"," ++
      (ascii "\"md5sum\":\"m\"," ++ ascii "\"file_size\":\"5\"\x7d"))))), by decide +kernel⟩

def refusedText : CString :=
  ⟨ascii "\x7b\"method\":\"report_" ++
    (ascii "version_rsp\"," ++ ascii "\"result_code\":\"1\"\x7d"), by decide +kernel⟩

theorem run_handleRight_update :
    HandleRight (run step [.message 1 generous updateText, .fetchYield (.fetched 5) true,
      .reportUpgradeResult none .upgradeSuccess true] init).1
        (run step [.message 1 generous updateText, .fetchYield (.fetched 5) true,
          .reportUpgradeResult none .upgradeSuccess true] init).2 ∧
      Settled ((run step [.message 1 generous updateText, .fetchYield (.fetched 5) true,
        .reportUpgradeResult none .upgradeSuccess true] init).2 ++
          (destroy (run step [.message 1 generous updateText, .fetchYield (.fetched 5) true,
            .reportUpgradeResult none .upgradeSuccess true] init).1).2) := by
  have hmethod : lookup generous.alloc (updateText.val ++ [0]) (ascii "method") =
      .ok (some (ascii "update_resource")) := by decide +kernel
  have hfields : updateFields generous.alloc (updateText.val ++ [0]) =
      .ok ⟨some (ascii "1"), some (ascii "u"), some (ascii "n"), some (ascii "t"), some (ascii "m"),
        some (ascii "5")⟩ := by decide +kernel
  apply run_handleRight
  refine ⟨fun _ _ => ⟨fun h => ?_, fun _ fields h => ?_, fun h => ?_⟩, trivial, trivial, trivial⟩
  · rw [hmethod] at h
    exact absurd h (by decide +kernel)
  · rw [hfields] at h
    cases h
    refine ⟨fun field => by cases field <;> rfl, fun announced fileSize hannounced => ?_⟩
    cases hannounced
    exact ⟨by decide, by decide +kernel⟩
  · rw [hmethod] at h
    exact absurd h (by decide +kernel)

/-- Behind a refused version there is nothing that is fetched, but the state says so. -/
theorem run_handleRight_refused : ¬ ∀ steps : List Step,
    HandleRight (run step steps init).1 (run step steps init).2 ∧
      Settled ((run step steps init).2 ++ (destroy (run step steps init).1).2) := by
  intro hall
  have hrun : (run step [.message 1 generous refusedText] init).1.state = .fetched ∧
      acceptedSince (run step [.message 1 generous refusedText] init).2 = none := by decide +kernel
  obtain ⟨announced, haccepted, -⟩ := (hall _).1.carries (Or.inr hrun.1)
  rw [hrun.2] at haccepted
  cases haccepted

end Steps

end IotExplorer.FileManageRuns
