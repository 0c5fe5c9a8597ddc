import Mathlib.Data.List.Nodup
import IotExplorer.FileManageRuns

/-!
The files that wait for a post. Every entry that was appended waits or has left once,
under an id of its own. A lookup that removes an entry forgets its strings and a handled
response forgets one of them, so that requests and responses are right as long as no
entry leaves and no request fails behind the append.
-/
namespace IotExplorer.FilePosts

open Basis.Runs JsonParser JsonLookup TemplateJson DeviceProperty HttpClient FileManageClient

section Entries

def appendedInfo : Event → Option FilePostInfo
  | .appended info => some info
  | _ => none

def leftInfo : Event → Option FilePostInfo
  | .expired info => some info
  | .handled info => some info
  | _ => none

/-- Every entry that was appended has left once or waits, and no two have the same id. -/
structure Accounted (handle : Handle) (log : List Event) : Prop where
  perm : (log.filterMap appendedInfo).Perm (log.filterMap leftInfo ++ handle.fileWaitPostList)
  ids : ((log.filterMap appendedInfo).map fun info => info.requestId).Nodup
  below : ∀ info ∈ log.filterMap appendedInfo, info.requestId ≤ handle.requestId

/-- An entry leaves as its response is handled, its file is posted once and the result is reported
once, or as its timer has expired; and its strings are released. -/
structure LeavesRight (handle : Handle) (info : FilePostInfo) (events : List Event) : Prop where
  reason : (.handled info ∈ events ∧ events.count (.posted info.requestId) = 1 ∧
      events.count (.reported info.requestId) = 1) ∨
        (.expired info ∈ events ∧ info.deadline ≤ handle.now)
  released : ∀ field, events.count (.releasedPost info.requestId field) = 1

/-- A step is right when a request that returns an id has appended its entry, a request that fails
leaves the list as it was, and each entry that leaves does so for a reason and with its strings. -/
structure StepRight (handle : Handle) (s : Step) : Prop where
  requested : ∀ requestId, .requested requestId ∈ (step s handle).2 →
    ∃ info, info.requestId = requestId ∧
    (step s handle).1.fileWaitPostList = handle.fileWaitPostList ++ [info]
  refused : .refused ∈ (step s handle).2 →
    (step s handle).1.fileWaitPostList = handle.fileWaitPostList
  leaves : ∀ info ∈ handle.fileWaitPostList, info ∉ (step s handle).1.fileWaitPostList →
    LeavesRight handle info (step s handle).2

/-- A response for an id that is looked at. -/
structure Response (handle : Handle) (msgLen : ℕ) (outside : Outside) (text : CString)
    (requestId : ℤ) :
    Prop where
  idle : ¬(handle.state = .fetching ∨ handle.state = .fetched ∨ handle.state = .deleting)
  length : msgLen ≠ 0
  method : lookup outside.alloc (text.val ++ [0]) (ascii "method") =
    .ok (some (ascii "request_url_resp"))
  requestId : ∃ id, lookup outside.alloc (text.val ++ [0]) (ascii "request_id") = .ok (some id) ∧
    atoi id = requestId
  memory : handle.fileWaitPostList.length = 0 ∨ outside.memory = true

/-- A step behind which nothing is forgotten: a request does not fail once its entry is appended;
and a response that is looked at meets no expired entry on its way to the one of its id, and if
there is one lacks the token or the URL. -/
def Meets (handle : Handle) : Step → Prop
  | .postRequest timeoutMs fileName fileVersion fileType outcome =>
      handle.fileWaitPostList.length < maxFileWaitPost → outcome.node = true →
        outcome.memory = true ∧ outcome.sent = true ∧
          (requestUrlText ⟨handle.requestId + 1, fileName, fileVersion, fileType,
            handle.now + timeoutMs⟩
            (postName fileName)).length < msgReportLen
  | .message msgLen outside text => ∀ requestId, Response handle msgLen outside text requestId →
      (∀ info ∈ handle.fileWaitPostList.reverse.takeWhile fun info => info.requestId ≠ requestId,
        handle.now < info.deadline) ∧
      ((∃ info ∈ handle.fileWaitPostList, info.requestId = requestId) →
        ∀ token url, responseFields outside.alloc (text.val ++ [0]) ≠ .ok (some (token, url)))
  | _ => True

end Entries

section Elsewhere
variable {handle : Handle} {log : List Event}

def aboutPost : Event → Bool
  | .appended _ | .posted _ | .reported _ | .expired _ | .handled _ | .releasedPost _ _ |
    .requested _
  | .refused => true
  | _ => false

/-- A part of a step that has nothing to do with the files that wait. -/
structure Elsewhere (handle : Handle) (result : Handle × List Event) : Prop where
  list : result.1.fileWaitPostList = handle.fileWaitPostList
  requestId : result.1.requestId = handle.requestId
  events : ∀ event ∈ result.2, aboutPost event = false

theorem elsewhere_nil (handle : Handle) : Elsewhere handle (handle, []) :=
  ⟨rfl, rfl, fun _ hmem => absurd hmem List.not_mem_nil⟩

theorem elsewhere_fault (handle : Handle) : Elsewhere handle (handle, [.fault]) := by
  refine ⟨rfl, rfl, fun event hmem => ?_⟩
  rw [List.mem_singleton.mp hmem]
  rfl

theorem elsewhere_set (handle : Handle) (value : Option (List UInt8)) (field : Field) :
    (handle.set value field).fileWaitPostList = handle.fileWaitPostList ∧
      (handle.set value field).requestId = handle.requestId := by
  cases field <;> exact ⟨rfl, rfl⟩

theorem elsewhere_store (field : Field) (value : Option (List UInt8)) (handle : Handle) :
    Elsewhere handle (store field value handle) := by
  obtain ⟨hlist, hid⟩ := elsewhere_set handle value field
  refine ⟨hlist, hid, fun event hmem => ?_⟩
  rw [store, Option.mem_toList, Option.map_eq_some_iff] at hmem
  obtain ⟨text, -, rfl⟩ := hmem
  rfl

theorem elsewhere_release (field : Field) (handle : Handle) :
    Elsewhere handle (release field handle) := by
  obtain ⟨hlist, hid⟩ := elsewhere_set handle none field
  refine ⟨hlist, hid, fun event hmem => ?_⟩
  rw [release, Option.mem_toList, Option.map_eq_some_iff] at hmem
  obtain ⟨text, -, rfl⟩ := hmem
  rfl

theorem elsewhere_inOrder {parts : List (Handle → Handle × List Event)}
    (h : ∀ part ∈ parts, ∀ handle, Elsewhere handle (part handle)) (handle : Handle) :
    Elsewhere handle (inOrder parts handle) := by
  induction parts generalizing handle with
  | nil => exact elsewhere_nil handle
  | cons part parts ih =>
    have hfirst := h part (List.mem_cons_self ..) handle
    have hrest := ih (fun part' hmem => h part' (List.mem_cons_of_mem part hmem)) (part handle).1
    refine ⟨hrest.list.trans hfirst.list, hrest.requestId.trans hfirst.requestId,
      fun event hmem => ?_⟩
    rcases List.mem_append.mp hmem with hmem | hmem
    · exact hfirst.events event hmem
    · exact hrest.events event hmem

theorem elsewhere_of_eq {handle' : Handle} {result : Handle × List Event}
    (h : Elsewhere handle' result) (hlist : handle'.fileWaitPostList = handle.fileWaitPostList)
    (hid : handle'.requestId = handle.requestId) : Elsewhere handle result :=
  ⟨h.list.trans hlist, h.requestId.trans hid, h.events⟩

theorem elsewhere_reset (handle : Handle) : Elsewhere handle (resetHandleStatus handle) := by
  have hparts : ∀ part ∈ [release .url, release .version, release .fileName, release .fileType,
      fun handle => (handle, [.reset])], ∀ handle, Elsewhere handle (part handle) := by
    intro part hmem handle
    simp only [List.mem_cons, List.not_mem_nil, or_false] at hmem
    rcases hmem with rfl | rfl | rfl | rfl | rfl
    · exact elsewhere_release _ handle
    · exact elsewhere_release _ handle
    · exact elsewhere_release _ handle
    · exact elsewhere_release _ handle
    · refine ⟨rfl, rfl, fun event hmem => ?_⟩
      rw [List.mem_singleton.mp hmem]
      rfl
  exact elsewhere_of_eq (elsewhere_inOrder hparts _) rfl rfl

theorem elsewhere_report (version : Option (List UInt8)) (reportType : ReportType) (memory : Bool)
    (handle : Handle) :
    Elsewhere handle (fileManageReportUpgradeResult version reportType memory handle) := by
  rcases FileManageRuns.report_cases version reportType memory handle with hreport | hreport
  · rw [hreport]
    exact elsewhere_nil handle
  · rw [hreport]
    exact elsewhere_reset handle

theorem elsewhere_update (fields : UpdateFields) (outside : Outside) (handle : Handle) :
    Elsewhere handle (updateResource fields outside handle) := by
  apply elsewhere_inOrder
  intro part hmem handle
  simp only [List.mem_cons, List.not_mem_nil, or_false] at hmem
  rcases hmem with rfl | rfl | rfl | rfl | rfl
  · exact elsewhere_store _ _ handle
  · exact elsewhere_store _ _ handle
  · exact elsewhere_store _ _ handle
  · exact elsewhere_store _ _ handle
  · cases fields.announced with
    | none => exact elsewhere_report _ _ _ handle
    | some announced =>
      refine ⟨rfl, rfl, fun event hmem => ?_⟩
      rw [List.mem_singleton.mp hmem]
      rfl

theorem elsewhere_delete (fields : DeleteFields) (outside : Outside) (handle : Handle) :
    Elsewhere handle (deleteResource fields outside handle) := by
  refine elsewhere_of_eq (elsewhere_inOrder ?_ _) rfl rfl
  intro part hmem handle
  simp only [List.mem_cons, List.not_mem_nil, or_false] at hmem
  rcases hmem with rfl | rfl | rfl | rfl
  · exact elsewhere_store _ _ handle
  · exact elsewhere_store _ _ handle
  · exact elsewhere_store _ _ handle
  · exact elsewhere_report _ _ _ handle

theorem elsewhere_fetchYield (result : FetchResult) (memory : Bool) (handle : Handle) :
    Elsewhere handle (fetchYield result memory handle) := by
  rw [fetchYield.eq_def]
  by_cases hstate : handle.state ≠ .fetching
  · rw [if_pos hstate]
    exact elsewhere_nil handle
  · rw [if_neg hstate]
    cases result with
    | authFail => exact elsewhere_report _ _ _ handle
    | notExist => exact elsewhere_report _ _ _ handle
    | failed => exact elsewhere_nil handle
    | fetched size =>
      dsimp only
      split_ifs <;>
        · refine ⟨rfl, rfl, fun event hmem => ?_⟩
          rw [List.mem_singleton.mp hmem]
          rfl

/-- A message is elsewhere, or it is a response that is looked at. -/
theorem message_cases (msgLen : ℕ) (outside : Outside) (text : CString) (handle : Handle) :
    (Elsewhere handle (fileManageMsgCallback msgLen outside text handle) ∧
      ∀ requestId, ¬Response handle msgLen outside text requestId) ∨
    ∃ requestId, Response handle msgLen outside text requestId ∧
      fileManageMsgCallback msgLen outside text handle =
        requestUrlResp (responseFields outside.alloc (text.val ++ [0])) requestId outside
          handle := by
  rw [fileManageMsgCallback]
  by_cases hbusy : handle.state = .fetching ∨ handle.state = .fetched ∨ handle.state = .deleting
  · rw [if_pos hbusy]
    exact Or.inl ⟨elsewhere_nil handle, fun _ h => h.idle hbusy⟩
  rw [if_neg hbusy]
  by_cases hlen : msgLen = 0
  · rw [if_pos hlen]
    exact Or.inl ⟨elsewhere_nil handle, fun _ h => h.length hlen⟩
  rw [if_neg hlen]
  have hother : ∀ result, lookup outside.alloc (text.val ++ [0]) (ascii "method") = result →
      result ≠ .ok (some (ascii "request_url_resp")) →
        ∀ requestId, ¬Response handle msgLen outside text requestId := by
    intro result hresult hne requestId h
    exact hne (hresult.symm.trans h.method)
  cases hmethod : lookup outside.alloc (text.val ++ [0]) (ascii "method") with
  | error _ =>
    exact Or.inl ⟨elsewhere_fault handle, hother _ hmethod fun h => by cases h⟩
  | ok method =>
    cases method with
    | none => exact Or.inl ⟨elsewhere_nil handle, hother _ hmethod fun h => by cases h⟩
    | some method =>
      by_cases hurl : method = ascii "request_url_resp"
      · subst hurl
        have hversion : ascii "request_url_resp" ≠ ascii "report_version_rsp" := by decide +kernel
        have hupdate : ascii "request_url_resp" ≠ ascii "update_resource" := by decide +kernel
        have hdelete : ascii "request_url_resp" ≠ ascii "del_resource" := by decide +kernel
        dsimp only
        rw [if_neg hversion, if_neg hupdate, if_neg hdelete, if_pos rfl]
        cases hid : lookup outside.alloc (text.val ++ [0]) (ascii "request_id") with
        | error _ =>
          refine Or.inl ⟨elsewhere_fault handle, fun requestId h => ?_⟩
          obtain ⟨id, hfound, -⟩ := h.requestId
          cases hid.symm.trans hfound
        | ok id =>
          cases id with
          | none =>
            refine Or.inl ⟨elsewhere_nil handle, fun requestId h => ?_⟩
            obtain ⟨id, hfound, -⟩ := h.requestId
            cases hid.symm.trans hfound
          | some id =>
            dsimp only
            by_cases hmemory : handle.fileWaitPostList.length = 0 ∨ outside.memory = true
            · exact Or.inr ⟨atoi id, ⟨hbusy, hlen, hmethod, ⟨id, hid, rfl⟩, hmemory⟩, rfl⟩
            · refine Or.inl ⟨?_, fun requestId h => hmemory h.memory⟩
              rw [requestUrlResp, if_pos (by simpa using hmemory)]
              exact elsewhere_nil handle
      · have hnot := hother _ hmethod fun h => hurl (Option.some.inj (Except.ok.inj h))
        left
        refine ⟨?_, hnot⟩
        dsimp only
        rw [if_neg hurl]
        split_ifs
        · cases lookup outside.alloc (text.val ++ [0]) (ascii "result_code") with
          | error _ => exact elsewhere_fault handle
          | ok code =>
            dsimp only
            split_ifs
            · exact elsewhere_nil handle
            · exact ⟨rfl, rfl, fun _ hmem => absurd hmem List.not_mem_nil⟩
        · cases updateFields outside.alloc (text.val ++ [0]) with
          | error _ => exact elsewhere_fault handle
          | ok fields => exact elsewhere_update fields outside handle
        · cases deleteFields outside.alloc (text.val ++ [0]) with
          | error _ => exact elsewhere_fault handle
          | ok fields => exact elsewhere_delete fields outside handle
        · exact elsewhere_nil handle

end Elsewhere

section Lookups
variable {now : ℕ} {requestId : ℤ} {infos : List FilePostInfo}

/-- A lookup leaves the entries that it does not remove. -/
theorem getInfo_perm (now : ℕ) (requestId : ℤ) (infos : List FilePostInfo) :
    infos.Perm ((getInfoByRequestId now requestId infos).2.2.filterMap leftInfo ++
      (getInfoByRequestId now requestId infos).2.1) := by
  induction infos with
  | nil => exact List.Perm.refl _
  | cons info infos ih =>
    rw [getInfoByRequestId]
    split_ifs
    · exact List.Perm.refl _
    · exact ih.cons info
    · exact (ih.cons info).trans List.perm_middle.symm

/-- What a lookup finds is an entry of the id that it leaves. -/
theorem getInfo_found {info : FilePostInfo}
    (h : (getInfoByRequestId now requestId infos).1 = some info) :
    info ∈ (getInfoByRequestId now requestId infos).2.1 ∧ info.requestId = requestId := by
  induction infos with
  | nil => cases h
  | cons head infos ih =>
    rw [getInfoByRequestId] at h ⊢
    split_ifs at h ⊢ with hid hexpired
    · cases h
      exact ⟨List.mem_cons_self .., hid⟩
    · exact ih h
    · exact ⟨List.mem_cons_of_mem head (ih h).1, (ih h).2⟩

/-- A lookup that finds nothing has looked at every entry. -/
theorem getInfo_none (h : (getInfoByRequestId now requestId infos).1 = none) :
    ∀ info ∈ infos, info.requestId ≠ requestId := by
  induction infos with
  | nil => exact fun _ hmem => absurd hmem List.not_mem_nil
  | cons head infos ih =>
    rw [getInfoByRequestId] at h
    intro info hmem
    split_ifs at h with hid hexpired
    · rcases List.mem_cons.mp hmem with rfl | hmem
      · exact hid
      · exact ih h info hmem
    · rcases List.mem_cons.mp hmem with rfl | hmem
      · exact hid
      · exact ih h info hmem

/-- What a lookup removes has expired. -/
theorem getInfo_removed {event : Event} (h : event ∈ (getInfoByRequestId now requestId infos).2.2) :
    ∃ info, event = .expired info ∧ info.deadline ≤ now := by
  induction infos with
  | nil => cases h
  | cons head infos ih =>
    rw [getInfoByRequestId] at h
    split_ifs at h with hid hexpired
    · cases h
    · rcases List.mem_cons.mp h with rfl | h
      · exact ⟨head, rfl, hexpired⟩
      · exact ih h
    · exact ih h

/-- A lookup that meets no expired entry leaves the list as it is. -/
theorem getInfo_fresh (h : ∀ info ∈ infos.takeWhile fun info => info.requestId ≠ requestId,
    now < info.deadline) : (getInfoByRequestId now requestId infos).2.1 = infos ∧
      (getInfoByRequestId now requestId infos).2.2 = [] := by
  induction infos with
  | nil => exact ⟨rfl, rfl⟩
  | cons head infos ih =>
    rw [getInfoByRequestId]
    by_cases hid : head.requestId = requestId
    · rw [if_pos hid]
      exact ⟨rfl, rfl⟩
    · rw [List.takeWhile_cons_of_pos (by simpa using hid)] at h
      have hhead := h head (List.mem_cons_self ..)
      obtain ⟨hleft, hremoved⟩ := ih fun info hmem => h info (List.mem_cons_of_mem head hmem)
      rw [if_neg hid]
      dsimp only
      rw [if_neg (by omega)]
      exact ⟨congrArg (List.cons head) hleft, hremoved⟩

/-- An expired entry that a lookup meets is removed. -/
theorem getInfo_expired {info : FilePostInfo}
    (hmem : info ∈ infos.takeWhile fun info => info.requestId ≠ requestId)
    (hexpired : info.deadline ≤ now) :
    .expired info ∈ (getInfoByRequestId now requestId infos).2.2 := by
  induction infos with
  | nil => exact absurd hmem List.not_mem_nil
  | cons head infos ih =>
    rw [getInfoByRequestId]
    by_cases hid : head.requestId = requestId
    · rw [List.takeWhile_cons_of_neg (by simpa using hid)] at hmem
      exact absurd hmem List.not_mem_nil
    · rw [List.takeWhile_cons_of_pos (by simpa using hid)] at hmem
      rw [if_neg hid]
      dsimp only
      rcases List.mem_cons.mp hmem with rfl | hmem
      · rw [if_pos hexpired]
        exact List.mem_cons_self ..
      · split_ifs
        · exact List.mem_cons_of_mem _ (ih hmem)
        · exact ih hmem

end Lookups

section Responses
variable {handle : Handle} {log : List Event} {requestId : ℤ} {outside : Outside}
  {fields : Except Overrun (Option (List UInt8 × List UInt8))}

def found (handle : Handle) (requestId : ℤ) :
    Option FilePostInfo × List FilePostInfo × List Event :=
  getInfoByRequestId handle.now requestId handle.fileWaitPostList.reverse

/-- A response that handles no entry: none is found, or the token or the URL is missing. -/
structure Unhandled (handle : Handle) (requestId : ℤ)
    (fields : Except Overrun (Option (List UInt8 × List UInt8))) (result : Handle × List Event) :
    Prop where
  handle_eq : result.1 = { handle with fileWaitPostList := (found handle requestId).2.1.reverse }
  events : result.2 = (found handle requestId).2.2 ∨
    result.2 = (found handle requestId).2.2 ++ [.fault]
  reason : (found handle requestId).1 = none ∨ ∀ token url, fields ≠ .ok (some (token, url))

structure Handled (handle : Handle) (requestId : ℤ)
    (fields : Except Overrun (Option (List UInt8 × List UInt8))) (info : FilePostInfo)
    (result : Handle × List Event) : Prop where
  found : (found handle requestId).1 = some info
  complete : ∃ token url, fields = .ok (some (token, url))
  handle_eq : result.1 =
    { handle with fileWaitPostList := (FilePosts.found handle requestId).2.1.reverse.erase info }
  events : ∃ reports, (reports = [] ∨ reports = [.reported info.requestId]) ∧
    result.2 = (FilePosts.found handle requestId).2.2 ++ (.posted info.requestId :: (reports ++
      [.releasedPost info.requestId .fileName, .releasedPost info.requestId .fileVersion,
        .handled info]))

theorem response_cases (hmemory : handle.fileWaitPostList.length = 0 ∨ outside.memory = true) :
    Unhandled handle requestId fields (requestUrlResp fields requestId outside handle) ∨
      ∃ info, Handled handle requestId fields info
        (requestUrlResp fields requestId outside handle) := by
  have hcount : ¬(handle.fileWaitPostList.length ≠ 0 ∧ (!outside.memory) = true) := by
    simpa [or_iff_not_imp_left] using hmemory
  rw [requestUrlResp, if_neg hcount]
  rcases hlookup : getInfoByRequestId handle.now requestId handle.fileWaitPostList.reverse with
    ⟨hit, left, removed⟩
  have hfound : found handle requestId = (hit, left, removed) := hlookup
  dsimp only
  cases hit with
  | none =>
    left
    refine ⟨?_, Or.inl ?_, Or.inl ?_⟩ <;> rw [hfound]
  | some info =>
    rcases fields with _ | _ | ⟨token, url⟩
    · left
      refine ⟨?_, Or.inr ?_, Or.inr fun _ _ h => by cases h⟩ <;> rw [hfound]
    · left
      refine ⟨?_, Or.inl ?_, Or.inr fun _ _ h => by cases h⟩ <;> rw [hfound]
    · right
      refine ⟨info, ?_, ⟨token, url, rfl⟩, ?_, ?_⟩
      · rw [hfound]
      · rw [hfound]
      · rw [hfound]
        refine ⟨_, ?_, rfl⟩
        rw [fileManageReportPostResult]
        split_ifs
        · exact Or.inr rfl
        · exact Or.inl rfl

theorem found_perm (handle : Handle) (requestId : ℤ) :
    handle.fileWaitPostList.Perm ((found handle requestId).2.2.filterMap leftInfo ++
      (found handle requestId).2.1.reverse) := by
  have hperm := getInfo_perm handle.now requestId handle.fileWaitPostList.reverse
  refine (List.reverse_perm _).symm.trans (hperm.trans ?_)
  exact List.Perm.append_left _ (List.reverse_perm _).symm

theorem found_appended (handle : Handle) (requestId : ℤ) :
    (found handle requestId).2.2.filterMap appendedInfo = [] := by
  apply List.filterMap_eq_nil_iff.mpr
  intro event hmem
  obtain ⟨info, rfl, -⟩ := getInfo_removed hmem
  rfl

theorem Accounted.leave (h : Accounted handle log) {result : Handle × List Event}
    (hid : result.1.requestId = handle.requestId) (happended : result.2.filterMap appendedInfo = [])
    (hperm : handle.fileWaitPostList.Perm
      (result.2.filterMap leftInfo ++ result.1.fileWaitPostList)) :
    Accounted result.1 (log ++ result.2) := by
  have hsame : (log ++ result.2).filterMap appendedInfo = log.filterMap appendedInfo := by
    rw [List.filterMap_append, happended, List.append_nil]
  refine ⟨?_, ?_, ?_⟩
  · rw [hsame, List.filterMap_append, List.append_assoc]
    exact h.perm.trans (List.Perm.append_left _ hperm)
  · rw [hsame]
    exact h.ids
  · rw [hsame, hid]
    exact h.below

theorem accounted_elsewhere (h : Accounted handle log) {result : Handle × List Event}
    (helse : Elsewhere handle result) : Accounted result.1 (log ++ result.2) := by
  have hnone : ∀ event ∈ result.2, appendedInfo event = none ∧ leftInfo event = none := by
    intro event hmem
    have habout := helse.events event hmem
    cases event <;> first | exact ⟨rfl, rfl⟩ | cases habout
  have happended : result.2.filterMap appendedInfo = [] :=
    List.filterMap_eq_nil_iff.mpr fun event hmem => (hnone event hmem).1
  have hleft : result.2.filterMap leftInfo = [] :=
    List.filterMap_eq_nil_iff.mpr fun event hmem => (hnone event hmem).2
  refine h.leave helse.requestId happended ?_
  rw [hleft, List.nil_append, helse.list]

theorem accounted_response (h : Accounted handle log)
    (hmemory : handle.fileWaitPostList.length = 0 ∨ outside.memory = true) :
    Accounted (requestUrlResp fields requestId outside handle).1
      (log ++ (requestUrlResp fields requestId outside handle).2) := by
  have hperm := found_perm handle requestId
  rcases response_cases hmemory with hunhandled | ⟨info, hhandled⟩
  · refine h.leave (by rw [hunhandled.handle_eq]) ?_ ?_
    · rcases hunhandled.events with hevents | hevents <;> rw [hevents]
      · exact found_appended handle requestId
      · rw [List.filterMap_append, found_appended]
        rfl
    · rw [hunhandled.handle_eq]
      rcases hunhandled.events with hevents | hevents <;> rw [hevents]
      · exact hperm
      · rw [List.filterMap_append]
        simpa [leftInfo, List.filterMap_cons] using hperm
  · obtain ⟨reports, hreports, hevents⟩ := hhandled.events
    have hmem : info ∈ (found handle requestId).2.1.reverse :=
      List.mem_reverse.mpr (getInfo_found hhandled.found).1
    refine h.leave (by rw [hhandled.handle_eq]) ?_ ?_
    · rw [hevents, List.filterMap_append, found_appended]
      rcases hreports with rfl | rfl <;> rfl
    · have hleft : (requestUrlResp fields requestId outside handle).2.filterMap leftInfo =
          (found handle requestId).2.2.filterMap leftInfo ++ [info] := by
        rw [hevents, List.filterMap_append]
        rcases hreports with rfl | rfl <;> rfl
      rw [hleft, hhandled.handle_eq, List.append_assoc]
      refine hperm.trans (List.Perm.append_left _ ?_)
      exact List.perm_cons_erase hmem

/-- A request whose entry is not appended, and one whose entry is. -/
theorem postRequest_cases (timeoutMs : ℕ) (fileName fileVersion fileType : List UInt8)
    (outcome : PostOutcome) (handle : Handle) :
    (postRequest timeoutMs fileName fileVersion fileType outcome handle =
        ({ handle with requestId := handle.requestId + 1 }, [.refused]) ∧
      ¬(handle.fileWaitPostList.length < maxFileWaitPost ∧ outcome.node = true)) ∨
    ∃ info, info = ⟨handle.requestId + 1, fileName, fileVersion, fileType, handle.now + timeoutMs⟩ ∧
      (postRequest timeoutMs fileName fileVersion fileType outcome handle).1 =
        { handle with
          requestId := handle.requestId + 1
          fileWaitPostList := handle.fileWaitPostList ++ [info] } ∧
      handle.fileWaitPostList.length < maxFileWaitPost ∧ outcome.node = true ∧
      (((outcome.memory = true ∧ (requestUrlText info (postName fileName)).length < msgReportLen ∧
          outcome.sent = true) ∧
        (postRequest timeoutMs fileName fileVersion fileType outcome handle).2 =
          [.appended info, .requested (handle.requestId + 1)]) ∨
      (¬(outcome.memory = true ∧ (requestUrlText info (postName fileName)).length < msgReportLen ∧
          outcome.sent = true) ∧
        (postRequest timeoutMs fileName fileVersion fileType outcome handle).2 =
          [.appended info, .refused])) := by
  rw [postRequest]
  dsimp only
  split_ifs with hfull hsent
  · left
    refine ⟨rfl, ?_⟩
    rintro ⟨hroom, hnode⟩
    rcases hfull with hfull | hnone
    · omega
    · rw [hnode] at hnone
      cases hnone
  · simp only [not_or, ge_iff_le, not_le, Bool.not_eq_true', Bool.not_eq_false] at hfull
    exact Or.inr ⟨_, rfl, rfl, hfull.1, hfull.2, Or.inl ⟨hsent, rfl⟩⟩
  · simp only [not_or, ge_iff_le, not_le, Bool.not_eq_true', Bool.not_eq_false] at hfull
    exact Or.inr ⟨_, rfl, rfl, hfull.1, hfull.2, Or.inr ⟨hsent, rfl⟩⟩

theorem Accounted.append (h : Accounted handle log) {info : FilePostInfo}
    (hid : info.requestId = handle.requestId + 1) {result : Handle × List Event}
    (hresult : result.1 =
      { handle with
        requestId := handle.requestId + 1
        fileWaitPostList := handle.fileWaitPostList ++ [info] })
    (happended : result.2.filterMap appendedInfo = [info])
    (hleft : result.2.filterMap leftInfo = []) :
    Accounted result.1 (log ++ result.2) := by
  have hall : (log ++ result.2).filterMap appendedInfo = log.filterMap appendedInfo ++ [info] := by
    rw [List.filterMap_append, happended]
  refine ⟨?_, ?_, ?_⟩
  · rw [hall, List.filterMap_append, hleft, List.append_nil, hresult]
    dsimp only
    rw [← List.append_assoc]
    exact h.perm.append_right [info]
  · rw [hall, List.map_append]
    refine List.nodup_append.mpr ⟨h.ids, List.pairwise_singleton _ _, ?_⟩
    intro id hold id' hnew hsame
    obtain ⟨old, hmem, rfl⟩ := List.mem_map.mp hold
    have hbelow := h.below old hmem
    have hfresh := List.mem_singleton.mp hnew
    dsimp only at hsame hfresh
    omega
  · intro old hmem
    rw [hall] at hmem
    rw [hresult]
    dsimp only
    rcases List.mem_append.mp hmem with hmem | hmem
    · have hbelow := h.below old hmem
      omega
    · rw [List.mem_singleton.mp hmem, hid]

theorem accounted_postRequest (h : Accounted handle log) (timeoutMs : ℕ)
    (fileName fileVersion fileType : List UInt8) (outcome : PostOutcome) :
    Accounted (postRequest timeoutMs fileName fileVersion fileType outcome handle).1
      (log ++ (postRequest timeoutMs fileName fileVersion fileType outcome handle).2) := by
  rcases postRequest_cases timeoutMs fileName fileVersion fileType outcome handle with
    ⟨hrefused, -⟩ | ⟨info, rfl, hresult, -, -, hevents⟩
  · rw [hrefused]
    refine ⟨?_, ?_, ?_⟩
    · simpa [List.filterMap_append, List.filterMap_cons, appendedInfo, leftInfo] using h.perm
    · simpa [List.filterMap_append, List.filterMap_cons, appendedInfo] using h.ids
    · intro info hmem
      have hbelow := h.below info (by simpa [appendedInfo, List.filterMap_cons] using hmem)
      dsimp only
      omega
  · refine h.append rfl hresult ?_ ?_ <;> rcases hevents with ⟨-, hevents⟩ | ⟨-, hevents⟩ <;>
      rw [hevents] <;> rfl

end Responses

section Steps
variable {handle : Handle} {log : List Event} {s : Step}

/-- A step is elsewhere, a response that is looked at, or a request. -/
theorem step_cases (handle : Handle) (s : Step) :
    (Elsewhere handle (step s handle) ∧ ∀ msgLen outside text, s = .message msgLen outside text →
      ∀ requestId, ¬Response handle msgLen outside text requestId) ∨
    (∃ msgLen outside text requestId, s = .message msgLen outside text ∧
      Response handle msgLen outside text requestId ∧
        step s handle =
          requestUrlResp (responseFields outside.alloc (text.val ++ [0])) requestId
            outside handle) ∨
    ∃ timeoutMs fileName fileVersion fileType outcome,
      s = .postRequest timeoutMs fileName fileVersion fileType outcome := by
  cases s with
  | message msgLen outside text =>
    rcases message_cases msgLen outside text handle with ⟨helse, hnot⟩ | ⟨requestId, hresponse, heq⟩
    · refine Or.inl ⟨helse, ?_⟩
      rintro _ _ _ ⟨⟩
      exact hnot
    · exact Or.inr (Or.inl ⟨msgLen, outside, text, requestId, rfl, hresponse, heq⟩)
  | reportVersion =>
    refine Or.inl ⟨?_, fun _ _ _ h => by cases h⟩
    rw [step, reportVersion]
    split_ifs
    · exact elsewhere_nil handle
    · exact elsewhere_reset handle
  | reportUpgradeResult version reportType memory =>
    exact Or.inl ⟨elsewhere_report version reportType memory handle, fun _ _ _ h => by cases h⟩
  | startDownload offset =>
    exact Or.inl ⟨⟨rfl, rfl, fun _ hmem => absurd hmem List.not_mem_nil⟩, fun _ _ _ h => by cases h⟩
  | fetchYield result memory =>
    exact Or.inl ⟨elsewhere_fetchYield result memory handle, fun _ _ _ h => by cases h⟩
  | checkFirmware wellPlaced right memory =>
    refine Or.inl ⟨?_, fun _ _ _ h => by cases h⟩
    rw [step, checkFirmware]
    split_ifs
    · exact elsewhere_nil handle
    · exact elsewhere_report _ _ _ handle
  | postRequest timeoutMs fileName fileVersion fileType outcome =>
    exact Or.inr (Or.inr ⟨timeoutMs, fileName, fileVersion, fileType, outcome, rfl⟩)
  | tick ms =>
    exact Or.inl ⟨⟨rfl, rfl, fun _ hmem => absurd hmem List.not_mem_nil⟩, fun _ _ _ h => by cases h⟩

/-- Every entry is accounted for. -/
theorem accounted_step (handle : Handle) (log : List Event) (s : Step) (h : Accounted handle log) :
    Accounted (step s handle).1 (log ++ (step s handle).2) := by
  rcases step_cases handle s with ⟨helse, -⟩ | ⟨_, _, _, _, -, hresponse, heq⟩ |
    ⟨_, _, _, _, _, rfl⟩
  · exact accounted_elsewhere h helse
  · rw [heq]
    exact accounted_response h hresponse.memory
  · exact accounted_postRequest h _ _ _ _ _

theorem accounted_init : Accounted init [] :=
  ⟨List.Perm.refl _, List.nodup_nil, fun _ hmem => absurd hmem List.not_mem_nil⟩

/-- The entries of the list are different. -/
theorem Accounted.nodup (h : Accounted handle log) : handle.fileWaitPostList.Nodup := by
  have hall := h.perm.nodup_iff.mp (List.Nodup.of_map _ h.ids)
  exact (List.nodup_append.mp hall).2.1

/-- No step releases the type of a file that waited. -/
theorem fileType_kept (handle : Handle) (s : Step) (requestId : ℤ) :
    .releasedPost requestId .fileType ∉ (step s handle).2 := by
  intro hmem
  rcases step_cases handle s with ⟨helse, -⟩ | ⟨_, outside, _, _, -, hresponse, heq⟩ |
    ⟨timeoutMs, fileName, fileVersion, fileType, outcome, rfl⟩
  · cases helse.events _ hmem
  · rw [heq] at hmem
    rcases response_cases hresponse.memory with hunhandled | ⟨info, hhandled⟩
    · rcases hunhandled.events with hevents | hevents
      · rw [hevents] at hmem
        obtain ⟨info, hinfo, -⟩ := getInfo_removed hmem
        cases hinfo
      · rw [hevents] at hmem
        rcases List.mem_append.mp hmem with hmem | hmem
        · obtain ⟨info, hinfo, -⟩ := getInfo_removed hmem
          cases hinfo
        · cases List.mem_singleton.mp hmem
    · obtain ⟨reports, hreports, hevents⟩ := hhandled.events
      rw [hevents] at hmem
      rcases List.mem_append.mp hmem with hmem | hmem
      · obtain ⟨info, hinfo, -⟩ := getInfo_removed hmem
        cases hinfo
      · rcases hreports with rfl | rfl <;> simp at hmem
  · rcases postRequest_cases timeoutMs fileName fileVersion fileType outcome handle with
      ⟨hrefused, -⟩ | ⟨info, -, -, -, -, ⟨-, hevents⟩ | ⟨-, hevents⟩⟩
    · rw [step, hrefused] at hmem
      simp at hmem
    · rw [step, hevents] at hmem
      simp at hmem
    · rw [step, hevents] at hmem
      simp at hmem

/-- In a step that is right no entry leaves. -/
theorem stays_of_right (h : StepRight handle s) :
    ∀ info ∈ handle.fileWaitPostList, info ∈ (step s handle).1.fileWaitPostList := by
  intro info hmem
  by_contra hleft
  have hreleased := (h.leaves info hmem hleft).released .fileType
  rw [List.count_eq_zero_of_not_mem (fileType_kept handle s info.requestId)] at hreleased
  cases hreleased

/-- A response with which no entry leaves meets no expired entry and handles none. -/
theorem meets_of_stays {requestId : ℤ} {outside : Outside}
    {fields : Except Overrun (Option (List UInt8 × List UInt8))} (h : Accounted handle log)
    (hmemory : handle.fileWaitPostList.length = 0 ∨ outside.memory = true)
    (hstays : ∀ info ∈ handle.fileWaitPostList,
      info ∈ (requestUrlResp fields requestId outside handle).1.fileWaitPostList) :
    (∀ info ∈ handle.fileWaitPostList.reverse.takeWhile fun info => info.requestId ≠ requestId,
      handle.now < info.deadline) ∧
    ((∃ info ∈ handle.fileWaitPostList, info.requestId = requestId) →
      ∀ token url, fields ≠ .ok (some (token, url))) := by
  have hcases : Unhandled handle requestId fields (requestUrlResp fields requestId outside handle) ∨
      ∃ info, Handled handle requestId fields info
        (requestUrlResp fields requestId outside handle) :=
    response_cases hmemory
  have hnodup := (found_perm handle requestId).nodup_iff.mp h.nodup
  have hnodupLeft := (List.nodup_append.mp hnodup).2.1
  have hleft : ∀ info ∈ handle.fileWaitPostList, info ∈ (found handle requestId).2.1.reverse := by
    intro info hmem
    have hstay := hstays info hmem
    rcases hcases with hunhandled | ⟨info', hhandled⟩
    · rwa [hunhandled.handle_eq] at hstay
    · rw [hhandled.handle_eq] at hstay
      exact List.mem_of_mem_erase hstay
  constructor
  · intro info hmem
    by_contra hexpired
    have hin : info ∈ handle.fileWaitPostList :=
      List.mem_reverse.mp ((List.takeWhile_prefix _).subset hmem)
    have hremoved : info ∈ (found handle requestId).2.2.filterMap leftInfo :=
      List.mem_filterMap.mpr ⟨_, getInfo_expired hmem (Nat.le_of_not_lt hexpired), rfl⟩
    exact (List.nodup_append.mp hnodup).2.2 info hremoved info (hleft info hin) rfl
  · rintro ⟨info, hmem, hid⟩ token url hfields
    rcases hcases with hunhandled | ⟨info', hhandled⟩
    · rcases hunhandled.reason with hnone | hincomplete
      · exact getInfo_none hnone info (List.mem_reverse.mpr hmem) hid
      · exact hincomplete token url hfields
    · have hin : info' ∈ handle.fileWaitPostList :=
        (found_perm handle requestId).mem_iff.mpr (List.mem_append_right _
          (List.mem_reverse.mpr (getInfo_found hhandled.found).1))
      have hstay := hstays info' hin
      rw [hhandled.handle_eq] at hstay
      exact hnodupLeft.not_mem_erase hstay

/-- A response that meets no expired entry and handles none leaves the list as it is. -/
theorem elsewhere_of_meets {requestId : ℤ} {outside : Outside}
    {fields : Except Overrun (Option (List UInt8 × List UInt8))}
    (hmemory : handle.fileWaitPostList.length = 0 ∨ outside.memory = true)
    (hfresh : ∀ info ∈ handle.fileWaitPostList.reverse.takeWhile fun info => info.requestId ≠
      requestId, handle.now < info.deadline)
    (hincomplete : (∃ info ∈ handle.fileWaitPostList, info.requestId = requestId) →
      ∀ token url, fields ≠ .ok (some (token, url))) :
    Elsewhere handle (requestUrlResp fields requestId outside handle) := by
  obtain ⟨hleft, hremoved⟩ := getInfo_fresh hfresh
  have hcases : Unhandled handle requestId fields (requestUrlResp fields requestId outside handle) ∨
      ∃ info, Handled handle requestId fields info
        (requestUrlResp fields requestId outside handle) :=
    response_cases hmemory
  rcases hcases with hunhandled | ⟨info, hhandled⟩
  · have hlist : (requestUrlResp fields requestId outside handle).1 = handle := by
      rw [hunhandled.handle_eq, found, hleft, List.reverse_reverse]
    refine ⟨by rw [hlist], by rw [hlist], fun event hmem => ?_⟩
    rcases hunhandled.events with hevents | hevents
    · rw [hevents, found, hremoved] at hmem
      exact absurd hmem List.not_mem_nil
    · rw [hevents, found, hremoved, List.nil_append] at hmem
      rw [List.mem_singleton.mp hmem]
      rfl
  · obtain ⟨hmem, hid⟩ := getInfo_found hhandled.found
    rw [hleft] at hmem
    obtain ⟨token, url, hcomplete⟩ := hhandled.complete
    exact absurd hcomplete (hincomplete ⟨info, List.mem_reverse.mp hmem, hid⟩ token url)

theorem right_of_elsewhere (h : Elsewhere handle (step s handle)) : StepRight handle s := by
  refine ⟨fun requestId hmem => ?_, fun _ => h.list, fun info hmem hleft => ?_⟩
  · cases h.events _ hmem
  · rw [h.list] at hleft
    exact absurd hmem hleft

/-- A step of a run is right when nothing is forgotten behind it, and only then. -/
theorem right_iff_meets (h : Accounted handle log) (s : Step) :
    StepRight handle s ↔ Meets handle s := by
  rcases step_cases handle s with ⟨helse, hnot⟩ |
    ⟨msgLen, outside, text, requestId, rfl, hresponse, heq⟩ |
    ⟨timeoutMs, fileName, fileVersion, fileType, outcome, rfl⟩
  · refine iff_of_true (right_of_elsewhere helse) ?_
    cases s with
    | message msgLen outside text =>
      intro requestId hresponse
      exact absurd hresponse (hnot msgLen outside text rfl requestId)
    | postRequest timeoutMs fileName fileVersion fileType outcome =>
      intro hroom hnode
      rcases postRequest_cases timeoutMs fileName fileVersion fileType outcome handle with
        ⟨-, hrefused⟩ | ⟨info, -, hresult, -⟩
      · exact absurd ⟨hroom, hnode⟩ hrefused
      · have hlist := helse.list
        rw [step, hresult] at hlist
        simp at hlist
    | reportVersion => trivial
    | reportUpgradeResult version reportType memory => trivial
    | startDownload offset => trivial
    | fetchYield result memory => trivial
    | checkFirmware wellPlaced right memory => trivial
    | tick ms => trivial
  · constructor
    · intro hright requestId' hresponse'
      have hstays := stays_of_right hright
      have hsame : requestId' = requestId := by
        obtain ⟨id, hid, rfl⟩ := hresponse.requestId
        obtain ⟨id', hid', rfl⟩ := hresponse'.requestId
        rw [hid] at hid'
        cases hid'
        rfl
      rw [heq] at hstays
      rw [hsame]
      exact meets_of_stays h hresponse.memory hstays
    · intro hmeets
      obtain ⟨hfresh, hincomplete⟩ := hmeets requestId hresponse
      apply right_of_elsewhere
      rw [heq]
      exact elsewhere_of_meets hresponse.memory hfresh hincomplete
  · rcases postRequest_cases timeoutMs fileName fileVersion fileType outcome handle with
      ⟨hrefused, hnot⟩ | ⟨info, hinfo, hresult, hroom, hnode, ⟨hsent, hevents⟩ | ⟨hunsent, hevents⟩⟩
    · refine iff_of_true ?_ fun hroom hnode => absurd ⟨hroom, hnode⟩ hnot
      refine ⟨fun requestId hmem => ?_, fun _ => ?_, fun info hmem hleft => ?_⟩
      · rw [step, hrefused] at hmem
        simp at hmem
      · rw [step, hrefused]
      · rw [step, hrefused] at hleft
        exact absurd hmem hleft
    · refine iff_of_true ?_ fun _ _ => ⟨hsent.1, hsent.2.2, hinfo ▸ hsent.2.1⟩
      refine ⟨fun requestId hmem => ⟨info, ?_, ?_⟩, fun hmem => ?_, fun info' hmem hleft => ?_⟩
      · rw [step, hevents] at hmem
        have hid : requestId = handle.requestId + 1 := by simpa using hmem
        rw [hid, hinfo]
      · rw [step, hresult]
      · rw [step, hevents] at hmem
        simp at hmem
      · rw [step, hresult] at hleft
        exact absurd (List.mem_append_left _ hmem) hleft
    · refine iff_of_false (fun hright => ?_) fun hmeets => ?_
      · have hlist := hright.refused (by rw [step, hevents]; simp)
        rw [step, hresult] at hlist
        simp at hlist
      · obtain ⟨hmemory, hpublished, hlength⟩ := hmeets hroom hnode
        exact hunsent ⟨hmemory, hinfo ▸ hlength, hpublished⟩

/-- The steps of a run, each at a state in which every entry is accounted for. -/
theorem along_right_iff (steps : List Step) :
    Along step StepRight steps init ↔ Along step Meets steps init := by
  suffices h : ∀ handle log, Accounted handle log →
      (Along step StepRight steps handle ↔ Along step Meets steps handle) from h init
        [] accounted_init
  induction steps with
  | nil => exact fun _ _ _ => Iff.rfl
  | cons s steps ih =>
    intro handle log haccounted
    exact and_congr (right_iff_meets haccounted s) (ih _ _ (accounted_step handle log s haccounted))

end Steps

end IotExplorer.FilePosts
