import IotExplorer.Basis.Outcomes
import IotExplorer.FileManageClient
import IotExplorer.ResourceClient

/-!
The task messages of the resource service. The fields of a task are stored one after another in the
record of its direction, up to the first that is missing, and each is copied with `strncpy`
into an array. The record is right behind a message unless it has been written to in part, or a text
has filled its array.
-/
namespace IotExplorer.ResourceTasks

open Basis.Runs Basis.Outcomes JsonParser TemplateJson DeviceProperty HttpClient
open FileManageClient (lookup strncpy)
open ResourceClient (ResourceState FetchResult Event downloadPercent)

section Records

/-- `QCLOUD_RESOURCE_INFO_T`, with what messages and the calls of the application write to. -/
structure Record where
  state : ResourceState
  sizeLast : ℕ
  sizePrepared : ℕ
  resourceSize : ℕ
  resourceUrl : List UInt8
  resourceName : List UInt8
  md5sum : List UInt8
  resultCode : ℕ
  deriving DecidableEq, Repr

/-- `QCLOUD_RESOURCE_CONTEXT_T`. -/
structure Handle where
  download : Record
  upload : Record
  deriving DecidableEq, Repr

/-- `IOT_REOURCE_URL_LEN`. -/
def resourceUrlLen : ℕ := 1024

def resourceNameLen : ℕ := 64

def md5sumLen : ℕ := 33

def zeroRecord : Record :=
  ⟨.uninited, 0, 0, 0, List.replicate resourceUrlLen 0, List.replicate resourceNameLen 0,
    List.replicate md5sumLen 0, 0⟩

/-- `_qcloud_iot_resource_init`. -/
def init : Handle := ⟨{ zeroRecord with state := .inited }, { zeroRecord with state := .inited }⟩

/-- `_qcloud_iot_resource_info_reset`. -/
def infoReset : Record := { zeroRecord with state := .inited, resourceSize := 2 ^ 32 - 1 }

/-- `atoi`, stored in 32 bits. -/
def sizeOf (text : List UInt8) : ℕ := (atoi text % 2 ^ 32).toNat

/-- A task is in progress: the state is not below `QCLOUD_RESOURCE_STATE_START_E`. -/
def Record.Busy (record : Record) : Prop := record.state ≠ .uninited ∧ record.state ≠ .inited

instance (record : Record) : Decidable record.Busy := inferInstanceAs (Decidable (_ ∧ _))

end Records

section Messages
variable (alloc : List UInt8 → Bool) (doc : Ptr)

/-- What both handlers of a task message do. -/
def procTask (record : Record) : Except Overrun Record := do
  if record.Busy then return record
  let some size ← lookup alloc doc (ascii "size") | return record
  let sized := { record with resourceSize := sizeOf size }
  let some name ← lookup alloc doc (ascii "name") | return sized
  let named := { sized with resourceName := strncpy name resourceNameLen }
  let some md5sum ← lookup alloc doc (ascii "md5sum") | return named
  let summed := { named with md5sum := strncpy md5sum md5sumLen }
  let some url ← lookup alloc doc (ascii "url") | return summed
  return { summed with resourceUrl := strncpy url resourceUrlLen, state := .start }

/-- `_qcloud_iot_resource_cb_proc_download`. -/
def procDownload (record : Record) : Except Overrun Record := procTask alloc doc record

/-- `_qcloud_iot_resource_cb_proc_upload`. -/
def procUpload (record : Record) : Except Overrun Record := procTask alloc doc record

/-- `_qcloud_iot_resource_cb_proc_uploadresult`: the code in the progress of the report. -/
def procUploadresult (record : Record) : Except Overrun Record := do
  let some report ← lookup alloc doc (ascii "report") | return record
  let some progress ← lookup alloc (report ++ [0]) (ascii "progress") | return record
  let some code ← lookup alloc (progress ++ [0]) (ascii "result_code") | return record
  return { record with resultCode := sizeOf code }

/-- The code of a reply to a progress report. -/
def procResultCode (record : Record) : Except Overrun Record := do
  let some code ← lookup alloc doc (ascii "result_code") | return record
  return { record with resultCode := sizeOf code }

end Messages

def resourceCallback (msgLen : ℕ) (alloc : List UInt8 → Bool) (text : CString) (handle : Handle) :
    Except Overrun Handle := do
  let doc := text.val ++ [0]
  if msgLen = 0 then return handle
  let some type ← lookup alloc doc (ascii "type") | return handle
  if type = ascii "download" ∨ type = ascii "get_download_task_rsp" then
    return { handle with download := ← procDownload alloc doc handle.download }
  else if type = ascii "create_upload_task_rsp" then
    return { handle with upload := ← procUpload alloc doc handle.upload }
  else if type = ascii "upload_result" then
    return { handle with upload := ← procUploadresult alloc doc handle.upload }
  else if type = ascii "report_upload_progress_rsp" then
    return { handle with upload := ← procResultCode alloc doc handle.upload }
  else if type = ascii "report_download_progress_rsp" then
    return { handle with download := ← procResultCode alloc doc handle.download }
  else return handle

section Calls

/-- What a report of a result leaves: `_qcloud_iot_resource_report_download_result` and, at its end,
`_qcloud_iot_resource_report_upload_result`. -/
def reportResult (record : Record) : Record :=
  if record.state = .uninited then record else infoReset

/-- `IOT_Resource_IsStartDownload` and `IOT_Resource_IsStartUpload`. -/
def isStart (record : Record) : Record :=
  if record.state = .uninited then record else { record with resultCode := 0 }

/-- Bytes that have been fetched or sent are counted, in 32 bits. -/
def countBytes (size : ℕ) (record : Record) : Record × List Event :=
  let sizePrepared := (record.sizePrepared + size) % 2 ^ 32
  let counted := { record with sizeLast := size % 2 ^ 32, sizePrepared := sizePrepared }
  if record.resourceSize = 0 then (counted, [.divided])
  else
    ({ counted with state := if sizePrepared ≥ record.resourceSize then .ended else record.state },
      [.percent (downloadPercent sizePrepared record.resourceSize)])

/-- `IOT_Resource_DownloadYield`. -/
def downloadYield (result : FetchResult) (record : Record) : Record × List Event :=
  if record.state ≠ .start ∨ record.resultCode ≠ 0 then (record, [])
  else
    match result with
    | .authFail => (reportResult record, [])
    | .notExist => (reportResult record, [])
    | .failed => (record, [])
    | .fetched size => countBytes size record

/-- `IOT_Resource_UploadYield`, up to the report of a failure: what is sent, or that nothing is. -/
def uploadYield (sent : Option ℕ) (record : Record) : Record × List Event :=
  if record.state ≠ .start ∨ record.resultCode ≠ 0 then (record, [])
  else
    match sent with
    | none => ({ record with state := .ended }, [])
    | some size => countBytes size record

/-- `IOT_Resource_UploadRecvResult`, up to the report of a failure. -/
def uploadRecvResult (received : Bool) (record : Record) : Record :=
  if received then record else { record with state := .ended }

/-- `IOT_Resource_StartUpload`, which may not be connected. -/
def startUpload (connected : Bool) (record : Record) : Record :=
  let begun := { record with sizeLast := 0, sizePrepared := 0 }
  if connected then begun else { begun with state := .disconnected }

/-- A step of a handle: a message, or a call of the application. Messages may arrive while an upload
waits for the reply to its report, which therefore has two steps. -/
inductive Step
  | message (msgLen : ℕ) (alloc : List UInt8 → Bool) (text : CString)
  | isStartDownload
  | startDownload (offset : ℕ)
  | downloadYield (result : FetchResult)
  | reportDownload
  | isStartUpload
  | startUpload (connected : Bool)
  | uploadYield (sent : Option ℕ)
  | uploadRecvResult (received : Bool)
  | reportUploadBegin
  | reportUploadEnd

/-- One step. A message that is read behind its end is not followed further. -/
def step (s : Step) (handle : Handle) : Handle × List Event :=
  match s with
  | .message msgLen alloc text =>
      match resourceCallback msgLen alloc text handle with
      | .error _ => (handle, [])
      | .ok handle => (handle, [])
  | .isStartDownload => ({ handle with download := isStart handle.download }, [])
  | .startDownload offset =>
      ({ handle with download := { handle.download with sizePrepared := offset % 2 ^ 32 } }, [])
  | .downloadYield result =>
      let yielded := downloadYield result handle.download
      ({ handle with download := yielded.1 }, yielded.2)
  | .reportDownload => ({ handle with download := reportResult handle.download }, [])
  | .isStartUpload => ({ handle with upload := isStart handle.upload }, [])
  | .startUpload connected => ({ handle with upload := startUpload connected handle.upload }, [])
  | .uploadYield sent =>
      let yielded := uploadYield sent handle.upload
      ({ handle with upload := yielded.1 }, yielded.2)
  | .uploadRecvResult received =>
      ({ handle with upload := uploadRecvResult received handle.upload }, [])
  | .reportUploadBegin =>
      ({ handle with upload := { handle.upload with resultCode := 2 ^ 32 - 1 } }, [])
  | .reportUploadEnd => ({ handle with upload := reportResult handle.upload }, [])

end Calls

section Right

inductive Direction
  | download
  | upload
  deriving DecidableEq, Repr

def Handle.get (handle : Handle) : Direction → Record
  | .download => handle.download
  | .upload => handle.upload

def taskTypes : Direction → List (List UInt8)
  | .download => [ascii "download", ascii "get_download_task_rsp"]
  | .upload => [ascii "create_upload_task_rsp"]

def IsTask (msgLen : ℕ) (alloc : List UInt8 → Bool) (text : CString) (direction : Direction) :
    Prop :=
  msgLen ≠ 0 ∧ ∃ type ∈ taskTypes direction, lookup alloc (text.val ++ [0]) (ascii "type") =
    .ok (some type)

structure Task where
  size : List UInt8
  name : List UInt8
  md5sum : List UInt8
  url : List UInt8

/-- All fields of a task are found in a message. -/
structure Found (alloc : List UInt8 → Bool) (doc : Ptr) (task : Task) : Prop where
  size : lookup alloc doc (ascii "size") = .ok (some task.size)
  name : lookup alloc doc (ascii "name") = .ok (some task.name)
  md5sum : lookup alloc doc (ascii "md5sum") = .ok (some task.md5sum)
  url : lookup alloc doc (ascii "url") = .ok (some task.url)

/-- The fields are found, and the texts fit with their NUL. -/
structure Carries (alloc : List UInt8 → Bool) (doc : Ptr) (task : Task) : Prop
    extends Found alloc doc task where
  nameFits : task.name.length < resourceNameLen
  md5sumFits : task.md5sum.length < md5sumLen
  urlFits : task.url.length < resourceUrlLen

/-- An array holds a text and a NUL. -/
def Copied (array text : List UInt8) : Prop := ∃ rest, array = text ++ 0 :: rest

/-- A record holds a task that has been started. -/
structure Holds (record : Record) (task : Task) : Prop where
  size : record.resourceSize = sizeOf task.size
  name : Copied record.resourceName task.name
  md5sum : Copied record.md5sum task.md5sum
  url : Copied record.resourceUrl task.url
  state : record.state = .start

/-- What is asked of a message: a task that is carried is held when none is in progress, and
otherwise the record is as before. -/
def TaskRight (alloc : List UInt8 → Bool) (doc : Ptr) (before after : Record) : Prop :=
  (∀ task, ¬before.Busy → Carries alloc doc task → Holds after task) ∧
    ((before.Busy ∨ ¬∃ task, Carries alloc doc task) → after = before)

/-- Every task message does to the record of its direction what is asked. -/
def Right (handle : Handle) : Step → Prop
  | .message msgLen alloc text => ∀ direction, IsTask msgLen alloc text direction →
      Runs (resourceCallback msgLen alloc text handle) fun after =>
        TaskRight alloc (text.val ++ [0]) (handle.get direction) (after.get direction)
  | _ => True

/-- A field is missing, and the record holds what the fields in front of it say. -/
def Repeats (alloc : List UInt8 → Bool) (doc : Ptr) (record : Record) : Prop :=
  lookup alloc doc (ascii "size") = .ok none ∨
  ∃ size, lookup alloc doc (ascii "size") = .ok (some size) ∧ record.resourceSize = sizeOf size ∧
    (lookup alloc doc (ascii "name") = .ok none ∨
    ∃ name, lookup alloc doc (ascii "name") = .ok (some name) ∧
      record.resourceName = strncpy name resourceNameLen ∧
      (lookup alloc doc (ascii "md5sum") = .ok none ∨
      ∃ md5sum, lookup alloc doc (ascii "md5sum") = .ok (some md5sum) ∧
        record.md5sum = strncpy md5sum md5sumLen ∧ lookup alloc doc (ascii "url") = .ok none))

/-- A task is in progress, or all fields are found and fit, or what is stored is there already. -/
def TaskFits (alloc : List UInt8 → Bool) (doc : Ptr) (record : Record) : Prop :=
  record.Busy ∨ (∃ task, Carries alloc doc task) ∨ Repeats alloc doc record

/-- Every task message fits the record of its direction. -/
def Fits (handle : Handle) : Step → Prop
  | .message msgLen alloc text => ∀ direction, IsTask msgLen alloc text direction →
      TaskFits alloc (text.val ++ [0]) (handle.get direction)
  | _ => True

end Right

section Stores
variable {alloc : List UInt8 → Bool} {doc : Ptr} {record before after : Record} {task : Task}

/-- `strncpy` leaves a NUL exactly if the text is shorter than the array. -/
theorem copied_strncpy_iff {text : List UInt8} {n : ℕ} :
    Copied (strncpy text n) text ↔ text.length < n := by
  constructor
  · rintro ⟨rest, h⟩
    have hlengths := congrArg List.length h
    rw [strncpy, List.length_append, List.length_take, List.length_replicate, List.length_append,
      List.length_cons] at hlengths
    omega
  · intro hshort
    have hzeros : n - text.length = n - text.length - 1 + 1 := by omega
    refine ⟨List.replicate (n - text.length - 1) 0, ?_⟩
    rw [strncpy, List.take_of_length_le hshort.le, hzeros, List.replicate_succ]
    rfl

theorem Found.unique {other : Task} (h : Found alloc doc task) (hother : Found alloc doc other) :
    other = task := by
  have hsize := hother.size.symm.trans h.size
  have hname := hother.name.symm.trans h.name
  have hmd5sum := hother.md5sum.symm.trans h.md5sum
  have hurl := hother.url.symm.trans h.url
  cases other
  cases task
  simp only [Except.ok.injEq, Option.some.injEq] at hsize hname hmd5sum hurl
  rw [hsize, hname, hmd5sum, hurl]

/-- When not all fields are found, what is asked is that the record is as before. -/
theorem taskRight_missing (hmissing : ¬∃ task, Found alloc doc task) :
    TaskRight alloc doc before after ↔ after = before := by
  have hcarries : ¬∃ task, Carries alloc doc task := fun ⟨task, h⟩ => hmissing ⟨task, h.toFound⟩
  constructor
  · exact fun h => h.2 (.inr hcarries)
  · exact fun h => ⟨fun task _ h => absurd ⟨task, h⟩ hcarries, fun _ => h⟩

/-- What is stored when all fields are found. -/
def started (record : Record) (task : Task) : Record where
  state := .start
  sizeLast := record.sizeLast
  sizePrepared := record.sizePrepared
  resourceSize := sizeOf task.size
  resourceUrl := strncpy task.url resourceUrlLen
  resourceName := strncpy task.name resourceNameLen
  md5sum := strncpy task.md5sum md5sumLen
  resultCode := record.resultCode

/-- It is right exactly if the texts fit. -/
theorem taskRight_started (hfree : ¬record.Busy) (hfound : Found alloc doc task) :
    TaskRight alloc doc record (started record task) ↔ ∃ task, Carries alloc doc task := by
  constructor
  · intro hright
    by_contra hmissing
    have hsame := congrArg Record.state (hright.2 (.inr hmissing))
    refine hfree ⟨fun huninited => ?_, fun hinited => ?_⟩
    · cases hsame.trans huninited
    · cases hsame.trans hinited
  · rintro ⟨other, hother⟩
    refine ⟨fun carried _ hcarried => ?_, fun hnone => ?_⟩
    · have hsame := hfound.unique hcarried.toFound
      subst hsame
      exact ⟨rfl, copied_strncpy_iff.mpr hcarried.nameFits,
        copied_strncpy_iff.mpr hcarried.md5sumFits, copied_strncpy_iff.mpr hcarried.urlFits, rfl⟩
    · exact absurd hnone (not_or.mpr ⟨hfree, not_not_intro ⟨other, hother⟩⟩)

/-- What is stored in front of a missing field is nothing new. -/
theorem stored_eq_iff {size : ℕ} {name md5sum : List UInt8} :
    (⟨record.state, record.sizeLast, record.sizePrepared, size, record.resourceUrl, name, md5sum,
        record.resultCode⟩ : Record) = record ↔
      record.resourceSize = size ∧ record.resourceName = name ∧ record.md5sum = md5sum := by
  cases record
  simp [eq_comm]

/-- A task message is right exactly if it fits the record. -/
theorem procTask_right_iff (record : Record) :
    Runs (procTask alloc doc record) (TaskRight alloc doc record) ↔ TaskFits alloc doc record := by
  have hcarries : (∃ task, Carries alloc doc task) → ∃ task, Found alloc doc task :=
    fun ⟨task, h⟩ => ⟨task, h.toFound⟩
  unfold procTask TaskFits Repeats
  by_cases hbusy : record.Busy
  · rw [if_pos hbusy]
    exact iff_of_true ⟨fun _ hfree => absurd hbusy hfree, fun _ => rfl⟩ (.inl hbusy)
  rw [if_neg hbusy, iff_false_intro hbusy, false_or]
  -- The fields are looked up in the order in which they are stored.
  cases hsize : lookup alloc doc (ascii "size") with
  | error e =>
    have hmissing : ¬∃ task, Found alloc doc task :=
      fun ⟨task, h⟩ => by cases hsize.symm.trans h.size
    simp [mt hcarries hmissing]
  | ok size =>
  cases size with
  | none =>
    have hmissing : ¬∃ task, Found alloc doc task :=
      fun ⟨task, h⟩ => by cases hsize.symm.trans h.size
    simp [taskRight_missing hmissing]
  | some size =>
  cases hname : lookup alloc doc (ascii "name") with
  | error e =>
    have hmissing : ¬∃ task, Found alloc doc task :=
      fun ⟨task, h⟩ => by cases hname.symm.trans h.name
    simp [mt hcarries hmissing]
  | ok name =>
  cases name with
  | none =>
    have hmissing : ¬∃ task, Found alloc doc task :=
      fun ⟨task, h⟩ => by cases hname.symm.trans h.name
    simp [taskRight_missing hmissing, mt hcarries hmissing, stored_eq_iff]
  | some name =>
  cases hmd5sum : lookup alloc doc (ascii "md5sum") with
  | error e =>
    have hmissing : ¬∃ task, Found alloc doc task :=
      fun ⟨task, h⟩ => by cases hmd5sum.symm.trans h.md5sum
    simp [mt hcarries hmissing]
  | ok md5sum =>
  cases md5sum with
  | none =>
    have hmissing : ¬∃ task, Found alloc doc task :=
      fun ⟨task, h⟩ => by cases hmd5sum.symm.trans h.md5sum
    simp [taskRight_missing hmissing, mt hcarries hmissing, stored_eq_iff]
  | some md5sum =>
  cases hurl : lookup alloc doc (ascii "url") with
  | error e =>
    have hmissing : ¬∃ task, Found alloc doc task := fun ⟨task, h⟩ => by cases hurl.symm.trans h.url
    simp [mt hcarries hmissing]
  | ok url =>
  cases url with
  | none =>
    have hmissing : ¬∃ task, Found alloc doc task := fun ⟨task, h⟩ => by cases hurl.symm.trans h.url
    simp [taskRight_missing hmissing, mt hcarries hmissing, stored_eq_iff]
  | some url =>
    have hfound : Found alloc doc ⟨size, name, md5sum, url⟩ := ⟨hsize, hname, hmd5sum, hurl⟩
    simpa [started] using taskRight_started hbusy hfound

end Stores

section Messages
variable {msgLen : ℕ} {alloc : List UInt8 → Bool} {text : CString} {handle : Handle}
  {direction : Direction}

/-- A task message is handed to the record of its direction. -/
theorem resourceCallback_task (htask : IsTask msgLen alloc text direction) (post : Record → Prop) :
    Runs (resourceCallback msgLen alloc text handle) (fun after => post (after.get direction)) ↔
      Runs (procTask alloc (text.val ++ [0]) (handle.get direction)) post := by
  obtain ⟨hlen, type, htype, hlookup⟩ := htask
  unfold resourceCallback
  rw [if_neg hlen, hlookup]
  cases direction with
  | download =>
    have hdownload : type = ascii "download" ∨ type = ascii "get_download_task_rsp" := by
      simpa [taskTypes] using htype
    simp only [ok_bind, if_pos hdownload, runs_bind, runs_pure]
    rfl
  | upload =>
    have hupload : type = ascii "create_upload_task_rsp" := by simpa [taskTypes] using htype
    have hother : ¬(type = ascii "download" ∨ type = ascii "get_download_task_rsp") := by
      rw [hupload]
      decide
    simp only [ok_bind, if_neg hother, if_pos hupload, runs_bind, runs_pure]
    rfl

theorem right_iff_fits (handle : Handle) (s : Step) : Right handle s ↔ Fits handle s := by
  cases s with
  | message msgLen alloc text =>
    exact forall_congr' fun direction => forall_congr' fun htask =>
      (resourceCallback_task htask _).trans (procTask_right_iff _)
  | _ => exact Iff.rfl

end Messages

/-- In every run, each task message is taken as a whole or leaves the record of its direction as
it was, exactly if each fits the record that it meets. -/
theorem tasks_right_iff (steps : List Step) :
    Along step Right steps init ↔ Along step Fits steps init := by
  constructor
  · exact fun h => h.mono fun handle s => (right_iff_fits handle s).mp
  · exact fun h => h.mono fun handle s => (right_iff_fits handle s).mpr

def namelessTask : CString := ⟨ascii "\x7b\"type\":\"download\",\"size\":\"7\"\x7d", by decide⟩

/-- The size of the task is stored before its name is missed. -/
theorem tasks_wrong : ¬∀ steps : List Step, Along step Right steps init := by
  intro h
  have htask : IsTask 1 (fun _ => true) namelessTask .download :=
    ⟨Nat.one_ne_zero, ascii "download", List.mem_cons_self .., by decide +kernel⟩
  have hsize : lookup (fun _ => true) (namelessTask.val ++ [0]) (ascii "size") =
      .ok (some (ascii "7")) := by
    decide
  have hname : lookup (fun _ => true) (namelessTask.val ++ [0]) (ascii "name") =
      .ok none := by decide
  have hright := (h [.message 1 (fun _ => true) namelessTask]).1 .download htask
  rcases (procTask_right_iff _).mp ((resourceCallback_task htask _).mp hright) with
    hbusy | ⟨task, hcarries⟩ | hmissing | ⟨size, hfound, hstored, -⟩
  · exact hbusy.2 rfl
  · cases hname.symm.trans hcarries.name
  · cases hsize.symm.trans hmissing
  · cases hsize.symm.trans hfound
    exact absurd hstored (by decide +kernel)

end IotExplorer.ResourceTasks
