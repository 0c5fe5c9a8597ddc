import IotExplorer.Basis.Runs
import IotExplorer.DeviceProperty
import IotExplorer.HttpClient

/-!
The client of the file management: the messages from the server, the state of a download,
the files that wait for a post, and the calls of the application. The JSON lookups are
those of the client; the channels, the memory and the callback of the user are taken by
their outcomes. Strings that a handle stores are followed from the place where they are
stored to the place where they are released.
-/
namespace IotExplorer.FileManageClient

open Basis.Runs Basis.Decimals JsonParser JsonLookup TemplateJson DeviceProperty HttpClient

section Handles

inductive FileState
  | uninitted
  | initted
  | fetching
  | fetched
  | deleting
  deriving DecidableEq, Repr

inductive Field
  | version
  | url
  | fileName
  | fileType
  deriving DecidableEq, Repr

inductive PostField
  | fileName
  | fileVersion
  | fileType
  deriving DecidableEq, Repr

/-- `FilePostInfo`, with the time at which its timer expires. -/
structure FilePostInfo where
  requestId : ℤ
  fileName : List UInt8
  fileVersion : List UInt8
  fileType : List UInt8
  deadline : ℕ
  deriving DecidableEq, Repr

structure Announced where
  version : List UInt8
  url : List UInt8
  fileName : List UInt8
  fileType : List UInt8
  md5sum : List UInt8
  deriving DecidableEq, Repr

/-- `FileManageHandle`, with the time. -/
structure Handle where
  state : FileState
  sizeFetched : ℕ
  sizeFile : ℕ
  version : Option (List UInt8)
  url : Option (List UInt8)
  fileName : Option (List UInt8)
  fileType : Option (List UInt8)
  md5sum : List UInt8
  requestId : ℤ
  fileWaitPostList : List FilePostInfo
  now : ℕ
  deriving DecidableEq, Repr

/-- `IOT_FileManage_Init`. -/
def init : Handle := ⟨.initted, 0, 0, none, none, none, none, List.replicate 33 0, 0, [], 0⟩

/-- What is seen of a step: what becomes of the strings of a download, an accepted update, a reset,
a percentage, a division by zero, and a read outside of a message; and of the files that wait, one
that is appended, posted, reported, or removed, what is released of it, and what a request
returns. -/
inductive Event
  | stored (field : Field) (text : List UInt8)
  | released (field : Field) (text : List UInt8)
  | accepted (announced : Announced)
  | reset
  | percent (percent : ℕ)
  | divided
  | fault
  | appended (info : FilePostInfo)
  | posted (requestId : ℤ)
  | reported (requestId : ℤ)
  | expired (info : FilePostInfo)
  | handled (info : FilePostInfo)
  | releasedPost (requestId : ℤ) (field : PostField)
  | requested (requestId : ℤ)
  | refused
  deriving DecidableEq, Repr

def Handle.get (handle : Handle) : Field → Option (List UInt8)
  | .version => handle.version
  | .url => handle.url
  | .fileName => handle.fileName
  | .fileType => handle.fileType

def Handle.set (handle : Handle) (value : Option (List UInt8)) : Field → Handle
  | .version => { handle with version := value }
  | .url => { handle with url := value }
  | .fileName => { handle with fileName := value }
  | .fileType => { handle with fileType := value }

/-- What a lookup has found is stored in the handle. -/
def store (field : Field) (value : Option (List UInt8)) (handle : Handle) : Handle × List Event :=
  (handle.set value field, (value.map (Event.stored field)).toList)

/-- A string of the handle is released, and its pointer cleared. -/
def release (field : Field) (handle : Handle) : Handle × List Event :=
  (handle.set none field, ((handle.get field).map (Event.released field)).toList)

/-- Parts of a step, one after another. -/
def inOrder (parts : List (Handle → Handle × List Event)) (handle : Handle) : Handle × List Event :=
  run (fun part => part) parts handle

def resetHandleStatus (handle : Handle) : Handle × List Event :=
  inOrder [release .url, release .version, release .fileName, release .fileType, fun handle =>
    (handle, [.reset])] { handle with state := .initted }

end Handles

section Reports

/-- `IOT_FILE_ReportType`. -/
inductive ReportType
  | downloadTimeout
  | fileNotExist
  | authFail
  | md5NotMatch
  | upgradeFail
  | spaceNotEnough
  | fileDelFail
  | none
  | downloadBegin
  | downloading
  | upgradeBegin
  | upgradeSuccess
  | fileDelSuccess
  deriving DecidableEq, Repr

/-- `_file_manage_report_upgrade_result`, with memory for the message or without; what becomes of
the message does not matter. -/
def fileManageReportUpgradeResult (version : Option (List UInt8)) (reportType : ReportType)
    (memory : Bool)
    (handle : Handle) : Handle × List Event :=
  if handle.state = .uninitted then (handle, [])
  else
    match version.or handle.version with
    | none => (handle, [])
    | some version =>
        if version.length < 1 ∨ version.length > 32 then (handle, [])
        else if !memory then (handle, [])
        else if reportType = .downloadBegin ∨ reportType = .downloading ∨
          reportType = .upgradeBegin ∨
            reportType = .none then (handle, [])
        else resetHandleStatus handle

/-- The message that reports a post, up to the token. -/
def postResultText (success : Bool) (token : List UInt8) : List UInt8 :=
  ascii
    "\x7b\"method\":\"report_post_result\",\"report\":\x7b\"progress\":\x7b\"resource_token\":\"" ++
    (token ++ (ascii "\",\"state\":\"done\",\"result_code\":\"" ++
      (ascii (if success then "0\", \"result_msg\":\"success\"\x7d\x7d\x7d"
        else "-1\", \"result_msg\":\"post_fail\"\x7d\x7d\x7d"))))

def decimalInt (n : ℤ) : List UInt8 := (if n < 0 then [45] else []) ++ decimal n.natAbs

/-- The message that asks for a URL. -/
def requestUrlText (info : FilePostInfo) (name : List UInt8) : List UInt8 :=
  ascii "\x7b\"method\":\"request_url\",\"request_id\":\"" ++ (decimalInt info.requestId ++
    (ascii "\",\"report\":\x7b\"resource_name\":\"" ++ (name ++ (ascii "\",\"version\":\"" ++
      (info.fileVersion ++ (ascii "\",\"resource_type\":\"" ++
        (info.fileType ++ ascii "\"\x7d\x7d")))))))

def msgReportLen : ℕ := 256

/-- `_file_manage_report_post_result`: the report arrives when there is memory for it, it is not too
long, and it can be sent. -/
def fileManageReportPostResult (success memory sent : Bool) (token : List UInt8) (requestId : ℤ)
    (handle : Handle) : List Event :=
  if handle.state ≠ .uninitted ∧ memory ∧
    (postResultText success token).length < msgReportLen ∧ sent then
    [.reported requestId]
  else []

end Reports

section Posts

def maxFileWaitPost : ℕ := 10

/-- `_get_file_manage_info_by_request_id`, on the list from its tail: the entry of an id, the
entries that are left, and those that are removed as they have expired. -/
def getInfoByRequestId (now : ℕ) (requestId : ℤ) :
    List FilePostInfo → Option FilePostInfo × List FilePostInfo × List Event
  | [] => (none, [], [])
  | info :: infos =>
      if info.requestId = requestId then (some info, info :: infos, [])
      else
        let (found, left, removed) := getInfoByRequestId now requestId infos
        if info.deadline ≤ now then (found, left, .expired info :: removed)
        else (found, info :: left, removed)

/-- The name of a file behind its last slash. -/
def postName (fileName : List UInt8) : List UInt8 :=
  ((fileName.reverse.takeWhile fun c => c != 47).reverse)

/-- What a request for a post meets: whether the node of the list and the message can be allocated,
and what the publish returns. -/
structure PostOutcome where
  node : Bool
  memory : Bool
  sent : Bool
  deriving DecidableEq, Repr

/-- `IOT_FileManage_Post_Request`. -/
def postRequest (timeoutMs : ℕ) (fileName fileVersion fileType : List UInt8) (outcome : PostOutcome)
    (handle : Handle) : Handle × List Event :=
  let requestId := handle.requestId + 1
  let info := ⟨requestId, fileName, fileVersion, fileType, handle.now + timeoutMs⟩
  let counted := { handle with requestId := requestId }
  if handle.fileWaitPostList.length ≥ maxFileWaitPost ∨ !outcome.node then (counted, [.refused])
  else
    let added := { counted with fileWaitPostList := handle.fileWaitPostList ++ [info] }
    if outcome.memory ∧ (requestUrlText info (postName fileName)).length < msgReportLen ∧
      outcome.sent then
      (added, [.appended info, .requested requestId])
    else (added, [.appended info, .refused])

end Posts

section Messages

/-- What a message meets: allocations for the lookup of a key, memory for reports and iterators,
whether reports can be sent, whether the callback of the user deletes the file, and whether a file
can be posted. -/
structure Outside where
  alloc : List UInt8 → Bool
  memory : Bool
  sent : Bool
  deletes : Bool
  posts : Bool

/-- A lookup of `LITE_json_value_of`, whose allocation may fail. -/
def lookup (alloc : List UInt8 → Bool) (doc : Ptr) (key : List UInt8) :
    Except Overrun (Option (List UInt8)) :=
  if alloc key then liteJsonValueOf key doc else .ok none

structure UpdateFields where
  version : Option (List UInt8)
  url : Option (List UInt8)
  fileName : Option (List UInt8)
  fileType : Option (List UInt8)
  md5sum : Option (List UInt8)
  fileSize : Option (List UInt8)
  deriving DecidableEq

def updateFields (alloc : List UInt8 → Bool) (doc : Ptr) : Except Overrun UpdateFields := do
  let version ← lookup alloc doc (ascii "version")
  let url ← lookup alloc doc (ascii "url")
  let fileName ← lookup alloc doc (ascii "resource_name")
  let fileType ← lookup alloc doc (ascii "resource_type")
  let md5sum ← lookup alloc doc (ascii "md5sum")
  let fileSize ← lookup alloc doc (ascii "file_size")
  return ⟨version, url, fileName, fileType, md5sum, fileSize⟩

/-- The values of an update and its size, when all fields are there. -/
def UpdateFields.announced (fields : UpdateFields) : Option (Announced × List UInt8) := do
  let version ← fields.version
  let url ← fields.url
  let fileName ← fields.fileName
  let fileType ← fields.fileType
  let md5sum ← fields.md5sum
  let fileSize ← fields.fileSize
  return (⟨version, url, fileName, fileType, md5sum⟩, fileSize)

/-- `strncpy` into so many bytes. -/
def strncpy (text : List UInt8) (n : ℕ) : List UInt8 :=
  text.take n ++ List.replicate (n - text.length) 0

/-- The part of the callback for an update. -/
def updateResource (fields : UpdateFields) (outside : Outside) (handle : Handle) :
    Handle × List Event :=
  inOrder [store .version fields.version, store .url fields.url, store .fileName fields.fileName,
    store .fileType fields.fileType, fun handle =>
      match fields.announced with
      | none => fileManageReportUpgradeResult handle.version .fileNotExist outside.memory handle
      | some (announced, fileSize) =>
          ({ handle with
            md5sum := strncpy announced.md5sum 33
            sizeFile := (atoi fileSize % 2 ^ 32).toNat
            state := .fetching }, [.accepted announced])] handle

structure DeleteFields where
  version : Option (List UInt8)
  fileType : Option (List UInt8)
  fileName : Option (List UInt8)
  deriving DecidableEq

def deleteFields (alloc : List UInt8 → Bool) (doc : Ptr) : Except Overrun DeleteFields := do
  let version ← lookup alloc doc (ascii "version")
  let fileType ← lookup alloc doc (ascii "resource_type")
  let fileName ← lookup alloc doc (ascii "resource_name")
  return ⟨version, fileType, fileName⟩

/-- The part of the callback for a delete. -/
def deleteResource (fields : DeleteFields) (outside : Outside) (handle : Handle) :
    Handle × List Event :=
  let complete := fields.version.isSome && fields.fileType.isSome && fields.fileName.isSome
  let reportType := if complete && outside.deletes then .fileDelSuccess else .fileDelFail
  inOrder [store .version fields.version, store .fileType fields.fileType,
    store .fileName fields.fileName,
    fun handle => fileManageReportUpgradeResult handle.version reportType outside.memory handle]
    { handle with state := .deleting }

/-- The token and the URL of a response; the URL is looked up behind the token. -/
def responseFields (alloc : List UInt8 → Bool) (doc : Ptr) :
    Except Overrun (Option (List UInt8 × List UInt8)) := do
  match ← lookup alloc doc (ascii "resource_token") with
  | none => return none
  | some token => return (← lookup alloc doc (ascii "resource_url")).map fun url => (token, url)

/-- The part of the callback for a URL, when its id is read. -/
def requestUrlResp (fields : Except Overrun (Option (List UInt8 × List UInt8))) (requestId : ℤ)
    (outside : Outside) (handle : Handle) : Handle × List Event :=
  if handle.fileWaitPostList.length ≠ 0 ∧ !outside.memory then (handle, [])
  else
    let (found, left, removed) :=
      getInfoByRequestId handle.now requestId handle.fileWaitPostList.reverse
    let looked := { handle with fileWaitPostList := left.reverse }
    match found with
    | none => (looked, removed)
    | some info =>
        match fields with
        | .error _ => (looked, removed ++ [.fault])
        | .ok none => (looked, removed)
        | .ok (some (token, _)) =>
            ({ looked with fileWaitPostList := looked.fileWaitPostList.erase info },
              removed ++ (.posted info.requestId ::
                (fileManageReportPostResult outside.posts outside.memory outside.sent token
                  info.requestId
                  handle ++ [.releasedPost info.requestId .fileName,
                    .releasedPost info.requestId .fileVersion, .handled info])))

def fileManageMsgCallback (msgLen : ℕ) (outside : Outside) (text : CString) (handle : Handle) :
    Handle × List Event :=
  let doc := text.val ++ [0]
  if handle.state = .fetching ∨ handle.state = .fetched ∨ handle.state = .deleting then (handle, [])
  else if msgLen = 0 then (handle, [])
  else
    match lookup outside.alloc doc (ascii "method") with
    | .error _ => (handle, [.fault])
    | .ok none => (handle, [])
    | .ok (some method) =>
        if method = ascii "report_version_rsp" then
          match lookup outside.alloc doc (ascii "result_code") with
          | .error _ => (handle, [.fault])
          | .ok code =>
              if code = some (ascii "0") then (handle, [])
                else ({ handle with state := .fetched }, [])
        else if method = ascii "update_resource" then
          match updateFields outside.alloc doc with
          | .error _ => (handle, [.fault])
          | .ok fields => updateResource fields outside handle
        else if method = ascii "del_resource" then
          match deleteFields outside.alloc doc with
          | .error _ => (handle, [.fault])
          | .ok fields => deleteResource fields outside handle
        else if method = ascii "request_url_resp" then
          match lookup outside.alloc doc (ascii "request_id") with
          | .error _ => (handle, [.fault])
          | .ok none => (handle, [])
          | .ok (some requestId) =>
              requestUrlResp (responseFields outside.alloc doc) (atoi requestId) outside handle
        else (handle, [])

end Messages

section Calls

/-- `IOT_FileManage_ReportVersion`. -/
def reportVersion (handle : Handle) : Handle × List Event :=
  if handle.state = .uninitted then (handle, []) else resetHandleStatus handle

/-- `IOT_FileManage_StartDownload`, as far as the handle is concerned. -/
def startDownload (offset : ℕ) (handle : Handle) : Handle :=
  { handle with sizeFetched := offset % 2 ^ 32 }

/-- What a fetch returns: so many bytes, or an error. -/
inductive FetchResult
  | fetched (size : ℕ)
  | authFail
  | notExist
  | failed
  deriving DecidableEq, Repr

/-- The percentage that `IOT_FileManage_FetchYield` computes, in 32 bits. -/
def fetchPercent (sizeFetched sizeFile : ℕ) : ℕ := sizeFetched * 100 % 2 ^ 32 / sizeFile

/-- `IOT_FileManage_FetchYield`. -/
def fetchYield (result : FetchResult) (memory : Bool) (handle : Handle) : Handle × List Event :=
  if handle.state ≠ .fetching then (handle, [])
  else
    match result with
    | .authFail => fileManageReportUpgradeResult handle.version .authFail memory handle
    | .notExist => fileManageReportUpgradeResult handle.version .fileNotExist memory handle
    | .failed => (handle, [])
    | .fetched size =>
        let sizeFetched := (handle.sizeFetched + size) % 2 ^ 32
        let counted := { handle with sizeFetched := sizeFetched }
        if handle.sizeFile = 0 then (counted, [.divided])
        else
          ({ counted with state := if sizeFetched ≥ handle.sizeFile then .fetched else .fetching },
            [.percent (fetchPercent sizeFetched handle.sizeFile)])

/-- `IOT_FileManage_Ioctl` with `IOT_FILE_CMD_CHECK_FIRMWARE`; the digest matches or not. -/
def checkFirmware (wellPlaced right memory : Bool) (handle : Handle) : Handle × List Event :=
  if !wellPlaced ∨ handle.state ≠ .fetched ∨ right then (handle, [])
  else fileManageReportUpgradeResult handle.version .md5NotMatch memory handle

/-- `IOT_FileManage_Destroy`, as far as the strings of a download are concerned. -/
def destroy (handle : Handle) : Handle × List Event :=
  if handle.state = .uninitted then (handle, [])
  else
    inOrder [release .url, release .version, release .fileName, release .fileType]
      { handle with state := .uninitted }

end Calls

section Steps

/-- What happens to a handle: a message of the server, a call of the application, or time passes. -/
inductive Step
  | message (msgLen : ℕ) (outside : Outside) (text : CString)
  | reportVersion
  | reportUpgradeResult (version : Option (List UInt8)) (reportType : ReportType) (memory : Bool)
  | startDownload (offset : ℕ)
  | fetchYield (result : FetchResult) (memory : Bool)
  | checkFirmware (wellPlaced right memory : Bool)
  | postRequest (timeoutMs : ℕ) (fileName fileVersion fileType : List UInt8) (outcome : PostOutcome)
  | tick (ms : ℕ)

def step : Step → Handle → Handle × List Event
  | .message msgLen outside text, handle => fileManageMsgCallback msgLen outside text handle
  | .reportVersion, handle => FileManageClient.reportVersion handle
  | .reportUpgradeResult version reportType memory, handle =>
      fileManageReportUpgradeResult version reportType memory handle
  | .startDownload offset, handle => (FileManageClient.startDownload offset handle, [])
  | .fetchYield result memory, handle => FileManageClient.fetchYield result memory handle
  | .checkFirmware wellPlaced right memory, handle =>
      FileManageClient.checkFirmware wellPlaced right memory handle
  | .postRequest timeoutMs fileName fileVersion fileType outcome, handle =>
      FileManageClient.postRequest timeoutMs fileName fileVersion fileType outcome handle
  | .tick ms, handle => ({ handle with now := handle.now + ms }, [])

end Steps

end IotExplorer.FileManageClient
