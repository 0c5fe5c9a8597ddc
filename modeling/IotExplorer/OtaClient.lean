import IotExplorer.Basis.Runs
import IotExplorer.DeviceProperty
import IotExplorer.HttpClient

/-!
The OTA client: the messages from the server, the state of an update, and the
calls of the application. The JSON lookups are those of the client; the download
channel and the channel to the server are taken by their outcomes, and the digest of
MD5 by the bytes that have been fed to its context.
-/
namespace IotExplorer.OtaClient

open JsonParser JsonLookup TemplateJson DeviceProperty HttpClient

section Messages

/-- A lookup of `_qcloud_otalib_get_firmware_varlen_para`: whether it succeeds, and the text that is
stored; allocations for a key may fail. -/
def getFirmwareVarlenPara (alloc : List UInt8 → Bool) (doc : Ptr) (key : List UInt8)
    (dest : Option (List UInt8)) : Except Overrun (Bool × Option (List UInt8)) :=
  if alloc key then (liteJsonValueOf key doc).map fun value => (value.isSome, value)
  else .ok (false, dest)

/-- A lookup of `_qcloud_otalib_get_firmware_fixlen_para`: the bytes are copied to the start of a
buffer, without a NUL. -/
def getFirmwareFixlenPara (alloc : List UInt8 → Bool) (doc : Ptr) (key dest : List UInt8)
    (destLen : ℕ) : Except Overrun (Bool × List UInt8) :=
  if alloc key then
    (liteJsonValueOf key doc).map fun value =>
      match value with
      | none => (false, dest)
      | some value =>
          if destLen < value.length then (false, dest)
          else (true, value ++ dest.drop value.length)
  else .ok (false, dest)

/-- What is stored from an update message. -/
structure Params where
  purl : Option (List UInt8)
  version : Option (List UInt8)
  md5sum : List UInt8
  sizeFile : ℕ
  usrDefinedInfo : Option (List UInt8)
  deriving DecidableEq, Repr

/-- The fields of an update message one after another, up to the first that is not found. -/
def getFields :
    List (Params → Except Overrun (Bool × Params)) → Params → Except Overrun (Bool × Params)
  | [], params => .ok (true, params)
  | field :: fields, params =>
      match field params with
      | .error e => .error e
      | .ok (false, params) => .ok (false, params)
      | .ok (true, params) => getFields fields params

section Fields
variable (alloc : List UInt8 → Bool) (doc : Ptr) (params : Params)

def typeField : Except Overrun (Bool × Params) :=
  (getFirmwareVarlenPara alloc doc (ascii "type") none).map fun found => (found.1, params)

def versionField : Except Overrun (Bool × Params) :=
  (getFirmwareVarlenPara alloc doc (ascii "version") params.version).map fun found =>
    (found.1, { params with version := found.2 })

def urlField : Except Overrun (Bool × Params) :=
  (getFirmwareVarlenPara alloc doc (ascii "url") params.purl).map fun found =>
    (found.1, { params with purl := found.2 })

def md5Field : Except Overrun (Bool × Params) :=
  (getFirmwareFixlenPara alloc doc (ascii "md5sum") params.md5sum 32).map fun found =>
    (found.1, { params with md5sum := found.2 })

/-- The size is read from a buffer of its own. -/
def sizeField : Except Overrun (Bool × Params) :=
  (getFirmwareFixlenPara alloc doc (ascii "file_size") [] 16).map fun found =>
    (found.1, if found.1 then { params with sizeFile := (atoi found.2 % 2 ^ 32).toNat } else params)

def userField : Except Overrun (Bool × Params) :=
  (getFirmwareVarlenPara alloc doc (ascii "user_defined") params.usrDefinedInfo).map fun found =>
    (found.1, { params with usrDefinedInfo := found.2 })

/-- `qcloud_otalib_get_params`; the type is looked up again first. -/
def getParams : Except Overrun (Bool × Params) :=
  getFields [typeField alloc doc, versionField alloc doc, urlField alloc doc, md5Field alloc doc,
    sizeField alloc doc, userField alloc doc] params

end Fields

/-- `qcloud_otalib_get_report_version_result`. -/
def getReportVersionResult (alloc : List UInt8 → Bool) (doc : Ptr) : Except Overrun Bool :=
  (getFirmwareVarlenPara alloc doc (ascii "result_code") none).map fun found =>
    found.1 && found.2 == some (ascii "0")

end Messages

section Digests

/-- The bytes that `utils_md5_finish` feeds behind so many. -/
def md5Padding (total : ℕ) : List UInt8 :=
  let last := total % 64
  let padn := if last < 56 then 56 - last else 120 - last
  (0x80 :: List.replicate (padn - 1) 0) ++
    (List.range 8).map fun i => UInt8.ofNat (total * 8 / 256 ^ i)

def utilsHb2hex (hb : UInt8) : UInt8 :=
  if hb &&& 0xF < 10 then 0x30 + (hb &&& 0xF) else (hb &&& 0xF) - 10 + 0x61

def digestText (digest : Vector UInt8 16) : List UInt8 :=
  digest.toList.flatMap fun (byte : UInt8) => [utilsHb2hex (byte >>> 4), utilsHb2hex byte]

/-- The digest of the bytes that have been fed since the start of a context. -/
abbrev Md5 := List UInt8 → Vector UInt8 16

end Digests

section Handles

inductive OtaState
  | uninited
  | inited
  | fetching
  | fetched
  | disconnected
  deriving DecidableEq, Repr

/-- `OTA_Struct_t`; the context of MD5 is the bytes fed to it since its start. -/
structure Handle where
  state : OtaState
  sizeFetched : ℕ
  params : Params
  md5 : Option (List UInt8)
  chFetch : Bool
  deriving DecidableEq, Repr

/-- `IOT_OTA_Init`. -/
def init : Handle :=
  ⟨.inited, 0, ⟨none, none, List.replicate 33 0, 0, none⟩, some [], false⟩

/-- What is seen of a call: an accepted update, a reset, a division, an answer on the firmware, or
memory that is accessed where there is none. -/
inductive Event
  | accepted
  | reset
  | divided (divisor : ℕ)
  | answered (right : Bool)
  | fault
  deriving DecidableEq, Repr

/-- `_ota_callback` on a message of the server. -/
def otaCallback (msgLen : ℕ) (alloc : List UInt8 → Bool) (text : CString) (handle : Handle) :
    Handle × List Event :=
  let doc := text.val ++ [0]
  if handle.state = .fetching ∨ handle.state = .fetched ∨ handle.state = .disconnected then
    (handle, [])
  else if msgLen = 0 then (handle, [])
  else
    match getFirmwareVarlenPara alloc doc (ascii "type") none with
    | .error _ => (handle, [.fault])
    | .ok (_, none) => (handle, [])
    | .ok (_, some jsonType) =>
        if jsonType = ascii "report_version_rsp" then
          match getReportVersionResult alloc doc with
          | .error _ => (handle, [.fault])
          | .ok true => (handle, [])
          | .ok false => ({ handle with state := .fetched }, [])
        else if jsonType ≠ ascii "update_firmware" then (handle, [])
        else
          match getParams alloc doc handle.params with
          | .error _ => (handle, [.fault])
          | .ok (false, params) => ({ handle with params := params }, [])
          | .ok (true, params) =>
              ({ handle with params := params, state := .fetching }, [.accepted])

/-- `IOT_OTA_ResetStatus`. -/
def resetStatus (handle : Handle) : Handle × List Event :=
  ({ handle with
    state := .inited, params := { handle.params with purl := none, version := none } }, [.reset])

def versionRight (version : List UInt8) : Bool := 1 ≤ version.length && version.length ≤ 32

/-- `IOT_OTA_ReportVersion`. -/
def reportVersion (version : List UInt8) (handle : Handle) : Handle × List Event :=
  if !versionRight version then (handle, [])
  else if handle.state = .uninited then (handle, [])
  else resetStatus handle

/-- The reports on an upgrade, by what follows them. -/
inductive ReportType
  | downloadTimeout
  | fileNotExist
  | authFail
  | md5NotMatch
  | upgradeFail
  | upgradeBegin
  | upgradeSuccess
  deriving DecidableEq, Repr

/-- `IOT_OTA_ReportUpgradeResult`, whose message is generated and sent or not. -/
def reportUpgradeResult (version : Option (List UInt8)) (reportType : ReportType) (sent : Bool)
    (handle : Handle) : Handle × List Event :=
  match version with
  | none => (handle, [])
  | some version =>
      if handle.state = .uninited then (handle, [])
      else if !versionRight version then (handle, [])
      else if !sent then (handle, [])
      else if reportType = .upgradeFail ∨ reportType = .upgradeSuccess ∨
        reportType = .md5NotMatch then
        resetStatus handle
      else (handle, [])

/-- `IOT_OTA_ResetClientMD5`. -/
def resetClientMd5 (alloc : Bool) (handle : Handle) : Handle :=
  { handle with md5 := if alloc then some [] else none }

/-- `qcloud_otalib_md5_update`. -/
def md5Update (bytes : List UInt8) (handle : Handle) : Handle × List Event :=
  match handle.md5 with
  | none => (handle, [.fault])
  | some fed => ({ handle with md5 := some (fed ++ bytes) }, [])

/-- `IOT_OTA_StartDownload`; `opened` tells whether the fetch module is initialised. -/
def startDownload (offset : ℕ) (alloc opened : Bool) (handle : Handle) : Handle :=
  let handle := { handle with sizeFetched := offset % 2 ^ 32 }
  if offset % 2 ^ 32 = 0 then
    if alloc then { resetClientMd5 true handle with chFetch := opened }
    else resetClientMd5 false handle
  else { handle with chFetch := opened }

/-- `IOT_OTA_FetchYield`; the fetch fails or delivers bytes. -/
def fetchYield (result : Option (List UInt8)) (handle : Handle) : Handle × List Event :=
  if handle.state ≠ .fetching then (handle, [])
  else if !handle.chFetch then (handle, [])
  else
    match result with
    | none => (handle, [])
    | some bytes =>
        let sizeFetched := (handle.sizeFetched + bytes.length) % 2 ^ 32
        if handle.params.sizeFile = 0 then
          ({ handle with sizeFetched := sizeFetched }, [.divided handle.params.sizeFile])
        else
          let fetched := { handle with
            sizeFetched := sizeFetched
            state := if handle.params.sizeFile ≤ sizeFetched then .fetched else .fetching }
          let fed := md5Update bytes fetched
          (fed.1, .divided handle.params.sizeFile :: fed.2)

/-- `IOT_OTA_Ioctl` with `IOT_OTAG_CHECK_FIRMWARE`. -/
def checkFirmware (md5 : Md5) (wellPlaced sent : Bool) (handle : Handle) : Handle × List Event :=
  if !wellPlaced then (handle, [])
  else if handle.state ≠ .fetched then (handle, [])
  else
    match handle.md5 with
    | none => (handle, [.fault])
    | some fed =>
        let finished := { handle with md5 := some (fed ++ md5Padding fed.length) }
        if cstr handle.params.md5sum = digestText (md5 fed) then (finished, [.answered true])
        else
          let reported := reportUpgradeResult handle.params.version .md5NotMatch sent finished
          (reported.1, .answered false :: reported.2)

end Handles

section Steps

/-- What happens to a handle: a message of the server, or a call of the application with what the
channels make of it. -/
inductive Step
  | message (msgLen : ℕ) (alloc : List UInt8 → Bool) (text : CString)
  | reportVersion (version : List UInt8)
  | reportUpgradeResult (version : Option (List UInt8)) (reportType : ReportType) (sent : Bool)
  | startDownload (stored : List UInt8) (alloc opened : Bool)
  | resetClientMd5 (alloc : Bool)
  | updateClientMd5 (bytes : List UInt8)
  | fetchYield (result : Option (List UInt8))
  | checkFirmware (wellPlaced sent : Bool)

/-- A step of a handle. A download is started behind the bytes that the application has stored. -/
def step (md5 : Md5) : Step → Handle → Handle × List Event
  | .message msgLen alloc text, handle => otaCallback msgLen alloc text handle
  | .reportVersion version, handle => OtaClient.reportVersion version handle
  | .reportUpgradeResult version reportType sent, handle =>
      OtaClient.reportUpgradeResult version reportType sent handle
  | .startDownload stored alloc opened, handle =>
      (OtaClient.startDownload stored.length alloc opened handle, [])
  | .resetClientMd5 alloc, handle => (OtaClient.resetClientMd5 alloc handle, [])
  | .updateClientMd5 bytes, handle => md5Update bytes handle
  | .fetchYield result, handle => OtaClient.fetchYield result handle
  | .checkFirmware wellPlaced sent, handle => OtaClient.checkFirmware md5 wellPlaced sent handle

end Steps

end IotExplorer.OtaClient
