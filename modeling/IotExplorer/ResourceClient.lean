import Mathlib.Algebra.Group.Nat.Defs
import Mathlib.Data.List.Basic

/-!
The client of the resource service: the state of a download, and the step that fetches.
-/
namespace IotExplorer.ResourceClient

inductive ResourceState
  | uninited
  | inited
  | start
  | ended
  | disconnected
  deriving DecidableEq, Repr

/-- `QCLOUD_RESOURCE_INFO_T` of a download. -/
structure Info where
  state : ResourceState
  sizePrepared : ℕ
  resourceSize : ℕ
  resultCode : ℕ
  deriving DecidableEq, Repr

/-- What is seen of a step: a percentage that is computed, or a division by zero. -/
inductive Event
  | percent (percent : ℕ)
  | divided
  deriving DecidableEq, Repr

def resourceInfoReset : Info := ⟨.inited, 0, 2 ^ 32 - 1, 0⟩

/-- `_qcloud_iot_resource_report_download_result`; the report is sent or not, and the download is
reset. -/
def reportDownloadResult (info : Info) : Info :=
  if info.state = .uninited then info else resourceInfoReset

/-- `IOT_Resource_StartDownload`, as far as the sizes are concerned. -/
def startDownload (offset : ℕ) (info : Info) : Info := { info with sizePrepared := offset % 2 ^ 32 }

/-- What `qcloud_ofc_fetch` returns: so many bytes, or an error. -/
inductive FetchResult
  | fetched (size : ℕ)
  | authFail
  | notExist
  | failed
  deriving DecidableEq, Repr

/-- The percentage that `IOT_Resource_DownloadYield` computes, in 32 bits. -/
def downloadPercent (sizePrepared resourceSize : ℕ) : ℕ :=
  sizePrepared * 100 % 2 ^ 32 / resourceSize

/-- `IOT_Resource_DownloadYield`. -/
def downloadYield (result : FetchResult) (info : Info) : Info × List Event :=
  if info.state ≠ .start ∨ info.resultCode ≠ 0 then (info, [])
  else
    match result with
    | .authFail => (reportDownloadResult info, [])
    | .notExist => (reportDownloadResult info, [])
    | .failed => (info, [])
    | .fetched size =>
        let sizePrepared := (info.sizePrepared + size) % 2 ^ 32
        let counted := { info with sizePrepared := sizePrepared }
        if info.resourceSize = 0 then (counted, [.divided])
        else
          ({ counted with state := if sizePrepared ≥ info.resourceSize then .ended else .start },
            [.percent (downloadPercent sizePrepared info.resourceSize)])

end IotExplorer.ResourceClient
