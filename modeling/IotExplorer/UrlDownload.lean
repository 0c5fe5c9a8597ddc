import IotExplorer.Basis.Runs
import IotExplorer.Basis.Tilings
import IotExplorer.HttpCounters
import IotExplorer.HttpRequest

/-!
A download in segments: a file is fetched with one request after another, each for a
range of bytes, and the next one is made when as many bytes have been counted as were
requested. The ranges tile what is to be fetched. What is counted are differences of
the counters of the HTTP client.
-/
namespace IotExplorer.UrlDownload

open Basis.Runs Basis.Tilings Basis.Decimals TemplateJson HttpClient HttpCounters
open DeviceProperty (sign signedText)
open HttpRequest (printed)

section Download

/-- `HTTPSegmentInfo`; its numbers are `uint32_t`. -/
structure SegmentInfo where
  offset : ℕ
  totalSize : ℕ
  fetchedSize : ℕ
  fetchSize : ℕ
  segmentSize : ℕ
  deriving DecidableEq, Repr

/-- `HTTPUrlDownloadHandle`; that the network has a handle is part of `httpData`. -/
structure Handle where
  url : List UInt8
  header : List UInt8
  httpData : ClientData
  info : SegmentInfo
  deriving DecidableEq, Repr

/-- A request with a port, the range it asks for and its header, or bytes that come into the
buffer of a fetch. -/
inductive Event
  | requested (port : ℕ) (range : Stretch) (header : List UInt8)
  | received (count : ℕ)
  deriving DecidableEq, Repr

/-- `HTTP_HEAD_CONTENT_LEN`. -/
def headContentLen : ℕ := 256

/-- `qcloud_url_download_init`, with what its allocations find. -/
def urlDownloadInit (memory headerMemory : Bool) (url : List UInt8)
    (offset fileSize segmentSize : ℕ) :
    Option Handle :=
  if fileSize = 0 then none
  else if segmentSize = 0 then none
  else if !memory then none
  else if !headerMemory then none
  else some
    { url := url
      header := []
      httpData := ⟨false, false, 0, 0, false⟩
      info := ⟨offset, fileSize, 0, 0, segmentSize⟩ }

def rangeText (range : Stretch) : List UInt8 :=
  ascii "Accept: text/html,application/xhtml+xml,application/xml;q=0.9,*/*;q=0.8\r\n" ++
    (ascii "Accept-Encoding: gzip, deflate\r\n" ++
      (ascii "Range: bytes=" ++ signedText range.first ++ ascii "-" ++ signedText
        range.last ++ crlf ++
        ascii "Connection: keep-alive\r\n"))

/-- `ofc_set_request_range`: it fails when nothing remains. The size that remains is an `int`, which
is compared as a `uint32_t`, and `%d` prints the offsets. -/
def ofcSetRequestRange (h : Handle) : Option (Stretch × Handle) :=
  let remainSize := ((h.info.totalSize : ℤ) - h.info.offset).bmod (2 ^ 32)
  if remainSize = 0 then none
  else
    let remain := (remainSize % 2 ^ 32).toNat
    let fetchSize := if h.info.segmentSize < remain then h.info.segmentSize else remain
    let range : Stretch :=
      ⟨(h.info.offset : ℤ).bmod (2 ^ 32), ((h.info.offset : ℤ) + fetchSize - 1).bmod (2 ^ 32)⟩
    some (range, { h with
      header := printed headContentLen (rangeText range)
      httpData := ⟨false, false, 0, 0, h.httpData.connected⟩
      info := { h.info with
        fetchSize := fetchSize
        fetchedSize := 0
        offset := (h.info.offset + fetchSize) % 2 ^ 32 } })

/-- `qcloud_http_client_common`, which has sent the request and is connected, or is not. -/
def httpClientCommon (link : Bool) (port : ℕ) (range : Stretch) (h : Handle) :
    Handle × List Event :=
  ({ h with httpData := { h.httpData with connected := link } }, [.requested port range h.header])

/-- The port for a URL; `https` is `OTA_USE_HTTPS`, by which its callers choose the argument of
`qcloud_url_download_connect`, too. -/
def portOf (https : Bool) (url : List UInt8) : ℕ :=
  if (strstr url (ascii "https")).isSome && https then 443 else 80

/-- `ofc_set_request_range`, and the request if there is a range for it. -/
def requestRange (https link : Bool) (h : Handle) : Handle × List Event :=
  match ofcSetRequestRange h with
  | none => (h, [])
  | some (range, h) => httpClientCommon link (portOf https h.url) range h

def urlDownloadConnect (https link : Bool) (h : Handle) : Handle × List Event :=
  requestRange https link h

/-- A call of `qcloud_url_download_fetch`: the buffer, the reads, the bytes that come, and whether a
request that it makes is sent. A call without a buffer is one with a buffer of no bytes. -/
structure Fetch where
  bufLen : ℕ
  reads : List Read
  stream : List UInt8
  link : Bool
  deriving DecidableEq, Repr

/-- What `qcloud_http_recv_data` makes of a call. -/
def recvData (fetch : Fetch) (h : Handle) : Exit :=
  qcloudHttpRecvData fetch.bufLen fetch.reads h.httpData fetch.stream

/-- The bytes that a successful call has received are the difference of the counters behind it and
in front of it. -/
def countFetched (exit : Exit) (h : Handle) : Handle :=
  let diff := (h.httpData.responseContentLen - h.httpData.retrieveLen).bmod (2 ^ 32)
  let client := exit.call.client
  let recvLen := ((client.responseContentLen - client.retrieveLen - diff) % 2 ^ 32).toNat
  { h with
    httpData := client
    info := { h.info with fetchedSize := (h.info.fetchedSize + recvLen) % 2 ^ 32 } }

/-- `qcloud_url_download_fetch`. There is no handle behind a call that has not returned, or has
looked at a byte that no read has put there. -/
def urlDownloadFetch (https : Bool) (fetch : Fetch) : Option Handle → Option Handle × List Event
  | none => (none, [])
  | some h =>
      let exit := recvData fetch h
      let received := Event.received exit.call.text.length
      match exit.outcome with
      | .returned .success =>
          let h := countFetched exit h
          if h.info.fetchedSize = h.info.fetchSize then
            (some (requestRange https fetch.link h).1,
              received :: (requestRange https fetch.link h).2)
          else (some h, [received])
      | .returned _ => (some { h with httpData := exit.call.client }, [received])
      | _ => (none, [received])

/-- A download: `qcloud_url_download_connect`, and calls of `qcloud_url_download_fetch`. -/
def download (https link : Bool) (fetches : List Fetch) (h : Handle) : Option Handle × List Event :=
  let connected := urlDownloadConnect https link h
  let fetched := run (urlDownloadFetch https) fetches (some connected.1)
  (fetched.1, connected.2 ++ fetched.2)

end Download

section Requests

def Event.range : Event → Option Stretch
  | .requested _ range _ => some range
  | .received _ => none

def requests (log : List Event) : List Stretch := log.filterMap Event.range

/-- The bytes that have come behind the last request. -/
def sinceRequest (log : List Event) : ℕ :=
  log.foldl (fun count event => match event with
    | .requested _ _ _ => 0
    | .received more => count + more) 0

/-- A further request is made when the bytes of the one before it have come. -/
def Awaited (log : List Event) : Prop :=
  ∀ front port range header back, log = front ++ .requested port range header :: back →
    ∀ previous, (requests front).getLast? = some previous → (sinceRequest front : ℤ) = previous.size

structure RequestsRight (offset fileSize segmentSize : ℕ) (log : List Event) : Prop where
  tiles : ∃ next, Tiles segmentSize fileSize offset (requests log) next
  apart : (requests log).Pairwise fun range later => range.last < later.first
  within : ∀ range ∈ requests log, (offset : ℤ) ≤ range.first ∧ range.first ≤ range.last ∧
    range.last ≤ (fileSize : ℤ) - 1
  headers : ∀ port range header, .requested port range header ∈ log → header = rangeText range
  awaited : Awaited log

/-- The HTTP client counts what the fetch hands over: it goes on with a body that is counted, or it
receives the first answer to a request, and this tells its length. The buffer has the length of an
`int`, and what has come for the request fits a `uint32_t`. -/
structure Counted (fetch : Fetch) (h : Handle) : Prop where
  buffer : fetch.bufLen < 2 ^ 31
  fits : h.info.fetchedSize + (recvData fetch h).call.text.length < 2 ^ 32
  further : h.httpData.isMore = true → Further h.httpData
  answer : h.httpData.isMore = false →
    ∀ data ∈ answerHeader h.httpData.retrieveLen fetch.stream fetch.reads,
      h.httpData.responseContentLen = h.httpData.retrieveLen ∧ NamesLength data

/-- The condition of a fetch, whose buffer has a place and whose client is connected. -/
def CountedAt (state : Option Handle) (fetch : Fetch) : Prop :=
  ∀ h ∈ state, h.httpData.connected = true → fetch.bufLen ≠ 0 → Counted fetch h

end Requests

section Fetches
variable {fetch : Fetch} {h : Handle}

theorem recvData_empty (hbuf : fetch.bufLen = 0) :
    recvData fetch h = ⟨.returned .success, ⟨[], [], h.httpData, fetch.stream⟩, fetch.reads⟩ := by
  rw [recvData, qcloudHttpRecvData, if_pos hbuf]

/-- Without a connection nothing is received. -/
theorem recvData_disconnected (hconnected : h.httpData.connected = false)
    (hbuf : fetch.bufLen ≠ 0) :
    (recvData fetch h).outcome = .returned .conn := by
  rw [recvData, qcloudHttpRecvData, if_neg hbuf, httpClientRecvResponse]
  dsimp only
  rw [hconnected, if_pos (by decide)]

/-- A failure closes the connection. -/
theorem recvData_closes {code : HttpCode} (houtcome : (recvData fetch h).outcome = .returned code)
    (hcode : code ≠ .success) : (recvData fetch h).call.client.connected = false := by
  rw [recvData, qcloudHttpRecvData] at houtcome ⊢
  split_ifs at houtcome ⊢
  · exact absurd (Outcome.returned.inj houtcome).symm hcode
  · dsimp only at houtcome ⊢
    split at houtcome
    · next heq => exact absurd (Outcome.returned.inj (houtcome.symm.trans heq)) hcode
    · exact absurd (Outcome.returned.inj houtcome).symm hcode
    · rfl
    · next hnot => exact absurd houtcome (hnot code)

/-- What a fetch counts. -/
theorem recvData_counts (hbuf : fetch.bufLen ≠ 0) (hcounted : Counted fetch h)
    (houtcome : (recvData fetch h).outcome = .returned .success) :
    Counts (h.httpData.responseContentLen - h.httpData.retrieveLen) (recvData fetch h).call := by
  have hcounts := @recvResponse_counts fetch.reads fetch.bufLen h.httpData fetch.stream
    hcounted.further hcounted.answer
  rw [recvData, qcloudHttpRecvData, if_neg hbuf] at houtcome ⊢
  dsimp only at houtcome ⊢
  split at houtcome
  · next heq => exact hcounts (.inl heq)
  · next heq => exact hcounts (.inr heq)
  · exact hcounts (.inl houtcome)
  · exact hcounts (.inl houtcome)

/-- The number of bytes that is added is that of the bytes handed over. -/
theorem recvLen_eq {total : ℤ} {call : Call} (h : Counts total call) :
    ((call.client.responseContentLen - call.client.retrieveLen - total.bmod (2 ^ 32)) % 2 ^
      32).toNat =
      call.text.length % 2 ^ 32 := by
  have hcongr := dvd_bmod_sub total
  rw [Counts] at h
  omega

end Fetches

section Ranges
variable {offset fileSize segmentSize : ℕ} {handle : Handle} {https link : Bool}

/-- A handle whose requests have tiled what is in front of its offset. -/
structure At (fileSize segmentSize : ℕ) (offset : ℕ) (h : Handle) : Prop where
  total : h.info.totalSize = fileSize
  segment : h.info.segmentSize = segmentSize
  next : h.info.offset = offset

theorem signedText_short {value : ℤ} (hpos : 0 ≤ value) (hint : value < 2 ^ 31) :
    (signedText value).length ≤ 10 := by
  rw [signedText, decide_eq_false (by omega), sign, if_neg Bool.false_ne_true, List.nil_append,
    decimal_length_le_iff _ _ (by decide)]
  omega

/-- The header has a place in its buffer. -/
theorem printed_rangeText {range : Stretch} (hfirst : 0 ≤ range.first)
    (hle : range.first ≤ range.last)
    (hlast : range.last < 2 ^ 31) :
    printed headContentLen (rangeText range) = rangeText range := by
  have hfirst' := signedText_short hfirst (by omega)
  have hlast' := signedText_short (by omega) hlast
  rw [printed, List.take_of_length_le]
  have haccept : (ascii
      "Accept: text/html,application/xhtml+xml,application/xml;q=0.9,*/*;q=0.8\r\n").length =
        73 := by
    decide
  have hencoding : (ascii "Accept-Encoding: gzip, deflate\r\n").length = 32 := by decide
  have hrange : (ascii "Range: bytes=").length = 13 := by decide
  have hminus : (ascii "-").length = 1 := by decide
  have hconnection : (ascii "Connection: keep-alive\r\n").length = 24 := by decide
  have hcrlf : crlf.length = 2 := rfl
  have hsize : headContentLen = 256 := rfl
  simp only [rangeText, List.length_append]
  omega

theorem requestRange_end (h : At fileSize segmentSize fileSize handle) :
    requestRange https link handle = (handle, []) := by
  rw [requestRange, ofcSetRequestRange, h.total, h.next, Int.sub_self]
  rfl

/-- The range of a request is cut off from what remains. -/
theorem requestRange_cut (h : At fileSize segmentSize offset handle) (hoffset : offset < fileSize)
    (hfile : fileSize < 2 ^ 31) (hsegment : 0 < segmentSize) :
    requestRange https link handle =
      ({ handle with
          header := rangeText (cut segmentSize offset fileSize)
          httpData := ⟨false, false, 0, 0, link⟩
          info := { handle.info with
            fetchSize := min segmentSize (fileSize - offset)
            fetchedSize := 0
            offset := offset + min segmentSize (fileSize - offset) } },
        [.requested (portOf https handle.url) (cut segmentSize offset fileSize)
          (rangeText (cut segmentSize offset fileSize))]) := by
  have hremain : ((fileSize : ℤ) - offset).bmod (2 ^ 32) = fileSize - offset :=
    Int.bmod_eq_of_le (by omega) (by omega)
  have hlong : ¬ ((fileSize : ℤ) - offset = 0) := by omega
  have hnat : (((fileSize : ℤ) - offset) % 2 ^ 32).toNat = fileSize - offset := by omega
  have hmin : (if segmentSize < fileSize - offset then segmentSize else fileSize - offset) =
      min segmentSize (fileSize - offset) := by
    split_ifs <;> omega
  have hfirst : (offset : ℤ).bmod (2 ^ 32) = offset := Int.bmod_eq_of_le (by omega) (by omega)
  have hlast : ((offset : ℤ) + (min segmentSize (fileSize - offset) : ℕ) - 1).bmod (2 ^ 32) =
      offset + min (segmentSize : ℤ) (fileSize - offset) - 1 := by
    rw [Int.bmod_eq_of_le] <;> omega
  have hheader : printed headContentLen (rangeText (cut segmentSize offset fileSize)) =
      rangeText (cut segmentSize offset fileSize) := by
    apply printed_rangeText <;> rw [cut] <;> dsimp only <;> omega
  rw [requestRange, ofcSetRequestRange]
  dsimp only
  rw [h.total, h.next, h.segment, hremain, if_neg hlong, hnat, hmin, hfirst, hlast,
    Nat.mod_eq_of_lt (by omega)]
  rw [cut] at hheader ⊢
  dsimp only [httpClientCommon]
  rw [hheader]

end Ranges

section Logs
variable {log : List Event} {port count : ℕ} {range : Stretch} {header : List UInt8}

@[simp] theorem requests_received :
    requests (log ++ [.received count]) = requests log := by
  simp [requests, Event.range]

@[simp] theorem requests_requested :
    requests (log ++ [.requested port range header]) = requests log ++ [range] := by
  simp [requests, Event.range]

@[simp] theorem sinceRequest_received :
    sinceRequest (log ++ [.received count]) = sinceRequest log + count := by
  simp [sinceRequest]

@[simp] theorem sinceRequest_requested :
    sinceRequest (log ++ [.requested port range header]) = 0 := by
  simp [sinceRequest]

theorem Awaited.received (h : Awaited log) : Awaited (log ++ [.received count]) := by
  intro front port range header back heq
  rcases List.eq_nil_or_concat back with rfl | ⟨back', event, rfl⟩
  · cases (List.append_inj' heq rfl).2
  · rw [List.concat_eq_append, ← List.cons_append, ← List.append_assoc] at heq
    exact h front port range header back' (List.append_inj' heq rfl).1

theorem Awaited.requested (h : Awaited log)
    (hsince : ∀ previous, (requests log).getLast? = some previous →
      (sinceRequest log : ℤ) = previous.size) :
    Awaited (log ++ [.requested port range header]) := by
  intro front port range header back heq
  rcases List.eq_nil_or_concat back with rfl | ⟨back', event, rfl⟩
  · rw [← (List.append_inj' heq rfl).1]
    exact hsince
  · rw [List.concat_eq_append, ← List.cons_append, ← List.append_assoc] at heq
    exact h front port range header back' (List.append_inj' heq rfl).1

end Logs

section Runs
variable {offset fileSize segmentSize : ℕ} {state : Option Handle} {handle : Handle}
  {log : List Event}
  {https link : Bool} {fetch : Fetch}

structure Tiled (offset fileSize segmentSize : ℕ) (state : Option Handle) (log : List Event) :
    Prop where
  place : ∃ next : ℕ, next ≤ fileSize ∧ Tiles segmentSize fileSize offset (requests log) next ∧
    ∀ h ∈ state, At fileSize segmentSize next h
  headers : ∀ port range header, .requested port range header ∈ log → header = rangeText range

theorem Tiled.received {state' : Option Handle} {count : ℕ}
    (h : Tiled offset fileSize segmentSize state log)
    (hstate : ∀ next, (∀ h ∈ state, At fileSize segmentSize next h) →
      ∀ h ∈ state', At fileSize segmentSize next h) :
    Tiled offset fileSize segmentSize state' (log ++ [.received count]) := by
  obtain ⟨⟨next, hle, htiles, hat⟩, hheaders⟩ := h
  refine ⟨⟨next, hle, by rwa [requests_received], hstate next hat⟩, ?_⟩
  intro port range header hmem
  rw [List.mem_append, List.mem_singleton] at hmem
  exact hheaders port range header (hmem.resolve_right Event.noConfusion)

theorem Tiled.request (hfile : fileSize < 2 ^ 31) (hsegment : 0 < segmentSize)
    (h : Tiled offset fileSize segmentSize (some handle) log) :
    Tiled offset fileSize segmentSize (some (requestRange https link handle).1)
      (log ++ (requestRange https link handle).2) := by
  obtain ⟨⟨next, hle, htiles, hat⟩, hheaders⟩ := h
  have hat := hat handle rfl
  rcases Nat.lt_or_eq_of_le hle with hlt | rfl
  · rw [requestRange_cut hat hlt hfile hsegment]
    refine ⟨⟨next + min segmentSize (fileSize - next), by omega, ?_, ?_⟩, ?_⟩
    · have hnext : ((next + min segmentSize (fileSize - next) : ℕ) : ℤ) =
          next + min (segmentSize : ℤ) (fileSize - next) := by omega
      rw [requests_requested, hnext]
      exact htiles.concat (by omega)
    · rintro h ⟨⟩
      exact ⟨hat.total, hat.segment, rfl⟩
    · intro port range header hmem
      rcases List.mem_append.mp hmem with hmem | hmem
      · exact hheaders port range header hmem
      · cases List.mem_singleton.mp hmem
        rfl
  · rw [requestRange_end hat, List.append_nil]
    exact ⟨⟨next, hle, htiles, fun h hmem => by cases hmem; exact hat⟩, hheaders⟩

theorem Tiled.step (hfile : fileSize < 2 ^ 31) (hsegment : 0 < segmentSize)
    (h : Tiled offset fileSize segmentSize state log) :
    Tiled offset fileSize segmentSize (urlDownloadFetch https fetch state).1
      (log ++ (urlDownloadFetch https fetch state).2) := by
  cases state with
  | none => rwa [urlDownloadFetch, List.append_nil]
  | some handle =>
    have hsame : ∀ client fetchedSize count, Tiled offset fileSize segmentSize
        (some { handle with
          httpData := client, info := { handle.info with fetchedSize := fetchedSize } })
        (log ++ [.received count]) := by
      intro client fetchedSize count
      apply h.received
      rintro next hat h ⟨⟩
      have hat := hat handle rfl
      exact ⟨hat.total, hat.segment, hat.next⟩
    rw [urlDownloadFetch]
    split
    · dsimp only
      split_ifs
      · rw [List.append_cons]
        exact (hsame _ _ _).request hfile hsegment
      · exact hsame _ _ _
    · exact hsame _ _ _
    · exact h.received fun next _ h hmem => by cases hmem

/-- What a handle remembers of its last request, and of what has come behind it. -/
structure Pending (fileSize : ℕ) (log : List Event) (h : Handle) : Prop where
  last : ∃ last, (requests log).getLast? = some last ∧ (h.info.fetchSize : ℤ) = last.size
  counted : h.httpData.connected = true → h.info.fetchedSize = sinceRequest log
  small : h.info.fetchedSize < 2 ^ 32
  ready : h.info.fetchedSize = h.info.fetchSize → h.info.offset = fileSize

structure Waits (fileSize : ℕ) (state : Option Handle) (log : List Event) : Prop where
  awaited : Awaited log
  pending : ∀ h ∈ state, Pending fileSize log h

theorem waits_request (hfile : fileSize < 2 ^ 31) (hsegment : 0 < segmentSize)
    (hat : At fileSize segmentSize offset handle) (hoffset : offset < fileSize)
    (hawaited : Awaited log)
    (hsince : ∀ previous, (requests log).getLast? = some previous →
      (sinceRequest log : ℤ) = previous.size) :
    Waits fileSize (some (requestRange https link handle).1)
      (log ++ (requestRange https link handle).2) := by
  rw [requestRange_cut hat hoffset hfile hsegment]
  refine ⟨hawaited.requested hsince, ?_⟩
  rintro h ⟨⟩
  refine ⟨⟨cut segmentSize offset fileSize, ?_, ?_⟩, ?_, ?_, ?_⟩
  · rw [requests_requested, List.getLast?_append, List.getLast?_singleton, Option.some_or]
  · rw [cut_size]
    dsimp only
    omega
  · intro _
    rw [sinceRequest_requested]
  · dsimp only
    omega
  · intro hready
    dsimp only at hready
    omega

/-- A fetch that succeeds adds what it has handed over. -/
theorem countFetched_eq (hsmall : handle.info.fetchedSize < 2 ^ 32)
    (hcounted : handle.httpData.connected = true → fetch.bufLen ≠ 0 → Counted fetch handle)
    (houtcome : (recvData fetch handle).outcome = .returned .success) :
    (countFetched (recvData fetch handle) handle).info.fetchedSize =
        handle.info.fetchedSize + (recvData fetch handle).call.text.length ∧
      handle.info.fetchedSize + (recvData fetch handle).call.text.length < 2 ^ 32 ∧
      (handle.httpData.connected = false → (recvData fetch handle).call.text.length = 0 ∧
        (recvData fetch handle).call.client.connected = false) := by
  have hadd : Counts (handle.httpData.responseContentLen - handle.httpData.retrieveLen)
      (recvData fetch handle).call →
      handle.info.fetchedSize + (recvData fetch handle).call.text.length < 2 ^ 32 →
      (countFetched (recvData fetch handle) handle).info.fetchedSize =
        handle.info.fetchedSize + (recvData fetch handle).call.text.length := by
    intro hcounts hfits
    rw [countFetched]
    dsimp only
    rw [recvLen_eq hcounts]
    omega
  by_cases hbuf : fetch.bufLen = 0
  · have hempty := @recvData_empty _ handle hbuf
    have htext : (recvData fetch handle).call.text.length = 0 := by rw [hempty]; rfl
    have hfits : handle.info.fetchedSize + (recvData fetch handle).call.text.length <
        2 ^ 32 := by omega
    refine ⟨hadd ?_ hfits, hfits, ?_⟩
    · rw [Counts, htext, hempty]
      dsimp only
      omega
    · intro hconnected
      refine ⟨htext, ?_⟩
      rw [hempty]
      exact hconnected
  · have hconnected : handle.httpData.connected = true := by
      by_contra hnot
      have hconn := recvData_disconnected (Bool.eq_false_of_not_eq_true hnot) hbuf
      cases houtcome.symm.trans hconn
    have hcounted := hcounted hconnected hbuf
    refine ⟨hadd (recvData_counts hbuf hcounted houtcome) hcounted.fits, hcounted.fits, ?_⟩
    intro hnot
    cases hnot.symm.trans hconnected

/-- When as much is counted as was requested, with more to request, that much has come. -/
theorem Pending.counts (h : Pending fileSize log handle)
    (hcounted : handle.httpData.connected = true → fetch.bufLen ≠ 0 → Counted fetch handle)
    (houtcome : (recvData fetch handle).outcome = .returned .success) {handle' : Handle}
    {log' : List Event}
    (hhandle : countFetched (recvData fetch handle) handle = handle')
    (hlog : log ++ [.received (recvData fetch handle).call.text.length] = log') :
    (handle'.info.fetchedSize = handle'.info.fetchSize → handle'.info.offset ≠ fileSize →
        handle'.info.fetchSize = sinceRequest log') ∧
      ((handle'.info.fetchedSize = handle'.info.fetchSize → handle'.info.offset = fileSize) →
        Pending fileSize log' handle') := by
  obtain ⟨⟨last, hlast, hsize⟩, hcount, hsmall, hready⟩ := h
  obtain ⟨hadd, hfits, hdisconnected⟩ := countFetched_eq hsmall hcounted houtcome
  have hfetchSize : handle'.info.fetchSize = handle.info.fetchSize := by rw [← hhandle]; rfl
  have hoffset : handle'.info.offset = handle.info.offset := by rw [← hhandle]; rfl
  have hclient : handle'.httpData = (recvData fetch handle).call.client := by rw [← hhandle]; rfl
  rw [hhandle] at hadd
  subst hlog
  rw [hfetchSize, hoffset]
  constructor
  · intro hfull hmore
    have hconnected : handle.httpData.connected = true := by
      by_contra hnot
      have hzero := (hdisconnected (Bool.eq_false_of_not_eq_true hnot)).1
      exact hmore (hready (by omega))
    rw [sinceRequest_received, ← hcount hconnected]
    omega
  · intro hready'
    refine ⟨⟨last, by rwa [requests_received], by rw [hfetchSize, hsize]⟩, ?_, by omega, ?_⟩
    · intro hconnected
      rw [hclient] at hconnected
      have hconnected' : handle.httpData.connected = true := by
        by_contra hnot
        cases hconnected.symm.trans (hdisconnected (Bool.eq_false_of_not_eq_true hnot)).2
      rw [sinceRequest_received, ← hcount hconnected', hadd]
    · rwa [hfetchSize, hoffset]

theorem Waits.step (hfile : fileSize < 2 ^ 31) (hsegment : 0 < segmentSize)
    (htiled : Tiled offset fileSize segmentSize state log) (h : Waits fileSize state log)
    (hcounted : CountedAt state fetch) :
    Waits fileSize (urlDownloadFetch https fetch state).1
      (log ++ (urlDownloadFetch https fetch state).2) := by
  cases state with
  | none => rwa [urlDownloadFetch, List.append_nil]
  | some handle =>
    obtain ⟨next, hle, -, hat⟩ := htiled.place
    have hat := hat handle rfl
    obtain ⟨hawaited, hpending⟩ := h
    have hpending := hpending handle rfl
    obtain ⟨last, hlast, hsize⟩ := hpending.last
    rw [urlDownloadFetch]
    split
    · next houtcome =>
      obtain ⟨hfull, hrest⟩ := hpending.counts (hcounted handle rfl) houtcome rfl rfl
      have hat' : At fileSize segmentSize next (countFetched (recvData fetch handle) handle) :=
        ⟨hat.total, hat.segment, hat.next⟩
      dsimp only
      split_ifs with heq
      · rw [List.append_cons]
        rcases Nat.lt_or_eq_of_le hle with hlt | hend
        · apply waits_request hfile hsegment hat' hlt hawaited.received
          intro previous hprevious
          rw [requests_received, hlast] at hprevious
          cases hprevious
          rw [← hfull heq (by rw [hat'.next]; omega)]
          exact hsize
        · rw [requestRange_end (hend ▸ hat'), List.append_nil]
          refine ⟨hawaited.received, ?_⟩
          rintro h ⟨⟩
          exact hrest fun _ => hat'.next.trans hend
      · refine ⟨hawaited.received, ?_⟩
        rintro h ⟨⟩
        exact hrest fun hfull => absurd hfull heq
    · next code hcode houtcome =>
      refine ⟨hawaited.received, ?_⟩
      rintro h ⟨⟩
      refine ⟨⟨last, by rwa [requests_received], hsize⟩, ?_, hpending.small, hpending.ready⟩
      intro hconnected
      cases hconnected.symm.trans (recvData_closes houtcome hcode)
    · exact ⟨hawaited.received, fun h hmem => by cases hmem⟩

/-- What `qcloud_url_download_init` makes. -/
theorem init_at {memory headerMemory : Bool} {url : List UInt8}
    (h : urlDownloadInit memory headerMemory url offset fileSize segmentSize = some handle) :
    At fileSize segmentSize offset handle := by
  rw [urlDownloadInit] at h
  split_ifs at h
  cases h
  exact ⟨rfl, rfl, rfl⟩

theorem connect_tiled (hat : At fileSize segmentSize offset handle) (hoffset : offset < fileSize)
    (hfile : fileSize < 2 ^ 31) (hsegment : 0 < segmentSize) :
    Tiled offset fileSize segmentSize (some (urlDownloadConnect https link handle).1)
      (urlDownloadConnect https link handle).2 := by
  have hinit : Tiled offset fileSize segmentSize (some handle) [] :=
    ⟨⟨offset, by omega, rfl, fun h hmem => by cases hmem; exact hat⟩,
      fun _ _ _ hmem => by cases hmem⟩
  exact hinit.request hfile hsegment

/-- Whatever comes, the requests tile what is to be fetched. -/
theorem download_tiled (hat : At fileSize segmentSize offset handle) (hoffset : offset < fileSize)
    (hfile : fileSize < 2 ^ 31) (hsegment : 0 < segmentSize) (https link : Bool)
    (fetches : List Fetch) :
    Tiled offset fileSize segmentSize (download https link fetches handle).1
      (download https link fetches handle).2 := by
  have hstep : ∀ state log fetch, Tiled offset fileSize segmentSize state log → True →
      Tiled offset fileSize segmentSize (urlDownloadFetch https fetch state).1
        (log ++ (urlDownloadFetch https fetch state).2) :=
    fun _ _ _ h _ => h.step hfile hsegment
  exact run_history hstep (connect_tiled hat hoffset hfile hsegment) (along_true ..)

/-- As long as the HTTP client counts what it hands over, a request is made when the bytes of the
one before it have come. -/
theorem download_awaited (hat : At fileSize segmentSize offset handle) (hoffset : offset < fileSize)
    (hfile : fileSize < 2 ^ 31) (hsegment : 0 < segmentSize) {fetches : List Fetch}
    (hcounted : Along (urlDownloadFetch https) CountedAt fetches
      (some (urlDownloadConnect https link handle).1)) :
    Awaited (download https link fetches handle).2 := by
  have htiled := @connect_tiled _ _ _ _ https link hat hoffset hfile hsegment
  have hnone : Awaited [] := fun front _ _ _ back heq => absurd heq.symm (by simp)
  have hwaits : Waits fileSize (some (urlDownloadConnect https link handle).1)
      (urlDownloadConnect https link handle).2 :=
    waits_request hfile hsegment hat hoffset hnone fun _ hlast => by cases hlast
  have hstep : ∀ state log fetch,
      Tiled offset fileSize segmentSize state log ∧ Waits fileSize state log →
      CountedAt state fetch →
      Tiled offset fileSize segmentSize (urlDownloadFetch https fetch state).1
          (log ++ (urlDownloadFetch https fetch state).2) ∧
        Waits fileSize (urlDownloadFetch https fetch state).1
          (log ++ (urlDownloadFetch https fetch state).2) :=
    fun _ _ _ h hcounted => ⟨h.1.step hfile hsegment, h.2.step hfile hsegment h.1 hcounted⟩
  exact (run_history hstep ⟨htiled, hwaits⟩ hcounted).2.awaited

/-- The requests of a download are for the consecutive ranges of so many bytes, and each is made
when the bytes of the one before have come, as long as the HTTP client counts what it hands over. -/
theorem range_requests_right (memory headerMemory : Bool) (url : List UInt8)
    (offset fileSize segmentSize : ℕ) (handle : Handle) (https link : Bool) (fetches : List Fetch)
    (hoffset : offset < fileSize) (hfile : fileSize < 2 ^ 31) (hsegment : 0 < segmentSize)
    (hinit : urlDownloadInit memory headerMemory url offset fileSize segmentSize = some handle)
    (hcounted : Along (urlDownloadFetch https) CountedAt fetches
      (some (urlDownloadConnect https link handle).1)) :
    RequestsRight offset fileSize segmentSize (download https link fetches handle).2 := by
  have hat := init_at hinit
  have hsize : (0 : ℤ) < segmentSize := by omega
  obtain ⟨⟨next, -, htiles, -⟩, hheaders⟩ :=
    download_tiled hat hoffset hfile hsegment https link fetches
  exact ⟨⟨next, htiles⟩, htiles.pairwise hsize,
    fun range hmem => htiles.within hsize hmem, hheaders,
    download_awaited hat hoffset hfile hsegment hcounted⟩

/-- An answer with so many bytes, in one piece. -/
def answered (count : ℕ) : Fetch where
  bufLen := 64
  reads := [⟨64, .success, false⟩]
  stream := ascii "HTTP/1.1 206 OK\r\nContent-Length: " ++ decimal count ++
    crlf ++ crlf ++
    List.replicate count 0x2A
  link := true

/-- A handle for a file of twenty bytes in segments of ten. -/
def twenty : Handle where
  url := ascii "http://a/b"
  header := []
  httpData := ⟨false, false, 0, 0, false⟩
  info := ⟨0, 20, 0, 0, 10⟩

theorem range_requests_right_twenty :
    RequestsRight 0 20 10 (download false true [answered 10] twenty).2 := by
  apply range_requests_right true true (ascii "http://a/b") 0 20 10 twenty false true [answered 10]
    (by decide) (by decide) (by decide) rfl
  refine ⟨?_, trivial⟩
  rintro h ⟨⟩ - -
  have hheader : answerHeader 0 (answered 10).stream (answered 10).reads =
      some (ascii "Content-Length: 10\r\n\r\n" ++ List.replicate 10 0x2A) := by
    decide +kernel
  refine ⟨by decide, by decide +kernel, fun hmore => absurd hmore (by decide +kernel), ?_⟩
  intro _ data hmem
  cases hheader.symm.trans hmem
  have hfield : strstr (ascii "Content-Length: 10\r\n\r\n" ++ List.replicate 10 0x2A)
      (ascii "Content-Length") = some 0 := by
    decide +kernel
  rw [NamesLength, hfield]
  exact ⟨by decide +kernel, by decide +kernel⟩

/-- The bytes of two answers have come when the second request is made. -/
theorem range_requests_early : ¬ ∀ (memory headerMemory : Bool) (url : List UInt8)
    (offset fileSize segmentSize : ℕ) (handle : Handle) (https link : Bool) (fetches : List Fetch),
    offset < fileSize → fileSize < 2 ^ 31 → 0 < segmentSize →
    urlDownloadInit memory headerMemory url offset fileSize segmentSize = some handle →
    RequestsRight offset fileSize segmentSize (download https link fetches handle).2 := by
  intro hall
  have hright := hall true true (ascii "http://a/b") 0 20 10 twenty false true
    [answered 5, answered 10]
    (by decide) (by decide) (by decide) rfl
  have hlog : (download false true [answered 5, answered 10] twenty).2 =
      [.requested 80 ⟨0, 9⟩ (rangeText ⟨0, 9⟩), .received 5, .received 10] ++
        .requested 80 ⟨10, 19⟩ (rangeText ⟨10, 19⟩) :: [] := by
    decide +kernel
  have hcount := hright.awaited _ _ _ _ _ hlog ⟨0, 9⟩ rfl
  exact absurd hcount (by decide)

end Runs

end IotExplorer.UrlDownload
