import IotExplorer.Basis.Runs
import IotExplorer.Basis.Memory

/-!
The upload of the log. Records are appended to a buffer behind a fixed header, under a
lock; an upload posts the buffer without the lock, in fragments when it is large, and
takes the lock to settle what has been appended meanwhile. What could not be posted is
saved by the callbacks of the user. An upload is modelled step by step, so that appends
come between any two steps.
-/
namespace IotExplorer.LogUpload

open Basis.Memory

section Sizes

/-- `LOG_BUF_FIXED_HEADER_SIZE`. -/
def headerSize : ℕ := 40 + 4 + 10 + 48 + 10

/-- `LOG_UPLOAD_BUFFER_SIZE`. -/
def uploadBufferSize : ℕ := 5000

def maxHttpLogPostSize : ℕ := 3000

def maxLogSaveSize : ℕ := 3 * uploadBufferSize

/-- `LOG_LOW_BUFFER_THRESHOLD`. -/
def lowBufferThreshold : ℕ := uploadBufferSize / 4

end Sizes

section Buffer

/-- The buffer as `init_log_uploader` leaves it: the mode of authentication, the product and the
device are written into the header. -/
def initLogBuffer (mode : UInt8) (productId deviceName : List UInt8) : ℕ → UInt8 :=
  memcpy 54 deviceName (memcpy 44 productId (memcpy 40 [mode] (memset 0 35 headerSize fun _ => 0)))

/-- What `update_time_and_signature` writes: the hex digits of the signature and the decimal digits
of the time. -/
structure Stamp where
  signature : List UInt8
  timestamp : List UInt8
  signature_length : signature.length = 40
  timestamp_length : timestamp.length = 10
  graphic : ∀ b ∈ signature ++ timestamp, 33 ≤ b

def updateTimeAndSignature (stamp : Stamp) (m : ℕ → UInt8) : ℕ → UInt8 :=
  memcpy 0 stamp.signature (memcpy (headerSize - 10) stamp.timestamp m)

/-- `strstr` for the delimiter: its place, looked for up to the next zero byte, in so many bytes. -/
def strstr (m : ℕ → UInt8) (p : ℕ) : ℕ → Option ℕ
  | 0 => none
  | n + 1 =>
      if m p = 0 then none
      else if m p = 10 ∧ m (p + 1) = 12 then some p
      else strstr m (p + 1) n

end Buffer

section Posts

/-- A return code, as far as the callers look at it. -/
inductive Ret
  | success
  | inval
  | failure
  deriving DecidableEq, Repr

/-- What a step meets outside: whether the timer has expired, the server can be reached or memory is
there; what a post returns; whether the saved log is deleted when it is to be; and the stamp. -/
structure Answer where
  granted : Bool
  ret : Ret
  deleted : Bool
  stamp : Stamp

/-- How far `post_log_to_server` is: before the first test of the size, before a search for the next
delimiter, before the post of a fragment, before the left log is moved, or before the place behind
it is cleared. -/
inductive PostPhase
  | start
  | search (possibleSize : ℕ)
  | post (uploadSize : ℕ)
  | move (uploadSize : ℕ)
  | clear
  | returned (ret : Ret)

/-- The variables of `post_log_to_server`. -/
structure Post where
  phase : PostPhase
  origPostSize : ℕ
  postSize : ℕ
  actualPostPayload : ℕ

/-- `post_log_to_server` for so many bytes. -/
def Post.call (size : ℕ) : Post := ⟨.start, size, size, 0⟩

/-- A fragment, or the whole, is posted with a new stamp; the payload that arrives. -/
def postOneHttpToServer (answer : Answer) (size : ℕ) (m : ℕ → UInt8) :
    (ℕ → UInt8) × List (List UInt8) :=
  let stamped := updateTimeAndSignature answer.stamp m
  (stamped, if answer.ret = .success then [slice stamped headerSize size] else [])

/-- A step of `post_log_to_server` on a buffer of `bufSize` bytes. -/
def postLogToServer (bufSize : ℕ) (answer : Answer) (m : ℕ → UInt8) (l : Post) :
    (ℕ → UInt8) × Post × List (List UInt8) :=
  match l.phase with
  | .start =>
      if l.postSize < maxHttpLogPostSize then
        let (stamped, posted) := postOneHttpToServer answer l.postSize m
        let actual := if answer.ret = .success then l.postSize - headerSize else 0
        (stamped, { l with phase := .returned answer.ret, actualPostPayload := actual }, posted)
      else (m, { l with phase := .search 0 }, [])
  | .search possible =>
      match strstr m possible (bufSize - possible) with
      | none => (m, { l with phase := .returned .inval }, [])
      | some place =>
          let next := place + 2
          if m next = 0 ∧ next < maxHttpLogPostSize then (m, { l with phase := .post next }, [])
          else if next < maxHttpLogPostSize then (m, { l with phase := .search next }, [])
          else (m, { l with phase := .post possible }, [])
  | .post uploadSize =>
      if uploadSize = 0 then (m, { l with phase := .returned .failure }, [])
      else
        let (stamped, posted) := postOneHttpToServer answer uploadSize m
        if answer.ret = .success then (stamped, { l with phase := .move uploadSize }, posted)
        else (stamped, { l with phase := .returned .failure }, posted)
  | .move uploadSize =>
      let payload := uploadSize - headerSize
      (memmove headerSize uploadSize (l.postSize - uploadSize) m,
        { l with
          phase := .clear
          postSize := l.postSize - payload
          actualPostPayload := l.actualPostPayload + payload }, [])
  | .clear =>
      (memset l.postSize 0 (l.origPostSize - l.postSize) m,
        { l with phase := if l.postSize > headerSize then .search 0 else .returned .success }, [])
  | .returned _ => (m, l, [])

end Posts

section Uploads

/-- How far `do_log_upload` is. `rebase`, `save` and `settle` come behind the posts. -/
inductive Phase
  | entry (forceUpload : Bool)
  | savedLog
  | readSavedLog
  | postSavedLog (buf : ℕ → UInt8) (bufSize : ℕ) (post : Post)
  | checkEmpty
  | snapshot
  | post (post : Post)
  | rebase (uploadLogSize actualPostPayload : ℕ)
  | save (uploadLogSize : ℕ)
  | settle (uploadLogSize : ℕ)
  | returned

/-- The log client with the log that is saved, and an upload. -/
structure State where
  logBuffer : ℕ → UInt8
  logIndex : ℕ
  uploadOnlyInCommErr : Bool
  logSaveEnabled : Bool
  unhandleSavedLog : Bool
  storage : List UInt8
  phase : Phase

/-- What can be seen of an upload: a record is accepted, a payload of the buffer or of the saved log
arrives at the server, and a text is saved. -/
inductive Event
  | accepted (content : List UInt8)
  | uploaded (payload : List UInt8)
  | resent (payload : List UInt8)
  | saved (text : List UInt8)

def Event.content : Event → Option (List UInt8)
  | .accepted content => some content
  | _ => none

def Event.payload : Event → Option (List UInt8)
  | .uploaded payload => some payload
  | _ => none

def Event.text : Event → Option (List UInt8)
  | .saved text => some text
  | _ => none

/-- `init_log_uploader`, with the callbacks of the user or without them. -/
def initLogUploader (mode : UInt8) (productId deviceName : List UInt8) (callbacks : Bool)
    (storage : List UInt8) (phase : Phase) : State :=
  ⟨initLogBuffer mode productId deviceName, headerSize, false, callbacks, true, storage, phase⟩

def State.kept (s : State) : List UInt8 := slice s.logBuffer headerSize s.logIndex

def resetLogBuffer (s : State) : State :=
  { s with
    logIndex := headerSize
    logBuffer := memset headerSize 0 (uploadBufferSize - headerSize) s.logBuffer }

/-- `append_to_upload_buffer`; the lock may be taken. -/
def appendToUploadBuffer (content : List UInt8) (taken : Bool) (s : State) : State × List Event :=
  if content.length = 0 ∨ taken ∨ s.logIndex + content.length + 1 > uploadBufferSize then (s, [])
  else
    let index := s.logIndex + content.length
    let copied := memcpy s.logIndex content s.logBuffer
    ({ s with
      logIndex := index
      logBuffer := memcpy (index - 2) [10] (memcpy (index - 1) [12] copied) }, [.accepted content])

def checkForceUpload (forceUpload : Bool) (answer : Answer) (s : State) : State :=
  if forceUpload then { s with phase := .savedLog }
  else
    let isLowBuffer := uploadBufferSize - s.logIndex < lowBufferThreshold
    if s.uploadOnlyInCommErr
      then { (if isLowBuffer then resetLogBuffer s else s) with phase := .returned }
    else if isLowBuffer ∨ answer.granted then { s with phase := .savedLog }
    else { s with phase := .returned }

/-- `_handle_saved_log`, up to the check of the connection. -/
def handleSavedLog (answer : Answer) (s : State) : State :=
  if s.logSaveEnabled ∧ s.unhandleSavedLog then
    if s.storage.length > 0 then
      { s with phase := if answer.granted then .readSavedLog else .checkEmpty }
    else { s with unhandleSavedLog := false, phase := .checkEmpty }
  else { s with phase := .checkEmpty }

/-- `_handle_saved_log`: the saved log is read behind a copy of the header. -/
def readSavedLog (answer : Answer) (s : State) : State :=
  if answer.granted then
    let header := slice s.logBuffer 0 headerSize
    let buf := memcpy 0 header (memcpy headerSize s.storage fun _ => 0)
    let bufSize := s.storage.length + headerSize + 1
    { s with phase := .postSavedLog buf bufSize (Post.call (s.storage.length + headerSize)) }
  else { s with phase := .checkEmpty }

/-- `_handle_saved_log` behind the posts. -/
def settleSavedLog (ret : Ret) (answer : Answer) (s : State) : State :=
  { s with
    storage := if (ret = .success ∨ ret = .inval) ∧ answer.deleted then [] else s.storage
    unhandleSavedLog := if ret = .success then false else s.unhandleSavedLog
    phase := .checkEmpty }

/-- The new logs are moved behind what could not be posted. -/
def rebase (uploadLogSize actual : ℕ) (s : State) : State :=
  if actual = 0 then { s with phase := .save s.logIndex }
  else
    let moved :=
      memmove (uploadLogSize - actual) uploadLogSize (s.logIndex - uploadLogSize) s.logBuffer
    let index := s.logIndex - actual
    { s with
      logBuffer := memset index 0 (uploadBufferSize - index) moved
      logIndex := index
      phase := .save index }

/-- `_save_log`, of all that is in the buffer up to a place. -/
def saveLog (uploadLogSize : ℕ) (answer : Answer) (s : State) : State × List Event :=
  let text := slice s.logBuffer headerSize uploadLogSize
  let full := s.storage.length + text.length > maxLogSaveSize
  ({ s with
    storage := (if full ∧ answer.deleted then [] else s.storage) ++ text
    unhandleSavedLog := true
    phase := .settle uploadLogSize }, [.saved text])

/-- What has been handled leaves the buffer. -/
def settle (uploadLogSize : ℕ) (s : State) : State :=
  if uploadLogSize = s.logIndex then { resetLogBuffer s with phase := .returned }
  else
    let moved := memmove headerSize uploadLogSize (s.logIndex - uploadLogSize) s.logBuffer
    let index := s.logIndex - uploadLogSize + headerSize
    { s with
      logBuffer := memset index 0 (uploadBufferSize - index) moved
      logIndex := index
      phase := .returned }

/-- A step of `do_log_upload`. -/
def doLogUpload (answer : Answer) (s : State) : State × List Event :=
  match s.phase with
  | .entry forceUpload => (checkForceUpload forceUpload answer s, [])
  | .savedLog => (handleSavedLog answer s, [])
  | .readSavedLog => (readSavedLog answer s, [])
  | .postSavedLog buf bufSize post =>
      match post.phase with
      | .returned ret => (settleSavedLog ret answer s, [])
      | _ =>
          let (buf, post, posted) := postLogToServer bufSize answer buf post
          ({ s with phase := .postSavedLog buf bufSize post }, posted.map .resent)
  | .checkEmpty =>
      ({ s with phase := if s.logIndex = headerSize then .returned else .snapshot }, [])
  | .snapshot => ({ s with phase := .post (Post.call s.logIndex) }, [])
  | .post post =>
      match post.phase with
      | .returned ret =>
          if ret ≠ .success ∧ s.logSaveEnabled then
            ({ s with phase := .rebase post.origPostSize post.actualPostPayload }, [])
          else ({ s with phase := .settle post.origPostSize }, [])
      | _ =>
          let (buf, post, posted) := postLogToServer uploadBufferSize answer s.logBuffer post
          ({ s with logBuffer := buf, phase := .post post }, posted.map .uploaded)
  | .rebase uploadLogSize actual => (rebase uploadLogSize actual s, [])
  | .save uploadLogSize => saveLog uploadLogSize answer s
  | .settle uploadLogSize => (settle uploadLogSize s, [])
  | .returned => (s, [])

end Uploads

section Steps

/-- What happens: a record is appended, or the upload goes on. -/
inductive Step
  | append (content : List UInt8) (taken : Bool)
  | advance (answer : Answer)

/-- A record as it lies in the buffer: the delimiter takes the place of its last two bytes. -/
def stored (content : List UInt8) : List UInt8 :=
  content.take (content.length - 2) ++ [10, 12].drop (2 - content.length)

def step : Step → State → State × List Event
  | .append content taken, s => appendToUploadBuffer content taken s
  | .advance answer, s => doLogUpload answer s

end Steps

end IotExplorer.LogUpload
