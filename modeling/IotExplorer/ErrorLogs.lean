import IotExplorer.Basis.LittleEndian
import Mathlib.Algebra.Group.Int.Defs
import Mathlib.Data.List.Basic
import Mathlib.Data.Prod.Basic

/-!
The errors of the Wi-Fi configuration that are not fetched before the device restarts. They are
taken from the queue and saved, and put into the queue again when it is created. The array that is
saved holds every entry of the queue, but only as many of them are saved as there are current
errors. The names of the errors, which are printed to the log alone, are left out: for an id of 25
and more the source reads behind their array.
-/
namespace IotExplorer.ErrorLogs

open Basis.LittleEndian

section Entries

/-- `err_log_t`. -/
structure ErrLog where
  record : UInt8
  reserved : UInt8
  errId : UInt16
  errSubId : Int32
  deriving DecidableEq, Repr

/-- The record is `CUR_ERR`. -/
def ErrLog.isCurrent (log : ErrLog) : Bool := log.record = 0

/-- The record is changed to `PRE_ERR`. -/
def ErrLog.previous (log : ErrLog) : ErrLog := { log with record := 1 }

def ErrLog.bytes (log : ErrLog) : List UInt8 :=
  [log.record, log.reserved] ++ (toBytes 2 log.errId.toNat ++ toBytes 4 log.errSubId.toUInt32.toNat)

def ErrLog.read (bytes : List UInt8) : ErrLog :=
  ⟨bytes.getD 0 0, bytes.getD 1 0, UInt16.ofNat (ofBytes ((bytes.drop 2).take 2)),
    (UInt32.ofNat (ofBytes ((bytes.drop 4).take 4))).toInt32⟩

end Entries

section Storage

/-- The storage: each byte is the one that was written last. -/
abbrev Flash := List UInt8

/-- `HAL_Wifi_read_err_log`. -/
def readErrLog (flash : Flash) (offset size : ℕ) : Option (List UInt8) :=
  if offset + size ≤ flash.length then some ((flash.drop offset).take size) else none

/-- `HAL_Wifi_write_err_log` at the start. -/
def writeErrLog (bytes : List UInt8) (flash : Flash) : Flash := bytes ++ flash.drop bytes.length

def validMagicCode : ℕ := 0xF00DBEEF

/-- `check_err_log`; a count that was not saved is zero. -/
def checkErrLog (flash : Flash) : Option ℕ := do
  let header ← readErrLog flash 0 4
  if ofBytes header ≠ validMagicCode then return 0
  else
    let msgCnt ← readErrLog flash 4 4
    return ofBytes msgCnt

def entriesOf : ℕ → List UInt8 → List ErrLog
  | 0, _ => []
  | count + 1, bytes => .read bytes :: entriesOf count (bytes.drop 8)

/-- The loop of `handle_saved_error_log`, into a queue of `ERR_LOG_QUEUE_SIZE`. -/
def pushPrevious : List ErrLog → List ErrLog → ℤ × List ErrLog
  | [], queue => (0, queue)
  | log :: logs, queue =>
      if queue.length < 16 then pushPrevious logs (queue ++ [log.previous]) else (5, queue)

/-- `handle_saved_error_log`: its return, the storage and the queue. -/
def handleSavedErrorLog (memory : Bool) (flash : Flash) (queue : List ErrLog) :
    ℤ × Flash × List ErrLog :=
  match checkErrLog flash with
  | none => (-1, flash, queue)
  | some logCnt =>
      if logCnt = 0 then (0, flash, queue)
      else if 16 < logCnt then (-1, flash, queue)
      else if !memory then (-1, flash, queue)
      else
        match readErrLog flash 8 (logCnt * 8) with
        | none => (-1, flash, queue)
        | some bytes =>
            let pushed := pushPrevious (entriesOf logCnt bytes) queue
            (pushed.1, [], pushed.2)

/-- The loop of `save_error_log`: the entries of the array, and the number of current errors. -/
def drain : ℕ → List ErrLog → List ErrLog × ℕ
  | 0, _ => ([], 0)
  | _ + 1, [] => ([], 0)
  | count + 1, log :: queue =>
      let rest := drain count queue
      (log :: rest.1, (if log.isCurrent then 1 else 0) + rest.2)

/-- What `save_error_log` leaves: its return, whether the log was written, and the storage. -/
structure Saved where
  rc : ℤ
  written : Bool
  flash : Flash

/-- `save_err_log`, for what the write returns. -/
def saveErrLog (writeRc : Int32) : ℤ := if writeRc ≠ 0 then writeRc.toInt else 0

/-- `save_error_log`, after which the queue is destroyed. -/
def saveErrorLog (memory : Bool) (writeRc : Int32) (queue : List ErrLog) (flash : Flash) : Saved :=
  let logCnt := queue.length
  if logCnt = 0 ∨ 16 < logCnt then ⟨5, false, flash⟩
  else if !memory then ⟨-1, false, flash⟩
  else
    let drained := drain logCnt queue
    let bytes := toBytes 4 validMagicCode ++
      (toBytes 4 drained.2 ++ (drained.1.take drained.2).flatMap ErrLog.bytes)
    -- the size is compared with what says that it was written
    ⟨if ((8 + drained.2 * 8 : ℕ) : ℤ) ≠ saveErrLog writeRc % 2 ^ 64 then -1 else 0, writeRc = 0,
      if writeRc = 0 then writeErrLog bytes flash else flash⟩

end Storage

section Right

/-- The ids of an error, with its record. -/
def ErrLog.shown (log : ErrLog) : UInt8 × UInt16 × Int32 := (log.record, log.errId, log.errSubId)

/-- A queue holds the current errors of another one as previous errors. -/
def Restores (queue restored : List ErrLog) : Prop :=
  restored.map ErrLog.shown = ((queue.filter ErrLog.isCurrent).map ErrLog.previous).map ErrLog.shown

/-- If the log was written that is a success, and the current errors are restored later. -/
def SaveRight (saved : Saved) (memory : Bool) (queue : List ErrLog) : Prop :=
  saved.written = true →
    saved.rc = 0 ∧ Restores queue (handleSavedErrorLog memory saved.flash []).2.2

/-- The first entries, as many as there are current errors, have their ids. -/
def CurrentFirst (queue : List ErrLog) : Prop :=
  ((queue.take (queue.countP ErrLog.isCurrent)).map fun log => (log.errId, log.errSubId)) =
    (queue.filter ErrLog.isCurrent).map fun log => (log.errId, log.errSubId)

end Right

section Bytes

theorem bytes_length (log : ErrLog) : log.bytes.length = 8 := by
  simp [ErrLog.bytes]

/-- An entry is read back. -/
theorem read_bytes (log : ErrLog) (rest : List UInt8) : ErrLog.read (log.bytes ++ rest) = log := by
  have hid : ofBytes (toBytes 2 log.errId.toNat) = log.errId.toNat :=
    @ofBytes_toBytes 2 _ log.errId.toNat_lt
  have hsub : ofBytes (toBytes 4 log.errSubId.toUInt32.toNat) = log.errSubId.toUInt32.toNat :=
    @ofBytes_toBytes 4 _ log.errSubId.toUInt32.toNat_lt
  have hfirst : (log.bytes ++ rest).drop 2 = toBytes 2 log.errId.toNat ++
      (toBytes 4 log.errSubId.toUInt32.toNat ++ rest) := by
    simp [ErrLog.bytes]
  have hlast : (log.bytes ++ rest).drop 4 = toBytes 4 log.errSubId.toUInt32.toNat ++ rest := by
    rw [show 4 = 2 + 2 from rfl, ← List.drop_drop, hfirst, List.drop_left' (toBytes_length _ _)]
  rw [ErrLog.read, hfirst, hlast, List.take_left' (toBytes_length _ _),
    List.take_left' (toBytes_length _ _), hid, hsub]
  simp [ErrLog.bytes]

/-- The entries are read back. -/
theorem entriesOf_bytes (logs : List ErrLog) (rest : List UInt8) :
    entriesOf logs.length (logs.flatMap ErrLog.bytes ++ rest) = logs := by
  induction logs with
  | nil => rfl
  | cons log logs ih =>
    rw [List.length_cons, entriesOf, List.flatMap_cons, List.append_assoc, read_bytes,
      List.drop_left' (bytes_length log), ih]

theorem drain_eq (queue : List ErrLog) :
    drain queue.length queue = (queue, queue.countP ErrLog.isCurrent) := by
  induction queue with
  | nil => rfl
  | cons log queue ih =>
    rw [List.length_cons, drain, ih, List.countP_cons, Nat.add_comm]

/-- The entries are pushed as previous errors while there is room. -/
theorem pushPrevious_eq (logs queue : List ErrLog) (hroom : queue.length + logs.length ≤ 16) :
    pushPrevious logs queue = (0, queue ++ logs.map ErrLog.previous) := by
  induction logs generalizing queue with
  | nil => rw [pushPrevious, List.map_nil, List.append_nil]
  | cons log logs ih =>
    rw [List.length_cons] at hroom
    rw [pushPrevious, if_pos (by omega),
      ih _ (by rw [List.length_append, List.length_singleton]; omega), List.append_assoc,
      List.map_cons]
    rfl

end Bytes

section Results
variable {memory : Bool} {queue logs : List ErrLog}

def savedBytes (logs : List ErrLog) : List UInt8 :=
  toBytes 4 validMagicCode ++ (toBytes 4 logs.length ++ logs.flatMap ErrLog.bytes)

/-- A part of what was written is read. -/
theorem readErrLog_part (front part back : List UInt8) :
    readErrLog (front ++ (part ++ back)) front.length part.length = some part := by
  rw [readErrLog, if_pos (by rw [List.length_append, List.length_append]; omega), List.drop_left,
    List.take_left]

theorem logs_length (logs : List ErrLog) :
    (logs.flatMap ErrLog.bytes).length = logs.length * 8 := by
  induction logs with
  | nil => rfl
  | cons log logs ih =>
    rw [List.flatMap_cons, List.length_append, bytes_length, ih, List.length_cons]
    omega

theorem checkErrLog_saved (logs : List ErrLog) (rest : Flash) (hfew : logs.length ≤ 16) :
    checkErrLog (savedBytes logs ++ rest) = some logs.length := by
  have hheader := readErrLog_part [] (toBytes 4 validMagicCode)
    (toBytes 4 logs.length ++ (logs.flatMap ErrLog.bytes ++ rest))
  have hcount := readErrLog_part (toBytes 4 validMagicCode) (toBytes 4 logs.length)
    (logs.flatMap ErrLog.bytes ++ rest)
  rw [toBytes_length] at hheader
  rw [toBytes_length, toBytes_length] at hcount
  have hflash : savedBytes logs ++ rest =
      toBytes 4 validMagicCode ++
        (toBytes 4 logs.length ++ (logs.flatMap ErrLog.bytes ++ rest)) := by
    rw [savedBytes, List.append_assoc, List.append_assoc]
  have hmagic : ofBytes (toBytes 4 validMagicCode) = validMagicCode :=
    @ofBytes_toBytes 4 _ (by decide)
  rw [hflash, checkErrLog, ← List.nil_append (toBytes 4 validMagicCode ++ _),
    show readErrLog _ 0 4 = _ from hheader, Option.bind_eq_bind, Option.bind_some, hmagic,
    if_neg (not_not_intro rfl), List.nil_append, hcount, Option.bind_some,
    @ofBytes_toBytes 4 logs.length (Nat.lt_of_le_of_lt hfew (by decide))]
  rfl

/-- Entries that were saved are restored as previous errors, if there is memory for them. -/
theorem handleSavedErrorLog_saved (memory : Bool) (logs : List ErrLog) (rest : Flash)
    (hfew : logs.length ≤ 16) :
    (handleSavedErrorLog memory (savedBytes logs ++ rest) []).2.2 =
      if memory then logs.map ErrLog.previous else [] := by
  have hlogs := readErrLog_part (toBytes 4 validMagicCode ++ toBytes 4 logs.length)
    (logs.flatMap ErrLog.bytes) rest
  rw [List.length_append, toBytes_length, toBytes_length, logs_length] at hlogs
  have hflash : savedBytes logs ++ rest =
      (toBytes 4 validMagicCode ++ toBytes 4 logs.length) ++
        (logs.flatMap ErrLog.bytes ++ rest) := by
    rw [savedBytes, List.append_assoc, List.append_assoc, List.append_assoc]
  unfold handleSavedErrorLog
  rw [checkErrLog_saved logs rest hfew]
  dsimp only
  by_cases hnone : logs.length = 0
  · rw [if_pos hnone, List.length_eq_zero_iff.mp hnone]
    cases memory <;> rfl
  · rw [if_neg hnone, if_neg (Nat.not_lt.mpr hfew)]
    cases memory with
    | false => rfl
    | true =>
      have hentries := entriesOf_bytes logs []
      rw [List.append_nil] at hentries
      rw [if_neg (by decide), hflash, hlogs]
      dsimp only
      rw [hentries, pushPrevious_eq logs [] (by rw [List.length_nil]; omega), List.nil_append]
      rfl

/-- A log that was written is never reported as saved. -/
theorem saveErrorLog_written (hsome : 1 ≤ queue.length) (hfew : queue.length ≤ 16) (flash : Flash) :
    ∃ rest, saveErrorLog true 0 queue flash =
      ⟨-1, true, savedBytes (queue.take (queue.countP ErrLog.isCurrent)) ++ rest⟩ := by
  have hcount : (queue.take (queue.countP ErrLog.isCurrent)).length =
      queue.countP ErrLog.isCurrent :=
    List.length_take_of_le List.countP_le_length
  have hsize : ((8 + queue.countP ErrLog.isCurrent * 8 : ℕ) : ℤ) ≠ saveErrLog 0 % 2 ^ 64 := by
    have hzero : saveErrLog 0 % 2 ^ 64 = 0 := by decide
    rw [hzero]
    omega
  unfold saveErrorLog
  dsimp only
  rw [if_neg (by omega), if_neg (by decide), drain_eq]
  dsimp only
  rw [if_pos hsize, if_pos rfl, writeErrLog, savedBytes, hcount]
  exact ⟨_, rfl⟩

/-- A previous error shows its ids. -/
theorem shown_previous (logs : List ErrLog) : (logs.map ErrLog.previous).map ErrLog.shown =
    (logs.map fun log => (log.errId, log.errSubId)).map (Prod.mk (1 : UInt8)) := by
  rw [List.map_map, List.map_map]
  rfl

/-- What is restored are the first entries. -/
theorem restores_iff (hfew : queue.length ≤ 16) (memory : Bool) (rest : Flash) :
    Restores queue (handleSavedErrorLog memory
        (savedBytes (queue.take (queue.countP ErrLog.isCurrent)) ++ rest) []).2.2 ↔
      queue.countP ErrLog.isCurrent = 0 ∨ memory = true ∧ CurrentFirst queue := by
  have hcount : queue.countP ErrLog.isCurrent = 0 ↔ queue.filter ErrLog.isCurrent = [] := by
    rw [List.countP_eq_length_filter, List.length_eq_zero_iff]
  rw [handleSavedErrorLog_saved memory _ rest (Nat.le_trans (List.length_take_le' ..) hfew),
    Restores]
  cases memory with
  | false =>
    rw [if_neg Bool.false_ne_true, hcount, List.map_nil, eq_comm, List.map_eq_nil_iff,
      List.map_eq_nil_iff]
    simp
  | true =>
    rw [if_pos rfl, shown_previous, shown_previous,
      (List.map_injective_iff.mpr (Prod.mk_right_injective (1 : UInt8))).eq_iff, eq_self, true_and]
    refine ⟨.inr, ?_⟩
    rintro (hnone | hfirst)
    · rw [hnone, hcount.mp hnone]
      rfl
    · exact hfirst

/-- A current error behind a previous one is not reported as saved, and the previous one is restored
for it. -/
theorem errorLog_wrong :
    ¬ SaveRight (saveErrorLog true 0 [⟨1, 0, 10, 2⟩, ⟨0, 0, 23, 7⟩] []) true
      [⟨1, 0, 10, 2⟩, ⟨0, 0, 23, 7⟩] ∧
      (handleSavedErrorLog true
        (saveErrorLog true 0 [⟨1, 0, 10, 2⟩, ⟨0, 0, 23, 7⟩] []).flash []).2.2 =
        [⟨1, 0, 10, 2⟩] := by
  refine ⟨fun hright => ?_, by decide +kernel⟩
  have hrc : (saveErrorLog true 0 [⟨1, 0, 10, 2⟩, ⟨0, 0, 23, 7⟩] []).rc = 0 := (hright rfl).1
  exact absurd hrc (by decide +kernel)

/-- No log that was written is reported as saved, and it restores the current errors exactly if the
first entries have their ids and there is memory for them. -/
theorem errorLog_never_right (queue : List ErrLog) (hsome : 1 ≤ queue.length)
    (hfew : queue.length ≤ 16) (flash : Flash)
    (memory : Bool) :
    ¬ SaveRight (saveErrorLog true 0 queue flash) memory queue ∧
      (Restores queue (handleSavedErrorLog memory (saveErrorLog true 0 queue flash).flash []).2.2 ↔
        queue.countP ErrLog.isCurrent = 0 ∨ memory = true ∧ CurrentFirst queue) := by
  obtain ⟨rest, hsaved⟩ := saveErrorLog_written hsome hfew flash
  rw [hsaved]
  refine ⟨fun hright => ?_, restores_iff hfew memory rest⟩
  have hrc : (-1 : ℤ) = 0 := (hright rfl).1
  exact absurd hrc (by decide)

/-- A single error is restored, but not reported as saved. -/
theorem errorLog_never_right_one :
    ¬ SaveRight (saveErrorLog true 0 [⟨0, 0, 23, 7⟩] []) true [⟨0, 0, 23, 7⟩] ∧
      Restores [⟨0, 0, 23, 7⟩]
        (handleSavedErrorLog true (saveErrorLog true 0 [⟨0, 0, 23, 7⟩] []).flash []).2.2 := by
  obtain ⟨hwrong, hrestores⟩ := errorLog_never_right [⟨0, 0, 23, 7⟩] (by decide) (by decide) [] true
  exact ⟨hwrong, hrestores.mpr (.inr ⟨rfl, rfl⟩)⟩

end Results

end IotExplorer.ErrorLogs
