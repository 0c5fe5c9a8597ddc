import IotExplorer.Basis.RingQueues
import IotExplorer.Basis.Runs

/-!
The ring buffer of the utilities, a queue of bytes that always leaves one place of its
buffer unused. Points, sizes and lengths are those of the code; an access outside of the
buffer makes a function fail.
-/
namespace IotExplorer.RingBuffer

open Basis.RingQueues Basis.Runs

section Functions

def ringbuffOk : ℤ := 0

def ringbuffFull : ℤ := -4

def ringbuffTooShort : ℤ := -5

/-- `sRingbuff`. -/
structure Ringbuff where
  size : UInt32
  readpoint : UInt32
  writepoint : UInt32
  buffer : List UInt8
  full : Bool

def clear (buffer : List UInt8) (size : UInt32) : Option (List UInt8) :=
  if size.toNat ≤ buffer.length then
    some (List.replicate size.toNat 0 ++ buffer.drop size.toNat)
  else none

def ringBuffInit (buff : List UInt8) (size : UInt32) : Option Ringbuff :=
  (clear buff size).map fun buffer => ⟨size, 0, 0, buffer, false⟩

def ringBuffFlush (ring : Ringbuff) : Option (Ringbuff × ℤ) :=
  (clear ring.buffer ring.size).map fun buffer =>
  ({ ring with readpoint := 0, writepoint := 0, buffer := buffer, full := false }, ringbuffOk)

/-- The loop of `ring_buff_push_data`, with so many bytes to go. -/
def pushLoop (pData : ℕ → UInt8) : ℕ → ℕ → Ringbuff → Option (Ringbuff × ℤ)
  | 0, _, ring => some (ring, ringbuffOk)
  | steps + 1, i, ring =>
      if (ring.writepoint + 1) % ring.size = ring.readpoint then
        some ({ ring with full := true }, ringbuffFull)
      else
        let writepoint := if ring.writepoint < ring.size - 1 then ring.writepoint + 1 else 0
        if writepoint.toNat < ring.buffer.length then
          pushLoop pData steps (i + 1) { ring with
            writepoint := writepoint
            buffer := ring.buffer.set writepoint.toNat (pData i) }
        else none

/-- `ring_buff_push_data`; the length is compared without its sign. -/
def ringBuffPushData (ring : Ringbuff) (pData : ℕ → UInt8) (len : Int32) : Option (Ringbuff × ℤ) :=
  if ring.size < len.toUInt32 then some (ring, ringbuffTooShort)
  else pushLoop pData len.toInt.toNat 0 ring

/-- The loop of `ring_buff_pop_data`, with what it writes. -/
def popLoop : ℕ → Ringbuff → Option (Ringbuff × List UInt8)
  | 0, ring => some (ring, [])
  | steps + 1, ring =>
      if ring.writepoint = ring.readpoint then some (ring, [])
      else
        let readpoint := if ring.readpoint = ring.size - 1 then 0 else ring.readpoint + 1
        (ring.buffer[readpoint.toNat]?).bind fun byte =>
        (popLoop steps { ring with readpoint := readpoint }).map fun (ring, bytes) =>
        (ring, byte :: bytes)

/-- `ring_buff_pop_data`, with what it writes and what it returns. -/
def ringBuffPopData (ring : Ringbuff) (len : Int32) : Option (Ringbuff × List UInt8 × ℤ) :=
  if ring.size < len.toUInt32 then some (ring, [], ringbuffTooShort)
  else
    (popLoop len.toInt.toNat ring).map fun (ring, bytes) => (ring, bytes, bytes.length)

end Functions

section Queues
variable {ring : Ringbuff} {queue : List UInt8} {pData : ℕ → UInt8}

def Ringbuff.cell (ring : Ringbuff) (i : ℕ) : UInt8 := ring.buffer.getD i 0

structure Holds (ring : Ringbuff) (queue : List UInt8) : Prop where
  room : ring.size.toNat ≤ ring.buffer.length
  read_lt : ring.readpoint.toNat < ring.size.toNat
  write_lt : ring.writepoint.toNat < ring.size.toNat
  contents_eq :
    contents ring.cell ring.size.toNat ring.readpoint.toNat ring.writepoint.toNat = queue

theorem toNat_succ {i size : UInt32} (h : i.toNat < size.toNat) : (i + 1).toNat = i.toNat + 1 := by
  have hone : (1 : UInt32).toNat = 1 := rfl
  have hsize := size.toNat_lt
  rw [UInt32.toNat_add, hone, Nat.mod_eq_of_lt (by omega)]

theorem toNat_pred {i size : UInt32} (h : i.toNat < size.toNat) :
    (size - 1).toNat = size.toNat - 1 := by
  have hone : (1 : UInt32).toNat = 1 := rfl
  have hle : (1 : UInt32) ≤ size := by
    rw [UInt32.le_iff_toNat_le, hone]
    omega
  rw [UInt32.toNat_sub_of_le _ _ hle, hone]

/-- The two rules by which the points go on agree, and so does the test for a full buffer. -/
theorem toNat_next {i size : UInt32} (h : i.toNat < size.toNat) :
    (if i < size - 1 then i + 1 else 0).toNat = next size.toNat i.toNat ∧
      (if i = size - 1 then 0 else i + 1).toNat = next size.toNat i.toNat ∧
      ((i + 1) % size).toNat = next size.toNat i.toNat := by
  have hzero : (0 : UInt32).toNat = 0 := rfl
  have hsucc := toNat_succ h
  have hpred := toNat_pred h
  have hlt : i < size - 1 ↔ i.toNat + 1 < size.toNat := by
    rw [UInt32.lt_iff_toNat_lt, hpred]
    omega
  have heq : i = size - 1 ↔ i.toNat + 1 = size.toNat := by
    rw [← UInt32.toNat_inj, hpred]
    omega
  refine ⟨?_, ?_, by rw [UInt32.toNat_mod, hsucc, next_eq_mod h]⟩
  · simp only [hlt, next]
    split_ifs
    · exact hsucc
    · rfl
  · simp only [heq, next]
    split_ifs
    · omega
    · rfl
    · exact hsucc
    · omega

theorem Holds.length (h : Holds ring queue) :
    queue.length = count ring.size.toNat ring.readpoint.toNat ring.writepoint.toNat := by
  rw [← h.contents_eq, length_contents]

theorem Holds.length_lt (h : Holds ring queue) : queue.length < ring.size.toNat := by
  rw [h.length]
  exact count_lt h.read_lt h.write_lt

/-- The test of the push tells a full queue. -/
theorem Holds.full_iff (h : Holds ring queue) :
    (ring.writepoint + 1) % ring.size = ring.readpoint ↔ queue.length = ring.size.toNat - 1 := by
  rw [← UInt32.toNat_inj, (toNat_next h.write_lt).2.2, count_full h.read_lt h.write_lt, h.length]

/-- The test of the pop tells an empty queue. -/
theorem Holds.empty_iff (h : Holds ring queue) : ring.writepoint = ring.readpoint ↔ queue = [] := by
  rw [← UInt32.toNat_inj, ← List.length_eq_zero_iff, h.length, count_zero h.read_lt]

/-- The bytes that a push is given, from an index on. -/
def given (pData : ℕ → UInt8) (i steps : ℕ) : List UInt8 := (List.range' i steps).map pData

/-- One byte is stored. -/
theorem Holds.store (h : Holds ring queue) {writepoint : UInt32} (byte : UInt8)
    (hnext : writepoint.toNat = next ring.size.toNat ring.writepoint.toNat)
    (hroom : queue.length ≠ ring.size.toNat - 1) :
    writepoint.toNat < ring.buffer.length ∧
      Holds { ring with
        writepoint := writepoint
        buffer := ring.buffer.set writepoint.toNat byte } (queue ++ [byte]) := by
  have hlt : writepoint.toNat < ring.size.toNat := hnext ▸ next_lt h.write_lt
  have hfree : next ring.size.toNat ring.writepoint.toNat ≠ ring.readpoint.toNat := by
    rwa [Ne, count_full h.read_lt h.write_lt, ← h.length]
  have hinside := Nat.lt_of_lt_of_le hlt h.room
  refine ⟨hinside, (List.length_set ..).symm ▸ h.room, h.read_lt, hlt, ?_⟩
  dsimp only
  rw [hnext, ← h.contents_eq]
  refine contents_write h.read_lt h.write_lt hfree (fun i hi => ?_) ?_
  · simp [Ringbuff.cell, hi.symm]
  · rw [hnext] at hinside
    simp [Ringbuff.cell, hinside]

/-- Bytes are stored up to the capacity, and the code tells whether there were any more. -/
theorem pushLoop_holds (steps : ℕ) (i : ℕ) (h : Holds ring queue) :
    ∃ ring', pushLoop pData steps i ring =
        some (ring', if queue.length + steps < ring.size.toNat then ringbuffOk else ringbuffFull) ∧
      ring'.size = ring.size ∧
      Holds ring' (queue ++ (given pData i steps).take (ring.size.toNat - 1 - queue.length)) := by
  induction steps generalizing ring queue i with
  | zero =>
    refine ⟨ring, ?_, rfl, by simpa [given] using h⟩
    rw [pushLoop, Nat.add_zero, if_pos h.length_lt]
  | succ steps ih =>
    have hlt := h.length_lt
    rw [pushLoop]
    by_cases hfull : queue.length = ring.size.toNat - 1
    · rw [if_pos (h.full_iff.mpr hfull), if_neg (by omega), hfull, Nat.sub_self, List.take_zero,
        List.append_nil]
      exact ⟨_, rfl, rfl, h.room, h.read_lt, h.write_lt, h.contents_eq⟩
    · obtain ⟨hinside, hstored⟩ := h.store (pData i) (toNat_next h.write_lt).1 hfull
      obtain ⟨ring', hrest, hsize, hholds⟩ := ih (i + 1) hstored
      have hroom : ring.size.toNat - 1 - queue.length =
          ring.size.toNat - 1 - (queue ++ [pData i]).length + 1 := by
        rw [List.length_append, List.length_singleton]
        omega
      have hlength : (queue ++ [pData i]).length + steps = queue.length + (steps + 1) := by
        rw [List.length_append, List.length_singleton]
        omega
      rw [if_neg (mt h.full_iff.mp hfull), if_pos hinside]
      rw [hlength] at hrest
      refine ⟨ring', hrest, hsize, ?_⟩
      rw [hroom, given, List.range'_succ, List.map_cons, List.take_succ_cons]
      simpa [given] using hholds

/-- The oldest byte is read. -/
theorem Holds.read {byte : UInt8} (h : Holds ring (byte :: queue)) {readpoint : UInt32}
    (hnext : readpoint.toNat = next ring.size.toNat ring.readpoint.toNat) :
    ring.buffer[readpoint.toNat]? = some byte ∧
      Holds { ring with readpoint := readpoint } queue := by
  have hsome : ring.writepoint.toNat ≠ ring.readpoint.toNat := by
    intro heq
    have hlength := h.length
    rw [heq, count_self] at hlength
    exact Nat.succ_ne_zero _ hlength
  have hcontents := h.contents_eq
  rw [contents_read h.read_lt h.write_lt hsome, List.cons.injEq] at hcontents
  have hlt : readpoint.toNat < ring.size.toNat := hnext ▸ next_lt h.read_lt
  have hinside := Nat.lt_of_lt_of_le hlt h.room
  refine ⟨?_, h.room, hlt, h.write_lt, ?_⟩
  · rw [hnext] at hinside ⊢
    rw [← hcontents.1, Ringbuff.cell, List.getD_eq_getElem?_getD,
      List.getElem?_eq_getElem hinside, Option.getD_some]
  · dsimp only
    rw [hnext]
    exact hcontents.2

/-- The oldest bytes are read, in order. -/
theorem popLoop_holds (steps : ℕ) (h : Holds ring queue) :
    ∃ ring', popLoop steps ring = some (ring', queue.take steps) ∧ ring'.size = ring.size ∧
      Holds ring' (queue.drop steps) := by
  induction steps generalizing ring queue with
  | zero => exact ⟨ring, rfl, rfl, h⟩
  | succ steps ih =>
    rw [popLoop]
    cases queue with
    | nil =>
      rw [if_pos (h.empty_iff.mpr rfl)]
      exact ⟨ring, rfl, rfl, h⟩
    | cons byte queue =>
      obtain ⟨hbyte, hread⟩ := h.read (toNat_next h.read_lt).2.1
      obtain ⟨ring', hrest, hsize, hholds⟩ := ih hread
      rw [if_neg (mt h.empty_iff.mp (List.cons_ne_nil byte queue))]
      dsimp only
      rw [hbyte, Option.bind_some, hrest]
      exact ⟨ring', rfl, hsize, hholds⟩

end Queues

section Runs

/-- A push is given bytes by their index, and a length of either sign. -/
inductive Op where
  | push (pData : ℕ → UInt8) (len : Int32)
  | pop (len : Int32)
  | flush

inductive Reply where
  | code (ret : ℤ)
  | popped (bytes : List UInt8) (ret : ℤ)
  deriving DecidableEq

def attempt : Op → Ringbuff → Option (Ringbuff × List Reply)
  | .push pData len, ring =>
      (ringBuffPushData ring pData len).map fun (ring, ret) => (ring, [.code ret])
  | .pop len, ring =>
      (ringBuffPopData ring len).map fun (ring, bytes, ret) => (ring, [.popped bytes ret])
  | .flush, ring => (ringBuffFlush ring).map fun (ring, ret) => (ring, [.code ret])

/-- The bytes that a push adds to a queue: as many as there is room for, but none of more bytes
than the size. -/
def accepted (size : ℕ) (queue : List UInt8) : Op → List UInt8
  | .push pData len =>
      if size < len.toUInt32.toNat then []
      else (given pData 0 len.toInt.toNat).take (size - 1 - queue.length)
  | _ => []

/-- The operation on a queue with a capacity of one less than the size. -/
def act (size : ℕ) : Op → List UInt8 → List UInt8 × List Reply
  | .push pData len, queue =>
      (queue ++ accepted size queue (.push pData len),
        [.code (if size < len.toUInt32.toNat then ringbuffTooShort
          else if len.toInt.toNat ≤ size - 1 - queue.length then ringbuffOk else ringbuffFull)])
  | .pop len, queue =>
      if size < len.toUInt32.toNat then (queue, [.popped [] ringbuffTooShort])
      else
        (queue.drop len.toInt.toNat,
          [.popped (queue.take len.toInt.toNat) (min len.toInt.toNat queue.length : ℕ)])
  | .flush, _ => ([], [.code ringbuffOk])

def acceptedAll (size : ℕ) : List Op → List UInt8 → List UInt8
  | [], _ => []
  | op :: ops, queue => accepted size queue op ++ acceptedAll size ops (act size op queue).1

def poppedAll : List Reply → List UInt8
  | [] => []
  | .code _ :: replies => poppedAll replies
  | .popped bytes _ :: replies => bytes ++ poppedAll replies

theorem poppedAll_append (rs rs' : List Reply) :
    poppedAll (rs ++ rs') = poppedAll rs ++ poppedAll rs' := by
  induction rs with
  | nil => rfl
  | cons r rs ih => cases r <;> simp [poppedAll, ih]

/-- Without a flush the bytes that come out and those that are left are the bytes that came in. -/
theorem run_conserves (size : ℕ) (ops : List Op) (queue : List UInt8)
    (hflush : ∀ op ∈ ops, op ≠ .flush) :
    poppedAll (run (act size) ops queue).2 ++ (run (act size) ops queue).1 =
      queue ++ acceptedAll size ops queue := by
  induction ops generalizing queue with
  | nil => simp [poppedAll, acceptedAll]
  | cons op ops ih =>
    have hrest := ih (act size op queue).1 fun op' h => hflush op' (List.mem_cons_of_mem op h)
    have hhere : poppedAll (act size op queue).2 ++ (act size op queue).1 =
        queue ++ accepted size queue op := by
      cases op with
      | push pData len => rfl
      | pop len =>
        by_cases hlong : size < len.toUInt32.toNat <;> simp [act, accepted, hlong, poppedAll]
      | flush => exact absurd rfl (hflush .flush List.mem_cons_self)
    rw [run_cons, poppedAll_append, List.append_assoc, hrest, ← List.append_assoc, hhere,
      List.append_assoc]
    rfl

variable {ring : Ringbuff} {queue : List UInt8} {buffer : List UInt8} {size : UInt32}

theorem clear_some (h : size.toNat ≤ buffer.length) :
    ∃ zeros, clear buffer size = some zeros ∧ size.toNat ≤ zeros.length := by
  refine ⟨_, if_pos h, ?_⟩
  rw [List.length_append, List.length_replicate]
  omega

/-- The step. -/
theorem attempt_holds (op : Op) (hsize : ring.size = size) (h : Holds ring queue) :
    ∃ ring', attempt op ring = some (ring', (act size.toNat op queue).2) ∧ ring'.size = size ∧
      Holds ring' (act size.toNat op queue).1 := by
  subst hsize
  cases op with
  | push pData len =>
    by_cases hlong : ring.size < len.toUInt32
    · have hlong' := UInt32.lt_iff_toNat_lt.mp hlong
      refine ⟨ring, ?_, rfl, ?_⟩
      · simp [attempt, ringBuffPushData, hlong, act, hlong']
      · simpa [act, accepted, hlong'] using h
    · have hlong' := mt UInt32.lt_iff_toNat_lt.mpr hlong
      obtain ⟨ring', hpush, hsize, hholds⟩ := @pushLoop_holds ring queue pData len.toInt.toNat 0 h
      have hlt := h.length_lt
      have hroom : queue.length + len.toInt.toNat < ring.size.toNat ↔
          len.toInt.toNat ≤ ring.size.toNat - 1 - queue.length := by omega
      refine ⟨ring', ?_, hsize, ?_⟩
      · simp only [attempt, ringBuffPushData, if_neg hlong, hpush, act, if_neg hlong', hroom,
          Option.map_some]
      · simpa only [act, accepted, if_neg hlong'] using hholds
  | pop len =>
    by_cases hlong : ring.size < len.toUInt32
    · have hlong' := UInt32.lt_iff_toNat_lt.mp hlong
      refine ⟨ring, ?_, rfl, ?_⟩
      · simp [attempt, ringBuffPopData, hlong, act, hlong']
      · simpa [act, hlong'] using h
    · have hlong' := mt UInt32.lt_iff_toNat_lt.mpr hlong
      obtain ⟨ring', hpop, hsize, hholds⟩ := popLoop_holds len.toInt.toNat h
      refine ⟨ring', ?_, hsize, ?_⟩
      · simp only [attempt, ringBuffPopData, if_neg hlong, hpop, act, if_neg hlong',
          Option.map_some, List.length_take]
      · simpa only [act, if_neg hlong'] using hholds
  | flush =>
    obtain ⟨zeros, hclear, hlength⟩ := clear_some h.room
    have hpos := Nat.zero_lt_of_lt h.read_lt
    refine ⟨{ ring with readpoint := 0, writepoint := 0, buffer := zeros, full := false }, ?_, rfl,
      hlength, hpos, hpos, contents_self ..⟩
    rw [attempt, ringBuffFlush, hclear]
    rfl

/-- In every run from the initialisation on, the buffer is a queue whose capacity is its size
less one: what is pushed is appended until it is full, what is popped are the oldest bytes, and
without a flush the bytes that come out and those that are left are those that came in. -/
theorem ring_fifo (size : UInt32) (hsize : 2 ≤ size.toNat) (buff : List UInt8)
    (hbuff : size.toNat ≤ buff.length) (ops : List Op) :
    (∃ ring, (ringBuffInit buff size).bind (runAttempts attempt ops) =
        some (ring, (run (act size.toNat) ops []).2) ∧
      contents ring.cell size.toNat ring.readpoint.toNat ring.writepoint.toNat =
        (run (act size.toNat) ops []).1) ∧
    (run (act size.toNat) ops []).1.length ≤ size.toNat - 1 ∧
    ((∀ op ∈ ops, op ≠ .flush) →
      poppedAll (run (act size.toNat) ops []).2 ++ (run (act size.toNat) ops []).1 =
        acceptedAll size.toNat ops []) := by
  obtain ⟨zeros, hclear, hlength⟩ := clear_some hbuff
  have hpos : 0 < size.toNat := by omega
  have hinit : Holds ⟨size, 0, 0, zeros, false⟩ [] := ⟨hlength, hpos, hpos, contents_self ..⟩
  obtain ⟨ring, hrun, hend, hholds⟩ := runAttempts_refines
    (fun ring queue op (h : ring.size = size ∧ Holds ring queue) _ => attempt_holds op h.1 h.2)
    ⟨rfl, hinit⟩ (along_true (act size.toNat) ops [])
  subst hend
  refine ⟨⟨ring, ?_, hholds.contents_eq⟩, ?_, run_conserves _ ops []⟩
  · rw [ringBuffInit, hclear]
    exact hrun
  · have hlt := hholds.length_lt
    omega

/-- Four places hold three bytes, across the end of the buffer. -/
theorem ring_fifo_four :
    ∃ ring, (ringBuffInit [9, 9, 9, 9] 4).bind (runAttempts attempt
        [.push (fun i => 1 + i.toUInt8) 2, .pop 1, .push (fun i => 3 + i.toUInt8) 3, .pop 2]) =
      some (ring, [.code 0, .popped [1] 1, .code (-4), .popped [2, 3] 2]) ∧
      contents ring.cell 4 ring.readpoint.toNat ring.writepoint.toNat = [4] :=
  (ring_fifo 4 (by decide) [9, 9, 9, 9] (by decide)
    [.push (fun i => 1 + i.toUInt8) 2, .pop 1, .push (fun i => 3 + i.toUInt8) 3, .pop 2]).1

/-- A push of three bytes does not store the one there is room for, and a pop of three does not
return the one that is stored. -/
theorem ring_wrong :
    ∃ ring, (ringBuffInit [0, 0] 2).bind (runAttempts attempt
        [.push (fun _ => 7) 3, .pop 1, .push (fun _ => 7) 1, .pop 3]) =
      some (ring, [.code (-5), .popped [] 0, .code 0, .popped [] (-5)]) :=
  ⟨_, rfl⟩

end Runs

end IotExplorer.RingBuffer
