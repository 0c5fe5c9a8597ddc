import IotExplorer.Basis.VarLength
import IotExplorer.Protocol
import Mathlib.Data.Nat.Bitwise
import Mathlib.Tactic.Ring

/-!
Byte buffers and the field readers and writers of mqtt_client_common.c. A
buffer is the list of its bytes; what lies past the list is still zero from the
client's initial memset. A cursor is an offset. The writers return the bytes
they append, and the remaining length is the digit string of the library in
base 128.
-/
namespace IotExplorer.PacketBytes

open IotExplorer.Basis Protocol

abbrev Buffer := List UInt8

def byteAt (buf : Buffer) (i : ℕ) : UInt8 := buf.getD i 0

/-- Bytes written at the start of a buffer leave the rest of it in place. -/
def overwrite (buf : Buffer) (bytes : List UInt8) : Buffer := bytes ++ buf.drop bytes.length

def slice (buf : Buffer) (start len : ℕ) : List UInt8 :=
  (List.range len).map fun i => byteAt buf (start + i)

/-- `mqtt_read_uint16_t`. -/
def mqttReadUint16 (buf : Buffer) (pos : ℕ) : ℕ :=
  ((byteAt buf (pos + 1)).toNat + 256 * (byteAt buf pos).toNat) % 2 ^ 16

/-- The loop of `_decode_packet_rem_len_from_buf_read`, with the digits that may
still be read: the value and the cursor behind it. Four digits of seven bits
cannot wrap the 32-bit accumulator. -/
def decodePacketRemLenLoop (buf : Buffer) : ℕ → ℕ → ℕ → ℕ → Except ReturnCode (ℕ × ℕ)
  | 0, _, _, _ => .error .mqttPacketRead
  | k + 1, pos, multiplier, value =>
      let c := byteAt buf pos
      let value := value + (c &&& (127 : UInt8)).toNat * multiplier
      if c &&& (128 : UInt8) ≠ 0 then decodePacketRemLenLoop buf k (pos + 1)
        (multiplier * 128) value
      else .ok (value, pos + 1)

/-- `mqtt_read_packet_rem_len_form_buf` at a cursor: the value and the new cursor. -/
def mqttReadPacketRemLenFormBuf (buf : Buffer) (pos : ℕ) : Except ReturnCode (ℕ × ℕ) :=
  decodePacketRemLenLoop buf maxNoOfRemainingLengthBytes pos 1 0

/-- The loop of `mqtt_write_packet_rem_len`; a 32-bit length has at most five digits. -/
def mqttWritePacketRemLenLoop : ℕ → ℕ → List UInt8
  | 0, _ => []
  | k + 1, length =>
      let encodeByte := UInt8.ofNat (length % 128)
      if length / 128 > 0 then
        (encodeByte ||| 0x80) :: mqttWritePacketRemLenLoop k (length / 128)
      else [encodeByte]

def mqttWritePacketRemLen (length : ℕ) : List UInt8 := mqttWritePacketRemLenLoop 5 length

def mqttWriteUint16 (anInt : ℕ) : List UInt8 :=
  [UInt8.ofNat (anInt / 256), UInt8.ofNat (anInt % 256)]

/-- `mqtt_write_utf8_string`: the length is cut to 16 bits, the text is not. -/
def mqttWriteUtf8String (string : List UInt8) : List UInt8 :=
  mqttWriteUint16 (string.length % 2 ^ 16) ++ string

/-- `get_mqtt_packet_len`. The thresholds are compared with the length after the
header byte was added. -/
def getMqttPacketLen (remLen : ℕ) : ℕ :=
  let remLen := remLen + 1
  if remLen < 128 then remLen + 1
  else if remLen < 16384 then remLen + 2
  else if remLen < 2097151 then remLen + 3
  else remLen + 4

def mqttInitPacketHeader (messageType : MessageType) (qos : QoS) (dup retained : UInt8) :
    Except ReturnCode UInt8 :=
  if messageType = .reserved then .error .mqttUnknown
  else
    let type := (messageType.code <<< (4 : UInt8)) &&& 0xF0
    let dup := (dup <<< (3 : UInt8)) &&& 0x08
    let qos := (qos.code <<< (1 : UInt8)) &&& 0x06
    .ok (type ||| dup ||| qos ||| (retained &&& 0x01))

/-- The message type bits of a first packet byte. -/
def headerType (header : UInt8) : UInt8 := (header &&& 0xF0) >>> (4 : UInt8)

/-- The duplicate flag of a first packet byte. -/
def headerDup (header : UInt8) : UInt8 := (header &&& 0x08) >>> (3 : UInt8)

/-- The quality of service bits of a first packet byte; 3 is possible. -/
def headerQos (header : UInt8) : UInt8 := (header &&& 0x06) >>> (1 : UInt8)

/-- The retain flag of a first packet byte. -/
def headerRetained (header : UInt8) : UInt8 := header &&& 0x01

section Buffers
variable (buf pre bytes rest : Buffer) (i n : ℕ)

@[simp] theorem slice_length : (slice buf i n).length = n := by simp [slice]

/-- Slices that follow one another join. -/
theorem slice_append (m n : ℕ) : slice buf 0 (m + n) = slice buf 0 m ++ slice buf m n := by
  simp only [slice, List.range_add, List.map_append, List.map_map, Nat.zero_add]
  rfl

theorem slice_prefix_iff (m n : ℕ) : slice buf 0 m <+: slice buf 0 n ↔ m ≤ n := by
  constructor
  · intro hleft
    simpa using hleft.length_le
  · intro hle
    rw [← Nat.add_sub_cancel' hle, slice_append]
    exact List.prefix_append _ _

theorem byteAt_append_right (h : pre.length ≤ i) :
    byteAt (pre ++ rest) i = byteAt rest (i - pre.length) := by
  simp only [byteAt, List.getD_eq_getElem?_getD, List.getElem?_append_right h]

theorem byteAt_append_left (h : i < pre.length) : byteAt (pre ++ rest) i = byteAt pre i := by
  simp only [byteAt, List.getD_eq_getElem?_getD, List.getElem?_append_left h]

@[simp] theorem byteAt_cons_zero (c : UInt8) : byteAt (c :: rest) 0 = c := rfl

@[simp] theorem byteAt_cons_succ (c : UInt8) : byteAt (c :: rest) (i + 1) = byteAt rest i := rfl

/-- A slice that lies inside a block of a buffer is that block. -/
theorem slice_block (h : pre.length = i) (hn : bytes.length = n) :
    slice (pre ++ bytes ++ rest) i n = bytes := by
  apply List.ext_getElem?
  intro j
  by_cases hj : j < n
  · have hmid : i + j - pre.length = j := by omega
    rw [slice, List.getElem?_map, List.getElem?_range hj, Option.map_some, List.append_assoc,
      byteAt_append_right _ _ _ (by omega), hmid, byteAt_append_left _ _ _ (by omega),
      byteAt, List.getD_eq_getElem?_getD, List.getElem?_eq_getElem (by omega), Option.getD_some]
  · rw [List.getElem?_eq_none (by simp; omega), List.getElem?_eq_none (by omega)]

theorem mqttReadUint16_block (a b : UInt8) (h : pre.length = i) :
    mqttReadUint16 (pre ++ a :: b :: rest) i = b.toNat + 256 * a.toNat := by
  have ha := a.toNat_lt
  have hb := b.toNat_lt
  rw [mqttReadUint16, byteAt_append_right _ _ _ (by omega), byteAt_append_right _ _ _ (by omega)]
  have hzero : i - pre.length = 0 := by omega
  have hone : i + 1 - pre.length = 1 := by omega
  rw [hzero, hone]
  simp only [byteAt_cons_zero, byteAt_cons_succ]
  omega

/-- What was written with `mqtt_write_uint_16` is read back. -/
theorem mqttReadUint16_write (anInt : ℕ) (h : pre.length = i) (hlt : anInt < 2 ^ 16) :
    mqttReadUint16 (pre ++ mqttWriteUint16 anInt ++ rest) i = anInt := by
  rw [mqttWriteUint16, List.append_assoc, List.cons_append, List.singleton_append,
    mqttReadUint16_block _ _ _ _ _ h, UInt8.toNat_ofNat', UInt8.toNat_ofNat']
  omega

end Buffers

section RemainingLength

/-- The digits a reader at `pos` meets. -/
def digitsAt (buf : Buffer) (pos k : ℕ) : List ℕ :=
  (List.range k).map fun i => (byteAt buf (pos + i)).toNat

theorem digitsAt_succ (buf : Buffer) (pos k : ℕ) :
    digitsAt buf pos (k + 1) = (byteAt buf pos).toNat :: digitsAt buf (pos + 1) k := by
  simp only [digitsAt, List.range_succ_eq_map, List.map_cons, List.map_map, Nat.add_zero]
  congr 1
  apply List.map_congr_left
  intro i _
  simp only [Function.comp_apply]
  congr 2
  omega

theorem toNat_and_low (c : UInt8) : (c &&& 127).toNat = c.toNat % 128 := by
  rw [UInt8.toNat_and]
  exact Nat.and_two_pow_sub_one_eq_mod c.toNat 7

theorem and_high_eq_zero_iff (c : UInt8) : c &&& 128 = 0 ↔ c.toNat < 128 := by
  have hc := c.toNat_lt
  rw [← UInt8.toNat_inj, UInt8.toNat_and]
  change c.toNat &&& 2 ^ 7 = 0 ↔ _
  rw [Nat.and_two_pow]
  constructor
  · intro h
    by_contra hlt
    have hbit : c.toNat.testBit 7 = true := by
      rw [Nat.testBit_eq_decide_div_mod_eq]
      simp only [decide_eq_true_eq]
      omega
    simp [hbit] at h
  · intro h
    rw [Nat.testBit_lt_two_pow (by simpa using h)]
    rfl

/-- The buffer decoder is the library's reader on the bytes at the cursor, and
bytes past its budget do not matter. -/
theorem decodePacketRemLenLoop_eq (buf : Buffer) (k m pos multiplier value : ℕ) :
    decodePacketRemLenLoop buf k pos multiplier value =
      match VarLength.decode 128 k (digitsAt buf pos (k + m)) with
      | none => .error .mqttPacketRead
      | some (n, rest) => .ok (value + n * multiplier, pos + (k + m - rest.length)) := by
  induction k generalizing pos multiplier value with
  | zero => rfl
  | succ k ih =>
    have hc := (byteAt buf pos).toNat_lt
    rw [decodePacketRemLenLoop, Nat.add_right_comm, digitsAt_succ, VarLength.decode]
    by_cases hlt : (byteAt buf pos).toNat < 128
    · have hlow := (and_high_eq_zero_iff (byteAt buf pos)).mpr hlt
      have hlen : (digitsAt buf (pos + 1) (k + m)).length = k + m := by simp [digitsAt]
      rw [if_neg (by simpa using hlow), if_pos hlt]
      simp only [toNat_and_low, Nat.mod_eq_of_lt hlt, hlen, Nat.add_sub_cancel_left]
    · have hhigh : ¬ byteAt buf pos &&& 128 = 0 := by rwa [and_high_eq_zero_iff]
      rw [if_pos hhigh, if_neg hlt, ih]
      cases hrest : VarLength.decode 128 k (digitsAt buf (pos + 1) (k + m)) with
      | none => rfl
      | some p =>
        obtain ⟨n, rest⟩ := p
        have hdigit : ∀ d ∈ digitsAt buf (pos + 1) (k + m), d < 2 * 128 := by
          intro d hd
          obtain ⟨i, -, rfl⟩ := List.mem_map.mp hd
          exact (byteAt buf (pos + 1 + i)).toNat_lt
        obtain ⟨used, husedrest, -, -, -⟩ := VarLength.decode_eq_some hrest hdigit
        have hlen := congrArg List.length husedrest
        simp only [digitsAt, List.length_map, List.length_range, List.length_append] at hlen
        have hmod : (byteAt buf pos).toNat % 128 = (byteAt buf pos).toNat - 128 := by omega
        simp only [Option.map_some, toNat_and_low, hmod, Except.ok.injEq, Prod.mk.injEq]
        constructor
        · ring
        · omega

/-- The written remaining length is the digit string of the library. -/
theorem mqttWritePacketRemLenLoop_toNat (k length : ℕ) :
    (mqttWritePacketRemLenLoop k length).map UInt8.toNat = VarLength.encode 128 k length := by
  induction k generalizing length with
  | zero => rfl
  | succ k ih =>
    have hmod : length % 128 < 128 := Nat.mod_lt _ (by decide)
    have hbyte : (UInt8.ofNat (length % 128)).toNat = length % 128 := by
      rw [UInt8.toNat_ofNat']
      omega
    unfold mqttWritePacketRemLenLoop VarLength.encode
    by_cases h : length / 128 = 0
    · simp only [h, gt_iff_lt, Nat.lt_irrefl, if_false, if_true, List.map_singleton, hbyte]
    · have hmark : (UInt8.ofNat (length % 128) ||| 0x80).toNat = length % 128 + 128 := by
        rw [UInt8.toNat_or, hbyte]
        have hor := Nat.two_pow_add_eq_or_of_lt (i := 7) hmod 1
        change length % 128 ||| 2 ^ 7 = _
        rw [Nat.or_comm]
        simpa [Nat.add_comm] using hor.symm
      rw [if_pos (Nat.pos_of_ne_zero h), if_neg h, List.map_cons, hmark, ih]

theorem mqttWritePacketRemLen_toNat (length : ℕ) :
    (mqttWritePacketRemLen length).map UInt8.toNat = VarLength.encode 128 5 length :=
  mqttWritePacketRemLenLoop_toNat 5 length

theorem mqttWritePacketRemLen_length (length : ℕ) :
    (mqttWritePacketRemLen length).length = (VarLength.encode 128 5 length).length := by
  rw [← mqttWritePacketRemLen_toNat, List.length_map]

/-- How many bytes a remaining length below `2 ^ 35` takes. -/
theorem mqttWritePacketRemLen_length_le_iff (j length : ℕ) (h : length < 128 ^ 5) :
    (mqttWritePacketRemLen length).length ≤ j + 1 ↔ length < 128 ^ (j + 1) := by
  rw [mqttWritePacketRemLen_length]
  exact VarLength.encode_length_le_iff (by decide) 4 j length h

theorem mqttWritePacketRemLen_length_pos (length : ℕ) :
    0 < (mqttWritePacketRemLen length).length := by
  rw [mqttWritePacketRemLen_length]
  exact List.length_pos_iff.mpr (VarLength.encode_ne_nil 4 length)

/-- `get_mqtt_packet_len` leaves room for the header, the length bytes and the body. -/
theorem packet_length_le (remLen : ℕ) (h : remLen < 2 ^ 28) :
    1 + (mqttWritePacketRemLen remLen).length + remLen ≤ getMqttPacketLen remLen := by
  have hone := mqttWritePacketRemLen_length_le_iff 0 remLen (by omega)
  have htwo := mqttWritePacketRemLen_length_le_iff 1 remLen (by omega)
  have hthree := mqttWritePacketRemLen_length_le_iff 2 remLen (by omega)
  have hfour := mqttWritePacketRemLen_length_le_iff 3 remLen (by omega)
  unfold getMqttPacketLen
  dsimp only
  simp only [Nat.reducePow, Nat.reduceAdd] at hone htwo hthree hfour h
  split_ifs <;> omega

theorem digitsAt_block (pre bytes rest : Buffer) (i m : ℕ) (h : pre.length = i) :
    digitsAt (pre ++ bytes ++ rest) i (bytes.length + m) =
      bytes.map UInt8.toNat ++ digitsAt rest 0 m := by
  subst h
  induction bytes generalizing pre with
  | nil =>
    simp only [List.append_nil, List.length_nil, Nat.zero_add, List.map_nil, List.nil_append]
    apply List.map_congr_left
    intro j _
    rw [byteAt_append_right _ _ _ (by omega), Nat.add_sub_cancel_left, Nat.zero_add]
  | cons c bytes ih =>
    have hshift : pre ++ c :: bytes ++ rest = (pre ++ [c]) ++ bytes ++ rest := by simp
    have hhead : byteAt (pre ++ c :: bytes ++ rest) pre.length = c := by
      rw [List.append_assoc, byteAt_append_right _ _ _ (Nat.le_refl _), Nat.sub_self]
      rfl
    rw [List.length_cons, Nat.add_right_comm, digitsAt_succ, hhead, hshift]
    have hlen : (pre ++ [c]).length = pre.length + 1 := by simp
    rw [← hlen, ih (pre ++ [c])]
    rfl

/-- A remaining length below `2 ^ 28` is read back, and the cursor is behind it. -/
theorem mqttReadPacketRemLenFormBuf_write (pre rest : Buffer) (i length : ℕ)
    (h : pre.length = i) (hlt : length < 2 ^ 28) :
    mqttReadPacketRemLenFormBuf (pre ++ mqttWritePacketRemLen length ++ rest) i =
      .ok (length, i + (mqttWritePacketRemLen length).length) := by
  have hfour := (mqttWritePacketRemLen_length_le_iff 3 length (by omega)).mpr (by omega)
  have hdecode := VarLength.decode_encode (b := 128) (by decide) 4 3 length
    (digitsAt rest 0 4) (by omega) (by omega)
  have hsplit : 4 + (mqttWritePacketRemLen length).length =
      (mqttWritePacketRemLen length).length + 4 := Nat.add_comm _ _
  have hlen : (digitsAt rest 0 4).length = 4 := by simp [digitsAt]
  unfold mqttReadPacketRemLenFormBuf
  rw [decodePacketRemLenLoop_eq _ _ (mqttWritePacketRemLen length).length]
  unfold maxNoOfRemainingLengthBytes
  rw [hsplit, digitsAt_block pre _ rest i 4 h, mqttWritePacketRemLen_toNat, hdecode]
  simp only [hlen, Except.ok.injEq, Prod.mk.injEq]
  constructor
  · ring
  · omega

/-- A longer remaining length is refused by the reader. -/
theorem mqttReadPacketRemLenFormBuf_write_eq_error (pre rest : Buffer) (i length : ℕ)
    (h : pre.length = i) (hlt : length < 128 ^ 5) (hge : 2 ^ 28 ≤ length) :
    mqttReadPacketRemLenFormBuf (pre ++ mqttWritePacketRemLen length ++ rest) i =
      .error .mqttPacketRead := by
  have hdecode := VarLength.decode_encode_eq_none (b := 128) (by decide) 4 4 length
    (digitsAt rest 0 4) (by omega) (by omega)
  have hsplit : 4 + (mqttWritePacketRemLen length).length =
      (mqttWritePacketRemLen length).length + 4 := Nat.add_comm _ _
  unfold mqttReadPacketRemLenFormBuf
  rw [decodePacketRemLenLoop_eq _ _ (mqttWritePacketRemLen length).length]
  unfold maxNoOfRemainingLengthBytes
  rw [hsplit, digitsAt_block pre _ rest i 4 h, mqttWritePacketRemLen_toNat, hdecode]

end RemainingLength
end IotExplorer.PacketBytes
