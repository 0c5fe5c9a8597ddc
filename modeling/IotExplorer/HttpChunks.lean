import IotExplorer.HttpClient
import Mathlib.Data.List.TakeWhile

/-!
A body in chunks. The bytes of a chunk are read up to its very end and no further,
and then still count as unread: only a chunk that is in the local buffer with a
byte behind it, as soon as its size line is, is passed. The text of the chunks is
`encode`, and `chunksArrive` tells which reads bring every chunk in time.
-/
namespace IotExplorer.HttpChunks

open Basis.JsonText TemplateJson HttpClient

section Chunks

/-- A chunk of a body and its size in hexadecimal digits. -/
structure Chunk where
  size : List UInt8
  payload : List UInt8
  digits : ∀ c ∈ size, isHexDigit c = true
  value : scanDigits 16 size = some payload.length
  noZero : size.head? ≠ some 0x30
  nonempty : payload ≠ []

/-- The chunks as they are sent, with the last chunk behind them. -/
def encode : List Chunk → List UInt8
  | [] => 0x30 :: (crlf ++ crlf)
  | chunk :: rest => chunk.size ++ (crlf ++ (chunk.payload ++ (crlf ++ encode rest)))

def body (chunks : List Chunk) : List UInt8 := (chunks.map Chunk.payload).flatten

/-- Reads that bring a byte at least, in time. -/
def Steady (reads : List Read) : Prop :=
  ∀ read ∈ reads, 0 < read.size ∧ read.code = .success ∧ read.late = false

/-- The bytes that have arrived, those to come, and the reads to come. -/
structure Arrived where
  data : List UInt8
  stream : List UInt8
  reads : List Read

/-- The reads up to the one with which so many bytes are in the local buffer. -/
def arrive (n : ℕ) : List Read → List UInt8 → List UInt8 → Arrived
  | reads, data, stream =>
      if n ≤ data.length then ⟨data, stream, reads⟩
      else
        match reads with
        | [] => ⟨data, stream, []⟩
        | read :: reads =>
            let bytes := read.bytes (chunkSize - data.length - 1) stream
            arrive n reads (data ++ bytes) (stream.drop bytes.length)

/-- Each chunk is in the local buffer with a byte behind it as soon as its size line is. -/
def chunksArrive : List Chunk → Arrived → Bool
  | [], _ => true
  | chunk :: rest, arrived =>
      let header := arrive (chunk.size.length + 3) arrived.reads arrived.data arrived.stream
      let behind := chunk.size.length + 2 + chunk.payload.length
      decide (behind < header.data.length) &&
        let ended := arrive 2 header.reads (header.data.drop behind) header.stream
        chunksArrive rest ⟨ended.data.drop 2, ended.stream, ended.reads⟩

structure Retrieves (text : List UInt8) (exit : Exit) : Prop where
  outcome : exit.outcome = .returned .success
  noMore : exit.call.client.isMore = false
  text : exit.call.text = text

end Chunks

section Sizes

/-- A hexadecimal digit has a value, and it is zero for the character 0 only. -/
theorem digitValue_hex {c : UInt8} (h : isHexDigit c = true) :
    ∃ digit, digitValue 16 c = some digit ∧ (digit = 0 → c = 0x30) := by
  simp only [isHexDigit, isDigit, Bool.or_eq_true, Bool.and_eq_true, decide_eq_true_eq,
    UInt8.le_iff_toNat_le] at h
  simp only [digitValue, isDigit, Bool.and_eq_true, decide_eq_true_eq, UInt8.le_iff_toNat_le,
    ← UInt8.toNat_inj]
  have h0 : (0x30 : UInt8).toNat = 48 := rfl
  have h9 : (0x39 : UInt8).toNat = 57 := rfl
  have hA : (0x41 : UInt8).toNat = 65 := rfl
  have hF : (0x46 : UInt8).toNat = 70 := rfl
  have ha : (0x61 : UInt8).toNat = 97 := rfl
  have hf : (0x66 : UInt8).toNat = 102 := rfl
  split_ifs <;> first | exact ⟨_, rfl, by omega⟩ | omega

theorem readDigits_hex {c : UInt8} {text : List UInt8} (h : isHexDigit c = true) (value : ℕ) :
    ∃ digit, readDigits 16 value (c :: text) = readDigits 16 (value * 16 + digit) text := by
  obtain ⟨digit, hdigit, -⟩ := digitValue_hex h
  exact ⟨digit, by rw [readDigits, hdigit]⟩

/-- More digits are a greater value. -/
theorem le_readDigits (value : ℕ) {text : List UInt8} (h : ∀ c ∈ text, isHexDigit c = true) :
    value * 16 ^ text.length ≤ readDigits 16 value text := by
  induction text generalizing value with
  | nil => simp [readDigits]
  | cons c text ih =>
    obtain ⟨digit, hdigit⟩ := @readDigits_hex _ text (h c (List.mem_cons_self ..)) value
    have hrest := ih (value * 16 + digit) fun c' hmem => h c' (List.mem_cons_of_mem c hmem)
    rw [hdigit, List.length_cons, Nat.pow_succ, Nat.mul_comm _ 16, ← Nat.mul_assoc]
    exact Nat.le_trans (Nat.mul_le_mul_right _ (Nat.le_add_right _ _)) hrest

end Sizes

section Headers
variable {data stream rest head : List UInt8} {reads : List Read}

/-- The end of a line is seen when there is a byte behind it. -/
theorem findCrlf_eq (hhead : cr ∉ head) (h : data ++ stream = head ++ (crlf ++ rest)) :
    findCrlf data = if head.length + 3 ≤ data.length then some head.length else none := by
  induction head generalizing data with
  | nil =>
    match data, h with
    | [], _ => rfl
    | [c], _ => rfl
    | [c, c'], _ => rfl
    | c :: c' :: c'' :: data, h =>
      obtain ⟨hc, h⟩ := List.cons.inj h
      obtain ⟨hc', -⟩ := List.cons.inj h
      rw [findCrlf, if_pos ⟨hc, hc'⟩, if_pos (by simp)]
      rfl
  | cons c head ih =>
    rw [List.mem_cons, not_or] at hhead
    cases data with
    | nil => rfl
    | cons c' data =>
      obtain ⟨rfl, h'⟩ := List.cons.inj h
      have hrest := ih hhead.2 h'
      match data, hrest with
      | [], _ => rfl
      | [c], _ => rw [if_neg (by simp)]; rfl
      | c :: c'' :: data, hrest =>
        have hne : ¬ (c' = cr ∧ c = lf) := fun h => hhead.1 h.1.symm
        rw [findCrlf, if_neg hne, hrest]
        simp only [List.length_cons]
        by_cases hlen : head.length + 3 ≤ data.length + 1 + 1
        · rw [if_pos hlen, if_pos (by omega)]
          rfl
        · rw [if_neg hlen, if_neg (by omega)]
          rfl

theorem Steady.tail {read : Read} (h : Steady (read :: reads)) : Steady reads :=
  fun read' hmem => h read' (List.mem_cons_of_mem read hmem)

theorem recv_steady {read : Read} (h : Steady (read :: reads)) (maxLen : ℕ) (call : Call) :
    httpClientRecv maxLen read call =
      (.success, read.bytes maxLen call.stream,
        { call with stream := call.stream.drop (read.bytes maxLen call.stream).length }) := by
  obtain ⟨-, hcode, -⟩ := h read (List.mem_cons_self ..)
  have hcloses : (ReadCode.success == ReadCode.peerShutdown) = false := rfl
  rw [httpClientRecv, recvCode, hcode, hcloses]
  simp

/-- What a read takes and what it leaves. -/
theorem bytes_append (read : Read) (maxLen : ℕ) (stream : List UInt8) :
    read.bytes maxLen stream ++ stream.drop (read.bytes maxLen stream).length = stream := by
  exact List.prefix_iff_eq_append.mp (List.take_prefix _ _)

theorem bytes_length (read : Read) (maxLen : ℕ) (stream : List UInt8) :
    (read.bytes maxLen stream).length = min (min read.size maxLen) stream.length :=
  List.length_take ..

theorem arrive_long {n : ℕ} (h : n ≤ data.length) :
    arrive n reads data stream = ⟨data, stream, reads⟩ := by
  unfold arrive
  exact if_pos h

/-- What has arrived when so many bytes are in the local buffer. -/
structure Arrives (n : ℕ) (reads : List Read) (text : List UInt8) (arrived : Arrived) : Prop where
  bytes : arrived.data ++ arrived.stream = text
  long : n ≤ arrived.data.length
  short : arrived.data.length < chunkSize
  steady : Steady arrived.reads
  enough : arrived.stream.length ≤ arrived.reads.length

theorem arrive_arrives {n : ℕ} (hsteady : Steady reads) (henough : stream.length ≤ reads.length)
    (hn : n < chunkSize) (hlen : n ≤ (data ++ stream).length) (hshort : data.length < chunkSize) :
    Arrives n reads (data ++ stream) (arrive n reads data stream) := by
  induction reads generalizing data stream with
  | nil =>
    have hnil : stream = [] := List.eq_nil_of_length_eq_zero (Nat.le_zero.mp henough)
    subst hnil
    rw [List.append_nil] at hlen
    rw [arrive, if_pos hlen]
    exact ⟨rfl, hlen, hshort, hsteady, henough⟩
  | cons read reads ih =>
    rw [arrive]
    by_cases hlong : n ≤ data.length
    · rw [if_pos hlong]
      exact ⟨rfl, hlong, hshort, hsteady, henough⟩
    · rw [if_neg hlong]
      dsimp only
      have hsplit := bytes_append read (chunkSize - data.length - 1) stream
      have hbytes := bytes_length read (chunkSize - data.length - 1) stream
      have hsize := (hsteady read (List.mem_cons_self ..)).1
      rw [List.length_append] at hlen
      rw [List.length_cons] at henough
      generalize read.bytes (chunkSize - data.length - 1) stream = bytes at hsplit hbytes ⊢
      have hrest := @ih (data ++ bytes) (stream.drop bytes.length) hsteady.tail
        (by rw [List.length_drop]; omega)
        (by rw [List.append_assoc, hsplit, List.length_append]; omega)
        (by rw [List.length_append]; omega)
      rw [List.append_assoc, hsplit] at hrest
      exact ⟨hrest.bytes, hrest.long, hrest.short, hrest.steady, hrest.enough⟩

/-- The size line is read until there is a byte behind it. -/
theorem readChunkHeader_eq {call : Call} (hsteady : Steady reads)
    (henough : call.stream.length ≤ reads.length) (hhead : cr ∉ head) (hrest : rest ≠ [])
    (h : call.data ++ call.stream = head ++ (crlf ++ rest)) (hn : head.length + 3 < chunkSize)
    (hshort : call.data.length < chunkSize) :
    let arrived := arrive (head.length + 3) reads call.data call.stream
    readChunkHeader reads call = .ok (head.length, arrived.reads,
      { call with data := arrived.data, stream := arrived.stream }) := by
  have hfound := findCrlf_eq hhead h
  induction reads generalizing call with
  | nil =>
    have hnil : call.stream = [] := List.eq_nil_of_length_eq_zero (Nat.le_zero.mp henough)
    have hlen : head.length + 3 ≤ call.data.length := by
      rw [hnil, List.append_nil] at h
      have hpos := List.length_pos_of_ne_nil hrest
      simp only [h, List.length_append, crlf, List.length_cons, List.length_nil]
      omega
    rw [if_pos hlen] at hfound
    rw [readChunkHeader, hfound, arrive, if_pos hlen]
  | cons read reads ih =>
    rw [readChunkHeader, hfound, arrive]
    by_cases hlen : head.length + 3 ≤ call.data.length
    · rw [if_pos hlen, if_pos hlen]
    · rw [if_neg hlen, if_neg hlen]
      dsimp only
      rw [if_pos hshort, recv_steady hsteady]
      dsimp only
      rw [if_neg (not_not.mpr rfl)]
      have hsplit := bytes_append read (chunkSize - call.data.length - 1) call.stream
      have hbytes := bytes_length read (chunkSize - call.data.length - 1) call.stream
      have hsize := (hsteady read (List.mem_cons_self ..)).1
      have htotal := congrArg List.length h
      have hpos := List.length_pos_of_ne_nil hrest
      simp only [List.length_append, crlf, List.length_cons, List.length_nil] at htotal
      rw [List.length_cons] at henough
      generalize read.bytes (chunkSize - call.data.length - 1) call.stream =
          bytes at hsplit hbytes ⊢
      have h' : (call.data ++ bytes) ++ call.stream.drop bytes.length = head ++ (crlf ++ rest) := by
        rw [List.append_assoc, hsplit, h]
      exact @ih { call with
          data := call.data ++ bytes, stream := call.stream.drop bytes.length } hsteady.tail
        (by dsimp only; rw [List.length_drop]; omega) h'
        (by dsimp only; rw [List.length_append]; omega) (findCrlf_eq hhead h')

end Headers

section Rounds
variable {chunk : Chunk} {chunks : List Chunk} {reads : List Read} {call : Call} {bufLen : ℕ}

/-- A digit is no NUL, blank, sign or end of a line. -/
theorem hexDigit_plain {c : UInt8} (h : isHexDigit c = true) :
    (c ≠ 0 ∧ c ≠ cr) ∧ isSpace c = false ∧ c ≠ 0x2D ∧ c ≠ 0x2B := by
  have hspace : c ≠ space := by
    rintro rfl
    exact absurd h (by decide)
  have hrange : 48 ≤ c.toNat := by
    simp only [isHexDigit, isDigit, Bool.or_eq_true, Bool.and_eq_true, decide_eq_true_eq,
      UInt8.le_iff_toNat_le] at h
    have h0 : (0x30 : UInt8).toNat = 48 := rfl
    have hA : (0x41 : UInt8).toNat = 65 := rfl
    have ha : (0x61 : UInt8).toNat = 97 := rfl
    omega
  have hne : ∀ c' : UInt8, c'.toNat < 48 → c ≠ c' := by
    rintro c' hlow rfl
    omega
  refine ⟨⟨hne 0 (by decide), hne cr (by decide)⟩, ?_, hne _ (by decide), hne _ (by decide)⟩
  have hcr : (0x0D : UInt8).toNat = 13 := rfl
  rw [isSpace, beq_eq_false_iff_ne.mpr hspace, Bool.false_or, Bool.and_eq_false_iff]
  right
  rw [decide_eq_false_iff_not, UInt8.le_iff_toNat_le]
  omega

theorem Chunk.size_cons (chunk : Chunk) : ∃ c rest, chunk.size = c :: rest := by
  cases h : chunk.size with
  | nil =>
    have hvalue := chunk.value
    rw [h] at hvalue
    cases hvalue
  | cons c rest => exact ⟨c, rest, rfl⟩

/-- The length of the payload is read from the size line. -/
theorem strtoul16_size (hlen : chunk.payload.length < 2 ^ 31) :
    strtoul16 chunk.size = chunk.payload.length := by
  obtain ⟨c, rest, hsize⟩ := chunk.size_cons
  have hcstr : cstr chunk.size = chunk.size := by
    rw [cstr, List.takeWhile_eq_self_iff]
    intro c' hmem
    exact bne_iff_ne.mpr (hexDigit_plain (chunk.digits c' hmem)).1.1
  obtain ⟨-, hspace, hminus, hplus⟩ :=
    hexDigit_plain (chunk.digits c (hsize ▸ List.mem_cons_self ..))
  have hdrop : chunk.size.dropWhile isSpace = chunk.size := by
    rw [hsize]
    exact List.dropWhile_cons_of_neg (by rw [hspace]; decide)
  have hhex : scanHex chunk.size = some chunk.payload.length := by
    have hzero := chunk.noZero
    rw [← chunk.value, hsize]
    rw [hsize, List.head?_cons] at hzero
    unfold scanHex
    split
    · next heq => exact absurd (congrArg some (List.cons.inj heq).1) hzero
    · next heq => exact absurd (congrArg some (List.cons.inj heq).1) hzero
    · rfl
  have hscan : scanSigned scanHex chunk.size = some (chunk.payload.length : ℤ) := by
    rw [scanSigned, hdrop, hsize]
    split
    · next heq => exact absurd (List.cons.inj heq).1 hminus
    · next heq => exact absurd (List.cons.inj heq).1 hplus
    · rw [← hsize, hhex]
      rfl
  rw [strtoul16, hcstr, hscan]
  dsimp only
  rw [Int.natAbs_natCast, if_pos (by omega)]
  omega

/-- A size line is short. -/
theorem Chunk.size_short (hlen : chunk.payload.length < 2 ^ 31) : chunk.size.length ≤ 8 := by
  obtain ⟨c, rest, hsize⟩ := chunk.size_cons
  have hvalue := chunk.value
  have hzero := chunk.noZero
  have hc := chunk.digits c (hsize ▸ List.mem_cons_self ..)
  have hrest := fun c' hmem => chunk.digits c' (hsize ▸ List.mem_cons_of_mem c hmem)
  rw [hsize] at hvalue ⊢
  rw [hsize, List.head?_cons] at hzero
  rw [scanDigits, Option.map_eq_some_iff] at hvalue
  obtain ⟨digit, hdigit, hread⟩ := hvalue
  have hpos : 1 ≤ digit := by
    obtain ⟨digit', hdigit', honly⟩ := digitValue_hex hc
    obtain rfl : digit' = digit := Option.some.inj (hdigit'.symm.trans hdigit)
    exact Nat.one_le_iff_ne_zero.mpr fun h => hzero (congrArg some (honly h))
  have hlow := le_readDigits digit hrest
  by_contra hlong
  rw [List.length_cons] at hlong
  have hpow : 16 ^ 8 ≤ 16 ^ rest.length := Nat.pow_le_pow_right (by decide) (by omega)
  have hmul := Nat.mul_le_mul hpos hpow
  omega

structure Between (chunks : List Chunk) (reads : List Read) (call : Call) : Prop where
  chunked : call.client.isChunked = true
  none : call.client.retrieveLen ≤ 0
  bytes : call.data ++ call.stream = encode chunks
  short : call.data.length < chunkSize
  steady : Steady reads
  enough : call.stream.length ≤ reads.length

theorem encode_ne_nil (chunks : List Chunk) : encode chunks ≠ [] := by
  cases chunks with
  | nil => exact List.cons_ne_nil _ _
  | cons chunk chunks =>
    obtain ⟨c, rest, hsize⟩ := chunk.size_cons
    rw [encode, hsize]
    exact List.cons_ne_nil _ _

/-- What has arrived when the size line of a chunk has. -/
theorem Between.header (h : Between (chunk :: chunks) reads call)
    (hlen : chunk.payload.length < 2 ^ 31) :
    Arrives (chunk.size.length + 3) reads (encode (chunk :: chunks))
      (arrive (chunk.size.length + 3) reads call.data call.stream) := by
  have hsize := chunk.size_short hlen
  have hpos := List.length_pos_of_ne_nil chunk.nonempty
  rw [← h.bytes]
  apply arrive_arrives h.steady h.enough
  · rw [chunkSize]
    omega
  · rw [h.bytes, encode]
    simp only [List.length_append, crlf, List.length_cons, List.length_nil]
    omega
  · exact h.short

/-- Behind the size line come the payload, its end, and the chunks that follow. -/
theorem Arrives.payload {arrived : Arrived}
    (h : Arrives (chunk.size.length + 3) reads (encode (chunk :: chunks)) arrived) :
    arrived.data.take chunk.size.length = chunk.size ∧
      arrived.data.drop (chunk.size.length + 2) ++ arrived.stream =
        chunk.payload ++ (crlf ++ encode chunks) := by
  have hbytes := h.bytes
  have hlong := h.long
  rw [encode] at hbytes
  constructor
  · have htake := congrArg (List.take chunk.size.length) hbytes
    rwa [List.take_append_of_le_length (by omega), List.take_left] at htake
  · have hdrop := congrArg (List.drop (chunk.size.length + 2)) hbytes
    have hrest : (chunk.size ++ (crlf ++ (chunk.payload ++ (crlf ++ encode chunks)))).drop
        (chunk.size.length + 2) = chunk.payload ++ (crlf ++ encode chunks) := by
      rw [← List.drop_drop, List.drop_left]
      rfl
    rwa [List.drop_append_of_le_length (by omega), hrest] at hdrop

/-- A round begins with the length of the next chunk. -/
theorem beginRound_chunk (h : Between (chunk :: chunks) reads call)
    (hlen : chunk.payload.length < 2 ^ 31) :
    beginRound reads call = .ok (chunk.payload.length,
      (arrive (chunk.size.length + 3) reads call.data call.stream).reads, { call with
        data := (arrive (chunk.size.length + 3) reads call.data call.stream).data.drop
          (chunk.size.length + 2)
        stream := (arrive (chunk.size.length + 3) reads call.data call.stream).stream
        client := { call.client with
          retrieveLen := chunk.payload.length
          responseContentLen := call.client.responseContentLen + chunk.payload.length } }) := by
  have hsize := chunk.size_short hlen
  have hcr : cr ∉ chunk.size := fun hmem => (hexDigit_plain (chunk.digits cr hmem)).1.2 rfl
  have hrest : chunk.payload ++ (crlf ++ encode chunks) ≠ [] :=
    List.append_ne_nil_of_left_ne_nil chunk.nonempty _
  have hn : chunk.size.length + 3 < chunkSize := by
    rw [chunkSize]
    omega
  have hheader := readChunkHeader_eq h.steady h.enough hcr hrest h.bytes hn h.short
  have hpayload := (h.header hlen).payload
  have hmod : ((chunk.payload.length : ℤ)).bmod (2 ^ 32) = chunk.payload.length := by
    apply Int.bmod_eq_of_le <;> omega
  have hpos := List.length_pos_of_ne_nil chunk.nonempty
  rw [beginRound, if_pos ⟨h.chunked, h.none⟩, hheader]
  dsimp only
  rw [hpayload.1, strtoul16_size hlen, hmod, if_neg (by omega)]

/-- The last chunk ends the body. -/
theorem beginRound_last (h : Between [] reads call) :
    ∃ exit, beginRound reads call = .error exit ∧ Retrieves call.text exit := by
  have hcr : cr ∉ [(0x30 : UInt8)] := by decide
  have hlf : crlf ≠ [] := by decide
  have hn : [(0x30 : UInt8)].length + 3 < chunkSize := by decide
  have hbytes : call.data ++ call.stream = [0x30] ++ (crlf ++ crlf) := h.bytes
  have hheader := readChunkHeader_eq h.steady h.enough hcr hlf hbytes hn h.short
  have harrives : Arrives 4 reads ([0x30] ++ (crlf ++ crlf))
      (arrive 4 reads call.data call.stream) := by
    rw [← hbytes]
    apply arrive_arrives h.steady h.enough (by decide) _ h.short
    rw [hbytes]
    decide
  have hlong := harrives.long
  have htake := congrArg (List.take 1) harrives.bytes
  rw [List.take_append_of_le_length (by omega)] at htake
  have hzero : strtoul16 [0x30] = 0 := by decide
  have hheader' : readChunkHeader reads call = .ok (1, (arrive 4 reads call.data call.stream).reads,
      { call with
        data := (arrive 4 reads call.data call.stream).data
        stream := (arrive 4 reads call.data call.stream).stream }) := hheader
  rw [beginRound, if_pos ⟨h.chunked, h.none⟩, hheader']
  dsimp only
  rw [htake]
  have hfirst : ([0x30] ++ (crlf ++ crlf)).take 1 = [0x30] := rfl
  rw [hfirst, if_pos hzero]
  exact ⟨_, rfl, rfl, rfl, rfl⟩

/-- A chunk with a byte behind it is taken, if it fits. -/
theorem takeContent_whole {payload rest : List UInt8}
    (h : call.data ++ call.stream = payload ++ rest) (hbehind : payload.length < call.data.length) :
    takeContent bufLen reads payload.length call =
      if call.text.length + payload.length < bufLen - 1 then
        .ok (reads, { call with
          text := call.text ++ payload
          data := call.data.drop payload.length
          client := { call.client with retrieveLen := 0 } })
      else
        .error ⟨.returned .retrieveMoreData, { call with
          text := call.text ++ call.data.take (bufLen - 1 - call.text.length)
          client := { call.client with
            retrieveLen := call.client.retrieveLen - (bufLen - 1 - call.text.length : ℕ) } },
              reads⟩ := by
  have htake := congrArg (List.take payload.length) h
  rw [List.take_append_of_le_length (Nat.le_of_lt hbehind), List.take_left] at htake
  rw [takeContent, Nat.min_eq_right (Nat.le_of_lt hbehind)]
  dsimp only
  by_cases hroom : call.text.length + payload.length < bufLen - 1
  · rw [if_pos hroom, if_pos hroom, if_pos hbehind, htake]
  · rw [if_neg hroom, if_neg hroom]

/-- The end of a chunk is stripped, and a read is made for it when one byte of it is there. -/
theorem endChunk_behind {rest : List UInt8} (h : call.data ++ call.stream = crlf ++ rest)
    (hdata : call.data ≠ []) (hshort : call.data.length < chunkSize) (hsteady : Steady reads)
    (henough : call.stream.length ≤ reads.length) :
    let ended := arrive 2 reads call.data call.stream
    endChunk reads call = .ok (ended.reads, { call with
        data := ended.data.drop 2, stream := ended.stream }) ∧
      ended.data.drop 2 ++ ended.stream = rest ∧ ended.data.length < chunkSize ∧
      Steady ended.reads ∧ ended.stream.length ≤ ended.reads.length := by
  obtain ⟨hbytes, hlong, hshort', hsteady', henough'⟩ : Arrives 2 reads (call.data ++ call.stream)
      (arrive 2 reads call.data call.stream) := by
    apply arrive_arrives hsteady henough (by decide) _ hshort
    rw [h, List.length_append]
    exact Nat.le_add_right _ _
  have hstrip : ∀ {data stream : List UInt8}, data ++ stream = crlf ++ rest → 2 ≤ data.length →
      ∃ rest', data = cr :: lf :: rest' ∧ rest' ++ stream = rest := by
    intro data stream hcrlf hlen
    match data, hlen with
    | c :: c' :: rest', _ =>
      obtain ⟨hc, hcrlf⟩ := List.cons.inj hcrlf
      obtain ⟨hc', hcrlf⟩ := List.cons.inj hcrlf
      exact ⟨rest', by rw [hc, hc'], hcrlf⟩
  have hne : ¬ (cr ≠ cr ∨ lf ≠ lf) := by decide
  refine ⟨?_, ?_, hshort', hsteady', henough'⟩
  · unfold endChunk
    by_cases hlen : call.data.length < 2
    · have hpos := List.length_pos_of_ne_nil hdata
      cases reads with
      | nil =>
        have htotal := congrArg List.length h
        rw [List.length_append, List.length_append] at htotal
        have hcrlf : crlf.length = 2 := rfl
        rw [List.length_nil] at henough
        omega
      | cons read reads =>
        have hsplit := bytes_append read (chunkSize - call.data.length - 1) call.stream
        have hlate := (hsteady read (List.mem_cons_self ..)).2.2
        have hread : arrive 2 (read :: reads) call.data call.stream =
            ⟨call.data ++ read.bytes (chunkSize - call.data.length - 1) call.stream,
              call.stream.drop (read.bytes (chunkSize - call.data.length - 1) call.stream).length,
              reads⟩ := by
          have hbytes := bytes_length read (chunkSize - call.data.length - 1) call.stream
          have hsize := (hsteady read (List.mem_cons_self ..)).1
          have htotal := congrArg List.length h
          rw [List.length_append, List.length_append] at htotal
          have hcrlf : crlf.length = 2 := rfl
          have hchunk : chunkSize = 1025 := rfl
          rw [arrive, if_neg (by omega)]
          exact arrive_long (by rw [List.length_append]; omega)
        rw [hread] at hlong ⊢
        rw [if_pos hlen]
        dsimp only at hlong ⊢
        rw [recv_steady hsteady]
        dsimp only
        generalize read.bytes (chunkSize - call.data.length - 1) call.stream = bytes at *
        rw [if_neg (by rw [hlate]; decide)]
        obtain ⟨rest', hdata', -⟩ :=
          @hstrip (call.data ++ bytes) (call.stream.drop bytes.length)
            (by rw [List.append_assoc, hsplit, h]) hlong
        rw [stripCrlf, hdata']
        exact if_neg hne
    · obtain ⟨rest', hdata', -⟩ := hstrip h (by omega)
      have hread : arrive 2 reads call.data call.stream = ⟨call.data, call.stream, reads⟩ :=
        arrive_long (by omega)
      rw [if_neg hlen, hread, stripCrlf, hdata']
      exact if_neg hne
  · obtain ⟨rest', hdata', hrest⟩ := hstrip (hbytes.trans h) hlong
    rw [hdata']
    exact hrest

/-- The last bytes of a payload, which have been taken, still count as unread. -/
structure Unread (payload tail : List UInt8) (reads : List Read) (call : Call) : Prop where
  chunked : call.client.isChunked = true
  nonempty : call.data ≠ []
  suffix : call.data <:+ payload
  stream : call.stream = tail
  steady : Steady reads
  enough : tail.length ≤ reads.length

/-- A chunk that has not arrived with a byte behind it: its last bytes are left in the buffer. -/
structure Late (payload tail : List UInt8) (result : Except Exit (List Read × Call)) : Prop where
  failed : ∀ exit, result = .error exit → exit.outcome ≠ .returned .success
  passed : ∀ reads call, result = .ok (reads, call) → Unread payload tail reads call

theorem late_error {payload tail : List UInt8} {exit : Exit}
    (h : exit.outcome ≠ .returned .success) : Late payload tail (.error exit) := by
  constructor
  · intro exit' heq
    injection heq with heq
    exact heq ▸ h
  · intro reads call heq
    cases heq

theorem takeContent_late {payload tail : List UInt8} (hchunked : call.client.isChunked = true)
    (h : call.data ++ call.stream = payload ++ tail) (hlate : call.data.length ≤ payload.length)
    (hdata : call.data ≠ []) (hsteady : Steady reads)
    (henough : call.stream.length ≤ reads.length) :
    Late payload tail (takeContent bufLen reads payload.length call) := by
  have hmore : Outcome.returned .retrieveMoreData ≠ .returned .success := by decide
  induction reads generalizing call payload with
  | nil =>
    rw [takeContent, Nat.min_eq_left hlate]
    dsimp only
    have htotal := congrArg List.length h
    rw [List.length_append, List.length_append] at htotal
    rw [List.length_nil] at henough
    by_cases hroom : call.text.length + call.data.length < bufLen - 1
    · rw [if_pos hroom, if_neg (Nat.not_lt.mpr hlate), if_pos (by omega)]
      have hboth := List.append_inj h (by omega)
      constructor
      · intro exit heq
        cases heq
      · intro reads' call' heq
        injection heq with heq
        injection heq with hreads hcall
        subst hreads hcall
        exact ⟨hchunked, hdata, hboth.1 ▸ List.suffix_rfl, hboth.2, hsteady, hboth.2 ▸ henough⟩
    · rw [if_neg hroom]
      exact late_error hmore
  | cons read reads ih =>
    rw [takeContent, Nat.min_eq_left hlate]
    dsimp only
    have htotal := congrArg List.length h
    rw [List.length_append, List.length_append] at htotal
    by_cases hroom : call.text.length + call.data.length < bufLen - 1
    · rw [if_pos hroom, if_neg (Nat.not_lt.mpr hlate)]
      by_cases hend : payload.length - call.data.length = 0
      · rw [if_pos hend]
        have hboth := List.append_inj h (by omega)
        constructor
        · intro exit heq
          cases heq
        · intro reads' call' heq
          injection heq with heq
          injection heq with hreads hcall
          subst hreads hcall
          exact ⟨hchunked, hdata, hboth.1 ▸ List.suffix_rfl, hboth.2, hsteady, hboth.2 ▸ henough⟩
      · rw [if_neg hend, recv_steady hsteady]
        dsimp only
        obtain ⟨hsize, -, hintime⟩ := hsteady read (List.mem_cons_self ..)
        rw [if_neg (not_not.mpr rfl), if_neg (by rw [hintime]; decide)]
        -- the read goes no further than the payload
        have htext : (call.text ++ call.data.take call.data.length).length =
            call.text.length + call.data.length := by
          rw [List.take_length, List.length_append]
        rw [htext]
        have hsplit := bytes_append read (min (min (chunkSize - 1)
          (bufLen - 1 - (call.text.length + call.data.length))) (payload.length - call.data.length))
          call.stream
        have hbytes := bytes_length read (min (min (chunkSize - 1)
          (bufLen - 1 - (call.text.length + call.data.length))) (payload.length - call.data.length))
          call.stream
        generalize read.bytes _ call.stream = bytes at hsplit hbytes ⊢
        have hchunk : chunkSize = 1025 := rfl
        have hdrop := congrArg (List.drop call.data.length) h
        rw [List.drop_left, List.drop_append_of_le_length hlate] at hdrop
        rw [List.length_cons] at henough
        rw [← List.length_drop]
        have hrest := @ih { call with
            text := call.text ++ call.data.take call.data.length
            client := { call.client with
              retrieveLen := call.client.retrieveLen - (call.data.length : ℕ) }
            data := bytes
            stream := call.stream.drop bytes.length } (payload.drop call.data.length) hchunked
          (by dsimp only; rw [hsplit, hdrop]) (by dsimp only; rw [List.length_drop]; omega)
          (by dsimp only; exact List.ne_nil_of_length_pos (by omega)) hsteady.tail
          (by dsimp only; rw [List.length_drop]; omega)
        refine ⟨hrest.failed, ?_⟩
        intro reads' call' heq
        obtain ⟨hchunked', hne, hsuffix, hstream, hsteady', henough'⟩ :=
          hrest.passed reads' call' heq
        exact ⟨hchunked', hne, hsuffix.trans (List.drop_suffix _ _), hstream, hsteady', henough'⟩
    · rw [if_neg hroom]
      exact late_error hmore

/-- Bytes of a payload are no end of a chunk. -/
theorem endChunk_late {payload rest : List UInt8} (hpayload : ¬ crlf <:+: payload)
    (h : Unread payload (crlf ++ rest) reads call) :
    ∃ exit, endChunk reads call = .error exit ∧ exit.outcome ≠ .returned .success := by
  have hcrlf : ∀ {call' : Call} {c c' : UInt8} {data : List UInt8}, call'.data = c :: c' :: data →
      ¬ (c = cr ∧ c' = lf) → ∀ reads', stripCrlf reads' call' =
        .error ⟨.returned .unresolvedDns, call', reads'⟩ := by
    intro call' c c' data hdata hne reads'
    rw [stripCrlf, hdata]
    exact if_pos (by rwa [← not_and_or])
  have hdns : Outcome.returned .unresolvedDns ≠ .returned .success := by decide
  have hne : cr ≠ lf := by decide
  obtain ⟨front, hfront⟩ := h.suffix
  unfold endChunk
  by_cases hlen : call.data.length < 2
  · rw [if_pos hlen]
    have henough := h.enough
    rw [List.length_append] at henough
    cases reads with
    | nil => exact absurd henough (by simp [crlf])
    | cons read reads =>
      have hlate := (h.steady read (List.mem_cons_self ..)).2.2
      have hsize := (h.steady read (List.mem_cons_self ..)).1
      have hpos := List.length_pos_of_ne_nil h.nonempty
      dsimp only
      rw [recv_steady h.steady]
      dsimp only
      rw [if_neg (by rw [hlate]; decide)]
      -- the byte behind the last one of the payload is a CR
      obtain ⟨c, hc⟩ : ∃ c, call.data = [c] := List.length_eq_one_iff.mp (by omega)
      obtain ⟨size, hbytes⟩ : ∃ size,
          read.bytes (chunkSize - call.data.length - 1) call.stream = cr :: size := by
        obtain ⟨k, hk⟩ : ∃ k, min read.size (chunkSize - call.data.length - 1) = k + 1 := by
          have hchunk : chunkSize = 1025 := rfl
          exact ⟨min read.size (chunkSize - call.data.length - 1) - 1, by omega⟩
        rw [Read.bytes, hk, h.stream]
        exact ⟨_, List.take_succ_cons⟩
      have hdata : call.data ++ read.bytes (chunkSize - call.data.length - 1) call.stream =
          c :: cr :: size := by rw [hbytes, hc]; rfl
      exact ⟨_, hcrlf hdata (fun h => hne h.2) reads, hdns⟩
  · rw [if_neg hlen]
    obtain ⟨c, c', data, hdata⟩ : ∃ c c' data, call.data = c :: c' :: data := by
      cases hdata : call.data with
      | nil => exact absurd hdata h.nonempty
      | cons c data =>
        cases data with
        | nil => exact absurd (by rw [hdata]; exact Nat.one_lt_two) hlen
        | cons c' data => exact ⟨c, c', data, rfl⟩
    have hother : ¬ (c = cr ∧ c' = lf) := by
      rintro ⟨rfl, rfl⟩
      apply hpayload
      rw [← hfront, hdata]
      exact ⟨front, data, by simp [crlf]⟩
    exact ⟨_, hcrlf hdata hother reads, hdns⟩

end Rounds

section Bodies
variable {chunk : Chunk} {chunks : List Chunk} {reads : List Read} {call : Call} {bufLen : ℕ}

/-- What is left behind the payload of a chunk that has arrived. -/
theorem Between.behind (h : Between (chunk :: chunks) reads call)
    (hlen : chunk.payload.length < 2 ^ 31) {arrived : Arrived}
    (harrived : arrive (chunk.size.length + 3) reads call.data call.stream = arrived)
    (hready : chunk.size.length + 2 + chunk.payload.length < arrived.data.length) :
    arrived.data.drop (chunk.size.length + 2 + chunk.payload.length) ≠ [] ∧
      arrived.data.drop (chunk.size.length + 2 + chunk.payload.length) ++ arrived.stream =
        crlf ++ encode chunks := by
  have harrives := h.header hlen
  rw [harrived] at harrives
  obtain ⟨-, hpayload⟩ := harrives.payload
  constructor
  · intro hnil
    have hlength := congrArg List.length hnil
    rw [List.length_drop, List.length_nil] at hlength
    omega
  · have hdrop := congrArg (List.drop chunk.payload.length) hpayload
    rwa [List.drop_left, List.drop_append_of_le_length (by rw [List.length_drop]; omega),
      List.drop_drop] at hdrop

/-- A round passes a chunk that has arrived in time and fits the buffer. -/
theorem retrieveRounds_chunk (h : Between (chunk :: chunks) reads call)
    (hlen : chunk.payload.length < 2 ^ 31) {arrived ended : Arrived}
    (harrived : arrive (chunk.size.length + 3) reads call.data call.stream = arrived)
    (hready : chunk.size.length + 2 + chunk.payload.length < arrived.data.length)
    (hended : arrive 2 arrived.reads
      (arrived.data.drop (chunk.size.length + 2 + chunk.payload.length)) arrived.stream = ended)
    (hroom : call.text.length + chunk.payload.length < bufLen - 1) :
    ∃ call', (∀ rounds, retrieveRounds bufLen (rounds + 1) reads call =
        retrieveRounds bufLen rounds ended.reads call') ∧
      Between chunks ended.reads call' ∧ call'.data = ended.data.drop 2 ∧
      call'.stream = ended.stream ∧ call'.text = call.text ++ chunk.payload := by
  have harrives := h.header hlen
  have hbehind := h.behind hlen harrived hready
  rw [harrived] at harrives
  have hpayload := harrives.payload.2
  have hbegin := beginRound_chunk h hlen
  rw [harrived] at hbegin
  have htake := @takeContent_whole arrived.reads { call with
      data := arrived.data.drop (chunk.size.length + 2)
      stream := arrived.stream
      client := { call.client with
        retrieveLen := chunk.payload.length
        responseContentLen := call.client.responseContentLen + chunk.payload.length } } bufLen _
          _ hpayload
    (by dsimp only; rw [List.length_drop]; omega)
  rw [if_pos hroom] at htake
  dsimp only at htake
  rw [List.drop_drop] at htake
  have hshort := harrives.short
  obtain ⟨hend, hbytes, hshort', hsteady', henough'⟩ := @endChunk_behind arrived.reads { call with
      text := call.text ++ chunk.payload
      data := arrived.data.drop (chunk.size.length + 2 + chunk.payload.length)
      stream := arrived.stream
      client := { call.client with
        retrieveLen := 0
        responseContentLen := call.client.responseContentLen + chunk.payload.length } } _
    hbehind.2 hbehind.1 (by dsimp only; rw [List.length_drop]; omega) harrives.steady
      harrives.enough
  dsimp only at hend hbytes hshort' hsteady' henough'
  rw [hended] at hend hbytes hshort' hsteady' henough'
  refine ⟨{ call with
      text := call.text ++ chunk.payload
      data := ended.data.drop 2
      stream := ended.stream
      client := { call.client with
        retrieveLen := 0
        responseContentLen := call.client.responseContentLen + chunk.payload.length } },
    ?_, ⟨?_, ?_, hbytes, ?_, hsteady', henough'⟩, rfl, rfl, rfl⟩
  · intro rounds
    rw [retrieveRounds, hbegin]
    dsimp only
    rw [htake]
    dsimp only
    rw [if_pos h.chunked, hend]
  · exact h.chunked
  · exact Int.le_refl 0
  · dsimp only
    rw [List.length_drop]
    omega

/-- A body whose chunks arrive in time and fit is taken as a whole. -/
theorem retrieveRounds_retrieves {rounds : ℕ} (h : Between chunks reads call)
    (hlen : (body chunks).length < 2 ^ 31)
    (hready : chunksArrive chunks ⟨call.data, call.stream, reads⟩ = true)
    (hroom : chunks = [] ∨ call.text.length + (body chunks).length < bufLen - 1)
    (hrounds : chunks.length < rounds) :
    Retrieves (call.text ++ body chunks) (retrieveRounds bufLen rounds reads call) := by
  induction chunks generalizing reads call rounds with
  | nil =>
    obtain ⟨rounds, rfl⟩ : ∃ rounds', rounds = rounds' + 1 := ⟨rounds - 1, by omega⟩
    obtain ⟨exit, hbegin, hretrieves⟩ := beginRound_last h
    rw [retrieveRounds, hbegin]
    have hbody : call.text ++ body [] = call.text := List.append_nil _
    rw [hbody]
    exact hretrieves
  | cons chunk chunks ih =>
    have hbody : body (chunk :: chunks) = chunk.payload ++ body chunks := rfl
    rw [List.length_cons] at hrounds
    obtain ⟨rounds, rfl⟩ : ∃ rounds', rounds = rounds' + 1 := ⟨rounds - 1, by omega⟩
    rw [hbody, List.length_append] at hlen
    have hfits := hroom.resolve_left (List.cons_ne_nil _ _)
    rw [hbody, List.length_append] at hfits
    rw [chunksArrive, Bool.and_eq_true, decide_eq_true_eq] at hready
    dsimp only at hready
    generalize harrived : arrive (chunk.size.length + 3) reads call.data call.stream = arrived
      at hready
    obtain ⟨hbehind, hrest⟩ := hready
    generalize hended : arrive 2 arrived.reads
      (arrived.data.drop (chunk.size.length + 2 + chunk.payload.length)) arrived.stream = ended
      at hrest
    obtain ⟨call', hstep, hbetween, hdata, hstream, htext⟩ := (@retrieveRounds_chunk _ _ _ _ bufLen)
      h (by omega) harrived hbehind hended (by omega)
    have hready' : chunksArrive chunks ⟨call'.data, call'.stream, ended.reads⟩ = true := by
      rw [hdata, hstream]
      exact hrest
    have hroom' : chunks = [] ∨ call'.text.length + (body chunks).length < bufLen - 1 := by
      right
      rw [htext, List.length_append]
      omega
    have hretrieves := ih hbetween (by omega) hready' hroom' (by omega : chunks.length < rounds)
    rw [hstep, hbody, ← List.append_assoc, ← htext]
    exact hretrieves

/-- A chunk that is late, or does not fit, is the end of the call. -/
theorem retrieveRounds_fails {rounds : ℕ} (h : Between chunks reads call)
    (hlen : (body chunks).length < 2 ^ 31) (hpayloads : ∀ chunk ∈ chunks, ¬ crlf <:+: chunk.payload)
    (hnot : ¬ (chunksArrive chunks ⟨call.data, call.stream, reads⟩ = true ∧
      (chunks = [] ∨ call.text.length + (body chunks).length < bufLen - 1))) :
    (retrieveRounds bufLen rounds reads call).outcome ≠ .returned .success := by
  have hwaiting : Outcome.waiting ≠ .returned .success := by decide
  have hmore : Outcome.returned .retrieveMoreData ≠ .returned .success := by decide
  induction chunks generalizing reads call rounds with
  | nil => exact absurd ⟨rfl, .inl rfl⟩ hnot
  | cons chunk chunks ih =>
    cases rounds with
    | zero => exact hwaiting
    | succ rounds =>
      have hbody : body (chunk :: chunks) = chunk.payload ++ body chunks := rfl
      rw [hbody, List.length_append] at hlen hnot
      have hpayload := hpayloads chunk (List.mem_cons_self ..)
      have hchunk : chunk.payload.length < 2 ^ 31 := by omega
      have hbegin := beginRound_chunk h hchunk
      have harrives := h.header hchunk
      generalize harrived : arrive (chunk.size.length + 3) reads call.data call.stream = arrived
        at hbegin harrives
      have hstream := harrives.payload.2
      have hlong := harrives.long
      by_cases hbehind : chunk.size.length + 2 + chunk.payload.length < arrived.data.length
      · by_cases hroom : call.text.length + chunk.payload.length < bufLen - 1
        · -- the chunk is passed
          obtain ⟨call', hstep, hbetween, hdata, hstream', htext⟩ :=
            (@retrieveRounds_chunk _ _ _ _ bufLen) h hchunk harrived hbehind rfl hroom
          rw [hstep]
          apply ih hbetween (by omega) fun c hmem => hpayloads c (List.mem_cons_of_mem chunk hmem)
          rintro ⟨hready', hroom'⟩
          rw [hdata, hstream'] at hready'
          apply hnot
          refine ⟨?_, .inr ?_⟩
          · rw [chunksArrive, Bool.and_eq_true, decide_eq_true_eq]
            dsimp only
            rw [harrived]
            exact ⟨hbehind, hready'⟩
          · rcases hroom' with rfl | hroom'
            · exact hroom
            · rw [htext, List.length_append] at hroom'
              omega
        · -- the chunk does not fit
          have htake := @takeContent_whole arrived.reads { call with
              data := arrived.data.drop (chunk.size.length + 2)
              stream := arrived.stream
              client := { call.client with
                retrieveLen := chunk.payload.length
                responseContentLen := call.client.responseContentLen + chunk.payload.length } }
                  bufLen _ _
            hstream (by dsimp only; rw [List.length_drop]; omega)
          rw [if_neg hroom] at htake
          rw [retrieveRounds, hbegin]
          dsimp only
          rw [htake]
          exact hmore
      · -- the last bytes of the payload are taken for its end
        have hlate := @takeContent_late arrived.reads { call with
            data := arrived.data.drop (chunk.size.length + 2)
            stream := arrived.stream
            client := { call.client with
              retrieveLen := chunk.payload.length
              responseContentLen := call.client.responseContentLen + chunk.payload.length } }
                bufLen _ _
          h.chunked hstream (by dsimp only; rw [List.length_drop]; omega)
          (by
            intro hnil
            have hlength := congrArg List.length hnil
            rw [List.length_drop, List.length_nil] at hlength
            omega)
          harrives.steady harrives.enough
        rw [retrieveRounds, hbegin]
        dsimp only
        generalize takeContent bufLen arrived.reads chunk.payload.length _ = result at hlate ⊢
        cases result with
        | error exit => exact hlate.failed exit rfl
        | ok taken =>
          obtain ⟨reads', call'⟩ := taken
          have hunread := hlate.passed reads' call' rfl
          obtain ⟨exit, hend, houtcome⟩ := endChunk_late hpayload hunread
          dsimp only
          rw [if_pos hunread.chunked, hend]
          exact houtcome

theorem chunks_length_lt (chunks : List Chunk) : chunks.length < (encode chunks).length := by
  induction chunks with
  | nil => decide
  | cons chunk chunks ih =>
    rw [encode, List.length_cons]
    simp only [List.length_append, crlf, List.length_cons, List.length_nil] at ih ⊢
    omega

/-- The chunked branch returns the body if the chunks arrive in time and there is room for a byte
more than the body and its NUL; and only then, unless the end of a line is in a chunk. -/
theorem httpClientRetrieveContent_chunks (bufLen : ℕ) (reads : List Read) (call : Call)
    (chunks : List Chunk) (hint : bufLen < 2 ^ 31) (hbuf : (body chunks).length < bufLen)
    (hchunked : call.client.isChunked = true) (hnone : call.client.retrieveLen = 0)
    (hbytes : call.data ++ call.stream = encode chunks) (hshort : call.data.length < chunkSize)
    (hsteady : Steady reads) (henough : call.stream.length ≤ reads.length) :
    (chunksArrive chunks ⟨call.data, call.stream, reads⟩ = true ∧
        (chunks = [] ∨ (body chunks).length + 1 < bufLen) →
      Retrieves (body chunks) (httpClientRetrieveContent bufLen reads call)) ∧
    ((∀ chunk ∈ chunks, ¬ crlf <:+: chunk.payload) →
      Retrieves (body chunks) (httpClientRetrieveContent bufLen reads call) →
      chunksArrive chunks ⟨call.data, call.stream, reads⟩ = true ∧
        (chunks = [] ∨ (body chunks).length + 1 < bufLen)) := by
  have hlen : (body chunks).length < 2 ^ 31 := by omega
  have hbetween : Between chunks reads
      { call with text := [], client := { call.client with isMore := true } } :=
    ⟨hchunked, by dsimp only; omega, hbytes, hshort, hsteady, henough⟩
  have hrounds : chunks.length < call.data.length + call.stream.length + 1 := by
    have htotal := congrArg List.length hbytes
    have hlt := chunks_length_lt chunks
    rw [List.length_append] at htotal
    omega
  have hroom : (chunks = [] ∨ ([] : List UInt8).length + (body chunks).length < bufLen - 1) ↔
      (chunks = [] ∨ (body chunks).length + 1 < bufLen) := by
    rw [List.length_nil]
    apply or_congr Iff.rfl
    omega
  rw [httpClientRetrieveContent]
  dsimp only
  rw [if_neg (by rw [hchunked]; simp)]
  constructor
  · rintro ⟨hready, hfits⟩
    exact retrieveRounds_retrieves hbetween hlen hready (hroom.mpr hfits) hrounds
  · intro hpayloads hretrieves
    by_contra hnot
    rw [← hroom] at hnot
    exact retrieveRounds_fails hbetween hlen hpayloads hnot hretrieves.outcome

def hello : Chunk where
  size := ascii "5"
  payload := ascii "hello"
  digits := List.all_eq_true.mp (by decide)
  value := by decide
  noZero := by decide
  nonempty := by decide

/-- A call for a body in chunks, of whose bytes so many are in the local buffer. -/
def chunkedCall (received : ℕ) : Call where
  data := (encode [hello]).take received
  text := []
  client := ⟨true, true, 0, 0, true⟩
  stream := (encode [hello]).drop received

/-- A read of any size that comes in time. -/
def inTime (size : ℕ) : Read := ⟨size, .success, false⟩

theorem httpClientRetrieveContent_hello :
    Retrieves (body [hello])
      (httpClientRetrieveContent 16 (List.replicate 15 (inTime 3)) (chunkedCall 9)) := by
  have hsteady : Steady (List.replicate 15 (inTime 3)) := by
    intro read hmem
    rw [List.eq_of_mem_replicate hmem]
    decide
  exact (httpClientRetrieveContent_chunks 16 (List.replicate 15 (inTime 3)) (chunkedCall 9) [hello]
    (by decide) (by decide) rfl rfl rfl (by decide) hsteady (by decide)).1 (by decide)

/-- A chunk that ends with a read is not passed. -/
theorem httpClientRetrieveContent_late : ¬ ∀ (bufLen : ℕ) (reads : List Read) (call : Call)
    (chunks : List Chunk), bufLen < 2 ^ 31 → (body chunks).length < bufLen →
    call.client.isChunked = true → call.client.retrieveLen = 0 →
    call.data ++ call.stream = encode chunks → call.data.length < chunkSize → Steady reads →
    call.stream.length ≤ reads.length →
    Retrieves (body chunks) (httpClientRetrieveContent bufLen reads call) := by
  intro hall
  have hsteady : Steady (List.replicate 15 (inTime 3)) := by
    intro read hmem
    rw [List.eq_of_mem_replicate hmem]
    decide
  have hretrieves := hall 16 (List.replicate 15 (inTime 3)) (chunkedCall 6) [hello] (by decide)
    (by decide) rfl rfl rfl (by decide) hsteady (by decide)
  exact absurd hretrieves.outcome (by decide)

end Bodies

end IotExplorer.HttpChunks
