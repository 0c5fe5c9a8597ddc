import IotExplorer.PropertyUpdate
import IotExplorer.HttpChunks

/-!
A body with a Content-Length, received by calls of the client with buffers of any
sizes. The bytes of the body that come with the header are in a local buffer of the
first call, and those that do not fit its response buffer are lost.
`bodyWithHeader` tells from the sizes of the reads how many come with the header.
-/
namespace IotExplorer.HttpDownload

open Basis.JsonText Basis.Decimals TemplateJson DeviceProperty HttpClient HttpChunks

section Responses

/-- A response with a Content-Length: the status line, the fields in front of this field and those
behind it, and the body. -/
structure Response where
  status : List UInt8
  before : List UInt8
  after : List UInt8
  body : List UInt8

def Response.fields (response : Response) : List UInt8 :=
  response.before ++ (ascii "Content-Length: " ++ (decimal response.body.length ++ response.after))

def Response.text (response : Response) : List UInt8 :=
  response.status ++ (crlf ++ (response.fields ++ (crlf ++ crlf) ++ response.body))

/-- The header is made of lines without NULs, the status line of a version and what follows, and
the first blank line ends it. The length is an `int`. -/
structure Response.WellFormed (response : Response) : Prop where
  line : cr ∉ response.status
  version : 9 ≤ response.status.length
  noNul : 0 ∉ response.status ++ (response.before ++ response.after)
  ends : indexOf (crlf ++ crlf) (response.fields ++ (crlf ++ crlf)) = some response.fields.length
  behind : response.after = [] ∨ response.after.head? = some cr
  int : response.body.length < 2 ^ 31

/-- No field in front mentions the name of the field. -/
def NamedFirst (response : Response) : Prop :=
  indexOf (ascii "Content-Length") (response.before ++ ascii "Content-Length") =
    some response.before.length

/-- How many bytes of the body come with the fields, of which so many bytes are there and so many of
the response still to come. One more read is made for them. -/
def bodyWithFields (response : Response) (rest left : ℕ) : List Read → Option ℕ
  | reads =>
      if response.fields.length + 4 ≤ rest then some (rest - (response.fields.length + 4))
      else
        match reads with
        | [] => none
        | read :: _ =>
            let both := rest + min (min read.size (chunkSize - rest - 1)) left
            if response.fields.length + 4 ≤ both then some (both - (response.fields.length + 4))
            else none

/-- How many bytes of the body come with the header, whose status line is read at once. -/
def bodyWithHeader (response : Response) : List Read → Option ℕ
  | [] => none
  | read :: reads =>
      let first := min (min read.size (chunkSize - 1)) response.text.length
      if response.status.length + 2 ≤ first then
        bodyWithFields response (first - (response.status.length + 2))
          (response.text.length - first)
          reads
      else none

/-- The response is received: its length is found, its status is no error of its own, and what comes
with the header fits the first buffer. -/
def Received (response : Response) (reads : List Read) (bufLen : ℕ) : Prop :=
  NamedFirst response ∧
    (atoi (response.status.drop 9) ≠ 403 ∧ atoi (response.status.drop 9) ≠ 404) ∧
    ∃ count, bodyWithHeader response reads = some count ∧ count < bufLen

/-- Calls of `qcloud_http_recv_data` with buffers of these sizes, as long as there is more. -/
def calls : List ℕ → List Read → ClientData → List UInt8 → List Exit
  | [], _, _, _ => []
  | bufLen :: sizes, reads, client, stream =>
      let exit := qcloudHttpRecvData bufLen reads client stream
      if exit.outcome = .returned .success ∧ exit.call.client.isMore = true then
        exit :: calls sizes exit.reads exit.call.client exit.call.stream
      else [exit]

def handedOver (exits : List Exit) : List UInt8 := (exits.map fun exit => exit.call.text).flatten

/-- All calls succeed until there is no more, hand over the body, and count what is left. -/
structure Downloads (body : List UInt8) (exits : List Exit) : Prop where
  succeeds : ∀ exit ∈ exits, exit.outcome = .returned .success
  ends : ∃ exit, exits.getLast? = some exit ∧ exit.call.client.isMore = false
  whole : handedOver exits = body
  left : ∀ front exit back, exits = front ++ exit :: back →
    exit.call.client.retrieveLen = (body.length : ℤ) - (handedOver (front ++ [exit])).length

end Responses

section Search
variable {needle text rest : List UInt8} {pos : ℕ}

theorem indexOf_le (h : indexOf needle text = some pos) : pos + needle.length ≤ text.length := by
  induction text generalizing pos with
  | nil =>
    rw [indexOf] at h
    split at h
    · next hnil =>
      injection h with h
      rw [List.isEmpty_iff.mp hnil, ← h]
      decide
    · cases h
  | cons c text ih =>
    rw [indexOf] at h
    split at h
    · next hleft =>
      injection h with h
      have hle := (List.isPrefixOf_iff_prefix.mp hleft).length_le
      omega
    · rw [Option.map_eq_some_iff] at h
      obtain ⟨pos', hpos', rfl⟩ := h
      have hle := ih hpos'
      rw [List.length_cons]
      omega

/-- The first place is the same in a longer text. -/
theorem indexOf_append (h : indexOf needle text = some pos) :
    indexOf needle (text ++ rest) = some pos := by
  induction text generalizing pos with
  | nil =>
    rw [indexOf] at h
    split at h
    · next hnil =>
      rw [List.isEmpty_iff.mp hnil]
      cases rest <;> exact h
    · cases h
  | cons c text ih =>
    rw [indexOf] at h
    rw [List.cons_append, indexOf]
    split at h
    · next hleft =>
      have hlong : needle.isPrefixOf (c :: (text ++ rest)) = true :=
        List.isPrefixOf_iff_prefix.mpr
          ((List.isPrefixOf_iff_prefix.mp hleft).trans (List.prefix_append (c :: text) rest))
      rw [if_pos hlong]
      exact h
    · next hleft =>
      rw [Option.map_eq_some_iff] at h
      obtain ⟨pos', hpos', rfl⟩ := h
      have hle := indexOf_le hpos'
      have hlong : ¬ needle.isPrefixOf (c :: (text ++ rest)) = true := by
        intro hlong
        apply hleft
        rw [List.isPrefixOf_iff_prefix] at hlong ⊢
        apply List.prefix_of_prefix_length_le hlong (List.prefix_append (c :: text) rest)
        rw [List.length_cons]
        omega
      rw [if_neg hlong, ih hpos']
      rfl

/-- A text is not found in what ends before it does. -/
theorem indexOf_short {front : List UInt8} (h : indexOf needle (front ++ rest) = some pos)
    (hshort : front.length < pos + needle.length) : indexOf needle front = none := by
  cases hfront : indexOf needle front with
  | none => rfl
  | some pos' =>
    have hboth := (@indexOf_append _ _ rest _ hfront).symm.trans h
    have hle := indexOf_le hfront
    injection hboth with hboth
    omega

theorem cstr_append (h : (0 : UInt8) ∉ text) : cstr (text ++ rest) = text ++ cstr rest := by
  rw [cstr, List.takeWhile_append_of_pos]
  · rfl
  · intro c hmem
    exact bne_iff_ne.mpr fun hc => h (hc ▸ hmem)

theorem cstr_eq (h : (0 : UInt8) ∉ text) : cstr text = text := by
  have happend := @cstr_append text [] h
  rwa [List.append_nil, show cstr [] = [] from rfl, List.append_nil] at happend

/-- A text in front of the first NUL is found in what begins with it. -/
theorem strstr_append (hnul : (0 : UInt8) ∉ text) (h : indexOf needle text = some pos) :
    strstr (text ++ rest) needle = some pos := by
  rw [strstr, cstr_append hnul]
  exact indexOf_append h

/-- It is not found before it has arrived. -/
theorem strstr_short {front : List UInt8} (hnul : (0 : UInt8) ∉ front ++ rest)
    (h : indexOf needle (front ++ rest) = some pos) (hshort : front.length < pos + needle.length) :
    strstr front needle = none := by
  rw [strstr, cstr_eq fun hmem => hnul (List.mem_append_left rest hmem)]
  exact indexOf_short h hshort

/-- It is found as soon as it has arrived. -/
theorem strstr_arrived {front data stream : List UInt8} (hnul : (0 : UInt8) ∉ front)
    (hfind : indexOf needle front = some pos) (hend : pos + needle.length = front.length)
    (h : data ++ stream = front ++ rest) :
    strstr data needle = if front.length ≤ data.length then some pos else none := by
  have hfront : front <+: data ++ stream := h ▸ List.prefix_append front rest
  by_cases hlen : front.length ≤ data.length
  · obtain ⟨more, hmore⟩ :=
      List.prefix_of_prefix_length_le hfront (List.prefix_append data stream) hlen
    rw [if_pos hlen, ← hmore]
    exact strstr_append hnul hfind
  · obtain ⟨more, hmore⟩ := List.prefix_of_prefix_length_le (List.prefix_append data stream) hfront
      (by omega)
    rw [if_neg hlen]
    rw [← hmore] at hnul hfind
    exact strstr_short hnul hfind (by omega)

/-- A line without a CR ends where the first CRLF is. -/
theorem indexOf_line {line : List UInt8} (h : cr ∉ line) :
    indexOf crlf (line ++ crlf) = some line.length := by
  induction line with
  | nil => decide
  | cons c line ih =>
    rw [List.mem_cons, not_or] at h
    have hleft : ¬ crlf.isPrefixOf (c :: (line ++ crlf)) = true := by
      rw [List.isPrefixOf_iff_prefix]
      rintro ⟨rest, hrest⟩
      exact h.1 (List.cons.inj hrest).1
    rw [List.cons_append, indexOf, if_neg hleft, ih h.2]
    rfl

theorem readDigits_stop (value : ℕ) {c : UInt8} (hc : digitValue 10 c = none)
    (htext : ∀ c ∈ text, isDigit c = true) :
    readDigits 10 value (text ++ c :: rest) = readDigits 10 value text := by
  rw [PropertyUpdate.readDigits_append htext, readDigits, hc]

/-- The number is read up to the end of its line. -/
theorem atoi_decimal {n : ℕ} (hn : n < 2 ^ 31) :
    atoi (decimal n ++ cr :: rest) = n := by
  have hdigits := isDigit_of_mem_decimal n
  have hread := PropertyUpdate.scanDigits_decimal n
  have hplain : ∀ c ∈ decimal n, (c ≠ 0 ∧ c ≠ cr) ∧ isSpace c = false ∧ c ≠ 0x2D ∧ c ≠ 0x2B := by
    intro c hmem
    apply hexDigit_plain
    rw [isHexDigit, hdigits c hmem]
    rfl
  have hcstr : cstr (decimal n ++ cr :: rest) = decimal n ++ cr :: cstr rest :=
    cstr_append fun hmem => (hplain 0 hmem).1.1 rfl
  have hscan : scanDigits 10 (decimal n ++ cr :: cstr rest) = some n := by
    cases htext : decimal n with
    | nil => exact absurd htext (decimal_ne_nil n)
    | cons c text =>
      rw [htext] at hread
      have hstop : ∀ value, readDigits 10 value (text ++ cr :: cstr rest) =
          readDigits 10 value text :=
        fun value => readDigits_stop value rfl fun c' hmem =>
          hdigits c' (htext ▸ List.mem_cons_of_mem c hmem)
      rw [List.cons_append, scanDigits]
      simp only [hstop]
      exact hread
  have hsigned : scanSigned (scanDigits 10) (decimal n ++ cr :: cstr rest) = some (n : ℤ) := by
    cases htext : decimal n with
    | nil => exact absurd htext (decimal_ne_nil n)
    | cons c text =>
      obtain ⟨-, hspace, hminus, hplus⟩ := hplain c (htext ▸ List.mem_cons_self ..)
      rw [htext] at hscan
      have hdrop : (c :: text ++ cr :: cstr rest).dropWhile isSpace =
          c :: text ++ cr :: cstr rest :=
        List.dropWhile_cons_of_neg (by rw [hspace]; decide)
      rw [scanSigned, hdrop, List.cons_append]
      split
      · next heq => exact absurd (List.cons.inj heq).1 hminus
      · next heq => exact absurd (List.cons.inj heq).1 hplus
      · rw [← List.cons_append, hscan]
        rfl
  have hrange : max (-2 ^ 63) (min (2 ^ 63 - 1) (n : ℤ)) = n := by
    rw [min_eq_right (by omega), max_eq_right (by omega)]
  rw [atoi, hcstr, hsigned]
  dsimp only
  rw [hrange]
  apply Int.bmod_eq_of_le <;> omega

end Search

section Contents
variable {left : List UInt8} {reads : List Read} {call : Call} {bufLen : ℕ}

/-- A call has handed over the next bytes of what is left, and counts the rest. -/
structure Hands (left : List UInt8) (client : ClientData) (exit : Exit) : Prop where
  bytes : left = exit.call.text ++ exit.call.stream
  keeps : exit.call.client = { client with
    isMore := exit.call.client.isMore, retrieveLen := exit.call.stream.length }
  steady : Steady exit.reads
  enough : exit.call.stream.length ≤ exit.reads.length
  ends : exit.outcome = .returned .success ∧ exit.call.client.isMore = false ∧
      exit.call.stream = [] ∨
    exit.outcome = .returned .retrieveMoreData ∧ exit.call.client.isMore = client.isMore ∧
      exit.call.text ≠ []

/-- What the rest of a round makes of the content that has been taken. -/
def finish (result : Except Exit (List Read × Call)) : Exit :=
  match result with
  | .error exit => exit
  | .ok (reads, call) =>
      ⟨.returned .success, { call with client := { call.client with isMore := false } }, reads⟩

/-- A full buffer ends the loop, with what does not fit left in the local buffer. -/
theorem takeContent_full {readLen : ℕ}
    (hfull : bufLen - 1 ≤ call.text.length + min call.data.length readLen) :
    takeContent bufLen reads readLen call = .error ⟨.returned .retrieveMoreData, { call with
      text := call.text ++ call.data.take (bufLen - 1 - call.text.length)
      client := { call.client with
        retrieveLen := call.client.retrieveLen - (bufLen - 1 - call.text.length : ℕ) } },
          reads⟩ := by
  unfold takeContent
  exact if_neg (Nat.not_lt.mpr hfull)

/-- The data fill the buffer. -/
theorem hands_full {done : List UInt8} (hbytes : call.data ++ call.stream = left)
    (hcount : call.client.retrieveLen = left.length) (htext : call.text = done)
    (hfull : done.length + call.data.length = bufLen - 1) (hroom : done.length < bufLen - 1)
    (hsteady : Steady reads) (henough : call.stream.length ≤ reads.length) :
    Hands (done ++ left) call.client (finish (takeContent bufLen reads left.length call)) := by
  have htotal := congrArg List.length hbytes
  rw [List.length_append] at htotal
  have hroomLen : bufLen - 1 - done.length = call.data.length := by omega
  have hrest : call.client.retrieveLen - (call.data.length : ℕ) = call.stream.length := by
    rw [hcount]
    omega
  rw [takeContent_full (by rw [htext]; omega), htext, hroomLen, List.take_length]
  refine ⟨?_, ?_, hsteady, henough, .inr ⟨rfl, rfl, ?_⟩⟩
  · rw [finish, List.append_assoc, hbytes]
  · rw [finish, hrest]
  · apply List.ne_nil_of_length_pos
    rw [finish, List.length_append]
    omega

/-- The body ends with the data. -/
theorem hands_last {done : List UInt8} (hbytes : call.data ++ call.stream = left)
    (hcount : call.client.retrieveLen = left.length) (htext : call.text = done)
    (hroom : done.length + call.data.length < bufLen - 1) (hnil : call.stream = [])
    (hsteady : Steady reads) :
    Hands (done ++ left) call.client (finish (takeContent bufLen reads left.length call)) := by
  have hdata : call.data = left := by rw [← hbytes, hnil, List.append_nil]
  have hzero : call.client.retrieveLen - (left.length : ℕ) = 0 := by
    rw [hcount]
    omega
  rw [takeContent, hdata, Nat.min_self, htext]
  dsimp only
  rw [hdata] at hroom
  rw [List.take_length, if_pos hroom, if_neg (Nat.lt_irrefl _), if_pos (Nat.sub_self _)]
  refine ⟨?_, ?_, hsteady, ?_, .inl ⟨rfl, rfl, hnil⟩⟩
  · rw [finish, hnil, List.append_nil]
  · rw [finish, hnil, hzero]
    rfl
  · rw [finish, hnil]
    exact Nat.zero_le _

/-- The loop over a body whose first bytes fit the buffer. -/
theorem takeContent_hands {done : List UInt8} (hbytes : call.data ++ call.stream = left)
    (hcount : call.client.retrieveLen = left.length) (htext : call.text = done)
    (hfits : done.length + call.data.length ≤ bufLen - 1) (hroom : done.length < bufLen - 1)
    (hsteady : Steady reads) (henough : call.stream.length ≤ reads.length) :
    Hands (done ++ left) call.client (finish (takeContent bufLen reads left.length call)) := by
  induction reads generalizing call left done with
  | nil =>
    have hnil : call.stream = [] := List.eq_nil_of_length_eq_zero (Nat.le_zero.mp henough)
    by_cases hfull : done.length + call.data.length < bufLen - 1
    · exact hands_last hbytes hcount htext hfull hnil hsteady
    · exact hands_full hbytes hcount htext (by omega) hroom hsteady henough
  | cons read reads ih =>
    by_cases hfull : done.length + call.data.length < bufLen - 1
    · by_cases hnil : call.stream = []
      · exact hands_last hbytes hcount htext hfull hnil hsteady
      · -- the next read goes on behind the data
        have hpos := List.length_pos_iff.mpr hnil
        have htotal := congrArg List.length hbytes
        rw [List.length_append] at htotal
        rw [takeContent, Nat.min_eq_left (by omega), htext]
        dsimp only
        rw [List.take_length, if_pos hfull, if_neg (by omega), if_neg (by omega),
          recv_steady hsteady]
        dsimp only
        obtain ⟨hsize, -, hintime⟩ := hsteady read (List.mem_cons_self ..)
        rw [if_neg (not_not.mpr rfl), if_neg (by rw [hintime]; decide)]
        have hsplit := bytes_append read (min (min (chunkSize - 1)
          (bufLen - 1 - (done ++ call.data).length)) (left.length - call.data.length)) call.stream
        have hread := bytes_length read (min (min (chunkSize - 1)
          (bufLen - 1 - (done ++ call.data).length)) (left.length - call.data.length)) call.stream
        generalize read.bytes _ call.stream = bytes at hsplit hread ⊢
        have hchunk : chunkSize = 1025 := rfl
        rw [List.length_append] at hread
        rw [List.length_cons] at henough
        have hlen : left.length - call.data.length = call.stream.length := by omega
        rw [hlen]
        have hrest := @ih call.stream { call with
            text := done ++ call.data
            client := { call.client with
              retrieveLen := call.client.retrieveLen - (call.data.length : ℕ) }
            data := bytes
            stream := call.stream.drop bytes.length } (done ++ call.data) hsplit
          (by dsimp only; rw [hcount]; omega) rfl
          (by dsimp only; rw [List.length_append]; omega)
          (by rw [List.length_append]; omega) hsteady.tail
          (by dsimp only; rw [List.length_drop]; omega)
        rw [← hbytes, ← List.append_assoc]
        exact ⟨hrest.bytes, hrest.keeps, hrest.steady, hrest.enough, hrest.ends⟩
    · exact hands_full hbytes hcount htext (by omega) hroom hsteady henough

/-- A call that takes a body whose length is known and whose first bytes fit the buffer. -/
theorem retrieveContent_hands (hplain : call.client.isChunked = false)
    (hlength : call.client.responseContentLen ≠ -1) (hbytes : call.data ++ call.stream = left)
    (hcount : call.client.retrieveLen = left.length) (hint : left.length < 2 ^ 31)
    (hfits : call.data.length ≤ bufLen - 1) (hbuf : 2 ≤ bufLen) (hsteady : Steady reads)
    (henough : call.stream.length ≤ reads.length) :
    Hands left { call.client with isMore := true }
      (httpClientRetrieveContent bufLen reads call) := by
  have hreadLen : (call.client.retrieveLen % 2 ^ 32).toNat = left.length := by
    rw [hcount]
    omega
  have hnone : ¬ (call.client.isChunked = true ∧ call.client.retrieveLen ≤ 0) := by
    rw [hplain]
    simp
  have hhands := @takeContent_hands _ reads
      { call with text := [], client := { call.client with isMore := true } } bufLen
        ([]) hbytes hcount rfl
    (by simpa using hfits) (by rw [List.length_nil]; omega) hsteady henough
  rw [httpClientRetrieveContent]
  dsimp only
  rw [if_neg fun h => hlength h.1, retrieveRounds, beginRound]
  dsimp only
  rw [if_neg hnone, hreadLen]
  dsimp only
  rw [List.nil_append] at hhands
  generalize takeContent bufLen reads left.length _ = result at hhands ⊢
  cases result with
  | error exit => exact hhands
  | ok taken =>
    obtain ⟨reads', call'⟩ := taken
    have hplain' : call'.client.isChunked = false :=
      (congrArg ClientData.isChunked hhands.keeps).trans hplain
    dsimp only
    rw [if_neg (by rw [hplain']; decide)]
    exact hhands

/-- A call hands over no more than there is, and leaves the kind of the body. -/
structure Bounded (limit : ℕ) (client : ClientData) (exit : Exit) : Prop where
  bytes : exit.call.text.length + exit.call.stream.length ≤ limit
  chunked : exit.call.client.isChunked = client.isChunked
  length : exit.call.client.responseContentLen = client.responseContentLen

theorem takeContent_bounded (readLen : ℕ) :
    Bounded (call.text.length + call.data.length + call.stream.length) call.client
      (finish (takeContent bufLen reads readLen call)) := by
  induction reads generalizing call readLen with
  | nil =>
    rw [takeContent]
    dsimp only
    split_ifs <;> refine ⟨?_, rfl, rfl⟩ <;> simp only [finish, List.length_append,
      List.length_take] <;>
      omega
  | cons read reads ih =>
    rw [takeContent]
    dsimp only
    by_cases hfull : call.text.length + min call.data.length readLen < bufLen - 1
    · rw [if_pos hfull]
      by_cases hlong : readLen < call.data.length
      · rw [if_pos hlong]
        refine ⟨?_, rfl, rfl⟩
        simp only [finish, List.length_append, List.length_take]
        omega
      · rw [if_neg hlong]
        by_cases hend : readLen - call.data.length = 0
        · rw [if_pos hend]
          refine ⟨?_, rfl, rfl⟩
          simp only [finish, List.length_append, List.length_take]
          omega
        · rw [if_neg hend, httpClientRecv]
          dsimp only
          have hread := bytes_length read (min (min (chunkSize - 1) (bufLen - 1 -
            (call.text ++ call.data.take (min call.data.length readLen)).length))
            (readLen - call.data.length)) call.stream
          generalize read.bytes _ call.stream = bytes at hread ⊢
          split_ifs
          · refine ⟨?_, rfl, rfl⟩
            simp only [finish, List.length_append, List.length_take, List.length_drop]
            omega
          · refine ⟨?_, rfl, rfl⟩
            simp only [finish, List.length_append, List.length_take, List.length_drop]
            omega
          · obtain ⟨hbytes, hchunked, hlength⟩ := @ih { call with
              text := call.text ++ call.data.take (min call.data.length readLen)
              data := bytes
              stream := call.stream.drop bytes.length
              client := { call.client with
                retrieveLen := call.client.retrieveLen - (min call.data.length readLen : ℕ)
                connected := call.client.connected &&
                  !(read.code == .peerShutdown && !bytes.isEmpty) } } (readLen - call.data.length)
            refine ⟨Nat.le_trans hbytes ?_, hchunked, hlength⟩
            simp only [List.length_append, List.length_take, List.length_drop]
            omega
    · rw [if_neg hfull]
      refine ⟨?_, rfl, rfl⟩
      simp only [finish, List.length_append, List.length_take]
      omega

theorem retrieveContent_bounded (hplain : call.client.isChunked = false)
    (hlength : call.client.responseContentLen ≠ -1) :
    Bounded (call.data.length + call.stream.length) call.client
      (httpClientRetrieveContent bufLen reads call) := by
  have hnone : ¬ (call.client.isChunked = true ∧ call.client.retrieveLen ≤ 0) := by
    rw [hplain]
    simp
  have hbounded := @takeContent_bounded reads
      { call with text := [], client := { call.client with isMore := true } } bufLen
    (call.client.retrieveLen % 2 ^ 32).toNat
  rw [httpClientRetrieveContent]
  dsimp only
  rw [if_neg fun h => hlength h.1, retrieveRounds, beginRound]
  dsimp only
  rw [if_neg hnone]
  dsimp only
  dsimp only at hbounded
  rw [List.length_nil, Nat.zero_add] at hbounded
  generalize takeContent bufLen reads (call.client.retrieveLen % 2 ^ 32).toNat _ = result
    at hbounded ⊢
  cases result with
  | error exit => exact ⟨hbounded.bytes, hbounded.chunked, hbounded.length⟩
  | ok taken =>
    obtain ⟨reads', call'⟩ := taken
    have hplain' : call'.client.isChunked = false := hbounded.chunked.trans hplain
    dsimp only
    rw [if_neg (by rw [hplain']; decide)]
    exact ⟨hbounded.bytes, hbounded.chunked, hbounded.length⟩

/-- A call whose local buffer holds more than fits. -/
theorem retrieveContent_full (hplain : call.client.isChunked = false)
    (hlength : call.client.responseContentLen ≠ -1) (hcount : call.client.retrieveLen = left.length)
    (hint : left.length < 2 ^ 31) (hdata : call.data.length ≤ left.length)
    (hfull : bufLen ≤ call.data.length) :
    httpClientRetrieveContent bufLen reads call =
      ⟨.returned .retrieveMoreData, { call with
        text := call.data.take (bufLen - 1)
        client := { call.client with
          isMore := true, retrieveLen := call.client.retrieveLen - (bufLen - 1 : ℕ) } },
            reads⟩ := by
  have hreadLen : (call.client.retrieveLen % 2 ^ 32).toNat = left.length := by
    rw [hcount]
    omega
  have hnone : ¬ (call.client.isChunked = true ∧ call.client.retrieveLen ≤ 0) := by
    rw [hplain]
    simp
  have htake := @takeContent_full reads
      { call with text := [], client := { call.client with isMore := true } } bufLen left.length
    (by dsimp only; omega)
  rw [httpClientRetrieveContent]
  dsimp only
  rw [if_neg fun h => hlength h.1, retrieveRounds, beginRound]
  dsimp only
  rw [if_neg hnone, hreadLen]
  dsimp only
  rw [htake]
  rfl

end Contents

section Calls
variable {left : List UInt8} {reads : List Read} {client : ClientData} {stream : List UInt8}
  {sizes : List ℕ} {bufLen : ℕ}

/-- The outcome of `qcloud_http_recv_data`, whose call is that of `_http_client_recv_response`. -/
theorem recvData_call (hbuf : bufLen ≠ 0) :
    (qcloudHttpRecvData bufLen reads client stream).call.text =
        (httpClientRecvResponse bufLen reads client stream).call.text ∧
      (qcloudHttpRecvData bufLen reads client stream).call.stream =
        (httpClientRecvResponse bufLen reads client stream).call.stream ∧
      (qcloudHttpRecvData bufLen reads client stream).call.client.isChunked =
        (httpClientRecvResponse bufLen reads client stream).call.client.isChunked ∧
      (qcloudHttpRecvData bufLen reads client stream).call.client.responseContentLen =
        (httpClientRecvResponse bufLen reads client stream).call.client.responseContentLen := by
  rw [qcloudHttpRecvData, if_neg hbuf]
  dsimp only
  split <;> exact ⟨rfl, rfl, rfl, rfl⟩

/-- A call that goes on hands over no more than there is. -/
theorem recvData_bounded (hmore : client.isMore = true) (hplain : client.isChunked = false)
    (hlength : client.responseContentLen ≠ -1) :
    Bounded stream.length client (qcloudHttpRecvData bufLen reads client stream) := by
  by_cases hbuf : bufLen = 0
  · rw [qcloudHttpRecvData, if_pos hbuf]
    exact ⟨by simp, rfl, rfl⟩
  · obtain ⟨htext, hstream, hchunked, hlength'⟩ :=
      @recvData_call reads client stream _ hbuf
    have hbounded : Bounded stream.length client
        (httpClientRecvResponse bufLen reads client stream) := by
      rw [httpClientRecvResponse]
      dsimp only
      split_ifs
      · exact ⟨by simp, rfl, rfl⟩
      · have h := @retrieveContent_bounded reads
          { data := [], text := [], client := client, stream := stream } bufLen hplain hlength
        exact ⟨Nat.le_trans h.bytes (by simp), h.chunked, h.length⟩
    exact ⟨by rw [htext, hstream]; exact hbounded.bytes, hchunked.trans hbounded.chunked,
      hlength'.trans hbounded.length⟩

/-- What further calls hand over comes from what is still to come. -/
theorem calls_bounded (hmore : client.isMore = true) (hplain : client.isChunked = false)
    (hlength : client.responseContentLen ≠ -1) :
    (handedOver (calls sizes reads client stream)).length ≤ stream.length := by
  induction sizes generalizing reads client stream with
  | nil => exact Nat.zero_le _
  | cons bufLen sizes ih =>
    have hbounded := @recvData_bounded reads client stream bufLen hmore
      hplain hlength
    rw [calls]
    generalize qcloudHttpRecvData bufLen reads client stream = exit at hbounded ⊢
    have hbytes := hbounded.bytes
    by_cases hgoes : exit.outcome = .returned .success ∧ exit.call.client.isMore = true
    · rw [if_pos hgoes]
      have hrest := @ih exit.reads _ exit.call.stream hgoes.2
        (hbounded.chunked.trans hplain) (by rw [hbounded.length]; exact hlength)
      simp only [handedOver, List.map_cons, List.flatten_cons, List.length_append] at hrest ⊢
      omega
    · rw [if_neg hgoes]
      simp only [handedOver, List.map_cons, List.map_nil, List.flatten_cons, List.flatten_nil,
        List.append_nil]
      omega

/-- A call has succeeded, handed over the next bytes, and counted those that are left. -/
structure Delivers (left : List UInt8) (exit : Exit) : Prop where
  outcome : exit.outcome = .returned .success
  bytes : left = exit.call.text ++ exit.call.stream
  count : exit.call.client.retrieveLen = exit.call.stream.length

/-- The state in front of a call that goes on with a body. -/
structure Resumed (left : List UInt8) (reads : List Read) (client : ClientData) : Prop where
  more : client.isMore = true
  plain : client.isChunked = false
  connected : client.connected = true
  length : client.responseContentLen ≠ -1
  count : client.retrieveLen = left.length
  int : left.length < 2 ^ 31
  steady : Steady reads
  enough : left.length ≤ reads.length

theorem downloads_last {exit : Exit} (h : Delivers left exit)
    (hend : exit.call.client.isMore = false)
    (hnil : exit.call.stream = []) : Downloads left [exit] := by
  have hleft : handedOver [exit] = left := by
    rw [h.bytes, hnil]
    simp [handedOver]
  refine ⟨?_, ⟨exit, rfl, hend⟩, hleft, ?_⟩
  · intro exit' hmem
    rw [List.mem_singleton.mp hmem]
    exact h.outcome
  · intro front exit' back heq
    cases front with
    | nil =>
      obtain ⟨rfl, -⟩ := List.cons.inj heq
      rw [List.nil_append, hleft, h.count, hnil]
      simp
    | cons first front =>
      have hnil' := (List.cons.inj heq).2
      exact absurd hnil'.symm (by simp)

theorem downloads_cons {exit : Exit} {exits : List Exit} (h : Delivers left exit)
    (hrest : Downloads exit.call.stream exits) : Downloads left (exit :: exits) := by
  have hcons : ∀ exits, handedOver (exit :: exits) = exit.call.text ++ handedOver exits :=
    fun exits => rfl
  obtain ⟨last, hlast, hend⟩ := hrest.ends
  refine ⟨?_, ⟨last, ?_, hend⟩, ?_, ?_⟩
  · intro exit' hmem
    rcases List.mem_cons.mp hmem with rfl | hmem
    · exact h.outcome
    · exact hrest.succeeds exit' hmem
  · rw [List.getLast?_cons, hlast]
    rfl
  · rw [hcons, hrest.whole, ← h.bytes]
  · intro front exit' back heq
    have htotal := congrArg List.length h.bytes
    rw [List.length_append] at htotal
    cases front with
    | nil =>
      obtain ⟨rfl, -⟩ := List.cons.inj heq
      rw [List.nil_append, hcons, h.count, List.length_append]
      have hnil : handedOver [] = [] := rfl
      rw [hnil, List.length_nil]
      omega
    | cons first front =>
      obtain ⟨rfl, heq'⟩ := List.cons.inj heq
      rw [hrest.left front exit' back heq', List.cons_append, hcons, List.length_append]
      omega

/-- A success or more data to retrieve is a success of `qcloud_http_recv_data`. -/
theorem recvData_delivers {client' : ClientData} (hbuf : bufLen ≠ 0)
    (h : Hands left client' (httpClientRecvResponse bufLen reads client stream)) :
    Delivers left (qcloudHttpRecvData bufLen reads client stream) ∧
      (qcloudHttpRecvData bufLen reads client stream).call =
        (httpClientRecvResponse bufLen reads client stream).call ∧
      (qcloudHttpRecvData bufLen reads client stream).reads =
        (httpClientRecvResponse bufLen reads client stream).reads := by
  rw [qcloudHttpRecvData, if_neg hbuf]
  generalize httpClientRecvResponse bufLen reads client stream = exit at h ⊢
  have hcount : exit.call.client.retrieveLen = exit.call.stream.length := by
    rw [h.keeps]
  dsimp only
  rcases h.ends with ⟨houtcome, -⟩ | ⟨houtcome, -⟩
  · rw [houtcome]
    exact ⟨⟨houtcome, h.bytes, hcount⟩, rfl, rfl⟩
  · rw [houtcome]
    exact ⟨⟨rfl, h.bytes, hcount⟩, rfl, rfl⟩

/-- Behind a call that has handed over bytes and says there is more, the next one goes on. -/
theorem Hands.resumed {exit : Exit} (h : Hands left client exit)
    (hmore : exit.call.client.isMore = true)
    (hplain : client.isChunked = false) (hconnected : client.connected = true)
    (hlength : client.responseContentLen ≠ -1) (hint : left.length < 2 ^ 31) :
    Resumed exit.call.stream exit.reads exit.call.client ∧ exit.call.text ≠ [] := by
  have htotal := congrArg List.length h.bytes
  rw [List.length_append] at htotal
  have hkeeps := h.keeps
  refine ⟨⟨hmore, ?_, ?_, ?_, ?_, by omega, h.steady, h.enough⟩, ?_⟩
  · rw [hkeeps]
    exact hplain
  · rw [hkeeps]
    exact hconnected
  · rw [hkeeps]
    exact hlength
  · rw [hkeeps]
  · rcases h.ends with ⟨-, hend, -⟩ | ⟨-, -, hne⟩
    · rw [hmore] at hend
      cases hend
    · exact hne

theorem Hands.last {exit : Exit} (h : Hands left client exit) (hmore : client.isMore = true)
    (hend : exit.call.client.isMore ≠ true) :
    exit.call.client.isMore = false ∧ exit.call.stream = [] := by
  rcases h.ends with ⟨-, hfalse, hnil⟩ | ⟨-, hkeeps, -⟩
  · exact ⟨hfalse, hnil⟩
  · rw [hmore] at hkeeps
    exact absurd hkeeps hend

/-- A call that has handed over bytes, and the calls behind it. -/
theorem calls_of_hands {client' : ClientData} (hbuf : bufLen ≠ 0)
    (h : Hands left client' (httpClientRecvResponse bufLen reads client stream))
    (hmore : client'.isMore = true) (hplain : client'.isChunked = false)
    (hconnected : client'.connected = true) (hlength : client'.responseContentLen ≠ -1)
    (hint : left.length < 2 ^ 31) (hmany : left.length < sizes.length + 1)
    (hrest : ∀ {left reads client}, left.length < sizes.length → Resumed left reads client →
      Downloads left (calls sizes reads client left)) :
    Downloads left (calls (bufLen :: sizes) reads client stream) := by
  obtain ⟨hdelivers, hcall, hreads⟩ := recvData_delivers hbuf h
  rw [calls]
  by_cases hgoes : (qcloudHttpRecvData bufLen reads client stream).call.client.isMore = true
  · rw [if_pos ⟨hdelivers.outcome, hgoes⟩]
    apply downloads_cons hdelivers
    rw [hcall] at hgoes ⊢
    rw [hreads]
    obtain ⟨hresumed, hne⟩ := h.resumed hgoes hplain hconnected hlength hint
    apply hrest _ hresumed
    have htotal := congrArg List.length h.bytes
    have hpos := List.length_pos_of_ne_nil hne
    rw [List.length_append] at htotal
    omega
  · rw [if_neg fun h => hgoes h.2]
    have hlast := hgoes
    rw [hcall] at hlast
    obtain ⟨hend, hnil⟩ := h.last hmore hlast
    apply downloads_last hdelivers
    · rw [hcall]
      exact hend
    · rw [hcall]
      exact hnil

/-- The calls that go on with a body. -/
theorem calls_downloads (hsizes : ∀ bufLen ∈ sizes, 2 ≤ bufLen) (hmany : left.length < sizes.length)
    (h : Resumed left reads client) : Downloads left (calls sizes reads client left) := by
  induction sizes generalizing left reads client with
  | nil => exact absurd hmany (Nat.not_lt_zero _)
  | cons bufLen sizes ih =>
    have hbuf := hsizes bufLen (List.mem_cons_self ..)
    have hcall : httpClientRecvResponse bufLen reads client left =
        httpClientRetrieveContent bufLen reads
          { data := [], text := [], client := client, stream := left } := by
      rw [httpClientRecvResponse, h.connected, h.more]
      rfl
    have hhands : Hands left { client with isMore := true }
        (httpClientRecvResponse bufLen reads client left) := by
      rw [hcall]
      exact @retrieveContent_hands _ _
        { data := [], text := [], client := client, stream := left } _
        h.plain h.length rfl h.count h.int (Nat.zero_le _) hbuf h.steady h.enough
    exact calls_of_hands (by omega) hhands rfl h.plain h.connected h.length h.int hmany
      fun hless hresumed =>
        ih (fun n hmem => hsizes n (List.mem_cons_of_mem bufLen hmem)) hless hresumed

end Calls

section Headers
variable {response : Response} {reads : List Read} {call : Call} {client : ClientData} {bufLen : ℕ}

/-- The fields and the blank line behind them. -/
def Response.header (response : Response) : List UInt8 := response.fields ++ (crlf ++ crlf)

theorem Response.header_length (response : Response) :
    response.header.length = response.fields.length + 4 := List.length_append

theorem Response.text_eq (response : Response) :
    response.text = (response.status ++ crlf) ++ (response.header ++ response.body) := by
  rw [Response.text, Response.header, List.append_assoc response.status]

theorem Response.WellFormed.noNul_status (h : response.WellFormed) :
    (0 : UInt8) ∉ response.status :=
  fun hmem => h.noNul (List.mem_append_left _ hmem)

theorem Response.WellFormed.noNul_header (h : response.WellFormed) :
    (0 : UInt8) ∉ response.header := by
  have hdecimal : (0 : UInt8) ∉ decimal response.body.length := fun hmem =>
    absurd (isDigit_of_mem_decimal _ 0 hmem) (by decide)
  have hname : (0 : UInt8) ∉ ascii "Content-Length: " := by decide
  have hcrlf : (0 : UInt8) ∉ crlf := by decide
  have hothers := h.noNul
  rw [List.mem_append, List.mem_append, not_or, not_or] at hothers
  rw [Response.header, Response.fields]
  simp only [List.mem_append, not_or]
  exact ⟨⟨hothers.2.1, hname, hdecimal, hothers.2.2⟩, hcrlf, hcrlf⟩

/-- The length is read from the fields. -/
theorem parseFields_eq (h : response.WellFormed) (hfirst : NamedFirst response) {part : List UInt8}
    (hdata : call.data = response.header ++ part) :
    parseFields bufLen reads call response.fields.length =
      httpClientRetrieveContent bufLen reads { call with
        data := part
        client := { call.client with
          responseContentLen := response.body.length, retrieveLen := response.body.length } } := by
  have hname : ascii "Content-Length: " = ascii "Content-Length" ++ ascii ": " := by decide
  have hfield : response.header = (response.before ++ ascii "Content-Length") ++
      (ascii ": " ++ (decimal response.body.length ++ response.after) ++ (crlf ++ crlf)) := by
    rw [Response.header, Response.fields, hname]
    simp only [List.append_assoc]
  have hplace : strstr call.data (ascii "Content-Length") = some response.before.length := by
    rw [hdata]
    apply strstr_append h.noNul_header
    rw [hfield]
    exact indexOf_append hfirst
  have hbody : call.data.drop (response.fields.length + 4) = part := by
    rw [hdata, ← response.header_length, List.drop_left]
  obtain ⟨tail, htail⟩ : ∃ tail, response.after ++ ((crlf ++ crlf) ++ part) = cr :: tail := by
    rcases h.behind with hnil | hcr
    · rw [hnil]
      exact ⟨_, rfl⟩
    · obtain ⟨rest, hrest⟩ := List.head?_eq_some_iff.mp hcr
      rw [hrest]
      exact ⟨_, rfl⟩
  have hnumber : call.data.drop (response.before.length + (ascii "Content-Length: ").length) =
      decimal response.body.length ++ cr :: tail := by
    have hsplit : call.data = (response.before ++ ascii "Content-Length: ") ++
        (decimal response.body.length ++ cr :: tail) := by
      rw [hdata, Response.header, Response.fields, ← htail]
      simp only [List.append_assoc]
    rw [hsplit, ← List.length_append, List.drop_left]
  rw [parseFields, hplace]
  dsimp only
  rw [hnumber, atoi_decimal h.int, hbody]

/-- The code of the status line. -/
theorem status_code (h : response.WellFormed) (rest : List UInt8) :
    atoi (((response.status ++ (crlf ++ rest)).set response.status.length 0).drop 9) =
      atoi (response.status.drop 9) := by
  have hset : (response.status ++ (crlf ++ rest)).set response.status.length 0 =
      response.status ++ 0 :: lf :: rest := by
    rw [List.set_append_right (h := Nat.le_refl _), Nat.sub_self]
    rfl
  have hnul : (0 : UInt8) ∉ response.status.drop 9 := fun hmem =>
    h.noNul_status (List.mem_of_mem_drop hmem)
  have hcut : cstr (response.status.drop 9 ++ 0 :: lf :: rest) = cstr (response.status.drop 9) := by
    rw [cstr_append hnul, cstr_eq hnul]
    exact List.append_nil _
  rw [hset, List.drop_append_of_le_length h.version, atoi, atoi, hcut]

def Refused (exit : Exit) : Prop :=
  exit.outcome ≠ .returned .success ∧ exit.outcome ≠ .returned .retrieveMoreData

theorem strstr_blank (h : response.WellFormed) {data stream rest : List UInt8}
    (hbytes : data ++ stream = response.header ++ rest) :
    strstr data (crlf ++ crlf) =
      if response.fields.length + 4 ≤ data.length then some response.fields.length else none := by
  have harrived := strstr_arrived h.noNul_header h.ends response.header_length.symm hbytes
  rwa [response.header_length] at harrived

/-- The state in front of the body. -/
structure InBody (response : Response) (count : ℕ) (reads : List Read) (part rest : List UInt8) :
    Prop where
  bytes : part ++ rest = response.body
  count : part.length = count
  steady : Steady reads
  enough : rest.length ≤ reads.length

theorem inBody_of_header {count : ℕ} {data stream : List UInt8}
    (hbytes : data ++ stream = response.header ++ response.body)
    (hlen : response.fields.length + 4 ≤ data.length)
    (hcount : data.length - (response.fields.length + 4) = count) (hsteady : Steady reads)
    (henough : stream.length ≤ reads.length) :
    ∃ part, data = response.header ++ part ∧ InBody response count reads part stream := by
  rw [← response.header_length] at hlen hcount
  obtain ⟨part, hpart⟩ := List.prefix_of_prefix_length_le
    (hbytes ▸ List.prefix_append response.header response.body)
    (List.prefix_append data stream) hlen
  refine ⟨part, hpart.symm, ?_, ?_, hsteady, henough⟩
  · rw [← hpart, List.append_assoc] at hbytes
    exact List.append_cancel_left hbytes
  · rw [← hcount, ← hpart, List.length_append]
    omega

/-- Behind a header that is not whole, one more read is searched for its end. -/
theorem parseHeader_read {read : Read} (h : response.WellFormed)
    (hsteady : Steady (read :: reads))
    (hbytes : call.data ++ call.stream = response.header ++ response.body)
    (hlen : ¬ response.fields.length + 4 ≤ call.data.length) :
    ∃ bytes : List UInt8,
      bytes.length = min (min read.size (chunkSize - call.data.length - 1)) call.stream.length ∧
      (call.data ++ bytes) ++ call.stream.drop bytes.length = response.header ++ response.body ∧
      parseHeader bufLen (read :: reads) call =
        if response.fields.length + 4 ≤ (call.data ++ bytes).length then
          parseFields bufLen reads
            { call with data := call.data ++ bytes, stream := call.stream.drop bytes.length }
            response.fields.length
        else
          ⟨.returned .failure,
            { call with data := call.data ++ bytes, stream := call.stream.drop bytes.length },
            reads⟩ := by
  have hread := bytes_length read (chunkSize - call.data.length - 1) call.stream
  have hsplit := bytes_append read (chunkSize - call.data.length - 1) call.stream
  have hblank := strstr_blank h hbytes
  rw [if_neg hlen] at hblank
  unfold parseHeader
  rw [hblank]
  dsimp only
  rw [recv_steady hsteady]
  dsimp only
  rw [if_neg (not_not.mpr rfl)]
  generalize read.bytes (chunkSize - call.data.length - 1) call.stream = bytes at *
  have hbytes' : (call.data ++ bytes) ++ call.stream.drop bytes.length =
      response.header ++ response.body := by
    rw [List.append_assoc, hsplit, hbytes]
  refine ⟨bytes, hread, hbytes', ?_⟩
  rw [strstr_blank h hbytes']
  by_cases hlen' : response.fields.length + 4 ≤ (call.data ++ bytes).length
  · rw [if_pos hlen', if_pos hlen']
  · rw [if_neg hlen', if_neg hlen']

theorem parseHeader_received (h : response.WellFormed) (hfirst : NamedFirst response) {count : ℕ}
    (hsteady : Steady reads) (hbytes : call.data ++ call.stream = response.header ++ response.body)
    (henough : call.stream.length ≤ reads.length) (hshort : call.data.length + 1 < chunkSize)
    (hcount : bodyWithFields response call.data.length call.stream.length reads = some count) :
    ∃ reads' part rest, InBody response count reads' part rest ∧
      parseHeader bufLen reads call = httpClientRetrieveContent bufLen reads' { call with
        data := part
        stream := rest
        client := { call.client with
          responseContentLen := response.body.length, retrieveLen := response.body.length } } := by
  have hblank := strstr_blank h hbytes
  unfold bodyWithFields at hcount
  by_cases hlen : response.fields.length + 4 ≤ call.data.length
  · rw [if_pos hlen] at hcount hblank
    injection hcount with hcount
    obtain ⟨part, hpart, hin⟩ := inBody_of_header hbytes hlen hcount hsteady henough
    refine ⟨reads, part, call.stream, hin, ?_⟩
    unfold parseHeader
    rw [hblank]
    exact parseFields_eq h hfirst hpart
  · rw [if_neg hlen] at hcount
    cases reads with
    | nil => cases hcount
    | cons read reads =>
      obtain ⟨bytes, hread, hbytes', hparse⟩ :=
        @parseHeader_read _ _ _ bufLen read h hsteady hbytes hlen
      have hsize := (hsteady read (List.mem_cons_self ..)).1
      dsimp only at hcount
      rw [← hread, ← List.length_append] at hcount
      have henough' : (call.stream.drop bytes.length).length ≤ reads.length := by
        rw [List.length_cons] at henough
        rw [List.length_drop]
        omega
      by_cases hlen' : response.fields.length + 4 ≤ (call.data ++ bytes).length
      · rw [if_pos hlen'] at hcount hparse
        injection hcount with hcount
        obtain ⟨part, hpart, hin⟩ :=
          inBody_of_header hbytes' hlen' hcount hsteady.tail henough'
        refine ⟨reads, part, call.stream.drop bytes.length, hin, hparse.trans ?_⟩
        exact (@parseFields_eq _ _ { call with
          data := call.data ++ bytes, stream := call.stream.drop bytes.length }) h hfirst hpart
      · rw [if_neg hlen'] at hcount
        cases hcount

theorem parseHeader_refused (h : response.WellFormed) (hsteady : Steady reads)
    (hbytes : call.data ++ call.stream = response.header ++ response.body)
    (hcount : bodyWithFields response call.data.length call.stream.length reads = none) :
    Refused (parseHeader bufLen reads call) := by
  have hblank := strstr_blank h hbytes
  unfold bodyWithFields at hcount
  by_cases hlen : response.fields.length + 4 ≤ call.data.length
  · rw [if_pos hlen] at hcount
    cases hcount
  · rw [if_neg hlen] at hcount hblank
    cases reads with
    | nil =>
      unfold parseHeader
      rw [hblank]
      exact ⟨Outcome.noConfusion, Outcome.noConfusion⟩
    | cons read reads =>
      obtain ⟨bytes, hread, -, hparse⟩ :=
        @parseHeader_read _ _ _ bufLen read h hsteady hbytes hlen
      dsimp only at hcount
      rw [← hread, ← List.length_append] at hcount
      by_cases hlen' : response.fields.length + 4 ≤ (call.data ++ bytes).length
      · rw [if_pos hlen'] at hcount
        cases hcount
      · rw [hparse, if_neg hlen']
        exact ⟨by simp, by simp⟩

/-- The first read of a response. -/
theorem recvResponse_read {read : Read} (hmore : client.isMore = false)
    (hconnected : client.connected = true) (hsteady : Steady (read :: reads))
    (hne : (read.bytes (chunkSize - 1) response.text).isEmpty = false) :
    httpClientRecvResponse bufLen (read :: reads) client response.text =
      httpClientResponseParse bufLen reads
        { data := read.bytes (chunkSize - 1) response.text
          text := []
          client := { client with isMore := true }
          stream := response.text.drop (read.bytes (chunkSize - 1) response.text).length } := by
  rw [httpClientRecvResponse]
  dsimp only
  rw [if_neg (by rw [hconnected]; decide), if_neg (by rw [hmore]; decide), recv_steady hsteady]
  dsimp only
  rw [if_neg (not_not.mpr rfl), hne, if_neg Bool.false_ne_true]

/-- The status line is parsed when it has been read. -/
theorem responseParse_eq (h : response.WellFormed)
    (hbytes : call.data ++ call.stream = response.text) :
    (call.data.length < response.status.length + 2 →
        Refused (httpClientResponseParse bufLen reads call)) ∧
      ∀ rest, call.data = (response.status ++ crlf) ++ rest →
        httpClientResponseParse bufLen reads call =
          if atoi (response.status.drop 9) = 403 then
            ⟨.returned .auth,
              { call with client := { call.client with responseContentLen := -1 } }, reads⟩
          else if atoi (response.status.drop 9) = 404 then
            ⟨.returned .notFound,
              { call with client := { call.client with responseContentLen := -1 } }, reads⟩
          else parseHeader bufLen reads { call with
            data := rest
            client := { call.client with responseContentLen := -1, isChunked := false } } := by
  have hnul : (0 : UInt8) ∉ response.status ++ crlf := by
    rw [List.mem_append, not_or]
    exact ⟨h.noNul_status, by decide⟩
  have hlength : response.status.length + crlf.length = (response.status ++ crlf).length :=
    List.length_append.symm
  rw [response.text_eq] at hbytes
  have hline := strstr_arrived hnul (indexOf_line h.line) hlength hbytes
  rw [← hlength] at hline
  have hcrlf : crlf.length = 2 := rfl
  constructor
  · intro hshort
    rw [if_neg (by omega)] at hline
    rw [httpClientResponseParse]
    dsimp only
    rw [hline]
    exact ⟨by simp, by simp⟩
  · intro rest hdata
    rw [hdata, if_pos (by rw [List.length_append, ← hlength]; omega)] at hline
    have hdrop : ((response.status ++ crlf) ++ rest).drop (response.status.length + 2) = rest := by
      rw [← hcrlf, hlength, List.drop_left]
    rw [httpClientResponseParse]
    dsimp only
    rw [hdata, hline]
    dsimp only
    rw [hdrop, List.append_assoc, status_code h]

/-- What has been read behind the status line. -/
theorem exists_behindLine {bytes stream : List UInt8} (hbytes : bytes ++ stream = response.text)
    (hline : response.status.length + 2 ≤ bytes.length) :
    ∃ rest, bytes = (response.status ++ crlf) ++ rest ∧
      rest.length = bytes.length - (response.status.length + 2) ∧
      rest ++ stream = response.header ++ response.body := by
  rw [response.text_eq] at hbytes
  have hlength : (response.status ++ crlf).length = response.status.length + 2 := List.length_append
  obtain ⟨rest, hrest⟩ := List.prefix_of_prefix_length_le
    (hbytes ▸ List.prefix_append (response.status ++ crlf) (response.header ++ response.body))
    (List.prefix_append bytes stream) (by rw [hlength]; exact hline)
  refine ⟨rest, hrest.symm, ?_, ?_⟩
  · rw [← hrest, List.length_append, hlength]
    exact (Nat.add_sub_cancel_left _ _).symm
  · rw [← hrest, List.append_assoc] at hbytes
    exact List.append_cancel_left hbytes

/-- A response whose header arrives in time is received up to the body. -/
theorem recvResponse_received (h : response.WellFormed) (hfirst : NamedFirst response)
    (hstatus : atoi (response.status.drop 9) ≠ 403 ∧ atoi (response.status.drop 9) ≠ 404)
    (hmore : client.isMore = false) (hconnected : client.connected = true) (hsteady : Steady reads)
    (henough : response.text.length ≤ reads.length) {count : ℕ}
    (hcount : bodyWithHeader response reads = some count) :
    ∃ reads' part rest, InBody response count reads' part rest ∧
      httpClientRecvResponse bufLen reads client response.text =
        httpClientRetrieveContent bufLen reads'
          { data := part
            text := []
            client := ⟨true, false, response.body.length, response.body.length, true⟩
            stream := rest } := by
  cases reads with
  | nil => cases hcount
  | cons read reads =>
    have hread := bytes_length read (chunkSize - 1) response.text
    have hsplit := bytes_append read (chunkSize - 1) response.text
    rw [bodyWithHeader, ← hread] at hcount
    by_cases hline : response.status.length + 2 ≤
        (read.bytes (chunkSize - 1) response.text).length
    · rw [if_pos hline] at hcount
      rw [recvResponse_read hmore hconnected hsteady
        (List.isEmpty_eq_false_iff.mpr (List.ne_nil_of_length_pos (by omega)))]
      generalize read.bytes (chunkSize - 1) response.text = bytes at *
      obtain ⟨rest, hrest, hlen, hheader⟩ := exists_behindLine hsplit hline
      have hparse := (@responseParse_eq _ reads {
          data := bytes, text := [], client := { client with isMore := true },
          stream := response.text.drop bytes.length } bufLen h hsplit).2 rest hrest
      rw [if_neg hstatus.1, if_neg hstatus.2] at hparse
      rw [hparse]
      have hleft : (response.text.drop bytes.length).length = response.text.length - bytes.length :=
        List.length_drop
      rw [← hlen, ← hleft] at hcount
      have hchunk : chunkSize = 1025 := rfl
      rw [List.length_cons] at henough
      obtain ⟨reads', part, rest', hin, heq⟩ := (@parseHeader_received _ _ {
          data := rest, text := [], stream := response.text.drop bytes.length
          client :=
            { client with isMore := true, responseContentLen := -1, isChunked := false } } bufLen)
        h hfirst hsteady.tail hheader (by dsimp only; omega) (by dsimp only; omega) hcount
      refine ⟨reads', part, rest', hin, ?_⟩
      rw [heq]
      dsimp only
      rw [hconnected]
    · rw [if_neg hline] at hcount
      cases hcount

/-- A response whose header does not, or whose status is an error of its own, is refused. -/
theorem recvResponse_refused (h : response.WellFormed) (hmore : client.isMore = false)
    (hconnected : client.connected = true) (hsteady : Steady reads)
    (henough : response.text.length ≤ reads.length)
    (hnot : ¬ ((atoi (response.status.drop 9) ≠ 403 ∧ atoi (response.status.drop 9) ≠ 404) ∧
      ∃ count, bodyWithHeader response reads = some count)) :
    Refused (httpClientRecvResponse bufLen reads client response.text) := by
  have hversion := h.version
  have htotal := congrArg List.length response.text_eq
  rw [List.length_append, List.length_append] at htotal
  cases reads with
  | nil =>
    rw [List.length_nil] at henough
    omega
  | cons read reads =>
    have hread := bytes_length read (chunkSize - 1) response.text
    have hsplit := bytes_append read (chunkSize - 1) response.text
    have hsize := (hsteady read (List.mem_cons_self ..)).1
    have hchunk : chunkSize = 1025 := rfl
    rw [bodyWithHeader, ← hread] at hnot
    rw [recvResponse_read hmore hconnected hsteady
      (List.isEmpty_eq_false_iff.mpr (List.ne_nil_of_length_pos (by omega)))]
    generalize read.bytes (chunkSize - 1) response.text = bytes at *
    obtain ⟨hshort, hparse⟩ := @responseParse_eq _ reads {
        data := bytes, text := [], client := { client with isMore := true },
        stream := response.text.drop bytes.length } bufLen h hsplit
    by_cases hline : response.status.length + 2 ≤ bytes.length
    · rw [if_pos hline] at hnot
      obtain ⟨rest, hrest, hlen, hheader⟩ := exists_behindLine hsplit hline
      rw [hparse rest hrest]
      split_ifs with h403 h404
      · exact ⟨by simp, by simp⟩
      · exact ⟨by simp, by simp⟩
      · have hleft : (response.text.drop bytes.length).length =
            response.text.length - bytes.length := List.length_drop
        rw [← hlen, ← hleft] at hnot
        apply parseHeader_refused h hsteady.tail hheader
        rw [Option.eq_none_iff_forall_ne_some]
        intro count hcount
        exact hnot ⟨⟨h403, h404⟩, count, hcount⟩
    · exact hshort (by dsimp only; omega)

end Headers

section Downloads
variable {response : Response} {reads : List Read} {client : ClientData} {bufLen : ℕ}
  {sizes : List ℕ}

theorem recvData_more {stream : List UInt8} {call : Call} {reads' : List Read} (hbuf : bufLen ≠ 0)
    (h : httpClientRecvResponse bufLen reads client stream =
      ⟨.returned .retrieveMoreData, call, reads'⟩) :
    qcloudHttpRecvData bufLen reads client stream = ⟨.returned .success, call, reads'⟩ := by
  rw [qcloudHttpRecvData, if_neg hbuf, h]

theorem recvData_refused {stream : List UInt8} (hbuf : bufLen ≠ 0)
    (h : Refused (httpClientRecvResponse bufLen reads client stream)) :
    (qcloudHttpRecvData bufLen reads client stream).outcome ≠ .returned .success := by
  rw [qcloudHttpRecvData, if_neg hbuf]
  generalize httpClientRecvResponse bufLen reads client stream = exit at h ⊢
  obtain ⟨houtcome, hmore⟩ := h
  dsimp only
  split
  · exact houtcome
  · next heq => exact absurd heq hmore
  · exact houtcome
  · exact houtcome

/-- What comes with the header and does not fit the first buffer is lost. -/
theorem calls_lose (h : response.WellFormed) (hfirst : NamedFirst response)
    (hstatus : atoi (response.status.drop 9) ≠ 403 ∧ atoi (response.status.drop 9) ≠ 404)
    (hmore : client.isMore = false) (hconnected : client.connected = true) (hsteady : Steady reads)
    (henough : response.text.length ≤ reads.length) (hbuf : 2 ≤ bufLen) {count : ℕ}
    (hcount : bodyWithHeader response reads = some count) (hlong : bufLen ≤ count) :
    (handedOver (calls (bufLen :: sizes) reads client response.text)).length <
      response.body.length := by
  obtain ⟨reads', part, rest, hin, heq⟩ := (@recvResponse_received _ _ _ bufLen) h hfirst
    hstatus hmore hconnected hsteady henough hcount
  have hlength : (response.body.length : ℤ) ≠ -1 := by omega
  have hpart := hin.count
  have htotal := congrArg List.length hin.bytes
  rw [List.length_append] at htotal
  rw [retrieveContent_full rfl hlength rfl h.int (by dsimp only; omega) (by dsimp only; omega)]
    at heq
  have hexit := recvData_more (by omega) heq
  have hrest :=
    @calls_bounded reads' ⟨true, false, response.body.length - (bufLen - 1 : ℕ),
      response.body.length, true⟩
      rest sizes
    rfl rfl hlength
  rw [calls, hexit]
  dsimp only
  rw [if_pos ⟨rfl, rfl⟩]
  simp only [handedOver, List.map_cons, List.flatten_cons, List.length_append, List.length_take]
    at hrest ⊢
  omega

/-- Calls with buffers of any sizes download the body if the header arrives in time and what comes
with it fits the first buffer, the length being found; and, where it is, only then. -/
theorem calls_download (response : Response) (reads : List Read) (client : ClientData) (bufLen : ℕ)
    (sizes : List ℕ) (h : response.WellFormed) (hmore : client.isMore = false)
    (hconnected : client.connected = true) (hsteady : Steady reads)
    (henough : response.text.length ≤ reads.length) (hsizes : ∀ n ∈ bufLen :: sizes, 2 ≤ n)
    (hmany : response.body.length ≤ sizes.length) :
    (Received response reads bufLen →
      Downloads response.body (calls (bufLen :: sizes) reads client response.text)) ∧
    (NamedFirst response →
      Downloads response.body (calls (bufLen :: sizes) reads client response.text) →
      Received response reads bufLen) := by
  have hbuf := hsizes bufLen (List.mem_cons_self ..)
  have hsizes' : ∀ n ∈ sizes, 2 ≤ n := fun n hmem => hsizes n (List.mem_cons_of_mem bufLen hmem)
  constructor
  · rintro ⟨hfirst, hstatus, count, hcount, hfits⟩
    obtain ⟨reads', part, rest, hin, heq⟩ := (@recvResponse_received _ _ _ bufLen) h hfirst
      hstatus hmore hconnected hsteady henough hcount
    have hlength : (response.body.length : ℤ) ≠ -1 := by omega
    have hpart := hin.count
    have hhands := @retrieveContent_hands _ reads' {
        data := part, text := [], stream := rest,
        client := ⟨true, false, response.body.length, response.body.length, true⟩ } bufLen
      rfl hlength hin.bytes rfl h.int (by dsimp only; omega) hbuf hin.steady hin.enough
    rw [← heq] at hhands
    exact calls_of_hands (by omega) hhands rfl rfl rfl hlength h.int (by omega)
      fun hless hresumed => calls_downloads hsizes' hless hresumed
  · intro hfirst hdownloads
    by_contra hnot
    by_cases hheader : (atoi (response.status.drop 9) ≠ 403 ∧ atoi (response.status.drop 9) ≠ 404) ∧
        ∃ count, bodyWithHeader response reads = some count
    · -- what does not fit is lost
      obtain ⟨hstatus, count, hcount⟩ := hheader
      have hlong : bufLen ≤ count := by
        by_contra hfits
        exact hnot ⟨hfirst, hstatus, count, hcount, by omega⟩
      have hless := @calls_lose _ _ _ _ sizes h hfirst hstatus hmore hconnected hsteady henough hbuf
        _ hcount hlong
      rw [hdownloads.whole] at hless
      exact Nat.lt_irrefl _ hless
    · -- the call fails
      have hrefused := @recvData_refused _ _ bufLen _ (by omega)
        (recvResponse_refused h hmore hconnected hsteady henough hheader)
      rw [calls] at hdownloads
      rw [if_neg fun h => hrefused h.1] at hdownloads
      exact hrefused (hdownloads.succeeds _ (List.mem_singleton_self _))

def three : Response := ⟨ascii "HTTP/1.1 200", [], [], ascii "abc"⟩

theorem three_wellFormed : three.WellFormed :=
  ⟨by decide, by decide, by decide, by decide, .inl rfl, by decide⟩

theorem three_namedFirst : NamedFirst three := by
  rw [NamedFirst]
  decide

def freshClient : ClientData := ⟨false, false, 0, 0, true⟩

theorem steady_replicate (n : ℕ) {size : ℕ} (hsize : 0 < size) :
    Steady (List.replicate n (inTime size)) := by
  intro read hmem
  rw [List.eq_of_mem_replicate hmem]
  exact ⟨hsize, rfl, rfl⟩

theorem calls_download_three :
    Downloads three.body (calls [4, 2, 2, 2] (List.replicate 38 (inTime 64)) freshClient
      three.text) :=
  (calls_download three (List.replicate 38 (inTime 64)) freshClient 4 [2, 2, 2]
    three_wellFormed rfl rfl
    (steady_replicate 38 (by decide)) (by decide) (by decide) (by decide)).1
    ⟨three_namedFirst, by decide, 3, by decide, by decide⟩

/-- The last two bytes are lost. -/
theorem calls_download_lost : ¬ ∀ (response : Response) (reads : List Read) (client : ClientData)
    (sizes : List ℕ), response.WellFormed → client.isMore = false → client.connected = true →
    Steady reads → response.text.length ≤ reads.length → (∀ n ∈ sizes, 2 ≤ n) →
    response.body.length < sizes.length →
    Downloads response.body (calls sizes reads client response.text) := by
  intro hall
  have hsteady : Steady (List.replicate 38 (inTime 64)) := steady_replicate 38 (by decide)
  have hdownloads := hall three (List.replicate 38 (inTime 64)) freshClient [2, 2, 2, 2]
    three_wellFormed rfl rfl hsteady (by decide) (by decide) (by decide)
  have hless := @calls_lose three _ freshClient 2 [2, 2, 2]
    three_wellFormed three_namedFirst (by decide) rfl rfl hsteady (by decide) (by decide) 3
      (by decide)
    (by decide)
  rw [hdownloads.whole] at hless
  exact Nat.lt_irrefl _ hless

end Downloads

end IotExplorer.HttpDownload
