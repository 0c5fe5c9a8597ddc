import IotExplorer.HttpDownload

/-!
The counters of the HTTP client: the length of a response and what is still to be
retrieved of it. Their difference grows by the bytes that a call hands over, up to
multiples of `2 ^ 32`, if the length is known: a body up to the end of the connection is
not counted, and a further answer starts the counters again.
-/
namespace IotExplorer.HttpCounters

open TemplateJson HttpClient

section Answers

/-- The fields of an answer behind what has come of them, for which one more read is made. -/
def answerFields (retrieveLen : ℤ) (stream rest : List UInt8) (reads : List Read) :
    Option (List UInt8) :=
  if (strstr rest (crlf ++ crlf)).isSome then some rest
  else
    match reads with
    | [] => none
    | read :: _ =>
        let more := read.bytes (chunkSize - rest.length - 1) stream
        if recvCode read more.length retrieveLen = .success ∧
            (strstr (rest ++ more) (crlf ++ crlf)).isSome = true then
          some (rest ++ more)
        else none

/-- What a fetch looks for the length in, if it gets so far with an answer. -/
def answerHeader (retrieveLen : ℤ) (stream : List UInt8) : List Read → Option (List UInt8)
  | [] => none
  | read :: reads =>
      let data := read.bytes (chunkSize - 1) stream
      match strstr data crlf with
      | none => none
      | some crlfPos =>
          let responseCode := atoi ((data.set crlfPos 0).drop 9)
          if recvCode read data.length retrieveLen ≠ .success then none
          else if responseCode = 403 then none
          else if responseCode = 404 then none
          else
            answerFields retrieveLen (stream.drop data.length) (data.drop (crlfPos + 2)) reads

/-- The header tells the length of the body: it has a length that is not that of a body without
one, or it announces chunks, or it has neither field and is refused. -/
def NamesLength (data : List UInt8) : Prop :=
  match strstr data (ascii "Content-Length") with
  | some pos => atoi (data.drop (pos + (ascii "Content-Length: ").length)) ≠ -1
  | none =>
      match strstr data (ascii "Transfer-Encoding") with
      | some pos =>
          let chunkValue := (data.drop (pos + (ascii "Transfer-Encoding: ").length)).take 7
          chunkValue = ascii "Chunked" ∨ chunkValue = ascii "chunked"
      | none => True

/-- A body that is counted: one in chunks that is not within a chunk of `2 ^ 31` bytes or more, or
one that does not go up to the end of the connection. -/
def Further (client : ClientData) : Prop :=
  if client.isChunked then 0 ≤ client.retrieveLen else client.responseContentLen ≠ -1

end Answers

section Counters
variable {total : ℤ} {reads : List Read} {call : Call} {bufLen : ℕ}

/-- The counters of the client have counted the bytes in the buffer, up to multiples of `2 ^ 32`. -/
def Counts (total : ℤ) (call : Call) : Prop :=
  (2 ^ 32 : ℤ) ∣ call.client.responseContentLen - call.client.retrieveLen - total - call.text.length

/-- What is left of a round or a body is what the loop over it has to take. -/
def Left (readLen : ℕ) (call : Call) : Prop := (2 ^ 32 : ℤ) ∣ call.client.retrieveLen - readLen

/-- A part of a call that ends it has counted what it has handed over. -/
def Behind {α : Type} (total : ℤ) (post : α → Prop) : Except Exit α → Prop
  | .error exit => Counts total exit.call
  | .ok a => post a

theorem dvd_bmod_sub (n : ℤ) : (2 ^ 32 : ℤ) ∣ n.bmod (2 ^ 32) - n :=
  Int.dvd_of_emod_eq_zero (Int.emod_eq_emod_iff_emod_sub_eq_zero.mp Int.bmod_emod)

theorem readChunkHeader_counts (h : Counts total call) (hleft : Left 0 call) :
    Behind total (fun header => Counts total header.2.2 ∧ Left 0 header.2.2)
      (readChunkHeader reads call) := by
  induction reads generalizing call with
  | nil =>
    rw [readChunkHeader]
    split
    · exact ⟨h, hleft⟩
    · split_ifs <;> exact h
  | cons read reads ih =>
    rw [readChunkHeader]
    split
    · exact ⟨h, hleft⟩
    · split_ifs
      · rw [httpClientRecv]
        dsimp only
        split_ifs
        · exact h
        · exact ih h hleft
      · exact h

theorem beginRound_counts (h : Counts total call)
    (hleft : call.client.isChunked = true → call.client.retrieveLen ≤ 0 → Left 0 call) :
    Behind total (fun round => Counts total round.2.2 ∧ Left round.1 round.2.2)
      (beginRound reads call) := by
  rw [beginRound]
  split_ifs with hheader
  · have hchunk := @readChunkHeader_counts _ reads _ h (hleft hheader.1 hheader.2)
    split
    · next heq =>
      rw [heq] at hchunk
      exact hchunk
    · next heq =>
      rw [heq] at hchunk
      obtain ⟨hcounts, hzero⟩ := hchunk
      rw [Counts] at hcounts
      rw [Left] at hzero
      dsimp only at hcounts hzero ⊢
      split_ifs
      · rw [Behind, Counts]
        dsimp only
        omega
      · rw [Behind, Counts, Left]
        dsimp only
        refine ⟨?_, dvd_bmod_sub _⟩
        omega
  · rw [Behind, Left]
    refine ⟨h, ?_⟩
    dsimp only
    omega

/-- The loop that takes the bytes counts them. -/
theorem takeContent_counts {readLen : ℕ} (h : Counts total call) (hleft : Left readLen call) :
    Behind total (fun taken => Counts total taken.2 ∧ Left 0 taken.2)
      (takeContent bufLen reads readLen call) := by
  unfold Counts at h
  unfold Left at hleft
  induction reads generalizing call readLen with
  | nil =>
    rw [takeContent]
    dsimp only
    split_ifs <;> simp only [Behind, Counts, Left, List.length_append, List.length_take] <;> omega
  | cons read reads ih =>
    rw [takeContent]
    dsimp only
    by_cases hroom : call.text.length + min call.data.length readLen < bufLen - 1
    · rw [if_pos hroom]
      by_cases hlong : readLen < call.data.length
      · rw [if_pos hlong]
        simp only [Behind, Counts, Left, List.length_append, List.length_take]
        omega
      · rw [if_neg hlong]
        by_cases hend : readLen - call.data.length = 0
        · rw [if_pos hend]
          simp only [Behind, Counts, Left, List.length_append, List.length_take]
          omega
        · rw [if_neg hend, httpClientRecv]
          dsimp only
          generalize read.bytes _ call.stream = bytes
          split_ifs
          · simp only [Behind, Counts, List.length_append, List.length_take]
            omega
          · simp only [Behind, Counts, List.length_append, List.length_take]
            omega
          · apply ih <;> simp only [List.length_append, List.length_take] <;> omega
    · rw [if_neg hroom]
      simp only [Behind, Counts, List.length_append, List.length_take]
      omega

theorem endChunk_counts (h : Counts total call) (hleft : Left 0 call) :
    Behind total (fun rest => Counts total rest.2 ∧ Left 0 rest.2) (endChunk reads call) := by
  have hstrip : ∀ reads data stream client, Counts total ⟨data, call.text, client, stream⟩ →
      Left 0 ⟨data, call.text, client, stream⟩ →
      Behind total (fun rest => Counts total rest.2 ∧ Left 0 rest.2)
        (stripCrlf reads ⟨data, call.text, client, stream⟩) := by
    intro reads data stream client h hleft
    rw [stripCrlf]
    split
    · split_ifs
      · exact h
      · exact ⟨h, hleft⟩
    · exact h
  unfold endChunk
  split_ifs
  · split
    · exact h
    · rw [httpClientRecv]
      dsimp only
      split_ifs
      · exact h
      · exact hstrip _ _ _ _ h hleft
  · exact hstrip _ _ _ _ h hleft

/-- The rounds count what they hand over. -/
theorem retrieveRounds_counts {rounds : ℕ} (h : Counts total call)
    (hleft : call.client.isChunked = true → call.client.retrieveLen ≤ 0 → Left 0 call) :
    Counts total (retrieveRounds bufLen rounds reads call).call := by
  induction rounds generalizing reads call with
  | zero => exact h
  | succ rounds ih =>
    have hbegin := @beginRound_counts _ reads _ h hleft
    rw [retrieveRounds]
    split
    · next heq =>
      rw [heq] at hbegin
      exact hbegin
    · next readLen reads' call' heq =>
      rw [heq] at hbegin
      have htake := @takeContent_counts _ reads' _ bufLen _ hbegin.1 hbegin.2
      split
      · next heq =>
        rw [heq] at htake
        exact htake
      · next reads'' call'' heq =>
        rw [heq] at htake
        split_ifs
        · have hend := @endChunk_counts _ reads'' _ htake.1 htake.2
          split
          · next heq =>
            rw [heq] at hend
            exact hend
          · next heq =>
            rw [heq] at hend
            exact ih hend.1 fun _ _ => hend.2
        · exact htake.1

theorem retrieveContent_counts (h : Further call.client) :
    Counts (call.client.responseContentLen - call.client.retrieveLen)
      (httpClientRetrieveContent bufLen reads call).call := by
  rw [Further] at h
  rw [httpClientRetrieveContent]
  dsimp only
  have hnone : ¬ (call.client.responseContentLen = -1 ∧ call.client.isChunked = false) := by
    rintro ⟨hlength, hplain⟩
    rw [hplain] at h
    exact h hlength
  rw [if_neg hnone]
  apply retrieveRounds_counts
  · rw [Counts]
    dsimp only [List.length_nil]
    omega
  · intro hchunked hle
    rw [hchunked] at h
    rw [Left]
    dsimp only at hle ⊢
    have hle' : 0 ≤ call.client.retrieveLen := h
    omega

theorem recvCode_ne_more (read : Read) (readLen : ℕ) (retrieveLen : ℤ) :
    recvCode read readLen retrieveLen ≠ .retrieveMoreData := by
  rw [recvCode]
  split <;> (try split_ifs) <;> exact HttpCode.noConfusion

/-- The answer has been received, so far or up to its end. -/
def Finished (exit : Exit) : Prop :=
  exit.outcome = .returned .success ∨ exit.outcome = .returned .retrieveMoreData

/-- A read that fails ends the call without. -/
theorem not_finished_of_recvCode {read : Read} {readLen : ℕ} {retrieveLen : ℤ}
    (hcode : recvCode read readLen retrieveLen ≠ .success) :
    ¬ Finished ⟨.returned (recvCode read readLen retrieveLen), call, reads⟩ := by
  rintro (heq | heq)
  · exact hcode (Outcome.returned.inj heq)
  · exact recvCode_ne_more read readLen retrieveLen (Outcome.returned.inj heq)

theorem parseFields_counts {bodyEnd : ℕ} (h : NamesLength call.data)
    (hplain : call.client.isChunked = false) (htotal : total = 0)
    (hfinished : Finished (parseFields bufLen reads call bodyEnd)) :
    Counts total (parseFields bufLen reads call bodyEnd).call := by
  rw [NamesLength] at h
  rw [parseFields] at hfinished ⊢
  dsimp only at hfinished ⊢
  subst htotal
  split at hfinished
  · next pos heq =>
    rw [heq] at h
    dsimp only at h
    generalize atoi (call.data.drop (pos + (ascii "Content-Length: ").length)) = len at h ⊢
    have hcounts := @retrieveContent_counts reads { call with
        data := call.data.drop (bodyEnd + 4)
        client := { call.client with responseContentLen := len, retrieveLen := len } } bufLen
      (by rw [Further, hplain]; exact h)
    rwa [Int.sub_self] at hcounts
  · next hnone =>
    rw [hnone] at h
    split at hfinished
    · next pos heq =>
      rw [heq] at h
      dsimp only at h ⊢
      rw [if_pos h]
      have hcounts := @retrieveContent_counts reads { call with
          data := call.data.drop (bodyEnd + 4)
          client :=
            { call.client with isChunked := true, responseContentLen := 0, retrieveLen := 0 } }
        bufLen (by rw [Further]; exact le_rfl)
      exact hcounts
    · rcases hfinished with hcode | hcode <;> cases hcode

theorem parseHeader_counts {client : ClientData} {stream rest : List UInt8}
    (hplain : client.isChunked = false)
    (hanswer : ∀ data ∈ answerFields client.retrieveLen stream rest reads,
      total = 0 ∧ NamesLength data)
    (hfinished : Finished (parseHeader bufLen reads ⟨rest, [], client, stream⟩)) :
    Counts total (parseHeader bufLen reads ⟨rest, [], client, stream⟩).call := by
  unfold answerFields at hanswer
  unfold parseHeader at hfinished ⊢
  dsimp only at hfinished ⊢
  split at hfinished
  · next heq =>
    rw [heq, Option.isSome_some, if_pos rfl] at hanswer
    obtain ⟨htotal, hnames⟩ := hanswer rest rfl
    exact parseFields_counts hnames hplain htotal hfinished
  · next heq =>
    rw [heq, Option.isSome_none, if_neg Bool.false_ne_true] at hanswer
    split at hfinished
    · rcases hfinished with hcode | hcode <;> cases hcode
    · next read reads =>
      dsimp only at hanswer
      rw [httpClientRecv] at hfinished ⊢
      dsimp only at hfinished ⊢
      by_cases hcode : recvCode read (read.bytes (chunkSize - rest.length - 1) stream).length
          client.retrieveLen = .success
      · rw [if_neg (not_not.mpr hcode)] at hfinished ⊢
        split at hfinished
        · next heq =>
          rw [heq, Option.isSome_some, if_pos ⟨hcode, rfl⟩] at hanswer
          obtain ⟨htotal, hnames⟩ := hanswer _ rfl
          exact parseFields_counts hnames hplain htotal hfinished
        · rcases hfinished with hcode | hcode <;> cases hcode
      · rw [if_pos hcode] at hfinished
        exact absurd hfinished (not_finished_of_recvCode hcode)

/-- A call that has received something has counted it. -/
theorem recvResponse_counts {client : ClientData} {stream : List UInt8}
    (hfurther : client.isMore = true → Further client)
    (hanswer : client.isMore = false → ∀ data ∈ answerHeader client.retrieveLen stream reads,
      client.responseContentLen = client.retrieveLen ∧ NamesLength data)
    (hfinished : Finished (httpClientRecvResponse bufLen reads client stream)) :
    Counts (client.responseContentLen - client.retrieveLen)
      (httpClientRecvResponse bufLen reads client stream).call := by
  rw [httpClientRecvResponse] at hfinished ⊢
  dsimp only at hfinished ⊢
  have hsame : ∀ data client' stream', client'.responseContentLen = client.responseContentLen →
      client'.retrieveLen = client.retrieveLen →
      Counts (client.responseContentLen - client.retrieveLen) ⟨data, [], client', stream'⟩ := by
    intro data client' stream' hlength hleft
    rw [Counts]
    dsimp only [List.length_nil]
    omega
  by_cases hconnected : (!client.connected) = true
  · rw [if_pos hconnected]
    exact hsame _ _ _ rfl rfl
  · rw [if_neg hconnected] at hfinished ⊢
    by_cases hmore : client.isMore = true
    · rw [if_pos hmore]
      exact @retrieveContent_counts reads ⟨[], [], client, stream⟩ bufLen (hfurther hmore)
    · rw [if_neg hmore] at hfinished ⊢
      replace hanswer := hanswer (Bool.eq_false_of_not_eq_true hmore)
      cases reads with
      | nil => rcases hfinished with hcode | hcode <;> cases hcode
      | cons read reads =>
        rw [answerHeader] at hanswer
        dsimp only at hfinished ⊢
        rw [httpClientRecv] at hfinished ⊢
        dsimp only at hfinished hanswer ⊢
        generalize read.bytes (chunkSize - 1) stream = bytes at hfinished hanswer ⊢
        by_cases hcode : recvCode read bytes.length client.retrieveLen = .success
        · rw [if_neg (not_not.mpr hcode)] at hfinished ⊢
          by_cases hempty : bytes.isEmpty = true
          · rw [if_pos hempty]
            exact hsame _ _ _ rfl rfl
          · rw [if_neg hempty, httpClientResponseParse] at hfinished ⊢
            dsimp only at hfinished ⊢
            split at hfinished
            · rcases hfinished with hcode | hcode <;> cases hcode
            · next crlfPos heq =>
              rw [heq] at hanswer
              dsimp only at hanswer
              rw [if_neg (not_not.mpr hcode)] at hanswer
              split_ifs at hfinished hanswer ⊢
              · rcases hfinished with hcode | hcode <;> cases hcode
              · rcases hfinished with hcode | hcode <;> cases hcode
              · apply parseHeader_counts rfl _ hfinished
                intro data hmem
                obtain ⟨hcount, hnames⟩ := hanswer data hmem
                exact ⟨by omega, hnames⟩
        · rw [if_pos hcode] at hfinished
          exact absurd hfinished (not_finished_of_recvCode hcode)

end Counters

end IotExplorer.HttpCounters
