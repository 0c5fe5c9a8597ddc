import IotExplorer.Basis.Loops
import IotExplorer.HttpClient

/-!
The loop of `_http_client_retrieve_content` that searches for the end of a size line,
with the time that its reads take. A read that finds nothing is no error for
`_http_client_recv`, and the loop does not look at the time that is left.
-/
namespace IotExplorer.ChunkHeaderLoop

open Basis.Loops HttpClient

section Search

structure TimedRead where
  read : Read
  elapsed : ℕ
  deriving DecidableEq, Repr

/-- The call at work, and `left_ms` of its timer. -/
structure Search where
  call : Call
  left : ℕ
  deriving DecidableEq, Repr

def broughtBytes (timed : TimedRead) (s : Search) : List UInt8 :=
  timed.read.bytes (chunkSize - s.call.data.length - 1) s.call.stream

/-- An iteration: the loop goes on with a new state, or it is left because the line has ended, the
buffer has no place or a read has failed. -/
def iteration (timed : TimedRead) (s : Search) : Option Search :=
  match findCrlf s.call.data with
  | some _ => none
  | none =>
      if s.call.data.length < chunkSize then
        match httpClientRecv (chunkSize - s.call.data.length - 1) timed.read s.call with
        | (code, bytes, call) =>
            if code ≠ .success then none
            else some ⟨{ call with data := call.data ++ bytes }, s.left - timed.elapsed⟩
      else none

def searchLoop (schedule : ℕ → TimedRead) : ℕ → Search → Option Search :=
  fun n => iteration (schedule n)

/-- What is asked of the loop: an iteration that goes on has consumed a byte or a part of the time,
and the loop is left. -/
structure LoopRight (schedule : ℕ → TimedRead) (s : Search) : Prop where
  progress : ∀ n a b, stateAt (searchLoop schedule) s n = some a →
    iteration (schedule n) a = some b →
      a.call.data.length < b.call.data.length ∨ b.left < a.left
  ends : Ends (searchLoop schedule) s

/-- A read that serves the loop: it fails, or it brings a byte for which there is room, or time is
left and it takes some. -/
def ReadServes (timed : TimedRead) (s : Search) : Prop :=
  recvCode timed.read (broughtBytes timed s).length s.call.client.retrieveLen ≠ .success ∨
    (0 < timed.read.size ∧ s.call.data.length + 1 < chunkSize ∧ s.call.stream ≠ []) ∨
    (0 < s.left ∧ 0 < timed.elapsed)

end Search

section Iterations
variable {schedule : ℕ → TimedRead} {timed : TimedRead} {s s' : Search}

theorem iteration_eq_some (h : iteration timed s = some s') :
    findCrlf s.call.data = none ∧ s.call.data.length < chunkSize ∧
      recvCode timed.read (broughtBytes timed s).length s.call.client.retrieveLen = .success ∧
      s'.call.data = s.call.data ++ broughtBytes timed s ∧
      s'.left = s.left - timed.elapsed := by
  rw [iteration] at h
  split at h
  · cases h
  · rename_i hnone
    split at h
    · rename_i hroom
      obtain ⟨code, bytes, call, hrecv⟩ : ∃ code bytes call, httpClientRecv
          (chunkSize - s.call.data.length - 1) timed.read s.call = (code, bytes, call) :=
        ⟨_, _, _, rfl⟩
      have hcode : recvCode timed.read (broughtBytes timed s).length s.call.client.retrieveLen =
          code := congrArg Prod.fst hrecv
      have hbytes : broughtBytes timed s = bytes := congrArg (fun r => r.2.1) hrecv
      have hdata : s.call.data = call.data := congrArg (fun r => r.2.2.data) hrecv
      rw [hrecv] at h
      simp only at h
      split at h
      · cases h
      · rename_i hsuccess
        injection h with h
        rw [← h]
        exact ⟨hnone, hroom, hcode.trans (not_not.mp hsuccess), by rw [hbytes, hdata], rfl⟩
    · cases h

theorem iteration_goes_on (hnone : findCrlf s.call.data = none)
    (hroom : s.call.data.length < chunkSize)
    (hcode : recvCode timed.read (broughtBytes timed s).length s.call.client.retrieveLen =
      .success) :
    ∃ s', iteration timed s = some s' := by
  rw [iteration, hnone]
  simp only [hroom, if_true]
  exact ⟨_, if_neg (not_not.mpr hcode)⟩

theorem broughtBytes_length (timed : TimedRead) (s : Search) :
    (broughtBytes timed s).length =
      min (min timed.read.size (chunkSize - s.call.data.length - 1)) s.call.stream.length := by
  rw [broughtBytes, Read.bytes, List.length_take]

/-- The room that is left and the time that is left. -/
def Search.budget (s : Search) : ℕ := chunkSize - s.call.data.length + s.left

/-- The reads of the loop in a row, as `readChunkHeader` takes them. -/
theorem readChunkHeader_eq_rest {n : ℕ} (h : stateAt (searchLoop schedule) s n = some s')
    (reads : List Read) :
    readChunkHeader (((List.range n).map fun i => (schedule i).read) ++ reads) s.call =
      readChunkHeader reads s'.call := by
  induction n generalizing s' reads with
  | zero =>
      injection h with h
      rw [h]
      rfl
  | succ n ih =>
      obtain ⟨a, ha, hbody⟩ := Option.bind_eq_some_iff.mp h
      rw [List.range_succ, List.map_append, List.append_assoc, ih ha]
      simp only [searchLoop, iteration] at hbody
      simp only [List.map_cons, List.map_nil, List.singleton_append]
      rw [readChunkHeader]
      cases hnone : findCrlf a.call.data with
      | some place =>
        rw [hnone] at hbody
        cases hbody
      | none =>
        rw [hnone] at hbody
        dsimp only at hbody ⊢
        split at hbody
        · rename_i hroom
          simp only [hroom, if_true]
          split at hbody
          · cases hbody
          · rename_i hcode
            injection hbody with hbody
            rw [if_neg hcode, ← hbody]
        · cases hbody

/-- The loop is right exactly when every read that it makes serves it. -/
theorem header_loop_right_iff (schedule : ℕ → TimedRead) (s : Search) :
    LoopRight schedule s ↔
      ∀ n a, stateAt (searchLoop schedule) s n = some a → findCrlf a.call.data = none →
        a.call.data.length < chunkSize → ReadServes (schedule n) a := by
  constructor
  · intro h n a ha hnone hroom
    by_cases hcode : recvCode (schedule n).read (broughtBytes (schedule n) a).length
        a.call.client.retrieveLen = .success
    · obtain ⟨b, hb⟩ := iteration_goes_on hnone hroom hcode
      obtain ⟨-, -, -, hdata, hleft⟩ := iteration_eq_some hb
      right
      rcases h.progress n a b ha hb with hbytes | htime
      · rw [hdata, List.length_append, broughtBytes_length] at hbytes
        refine .inl ⟨by omega, by omega, fun hnil => ?_⟩
        rw [hnil, List.length_nil] at hbytes
        omega
      · exact .inr (by omega)
    · exact .inl hcode
  · intro h
    have hprogress (n : ℕ) (a b : Search) (ha : stateAt (searchLoop schedule) s n = some a)
        (hb : iteration (schedule n) a = some b) :
        a.call.data.length < b.call.data.length ∨ b.left < a.left := by
      obtain ⟨hnone, hroom, hcode, hdata, hleft⟩ := iteration_eq_some hb
      rcases h n a ha hnone hroom with hfails | ⟨hsize, hplace, hstream⟩ | htime
      · exact absurd hcode hfails
      · left
        have hpos := List.length_pos_iff.mpr hstream
        rw [hdata, List.length_append, broughtBytes_length]
        omega
      · right
        omega
    refine ⟨hprogress, ends_of_measure Search.budget ?_⟩
    intro n a b ha hb
    obtain ⟨-, hroom, -, hdata, hleft⟩ := iteration_eq_some hb
    have hlen := broughtBytes_length (schedule n) a
    have hgain := hprogress n a b ha hb
    rw [hdata, List.length_append] at hgain
    rw [Search.budget, Search.budget, hdata, List.length_append]
    omega

/-- A peer that sends nothing more, when the time is used up: the loop goes round and round. -/
theorem header_loop_spins : ¬ ∀ (schedule : ℕ → TimedRead) (s : Search), LoopRight schedule s := by
  intro h
  have hright := h (fun _ => ⟨⟨0, .nothingToRead, true⟩, 0⟩)
    ⟨⟨[], [], ⟨true, true, 0, 0, true⟩, []⟩, 0⟩
  have hprogress := hright.progress 0 _ ⟨⟨[], [], ⟨true, true, 0, 0, true⟩, []⟩, 0⟩ rfl (by decide)
  revert hprogress
  decide

end Iterations

end IotExplorer.ChunkHeaderLoop
