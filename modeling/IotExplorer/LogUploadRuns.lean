import IotExplorer.LogRecords
import IotExplorer.Basis.Runs

/-!
Runs of one upload with appends at any point of it. Each phase of the upload says where
the records are, and each step brings it nearer to its end. When it has returned, the
records are divided among what was uploaded, what was saved and what is in the buffer.
-/
namespace IotExplorer.LogUploadRuns

open Basis.Memory Basis.Pieces Basis.Runs LogUpload LogPosts LogRecords

section Phases
variable {contents : List (List UInt8)} {before : List UInt8} {m m' : ℕ → UInt8} {index index' : ℕ}
  {storage : List UInt8} {log : List Event} {s : State}

def PhaseHolds (contents : List (List UInt8)) (before : List UInt8) (m : ℕ → UInt8) (index : ℕ)
    (storage : List UInt8) (log : List Event) : Phase → Prop
  | .entry _ | .savedLog | .readSavedLog | .checkEmpty | .snapshot => savedText log = [] ∧
      Holds contents before headerSize headerSize headerSize m index storage log
  | .postSavedLog buf _ post => savedText log = [] ∧ PostGoes buf post ∧
      Holds contents before headerSize headerSize headerSize m index storage log
  | .post post => savedText log = [] ∧ PhaseGoes post.postSize post.phase ∧
      PostHolds contents before m index storage log post post.phase
  | .rebase size actual => savedText log = [] ∧
      Holds contents before headerSize (size - actual) size m index storage log
  | .save size =>
      savedText log = [] ∧ Holds contents before headerSize size size m index storage log
  | .settle size => Holds contents before size size size m index storage log
  | .returned => Holds contents before headerSize headerSize headerSize m index storage log

structure Inv (contents : List (List UInt8)) (before : List UInt8) (s : State) (log : List Event) :
    Prop where
  fits : s.logIndex < uploadBufferSize
  plain : HeaderPlain s.logBuffer
  saves : s.logSaveEnabled = true
  always : s.uploadOnlyInCommErr = false
  holds : PhaseHolds contents before s.logBuffer s.logIndex s.storage log s.phase

theorem phaseHolds_append {content : List UInt8} {phase : Phase}
    (h : Appended m m' index index' content)
    (hholds : PhaseHolds contents before m index storage log phase) :
    PhaseHolds contents before m' index' storage (log ++ [.accepted content]) phase := by
  cases phase with
  | entry _ => exact ⟨by simpa using hholds.1, h.holds hholds.2⟩
  | savedLog => exact ⟨by simpa using hholds.1, h.holds hholds.2⟩
  | readSavedLog => exact ⟨by simpa using hholds.1, h.holds hholds.2⟩
  | postSavedLog buf bufSize post => exact ⟨by simpa using hholds.1, hholds.2.1, h.holds hholds.2.2⟩
  | checkEmpty => exact ⟨by simpa using hholds.1, h.holds hholds.2⟩
  | snapshot => exact ⟨by simpa using hholds.1, h.holds hholds.2⟩
  | post post => exact ⟨by simpa using hholds.1, hholds.2.1, h.postHolds hholds.2.1 hholds.2.2⟩
  | rebase size actual => exact ⟨by simpa using hholds.1, h.holds hholds.2⟩
  | save size => exact ⟨by simpa using hholds.1, h.holds hholds.2⟩
  | settle size => exact h.holds hholds
  | returned => exact h.holds hholds

theorem PhaseHolds.behind_header {phase : Phase}
    (h : PhaseHolds contents before m index storage log phase) : headerSize ≤ index := by
  have hbounds : ∀ {a b c : ℕ}, Holds contents before a b c m index storage log →
      headerSize ≤ index := by
    intro a b c hholds
    obtain ⟨hhead, hab, hbc, hci⟩ := hholds.bounds
    omega
  cases phase with
  | entry _ => exact hbounds h.2
  | savedLog => exact hbounds h.2
  | readSavedLog => exact hbounds h.2
  | postSavedLog buf bufSize post => exact hbounds h.2.2
  | checkEmpty => exact hbounds h.2
  | snapshot => exact hbounds h.2
  | post post =>
    have hholds := h.2.2
    cases hphase : post.phase with
    | start =>
      rw [hphase] at hholds
      exact hbounds hholds.2.2
    | search p =>
      rw [hphase] at hholds
      exact hbounds hholds.2.2.2
    | post u =>
      rw [hphase] at hholds
      exact hbounds hholds.2.2
    | move u =>
      rw [hphase] at hholds
      exact hbounds hholds.2
    | clear =>
      rw [hphase] at hholds
      exact hbounds hholds.2.2
    | returned ret =>
      rw [hphase, PostHolds] at hholds
      split_ifs at hholds
      · exact hbounds hholds
      · exact hbounds hholds
  | rebase size actual => exact hbounds h.2
  | save size => exact hbounds h.2
  | settle size => exact hbounds h
  | returned => exact hbounds h

theorem inv_append {content : List UInt8} (h : Inv contents before s log)
    (hlong : 2 ≤ content.length)
    (taken : Bool) : Inv contents before (appendToUploadBuffer content taken s).1
      (log ++ (appendToUploadBuffer content taken s).2) := by
  have hhead := h.holds.behind_header
  rcases appendToUploadBuffer_cases hlong taken s with heq | ⟨m', index', happended, heq⟩
  · rw [heq, List.append_nil]
    exact h
  · rw [heq]
    refine ⟨happended.fits, h.plain.congr ?_, h.saves, h.always,
      phaseHolds_append happended h.holds⟩
    intro i hi
    exact happended.frame i (by omega)

/-- The header that is copied in front of the saved log is plain. -/
theorem headerPlain_copy (hplain : HeaderPlain m) (buf : ℕ → UInt8) :
    HeaderPlain (memcpy 0 (slice m 0 headerSize) buf) :=
  hplain.congr fun _ hi => memcpy_slice hi

theorem doLogUpload_post {answer : Answer} {post : Post} (hphase : s.phase = .post post)
    (hpost : ∀ ret, post.phase ≠ .returned ret) : doLogUpload answer s =
      ({ s with
        logBuffer := (postLogToServer uploadBufferSize answer s.logBuffer post).1
        phase := .post (postLogToServer uploadBufferSize answer s.logBuffer post).2.1 },
        (postLogToServer uploadBufferSize answer s.logBuffer post).2.2.map .uploaded) := by
  unfold doLogUpload
  rw [hphase]
  dsimp only
  cases heq : post.phase with
  | returned ret => exact absurd heq (hpost ret)
  | _ => rfl

theorem doLogUpload_postSavedLog {answer : Answer} {buf : ℕ → UInt8} {bufSize : ℕ} {post : Post}
    (hphase : s.phase = .postSavedLog buf bufSize post)
    (hpost : ∀ ret, post.phase ≠ .returned ret) :
    doLogUpload answer s =
      ({ s with
        phase := .postSavedLog (postLogToServer bufSize answer buf post).1 bufSize
          (postLogToServer bufSize answer buf post).2.1 },
        (postLogToServer bufSize answer buf post).2.2.map .resent) := by
  unfold doLogUpload
  rw [hphase]
  dsimp only
  cases heq : post.phase with
  | returned ret => exact absurd heq (hpost ret)
  | _ => rfl

theorem inv_entry {force : Bool} (answer : Answer) (h : Inv contents before s log)
    (hphase : s.phase = .entry force) :
    Inv contents before (checkForceUpload force answer s) log := by
  have hholds := h.holds
  rw [hphase] at hholds
  have halways : ¬s.uploadOnlyInCommErr = true := by
    rw [h.always]
    decide
  unfold checkForceUpload
  dsimp only
  rw [if_neg halways]
  split_ifs
  · exact ⟨h.fits, h.plain, h.saves, h.always, hholds⟩
  · exact ⟨h.fits, h.plain, h.saves, h.always, hholds⟩
  · exact ⟨h.fits, h.plain, h.saves, h.always, hholds.2⟩

theorem inv_savedLog (answer : Answer) (h : Inv contents before s log)
    (hphase : s.phase = .savedLog) :
    Inv contents before (handleSavedLog answer s) log := by
  have hholds := h.holds
  rw [hphase] at hholds
  unfold handleSavedLog
  split_ifs
  · exact ⟨h.fits, h.plain, h.saves, h.always, hholds⟩
  · exact ⟨h.fits, h.plain, h.saves, h.always, hholds⟩
  · exact ⟨h.fits, h.plain, h.saves, h.always, hholds⟩
  · exact ⟨h.fits, h.plain, h.saves, h.always, hholds⟩

theorem inv_readSavedLog (answer : Answer) (h : Inv contents before s log)
    (hphase : s.phase = .readSavedLog) : Inv contents before (readSavedLog answer s) log := by
  have hholds := h.holds
  rw [hphase] at hholds
  unfold readSavedLog
  split_ifs
  · refine ⟨h.fits, h.plain, h.saves, h.always, hholds.1, ⟨?_, trivial⟩, hholds.2⟩
    exact headerPlain_copy h.plain _
  · exact ⟨h.fits, h.plain, h.saves, h.always, hholds⟩

theorem inv_postSavedLog {buf : ℕ → UInt8} {bufSize : ℕ} {post : Post} (answer : Answer)
    (h : Inv contents before s log) (hphase : s.phase = .postSavedLog buf bufSize post) :
    Inv contents before (doLogUpload answer s).1 (log ++ (doLogUpload answer s).2) := by
  have hholds := h.holds
  rw [hphase] at hholds
  obtain ⟨hsaved, hgoes, hholds⟩ := hholds
  by_cases hpost : ∃ ret, post.phase = .returned ret
  · obtain ⟨ret, hret⟩ := hpost
    have heq : doLogUpload answer s = (settleSavedLog ret answer s, []) := by
      unfold doLogUpload
      rw [hphase]
      dsimp only
      rw [hret]
    rw [heq, List.append_nil]
    refine ⟨h.fits, h.plain, h.saves, h.always, hsaved, ?_⟩
    unfold settleSavedLog
    dsimp only
    split_ifs
    · exact hholds.deleted hsaved
    · exact hholds
  · have hgoing : ∀ ret, post.phase ≠ .returned ret := fun ret heq => hpost ⟨ret, heq⟩
    rw [doLogUpload_postSavedLog hphase hgoing]
    refine ⟨h.fits, h.plain, h.saves, h.always, by simpa using hsaved, ?_, hholds.of_resent _⟩
    exact (postMoves hgoing).goes hgoes

theorem inv_post {post : Post} (answer : Answer) (h : Inv contents before s log)
    (hphase : s.phase = .post post) :
    Inv contents before (doLogUpload answer s).1 (log ++ (doLogUpload answer s).2) := by
  have hholds := h.holds
  rw [hphase] at hholds
  obtain ⟨hsaved, hgoes, hholds⟩ := hholds
  by_cases hpost : ∃ ret, post.phase = .returned ret
  · obtain ⟨ret, hret⟩ := hpost
    rw [hret, PostHolds] at hholds
    unfold doLogUpload
    rw [hphase]
    dsimp only
    rw [hret]
    dsimp only
    split_ifs with hfailed
    · rw [List.append_nil]
      rw [if_neg hfailed.1] at hholds
      exact ⟨h.fits, h.plain, h.saves, h.always, hsaved, hholds⟩
    · have hsuccess : ret = .success := by
        by_contra hne
        exact hfailed ⟨hne, h.saves⟩
      rw [List.append_nil]
      rw [if_pos hsuccess] at hholds
      exact ⟨h.fits, h.plain, h.saves, h.always, hholds⟩
  · have hgoing : ∀ ret, post.phase ≠ .returned ret := fun ret heq => hpost ⟨ret, heq⟩
    have hmoves :
        PostMoves s.logBuffer post (postLogToServer uploadBufferSize answer s.logBuffer post) :=
      postMoves hgoing
    have hnext := hmoves.goes ⟨h.plain, hgoes⟩
    have hposted := postHolds_step hmoves ⟨h.plain, hgoes⟩ hsaved hholds
    rw [doLogUpload_post hphase hgoing]
    exact ⟨h.fits, hnext.1, h.saves, h.always, hposted.1, hnext.2, hposted.2⟩

theorem inv_rebase {size actual : ℕ} (h : Inv contents before s log)
    (hphase : s.phase = .rebase size actual) : Inv contents before (rebase size actual s) log := by
  have hholds := h.holds
  rw [hphase] at hholds
  obtain ⟨hsaved, hholds⟩ := hholds
  obtain ⟨-, hhead, hle, hci⟩ := hholds.bounds
  have hfits := h.fits
  unfold rebase
  split_ifs with hzero
  · rw [hzero, Nat.sub_zero] at hholds
    exact ⟨h.fits, h.plain, h.saves, h.always, hsaved, hholds.whole⟩
  · have hpositive : 0 < headerSize := by decide
    have hactual : size - (size - actual) = actual := by omega
    have hrebased := hholds.rebase (n := uploadBufferSize - (s.logIndex - actual))
    rw [hactual] at hrebased
    refine ⟨?_, h.plain.congr ?_, h.saves, h.always, hsaved, hrebased⟩
    · dsimp only
      omega
    · intro i hi
      dsimp only
      rw [memset_outside (by omega), memmove_outside (by omega)]

theorem inv_save {size : ℕ} (answer : Answer) (h : Inv contents before s log)
    (hphase : s.phase = .save size) :
    Inv contents before (saveLog size answer s).1 (log ++ (saveLog size answer s).2) := by
  have hholds := h.holds
  rw [hphase] at hholds
  exact ⟨h.fits, h.plain, h.saves, h.always, hholds.2.save hholds.1 _⟩

theorem inv_settle {size : ℕ} (h : Inv contents before s log) (hphase : s.phase = .settle size) :
    Inv contents before (settle size s) log := by
  have hholds := h.holds
  rw [hphase] at hholds
  obtain ⟨hhead, -, -, hci⟩ := hholds.bounds
  have hfits := h.fits
  unfold settle resetLogBuffer
  split_ifs with hall
  · refine ⟨?_, h.plain.congr ?_, h.saves, h.always, ?_⟩
    · dsimp only
      omega
    · intro i hi
      exact memset_outside (Or.inl hi)
    · rw [hall] at hholds
      exact hholds.reset
  · refine ⟨?_, h.plain.congr ?_, h.saves, h.always, hholds.settle⟩
    · dsimp only
      omega
    · intro i hi
      dsimp only
      rw [memset_outside (by omega), memmove_outside (by omega)]

/-- A step of the upload keeps what is promised. -/
theorem inv_advance (answer : Answer) (h : Inv contents before s log) :
    Inv contents before (doLogUpload answer s).1 (log ++ (doLogUpload answer s).2) := by
  have hholds := h.holds
  cases hphase : s.phase with
  | entry force =>
    unfold doLogUpload
    rw [hphase, List.append_nil]
    exact inv_entry answer h hphase
  | savedLog =>
    unfold doLogUpload
    rw [hphase, List.append_nil]
    exact inv_savedLog answer h hphase
  | readSavedLog =>
    unfold doLogUpload
    rw [hphase, List.append_nil]
    exact inv_readSavedLog answer h hphase
  | postSavedLog buf bufSize post => exact inv_postSavedLog answer h hphase
  | checkEmpty =>
    rw [hphase] at hholds
    unfold doLogUpload
    rw [hphase, List.append_nil]
    refine ⟨h.fits, h.plain, h.saves, h.always, ?_⟩
    dsimp only
    split_ifs
    · exact hholds.2
    · exact hholds
  | snapshot =>
    rw [hphase] at hholds
    unfold doLogUpload
    rw [hphase, List.append_nil]
    exact ⟨h.fits, h.plain, h.saves, h.always, hholds.1, trivial, rfl, rfl, hholds.2.whole⟩
  | post post => exact inv_post answer h hphase
  | rebase size actual =>
    unfold doLogUpload
    rw [hphase, List.append_nil]
    exact inv_rebase h hphase
  | save size =>
    unfold doLogUpload
    rw [hphase]
    exact inv_save answer h hphase
  | settle size =>
    unfold doLogUpload
    rw [hphase, List.append_nil]
    exact inv_settle h hphase
  | returned =>
    unfold doLogUpload
    rw [hphase, List.append_nil]
    exact h

end Phases

section Returns
variable {contents : List (List UInt8)} {before : List UInt8} {log : List Event} {s : State}

/-- How many steps an upload can still take. -/
def stateRank (s : State) : ℕ :=
  match s.phase with
  | .entry _ =>
      rank (Post.call (s.storage.length + headerSize)) + rank (Post.call uploadBufferSize) + 10
  | .savedLog =>
      rank (Post.call (s.storage.length + headerSize)) + rank (Post.call uploadBufferSize) + 9
  | .readSavedLog =>
      rank (Post.call (s.storage.length + headerSize)) + rank (Post.call uploadBufferSize) + 8
  | .postSavedLog _ _ post => rank post + rank (Post.call uploadBufferSize) + 7
  | .checkEmpty => rank (Post.call uploadBufferSize) + 6
  | .snapshot => rank (Post.call uploadBufferSize) + 5
  | .post post => rank post + 4
  | .rebase _ _ => 3
  | .save _ => 2
  | .settle _ => 1
  | .returned => 0

def advances : List Step → ℕ
  | [] => 0
  | .append _ _ :: steps => advances steps
  | .advance _ :: steps => advances steps + 1

/-- Records are two bytes long at least. -/
def LongStep : Step → Prop
  | .append content _ => 2 ≤ content.length
  | .advance _ => True

theorem rank_call_mono {m n : ℕ} (h : m ≤ n) : rank (Post.call m) ≤ rank (Post.call n) := by
  have hmul := Nat.mul_le_mul_right (maxHttpLogPostSize + 4) h
  simp only [rank, Post.call]
  omega

theorem returned_of_rank (h : stateRank s = 0) : s.phase = .returned := by
  unfold stateRank at h
  cases hphase : s.phase with
  | returned => rfl
  | _ =>
    rw [hphase] at h
    dsimp only at h
    omega

theorem stateRank_append (content : List UInt8) (taken : Bool) (s : State) :
    stateRank (appendToUploadBuffer content taken s).1 = stateRank s := by
  rw [appendToUploadBuffer]
  split_ifs
  · rfl
  · rfl

/-- Each step brings the upload nearer to its end. -/
theorem stateRank_advance (answer : Answer) (h : Inv contents before s log)
    (hgoing : s.phase ≠ .returned) :
    stateRank (doLogUpload answer s).1 < stateRank s := by
  have hholds := h.holds
  cases hphase : s.phase with
  | entry force =>
    have hrank : stateRank (checkForceUpload force answer s) ≤
        rank (Post.call (s.storage.length + headerSize)) + rank
          (Post.call uploadBufferSize) + 9 := by
      unfold checkForceUpload resetLogBuffer
      dsimp only
      split_ifs <;> simp [stateRank]
    unfold doLogUpload
    simp only [stateRank, hphase] at hrank ⊢
    omega
  | savedLog =>
    unfold doLogUpload
    rw [hphase]
    unfold handleSavedLog
    dsimp only
    split_ifs <;> simp only [stateRank, hphase] <;> omega
  | readSavedLog =>
    unfold doLogUpload
    rw [hphase]
    unfold readSavedLog
    dsimp only
    split_ifs <;> simp only [stateRank, hphase] <;> omega
  | postSavedLog buf bufSize post =>
    rw [hphase] at hholds
    by_cases hpost : ∃ ret, post.phase = .returned ret
    · obtain ⟨ret, hret⟩ := hpost
      unfold doLogUpload
      rw [hphase]
      dsimp only
      rw [hret]
      simp only [stateRank, settleSavedLog, hphase]
      omega
    · have hpost' : ∀ ret, post.phase ≠ .returned ret := fun ret heq => hpost ⟨ret, heq⟩
      have hmoves : PostMoves buf post (postLogToServer bufSize answer buf post) := postMoves hpost'
      have hlt := hmoves.rank_lt hholds.2.1
      rw [doLogUpload_postSavedLog hphase hpost']
      simp only [stateRank, hphase]
      omega
  | checkEmpty =>
    unfold doLogUpload
    rw [hphase]
    dsimp only
    split_ifs <;> simp only [stateRank, hphase] <;> omega
  | snapshot =>
    have hle := rank_call_mono (Nat.le_of_lt h.fits)
    unfold doLogUpload
    simp only [stateRank, hphase]
    omega
  | post post =>
    rw [hphase] at hholds
    by_cases hpost : ∃ ret, post.phase = .returned ret
    · obtain ⟨ret, hret⟩ := hpost
      unfold doLogUpload
      rw [hphase]
      dsimp only
      rw [hret]
      dsimp only
      split_ifs <;> simp only [stateRank, hphase] <;> omega
    · have hpost' : ∀ ret, post.phase ≠ .returned ret := fun ret heq => hpost ⟨ret, heq⟩
      have hmoves : PostMoves s.logBuffer post
          (postLogToServer uploadBufferSize answer s.logBuffer post) :=
        postMoves hpost'
      have hlt := hmoves.rank_lt ⟨h.plain, hholds.2.1⟩
      rw [doLogUpload_post hphase hpost']
      simp only [stateRank, hphase]
      omega
  | rebase size actual =>
    unfold doLogUpload
    rw [hphase]
    unfold rebase
    dsimp only
    split_ifs <;> simp only [stateRank, hphase] <;> omega
  | save size =>
    unfold doLogUpload
    simp only [stateRank, saveLog, hphase]
    omega
  | settle size =>
    unfold doLogUpload
    rw [hphase]
    unfold settle
    dsimp only
    split_ifs <;> simp only [stateRank, hphase] <;> omega
  | returned => exact absurd hphase hgoing

theorem inv_step (s : State) (log : List Event) (o : Step) (h : Inv contents before s log)
    (hlong : LongStep o) : Inv contents before (step o s).1 (log ++ (step o s).2) := by
  cases o with
  | append content taken => exact inv_append h hlong taken
  | advance answer => exact inv_advance answer h

/-- An upload that goes on often enough returns. -/
theorem run_returns {steps : List Step} (h : Inv contents before s log)
    (hlong : ∀ o ∈ steps, LongStep o) (hoften : stateRank s ≤ advances steps) :
    (run step steps s).1.phase = .returned := by
  induction steps generalizing s log with
  | nil => exact returned_of_rank (Nat.le_zero.mp hoften)
  | cons o steps ih =>
    have hnext := inv_step s log o h (hlong o (List.mem_cons_self ..))
    have hrest : ∀ o ∈ steps, LongStep o := fun o' ho' => hlong o' (List.mem_cons_of_mem o ho')
    apply ih hnext hrest
    cases o with
    | append content taken =>
      rw [step, stateRank_append]
      exact hoften
    | advance answer =>
      rw [advances] at hoften
      by_cases hgoing : s.phase = .returned
      · have hstays : (step (.advance answer) s).1 = s := by
          rw [step]
          unfold doLogUpload
          rw [hgoing]
        have hzero : stateRank s = 0 := by
          simp only [stateRank, hgoing]
        rw [hstays, hzero]
        exact Nat.zero_le _
      · have hlt := stateRank_advance answer h hgoing
        rw [step]
        omega

end Returns

section Divided
variable {contents : List (List UInt8)} {before : List UInt8} {log : List Event} {s : State}

/-- An upload is called, on a buffer with a plain header and records. -/
structure Ready (contents : List (List UInt8)) (s : State) : Prop where
  called : ∃ force, s.phase = .entry force
  fits : headerSize ≤ s.logIndex ∧ s.logIndex < uploadBufferSize
  plain : HeaderPlain s.logBuffer
  long : ∀ content ∈ contents, 2 ≤ content.length
  text : s.kept = (contents.map stored).flatten
  saves : s.logSaveEnabled = true
  always : s.uploadOnlyInCommErr = false

/-- The records, in parts, are in order what was uploaded, what was saved and what is in the buffer.
What was saved is in the storage, behind what was there or in its place. -/
def Divided (parts : List UInt8 → List (List UInt8)) (contents : List (List UInt8))
    (before : List UInt8)
    (s : State) (log : List Event) : Prop :=
  ∃ up sv kept, (records contents log).flatMap parts = up ++ (sv ++ kept) ∧
    uploadedText log = up.flatten ∧ savedText log = sv.flatten ∧ s.kept = kept.flatten ∧
    (s.storage = before ++ sv.flatten ∨ s.storage = sv.flatten)

/-- A record with no delimiter but at its end. -/
def Whole (record : List UInt8) : Prop := ∀ u v, record = u ++ 10 :: 12 :: v → v = []

theorem inv_ready (h : Ready contents s) : Inv contents s.storage s [] := by
  obtain ⟨force, hphase⟩ := h.called
  obtain ⟨hhead, hfits⟩ := h.fits
  refine ⟨hfits, h.plain, h.saves, h.always, ?_⟩
  rw [hphase]
  have hdelimited : Delimited 10 12 (slice s.logBuffer headerSize s.logIndex) := by
    have htext := h.text
    rw [State.kept] at htext
    rw [htext]
    apply delimited_flatten
    intro record hrecord
    obtain ⟨content, hcontent, rfl⟩ := List.mem_map.mp hrecord
    exact delimited_stored (h.long content hcontent)
  refine ⟨rfl, ⟨Nat.le_refl _, Nat.le_refl _, Nat.le_refl _, hhead⟩, ?_, delimited_nil,
    delimited_nil, ?_, hdelimited, ?_⟩
  · rw [slice_self]
    have htext := h.text
    rw [State.kept] at htext
    simpa [records, uploadedText, savedText] using htext.symm
  · rw [slice_self]
    exact delimited_nil
  · exact Or.inl (List.append_nil _).symm

/-- The upload itself accepts nothing. -/
theorem content_advance (answer : Answer) (s : State) :
    (doLogUpload answer s).2.filterMap Event.content = [] := by
  have hresent : ∀ payloads : List (List UInt8),
      (payloads.map Event.resent).filterMap Event.content = [] := by
    intro payloads
    rw [List.filterMap_eq_nil_iff]
    simp [Event.content]
  have huploaded : ∀ payloads : List (List UInt8),
      (payloads.map Event.uploaded).filterMap Event.content = [] := by
    intro payloads
    rw [List.filterMap_eq_nil_iff]
    simp [Event.content]
  cases hphase : s.phase with
  | postSavedLog buf bufSize post =>
    by_cases hpost : ∃ ret, post.phase = .returned ret
    · obtain ⟨ret, hret⟩ := hpost
      unfold doLogUpload
      rw [hphase]
      dsimp only
      rw [hret]
      rfl
    · rw [doLogUpload_postSavedLog hphase fun ret heq => hpost ⟨ret, heq⟩]
      exact hresent _
  | post post =>
    by_cases hpost : ∃ ret, post.phase = .returned ret
    · obtain ⟨ret, hret⟩ := hpost
      unfold doLogUpload
      rw [hphase]
      dsimp only
      rw [hret]
      dsimp only
      split_ifs
      · rfl
      · rfl
    · rw [doLogUpload_post hphase fun ret heq => hpost ⟨ret, heq⟩]
      exact huploaded _
  | _ =>
    unfold doLogUpload
    rw [hphase]
    rfl

/-- All records are two bytes long at least. -/
theorem long_contents {steps : List Step} (h : Ready contents s) (hlong : ∀ o ∈ steps, LongStep o) :
    ∀ content ∈ contents ++ (run step steps s).2.filterMap Event.content, 2 ≤ content.length := by
  have haccepted : ∀ content ∈ ([] ++ (run step steps s).2).filterMap Event.content,
      2 ≤ content.length := by
    refine @run_history _ _ _ step (fun _ o => LongStep o)
      (fun _ log => ∀ content ∈ log.filterMap Event.content, 2 ≤ content.length) ?_ _ _ _ ?_
      (along_of_forall_mem step hlong s)
    · intro s log o hall ho content hmem
      rw [List.filterMap_append, List.mem_append] at hmem
      rcases hmem with hmem | hmem
      · exact hall content hmem
      · cases o with
        | append text taken =>
          rw [step, appendToUploadBuffer] at hmem
          split_ifs at hmem
          · exact absurd hmem List.not_mem_nil
          · obtain rfl := List.mem_singleton.mp hmem
            exact ho
        | advance answer =>
          rw [step, content_advance] at hmem
          exact absurd hmem List.not_mem_nil
    · intro content hmem
      exact absurd hmem List.not_mem_nil
  rw [List.nil_append] at haccepted
  intro content hcontent
  rcases List.mem_append.mp hcontent with hmem | hmem
  · exact h.long content hmem
  · exact haccepted content hmem

/-- An upload that has returned has divided the records behind delimiters. -/
theorem divided_pieces {steps : List Step} (h : Ready contents s) (hlong : ∀ o ∈ steps, LongStep o)
    (hreturned : (run step steps s).1.phase = .returned) :
    Divided (pieces 10 12) contents s.storage (run step steps s).1 (run step steps s).2 := by
  have hinv : Inv contents s.storage (run step steps s).1 ([] ++ (run step steps s).2) :=
    run_history inv_step (inv_ready h) (along_of_forall_mem step hlong s)
  rw [List.nil_append] at hinv
  have hholds := hinv.holds
  rw [hreturned] at hholds
  have htext := congrArg (pieces 10 12) hholds.text
  have hdelimited : ∀ record ∈ records contents (run step steps s).2, Delimited 10 12 record := by
    intro record hrecord
    obtain ⟨content, hcontent, rfl⟩ := List.mem_map.mp hrecord
    exact delimited_stored (long_contents h hlong content hcontent)
  rw [pieces_flatten (by decide) hdelimited, pieces_append (by decide) hholds.uploaded,
    pieces_append (by decide) hholds.saved, slice_self, List.nil_append] at htext
  refine ⟨_, _, _, htext, ?_, ?_, ?_, ?_⟩
  · rw [flatten_pieces]
  · rw [flatten_pieces]
  · rw [flatten_pieces]
    rfl
  · rw [flatten_pieces]
    exact hholds.storage

/-- Records with no delimiter inside are not divided. -/
theorem Divided.whole (h : Divided (pieces 10 12) contents before s log)
    (hwhole : ∀ record ∈ records contents log, Whole record ∧ record ≠ []) :
    Divided (fun record => [record]) contents before s log := by
  have hparts : (records contents log).flatMap (pieces 10 12) =
      (records contents log).flatMap fun record => [record] := by
    apply List.flatMap_congr
    intro record hrecord
    exact pieces_eq_singleton (hwhole record hrecord).2 (hwhole record hrecord).1
  rw [Divided, hparts] at h
  exact h

/-- An upload returns when it goes on, and then the pieces of the records are divided among the
server, the storage and the buffer. A record with no delimiter inside is one piece. -/
theorem run_divided (h : Ready contents s) :
    (∃ n, ∀ steps, (∀ o ∈ steps, LongStep o) → n ≤ advances steps →
      (run step steps s).1.phase = .returned) ∧
    ∀ steps, (∀ o ∈ steps, LongStep o) → (run step steps s).1.phase = .returned →
      Divided (pieces 10 12) contents s.storage (run step steps s).1 (run step steps s).2 ∧
      ((∀ record ∈ records contents (run step steps s).2, Whole record) →
        Divided (fun record => [record]) contents s.storage (run step steps s).1
          (run step steps s).2) := by
  refine ⟨⟨stateRank s, fun steps hlong hoften => run_returns (inv_ready h) hlong hoften⟩, ?_⟩
  intro steps hlong hreturned
  have hdivided := divided_pieces h hlong hreturned
  refine ⟨hdivided, fun hwhole => hdivided.whole fun record hrecord => ⟨hwhole record hrecord, ?_⟩⟩
  obtain ⟨content, hcontent, rfl⟩ := List.mem_map.mp hrecord
  exact stored_ne_nil (long_contents h hlong content hcontent)

def zeroStamp : Stamp where
  signature := List.replicate 40 48
  timestamp := List.replicate 10 48
  signature_length := rfl
  timestamp_length := rfl
  graphic := List.forall_mem_append.mpr
    ⟨List.forall_mem_replicate.mpr (.inr (by decide)),
      List.forall_mem_replicate.mpr (.inr (by decide))⟩

def posted (ret : Ret) : Step := .advance ⟨true, ret, true, zeroStamp⟩

/-- The client behind its initialization, when an upload is called. -/
def called : State := initLogUploader 80 (List.replicate 10 97) [98] true [] (.entry true)

theorem ready_called : Ready [] called := by
  refine ⟨⟨true, rfl⟩, ⟨Nat.le_refl _, by decide⟩, ?_, ?_, ?_, rfl, rfl⟩
  · apply headerPlain_init
    · exact ⟨by decide, by decide⟩
    · intro b hb
      rw [List.eq_of_mem_replicate hb]
      exact ⟨by decide, by decide⟩
    · intro b hb
      rw [List.mem_singleton.mp hb]
      exact ⟨by decide, by decide⟩
  · intro content hmem
    exact absurd hmem List.not_mem_nil
  · exact slice_self _ _

/-- One record is appended before the upload, one before its post fails, and one before the buffer
is settled. -/
def failedUpload : List Step :=
  .append [97, 13, 10] false :: List.replicate 4 (posted .success) ++
    .append [98, 13, 10] false :: List.replicate 3 (posted .failure) ++ posted .success ::
      [.append [99, 13, 10] false, posted .success]

theorem run_divided_failed :
    Divided (pieces 10 12) [] [] (run step failedUpload called).1
      (run step failedUpload called).2 :=
  ((run_divided ready_called).2 failedUpload (by simp [failedUpload, LongStep, posted]) rfl).1

def largeRecord : ℕ → UInt8 := fun i =>
  if i < 112 then 35
  else if i < 2992 then 97 else if i = 2992 then 10 else if i = 2993 then 12
  else if i < 3004 then 98 else if i = 3004 then 10 else if i = 3005 then 12 else 0

def largeState : State := ⟨largeRecord, 3006, false, true, true, [], .entry true⟩

/-- Its first fragment is posted, and its second is not. -/
def halfUpload : List Step :=
  List.replicate 10 (posted .success) ++ List.replicate 7 (posted .failure)

theorem ready_largeState : Ready [slice largeRecord headerSize 3006] largeState := by
  have hlength := length_slice largeRecord headerSize 3006
  have hlast := slice_last_two largeRecord (show headerSize + 2 ≤ 3006 by decide)
  refine ⟨⟨true, rfl⟩, ⟨by decide, by decide⟩, ?_, ?_, ?_, rfl, rfl⟩
  · intro i hi hten
    have hplain : largeRecord i = 35 := if_pos hi
    exact absurd (hplain.symm.trans hten) (by decide)
  · intro content hmem
    rw [List.mem_singleton.mp hmem, hlength]
    decide
  · rw [List.map_singleton, List.flatten_singleton, stored, hlength]
    change slice largeRecord headerSize 3006 = _
    rw [hlast, List.take_left' (by rw [length_slice]; rfl)]
    rfl

/-- A record of one byte is appended behind a record of two letters, and the post fails. -/
def shortRecord : List Step :=
  [.append [97, 98, 13, 10] false, .append [120] false] ++ List.replicate 9 (posted .failure)

theorem Divided.text (h : Divided (pieces 10 12) contents before s log) :
    (records contents log).flatten = uploadedText log ++ (savedText log ++ s.kept) := by
  obtain ⟨up, sv, kept, hrecords, huploaded, hsaved, hkept, -⟩ := h
  have hflatten := congrArg List.flatten hrecords
  have hparts : ((records contents log).flatMap (pieces 10 12)).flatten =
      (records contents log).flatten := by
    induction records contents log with
    | nil => rfl
    | cons record rs ih =>
      rw [List.flatMap_cons, List.flatten_append, flatten_pieces, ih, List.flatten_cons]
  rw [hparts, List.flatten_append, List.flatten_append, ← huploaded, ← hsaved, ← hkept] at hflatten
  exact hflatten

/-- A record with a delimiter inside can be divided; and a record of one byte takes the place of the
end of the record before it. -/
theorem run_divided_cut :
    (¬ ∀ (contents : List (List UInt8)) (s : State), Ready contents s → ∀ steps : List Step,
      (∀ o ∈ steps, LongStep o) → (run step steps s).1.phase = .returned →
      Divided (fun record => [record]) contents s.storage (run step steps s).1
        (run step steps s).2) ∧
    ¬ ∀ (contents : List (List UInt8)) (s : State), Ready contents s → ∀ steps : List Step,
      (run step steps s).1.phase = .returned →
      Divided (pieces 10 12) contents s.storage (run step steps s).1 (run step steps s).2 := by
  constructor
  · intro hall
    have hlong : ∀ o ∈ halfUpload, LongStep o := by simp [halfUpload, LongStep, posted]
    -- there is one record of 2894 bytes, of which 2882 are uploaded
    have hrun : stateRank (run step halfUpload largeState).1 = 0 ∧
        (records [slice largeRecord headerSize 3006] (run step halfUpload largeState).2).length =
          1 ∧
        (records [slice largeRecord headerSize 3006]
          (run step halfUpload largeState).2).flatten.length = 2894 ∧
        (uploadedText (run step halfUpload largeState).2).length = 2882 := by
      decide +kernel
    obtain ⟨hrank, hcount⟩ := hrun
    obtain ⟨up, sv, kept, hrecords, huploaded, -⟩ :=
      hall _ _ ready_largeState halfUpload hlong (returned_of_rank hrank)
    rw [List.flatMap_singleton'] at hrecords
    rw [hrecords, huploaded] at hcount
    obtain ⟨hone, hall, hpart⟩ := hcount
    cases up with
    | nil => exact absurd hpart (by decide)
    | cons record up =>
      have hnone : sv ++ kept = [] := by
        rw [← List.length_eq_zero_iff]
        rw [List.length_append, List.length_cons] at hone
        omega
      rw [hnone, List.append_nil, hpart] at hall
      exact absurd hall (by decide)
  · intro hall
    have htext := (hall _ _ ready_called shortRecord (returned_of_rank (by decide +kernel))).text
    exact absurd htext (by decide +kernel)

end Divided

end IotExplorer.LogUploadRuns
