import IotExplorer.Basis.Runs
import IotExplorer.LogFragments
import IotExplorer.LogUploadRuns

/-!
The upload of a saved log, over many attempts. An attempt posts the saved log as the
log buffer is posted, in fragments when it is large, and then keeps or deletes all of
it. What has arrived before a post failed is not taken out, so that the next attempt
begins with it again.
-/
namespace IotExplorer.SavedLogs

open Basis.Memory Basis.Runs LogUpload LogPosts LogFragments

section Attempts

/-- A saved record, and how often it has arrived at the server. -/
structure Saved where
  record : List UInt8
  isRecord : IsRecord record
  times : ℕ

/-- What is saved, and the flag of `do_log_upload`. -/
structure Store where
  saved : List Saved
  unhandled : Bool

def Store.records (store : Store) : List (List UInt8) := store.saved.map Saved.record

/-- What an attempt meets: the records that were saved since the last one, whether the flag was set
since, the log client, whether the server can be reached, whether the saved log can be read into
memory, what each post returns, and whether the saved log is deleted when it is to be. -/
structure Attempt where
  since : List (Subtype IsRecord)
  resumed : Bool
  client : State
  header : HeaderRight client.logBuffer
  connected : Bool
  memory : Bool
  posts : ℕ → Ret × Stamp
  deleted : Bool

def fresh (records : List (Subtype IsRecord)) : List Saved :=
  records.map fun record => ⟨record.1, record.2, 0⟩

/-- What is saved when the attempt begins. -/
def Attempt.store (attempt : Attempt) (store : Store) : Store where
  saved := store.saved ++ fresh attempt.since
  unhandled := store.unhandled || attempt.resumed || !attempt.since.isEmpty

/-- The log client when the attempt begins. -/
def Attempt.begin (attempt : Attempt) (store : Store) : State :=
  { attempt.client with
    unhandleSavedLog := store.unhandled
    storage := store.records.flatten
    phase := .savedLog }

/-- What a step of the attempt meets, when so many posts have returned. -/
def Attempt.answer (attempt : Attempt) (phase : Phase) (posted : ℕ) : Answer where
  granted := match phase with
    | .savedLog => attempt.connected
    | _ => attempt.memory
  ret := (attempt.posts posted).1
  deleted := attempt.deleted
  stamp := (attempt.posts posted).2

/-- A step of `do_log_upload` while it handles the saved log. -/
def handleStep (attempt : Attempt) (s : State × List Event) : State × List Event :=
  match s.1.phase with
  | .savedLog | .readSavedLog | .postSavedLog _ _ _ =>
      let stepped := doLogUpload (attempt.answer s.1.phase s.2.length) s.1
      (stepped.1, s.2 ++ stepped.2)
  | _ => s

def handleSteps (attempt : Attempt) : ℕ → State × List Event → State × List Event
  | 0, s => s
  | n + 1, s => handleSteps attempt n (handleStep attempt s)

/-- How long the log is that is posted. -/
def Store.size (store : Store) : ℕ := headerSize + store.records.flatten.length

/-- `_handle_saved_log`, with as many steps as it may take, and what the posts did. -/
def handled (attempt : Attempt) (store : Store) : State × List Event :=
  handleSteps attempt (rank (Post.call store.size) + 3) (attempt.begin store, [])

/-- The payload of the saved log that arrives. -/
def resent : Event → List UInt8
  | .resent payload => payload
  | _ => []

/-- The records that so many bytes of the saved log make have arrived. -/
def arrive : List Saved → ℕ → List Saved
  | [], _ => []
  | record :: saved, n =>
      if record.record.length ≤ n then
        { record with times := record.times + 1 } :: arrive saved (n - record.record.length)
      else record :: saved

def arrived (attempt : Attempt) (store : Store) : List Saved :=
  arrive store.saved ((handled attempt store).2.flatMap resent).length

def step (attempt : Attempt) (store : Store) : Store × List Event :=
  let begun := attempt.store store
  let s := handled attempt begun
  (⟨if s.1.storage = [] then [] else arrived attempt begun, s.1.unhandleSavedLog⟩, s.2)

end Attempts

section Right

/-- No record has arrived more than once, and if the saved log is deleted, all records have
arrived. -/
def AttemptRight (store : Store) (attempt : Attempt) : Prop :=
  let begun := attempt.store store
  (∀ record ∈ arrived attempt begun, record.times ≤ 1) ∧
    ((handled attempt begun).1.storage = [] → ∀ record ∈ arrived attempt begun, record.times ≠ 0)

def Reaches (store : Store) (attempt : Attempt) : Prop :=
  attempt.client.logSaveEnabled ∧ store.unhandled ∧ store.saved ≠ [] ∧ attempt.connected ∧
    attempt.memory

/-- If its first post succeeds, the first record has not arrived before, and if that is the post of
the whole log, and the saved log is deleted since it returned `QCLOUD_ERR_INVAL`, then all records
have. -/
def AttemptFits (store : Store) (attempt : Attempt) : Prop :=
  let begun := attempt.store store
  Reaches begun attempt →
    ((attempt.posts 0).1 = .success → ∀ record ∈ begun.saved.head?, record.times = 0) ∧
    (begun.size < maxHttpLogPostSize → (attempt.posts 0).1 = .inval → attempt.deleted →
      ∀ record ∈ begun.saved, record.times ≠ 0)

/-- A saved log of which nothing has arrived, before the first attempt. -/
def Store.start (records : List (Subtype IsRecord)) : Store := ⟨fresh records, true⟩

end Right

section Posting
variable {attempt : Attempt} {store : Store}

/-- The saved log behind a copy of the header. -/
def Attempt.log (attempt : Attempt) (store : Store) : LogBuffer where
  memory := memcpy 0 (slice attempt.client.logBuffer 0 headerSize)
    (memcpy headerSize store.records.flatten fun _ => 0)
  bufSize := store.records.flatten.length + headerSize + 1
  records := store.records
  header := attempt.header.congr fun _ hi => memcpy_slice hi
  text := by
    rw [slice_memcpy_outside (by rw [length_slice]; omega)]
    exact slice_memcpy ..
  all := by
    intro record hrecord
    obtain ⟨saved, -, rfl⟩ := List.mem_map.mp hrecord
    exact saved.isRecord
  fits := by omega

/-- The log client while the saved log is posted, with what has arrived. -/
def posting (attempt : Attempt) (store : Store) (s : Posting) : State × List Event :=
  ({ attempt.begin store with phase := .postSavedLog s.buf (attempt.log store).bufSize s.post },
    ((s.posts.filter fun post => post.2 = .success).map Prod.fst).map .resent)

/-- What the posts returned is what they were to return. -/
def Answered (attempt : Attempt) (s : Posting) : Prop :=
  ∀ j post, s.posts[j]? = some post → post.2 = (attempt.posts j).1

/-- All posts so far have succeeded. -/
theorem success_of_stage {log : LogBuffer} {s : Posting} (h : Stage log s)
    (hgoing : ∀ ret, s.post.phase ≠ .returned ret) : ∀ post ∈ s.posts, post.2 = .success := by
  have hgroups : ∀ groups : List (List (List UInt8)),
      s.posts = (groups.map fun group => (group.flatten, Ret.success)) →
      ∀ post ∈ s.posts, post.2 = .success := by
    intro groups hposts post hpost
    rw [hposts] at hpost
    obtain ⟨group, -, rfl⟩ := List.mem_map.mp hpost
    rfl
  unfold Stage at h
  cases hphase : s.post.phase with
  | start =>
    rw [hphase] at h
    exact hgroups _ h.1.posts
  | search p =>
    rw [hphase] at h
    obtain ⟨-, groups, rest, hsent, -⟩ := h
    exact hgroups _ hsent.posts
  | post u =>
    rw [hphase] at h
    obtain ⟨-, groups, rest, front, back, hsent, -⟩ := h
    exact hgroups _ hsent.posts
  | move u =>
    rw [hphase] at h
    obtain ⟨-, groups, front, back, hsent, -⟩ := h
    exact hgroups _ hsent.posts
  | clear =>
    rw [hphase] at h
    obtain ⟨-, groups, rest, hsent, -⟩ := h
    exact hgroups _ hsent.posts
  | returned ret => exact absurd hphase (hgoing ret)

/-- The posts that a step tries: none, or one. -/
theorem tried_cases (answer : Answer) (s : Posting) :
    tried answer s = [] ∨ ∃ payload, tried answer s = [(payload, answer.ret)] := by
  unfold tried
  dsimp only
  cases s.post.phase with
  | start =>
    dsimp only
    split_ifs
    · exact .inr ⟨_, rfl⟩
    · exact .inl rfl
  | post u =>
    dsimp only
    split_ifs
    · exact .inl rfl
    · exact .inr ⟨_, rfl⟩
  | _ => exact .inl rfl

/-- A step of the posts is a step of the attempt. -/
theorem handleStep_posting {s : Posting} (hsuccess : ∀ post ∈ s.posts, post.2 = .success)
    (hgoing : ∀ ret, s.post.phase ≠ .returned ret) :
    handleStep attempt (posting attempt store s) = posting attempt store
      (postStep (attempt.log store).bufSize
        (attempt.answer (.postSavedLog s.buf (attempt.log store).bufSize s.post) s.posts.length)
          s) := by
  have hfilter : (s.posts.filter fun post => post.2 = .success) = s.posts :=
    List.filter_eq_self.mpr fun post hpost => decide_eq_true (hsuccess post hpost)
  have hlength : (posting attempt store s).2.length = s.posts.length := by
    simp [posting, hfilter]
  have hstep : handleStep attempt (posting attempt store s) =
      let stepped :=
        doLogUpload (attempt.answer (.postSavedLog s.buf (attempt.log store).bufSize s.post)
        (posting attempt store s).2.length) (posting attempt store s).1
      (stepped.1, (posting attempt store s).2 ++ stepped.2) := rfl
  rw [hstep, hlength, LogUploadRuns.doLogUpload_postSavedLog rfl hgoing]
  dsimp only
  rw [tried_arrives]
  simp [posting, postStep, hfilter]

/-- The log client when the posts have returned. -/
def settled (attempt : Attempt) (store : Store) (ret : Ret) : State :=
  { attempt.begin store with
    storage := if (ret = .success ∨ ret = .inval) ∧
      attempt.deleted then [] else store.records.flatten
    unhandleSavedLog := if ret = .success then false else store.unhandled
    phase := .checkEmpty }

theorem handleSteps_checkEmpty (n : ℕ) {s : State × List Event} (h : s.1.phase = .checkEmpty) :
    handleSteps attempt n s = s := by
  induction n with
  | zero => rfl
  | succ n ih =>
    have hstep : handleStep attempt s = s := by
      unfold handleStep
      rw [h]
    rw [handleSteps, hstep, ih]

theorem answered_step {s : Posting} {phase : Phase} (bufSize : ℕ) (h : Answered attempt s) :
    Answered attempt (postStep bufSize (attempt.answer phase s.posts.length) s) := by
  intro j post hpost
  rcases tried_cases (attempt.answer phase s.posts.length) s with hnone | ⟨payload, hone⟩
  · simp only [postStep, hnone, List.append_nil] at hpost
    exact h j post hpost
  · simp only [postStep, hone] at hpost
    by_cases hold : j < s.posts.length
    · rw [List.getElem?_append_left hold] at hpost
      exact h j post hpost
    · rw [List.getElem?_append_right (by omega)] at hpost
      obtain ⟨hj, rfl⟩ := List.getElem?_eq_some_iff.mp hpost
      have heq : j = s.posts.length := by
        rw [List.length_singleton] at hj
        omega
      simp [heq, Attempt.answer]

/-- The posts come to their end, and the saved log is kept or deleted. -/
theorem posting_settles (n : ℕ) (s : Posting) (hstage : Stage (attempt.log store) s)
    (hgoes : PostGoes s.buf s.post) (hanswered : Answered attempt s) (hrank : rank s.post < n) :
    ∃ s' ret, s'.post.phase = .returned ret ∧ PostedRight (attempt.log store) s' ∧
      Answered attempt s' ∧
      handleSteps attempt n (posting attempt store s) =
        (settled attempt store ret, (posting attempt store s').2) := by
  induction n generalizing s with
  | zero => omega
  | succ n ih =>
    by_cases hreturned : ∃ ret, s.post.phase = .returned ret
    · obtain ⟨ret, hret⟩ := hreturned
      have hright := hstage
      unfold Stage at hright
      rw [hret] at hright
      have hstep : handleStep attempt (posting attempt store s) =
          (settled attempt store ret, (posting attempt store s).2) := by
        unfold handleStep posting doLogUpload
        dsimp only
        rw [hret, List.append_nil]
        rfl
      refine ⟨s, ret, hret, hright, hanswered, ?_⟩
      rw [handleSteps, hstep]
      exact handleSteps_checkEmpty n rfl
    · have hgoing : ∀ ret, s.post.phase ≠ .returned ret := fun ret hret => hreturned ⟨ret, hret⟩
      rw [handleSteps, handleStep_posting (success_of_stage hstage hgoing) hgoing]
      have hmoves : PostMoves s.buf s.post (postLogToServer (attempt.log store).bufSize
          (attempt.answer (.postSavedLog s.buf (attempt.log store).bufSize s.post) s.posts.length)
          s.buf s.post) := postMoves hgoing
      have hlt := hmoves.rank_lt hgoes
      exact ih _ (stage_step hstage) (hmoves.goes hgoes) (answered_step _ hanswered)
        (Nat.lt_of_lt_of_le hlt (Nat.le_of_lt_succ hrank))

theorem records_flatten_pos (h : store.saved ≠ []) : 0 < store.records.flatten.length := by
  unfold Store.records
  cases hsaved : store.saved with
  | nil => exact absurd hsaved h
  | cons record saved =>
    have htwo := record.isRecord.two_le
    rw [List.map_cons, List.flatten_cons, List.length_append]
    omega

/-- The first step of an attempt. -/
theorem handleStep_begin : handleStep attempt (attempt.begin store, []) =
    (if attempt.client.logSaveEnabled ∧ store.unhandled then
      if store.records.flatten.length > 0 then
        { attempt.begin store with
          phase := if attempt.connected then .readSavedLog else .checkEmpty }
      else { attempt.begin store with unhandleSavedLog := false, phase := .checkEmpty }
    else { attempt.begin store with phase := .checkEmpty }, []) := rfl

/-- An attempt that does not get to the posts leaves the saved log. -/
theorem handled_stays (h : ¬Reaches store attempt) :
    (handled attempt store).2 = [] ∧ (handled attempt store).1.storage = store.records.flatten := by
  unfold handled
  rw [handleSteps, handleStep_begin]
  by_cases henabled : attempt.client.logSaveEnabled ∧ store.unhandled
  · rw [if_pos henabled]
    by_cases hsaved : store.records.flatten.length > 0
    · rw [if_pos hsaved]
      cases hconnected : attempt.connected with
      | false =>
        rw [handleSteps_checkEmpty _ rfl]
        exact ⟨rfl, rfl⟩
      | true =>
        have hmemory : attempt.memory = false := by
          refine Bool.eq_false_iff.mpr fun hmemory => h
            ⟨henabled.1, henabled.2, ?_, hconnected, hmemory⟩
          intro hnil
          simp [Store.records, hnil] at hsaved
        have hsecond : handleStep attempt
            ({ attempt.begin store with phase := .readSavedLog }, []) =
            ({ attempt.begin store with phase := .checkEmpty }, []) := by
          simp [handleStep, doLogUpload, readSavedLog, Attempt.answer, hmemory]
        rw [if_pos rfl, handleSteps, hsecond, handleSteps_checkEmpty _ rfl]
        exact ⟨rfl, rfl⟩
    · rw [if_neg hsaved, handleSteps_checkEmpty _ rfl]
      exact ⟨rfl, rfl⟩
  · rw [if_neg henabled, handleSteps_checkEmpty _ rfl]
    exact ⟨rfl, rfl⟩

/-- An attempt that gets to the posts. -/
theorem handled_posts (h : Reaches store attempt) :
    ∃ s ret, s.post.phase = .returned ret ∧ PostedRight (attempt.log store) s ∧ Answered attempt s ∧
      handled attempt store = (settled attempt store ret, (posting attempt store s).2) := by
  obtain ⟨henabled, hunhandled, hsaved, hconnected, hmemory⟩ := h
  have hpos : store.records.flatten.length > 0 := records_flatten_pos hsaved
  have hsecond : handleStep attempt ({ attempt.begin store with phase := .readSavedLog }, []) =
      posting attempt store (attempt.log store).begin := by
    simp [handleStep, doLogUpload, readSavedLog, Attempt.answer, hmemory, posting, Attempt.begin,
      Attempt.log, LogBuffer.begin, LogBuffer.size, Nat.add_comm headerSize]
  unfold handled
  rw [handleSteps, handleStep_begin, if_pos ⟨henabled, hunhandled⟩, if_pos hpos, if_pos hconnected,
    handleSteps, hsecond]
  refine posting_settles _ _ (stage_begin _) ⟨(attempt.log store).header.plain, trivial⟩ ?_
    (Nat.lt_succ_self _)
  intro j post hpost
  simp [LogBuffer.begin] at hpost

end Posting

section Arrivals
variable {attempt : Attempt} {store : Store}

def Saved.again (record : Saved) : Saved := { record with times := record.times + 1 }

theorem arrive_nil (saved : List Saved) : arrive saved 0 = saved := by
  cases saved with
  | nil => rfl
  | cons record saved =>
    have htwo := record.isRecord.two_le
    rw [arrive, if_neg (by omega)]

theorem arrive_append (front back : List Saved) :
    arrive (front ++ back) (front.map Saved.record).flatten.length =
      front.map Saved.again ++ back := by
  induction front with
  | nil => exact arrive_nil back
  | cons record front ih =>
    rw [List.map_cons, List.flatten_cons, List.length_append, List.cons_append, arrive,
      if_pos (Nat.le_add_right ..), Nat.add_sub_cancel_left, ih]
    rfl

/-- What has arrived are the posts of the groups. -/
theorem resent_posting {s : Posting} {groups : List (List (List UInt8))}
    {failed : List (List UInt8 × Ret)}
    (hposts : s.posts = (groups.map fun group => (group.flatten, .success)) ++ failed)
    (hfailed : ∀ post ∈ failed, post.2 ≠ .success) :
    (posting attempt store s).2.flatMap resent = groups.flatten.flatten := by
  have hnone : (failed.filter fun post => post.2 = .success) = [] :=
    List.filter_eq_nil_iff.mpr fun post hpost => by simpa using hfailed post hpost
  have hall : ((groups.map fun group => (group.flatten, Ret.success)).filter
      fun post => post.2 = .success) = groups.map fun group => (group.flatten, Ret.success) := by
    refine List.filter_eq_self.mpr fun post hpost => ?_
    obtain ⟨group, -, rfl⟩ := List.mem_map.mp hpost
    rfl
  unfold posting
  rw [hposts, List.filter_append, hall, hnone, List.append_nil]
  rw [List.flatMap_def, List.map_map, List.map_map, List.map_map, List.flatten_flatten]
  rfl

/-- What an attempt that gets to the posts does: the first records arrive, some if its first post
succeeds, and the saved log is deleted after the posts succeeded, or that of the whole log returned
`QCLOUD_ERR_INVAL`. -/
structure Effect (attempt : Attempt) (store : Store) (front back : List Saved) (ret : Ret) :
    Prop where
  split : store.saved = front ++ back
  marked : arrived attempt store = front.map Saved.again ++ back
  first : (attempt.posts 0).1 = .success ↔ front ≠ []
  all : ret = .success → back = []
  inval : ret = .inval ↔ store.size < maxHttpLogPostSize ∧ (attempt.posts 0).1 = .inval
  second : maxHttpLogPostSize ≤ store.size → (attempt.posts 1).1 ≠ .success → ret ≠ .success
  client : (handled attempt store).1 = settled attempt store ret

theorem effect_of_reaches (h : Reaches store attempt) :
    ∃ front back ret, Effect attempt store front back ret := by
  obtain ⟨s, ret, hreturned, hright, hanswered, hhandled⟩ := handled_posts h
  obtain ⟨groups, rest, hsplit, heach, -, hend⟩ := hright
  have hrecords : store.records = groups.flatten ++ rest := hsplit
  obtain ⟨front, back, hsaved, hfront, hback⟩ := List.map_eq_append_iff.mp hrecords
  have hne : store.records ≠ [] := fun hnil => h.2.2.1 (List.map_eq_nil_iff.mp hnil)
  have hgroups : front ≠ [] ↔ groups ≠ [] := by
    refine not_congr ⟨fun hnil => ?_, fun hnil => ?_⟩
    · rw [hnil] at hfront
      cases groups with
      | nil => rfl
      | cons group groups =>
        have hgroup : group = [] :=
          List.flatten_eq_nil_iff.mp hfront.symm group (List.mem_cons_self ..)
        exact absurd ((heach group (List.mem_cons_self ..)).2 hgroup) hne
    · rw [hnil] at hfront
      exact List.map_eq_nil_iff.mp hfront
  have harrived : ∀ failed : List (List UInt8 × Ret),
      s.posts = (groups.map fun group => (group.flatten, .success)) ++ failed →
      (∀ post ∈ failed, post.2 ≠ .success) →
      arrived attempt store = front.map Saved.again ++ back := by
    intro failed hposts hfailed
    unfold arrived
    rw [hhandled, resent_posting hposts hfailed, hsaved, ← hfront]
    exact arrive_append front back
  have hfirst : groups ≠ [] → (attempt.posts 0).1 = .success := by
    intro hne'
    obtain ⟨group, groups', rfl⟩ := List.exists_cons_of_ne_nil hne'
    rcases hend with ⟨-, -, hposts⟩ | ⟨_, _, _, _, -, -, -, -, -, hposts, -⟩ <;>
      exact (hanswered 0 (group.flatten, .success) (by rw [hposts]; rfl)).symm
  rcases hend with ⟨hsuccess, rfl, hposts⟩ |
    ⟨_, failed, tail, left, hfailure, hfailed, hcode, -, -, hposts, -⟩
  · rw [hsuccess] at hreturned
    cases hreturned
    have hsome : groups ≠ [] := by
      rintro rfl
      exact hne hrecords
    refine ⟨front, back, .success, hsaved,
      harrived [] (by rw [hposts, List.append_nil]) (by simp), ?_, ?_, ?_, ?_, by rw [hhandled]⟩
    · exact ⟨fun _ => hgroups.mpr hsome, fun _ => hfirst hsome⟩
    · exact fun _ => List.map_eq_nil_iff.mp hback
    · rw [hfirst hsome]
      simp
    · intro hlarge hsecond
      exfalso
      cases groups with
      | nil => exact hsome rfl
      | cons group groups =>
        cases groups with
        | nil =>
          have hshort := (heach group (List.mem_cons_self ..)).1
          have hall : store.records = group := by rw [hrecords]; simp
          rw [Store.size, hall] at hlarge
          omega
        | cons next groups =>
          exact hsecond (hanswered 1 (next.flatten, .success) (by rw [hposts]; rfl)).symm
  · rw [hfailure] at hreturned
    cases hreturned
    have hlast : groups = [] → failed = (attempt.posts 0).1 := by
      rintro rfl
      exact hanswered 0 (tail.flatten, failed) (by rw [hposts]; rfl)
    have hfirst' : (attempt.posts 0).1 = .success ↔ groups ≠ [] := by
      refine ⟨fun hsuccess hnil => ?_, hfirst⟩
      rw [hlast hnil] at hfailed
      exact hfailed hsuccess
    refine ⟨front, back, ret, hsaved,
      harrived [(tail.flatten, failed)] hposts (by simpa using hfailed), hfirst'.trans hgroups.symm,
      ?_, ?_, ?_, by rw [hhandled]⟩
    · rintro rfl
      rcases hcode with ⟨-, -, rfl⟩ | ⟨-, hcode⟩
      · exact absurd rfl hfailed
      · exact Ret.noConfusion hcode
    · rcases hcode with ⟨hsmall, hnil, rfl⟩ | ⟨hlarge, rfl⟩
      · rw [hlast hnil]
        exact ⟨fun hinval => ⟨hsmall, hinval⟩, And.right⟩
      · exact ⟨fun hinval => Ret.noConfusion hinval,
          fun hboth => absurd hboth.1 (Nat.not_lt.mpr hlarge)⟩
    · rintro - - rfl
      rcases hcode with ⟨-, -, rfl⟩ | ⟨-, hcode⟩
      · exact absurd rfl hfailed
      · exact Ret.noConfusion hcode

end Arrivals

section Results
variable {attempt : Attempt} {store : Store}

/-- No record has arrived more than once, and none without those before it. -/
structure Inv (store : Store) : Prop where
  once : ∀ record ∈ store.saved, record.times ≤ 1
  ordered : store.saved.Pairwise fun record later => later.times ≤ record.times

theorem ordered_of_const {saved : List Saved} {n : ℕ} (h : ∀ record ∈ saved, record.times = n) :
    saved.Pairwise fun record later => later.times ≤ record.times := by
  refine List.pairwise_iff_forall_sublist.mpr fun {record later} hsub => ?_
  exact Nat.le_of_eq
    ((h later (hsub.subset (by simp))).trans (h record (hsub.subset (by simp))).symm)

theorem times_fresh (records : List (Subtype IsRecord)) :
    ∀ record ∈ fresh records, record.times = 0 := by
  intro record hrecord
  obtain ⟨_, -, rfl⟩ := List.mem_map.mp hrecord
  rfl

/-- The records that are saved between two attempts have not arrived. -/
theorem inv_store (attempt : Attempt) (h : Inv store) : Inv (attempt.store store) := by
  have hsince := times_fresh attempt.since
  refine ⟨fun record hrecord => ?_,
    List.pairwise_append.mpr ⟨h.ordered, ordered_of_const hsince, fun record _ later hlater => ?_⟩⟩
  · rcases List.mem_append.mp hrecord with hrecord | hrecord
    · exact h.once record hrecord
    · rw [hsince record hrecord]
      exact Nat.zero_le 1
  · rw [hsince later hlater]
    exact Nat.zero_le _

/-- If the first record has not arrived, none has. -/
theorem Inv.none (h : Inv store) (hhead : ∀ record ∈ store.saved.head?, record.times = 0) :
    ∀ record ∈ store.saved, record.times = 0 := by
  have hordered := h.ordered
  cases hsaved : store.saved with
  | nil => simp
  | cons first saved =>
    rw [hsaved] at hhead hordered
    have hfirst : first.times = 0 := hhead first rfl
    intro record hrecord
    rcases List.mem_cons.mp hrecord with rfl | hrecord
    · exact hfirst
    · have hle := List.rel_of_pairwise_cons hordered hrecord
      omega

/-- What a deletion leaves. -/
theorem inv_deleted {saved : List Saved} (p : Prop) [Decidable p] (unhandled unhandled' : Bool)
    (h : Inv ⟨saved, unhandled⟩) : Inv ⟨if p then [] else saved, unhandled'⟩ := by
  by_cases hp : p
  · rw [if_pos hp]
    exact ⟨by simp, .nil⟩
  · rw [if_neg hp]
    exact ⟨h.once, h.ordered⟩

/-- When the saved log is deleted. -/
theorem deleted_iff (attempt : Attempt) {ret : Ret} (hsaved : store.saved ≠ []) :
    (settled attempt store ret).storage = [] ↔
    (ret = .success ∨ ret = .inval) ∧ attempt.deleted := by
  have hpos := records_flatten_pos hsaved
  have hstorage : (settled attempt store ret).storage =
      if (ret = .success ∨ ret = .inval) ∧ attempt.deleted then [] else store.records.flatten := rfl
  rw [hstorage]
  split_ifs with hdeleted
  · exact ⟨fun _ => hdeleted, fun _ => rfl⟩
  · exact ⟨fun hnil => absurd hnil (List.ne_nil_of_length_pos hpos), fun h => absurd h hdeleted⟩

/-- The first post of an attempt decides whether it is right. -/
theorem Effect.right_iff {front back : List Saved} {ret : Ret}
    (h : Effect attempt store front back ret)
    (hinv : Inv store) (hsaved : store.saved ≠ []) :
    ((∀ record ∈ arrived attempt store, record.times ≤ 1) ∧
      ((handled attempt store).1.storage = [] → ∀ record ∈ arrived attempt store,
        record.times ≠ 0)) ↔
    ((attempt.posts 0).1 = .success → ∀ record ∈ store.saved.head?, record.times = 0) ∧
      (store.size < maxHttpLogPostSize → (attempt.posts 0).1 = .inval → attempt.deleted →
        ∀ record ∈ store.saved, record.times ≠ 0) := by
  rw [h.client, deleted_iff attempt hsaved, h.marked, h.first]
  constructor
  · rintro ⟨honce, hdeleted⟩
    refine ⟨fun hfront record hrecord => ?_, fun hsmall hfirst hgranted => ?_⟩
    · obtain ⟨first, front, rfl⟩ := List.exists_cons_of_ne_nil hfront
      have heq : first = record := by
        rw [h.split] at hrecord
        exact Option.some.inj hrecord
      have hle := honce first.again (by simp)
      exact heq ▸ Nat.le_zero.mp (Nat.le_of_succ_le_succ hle)
    · have hret : ret = .inval := h.inval.mpr ⟨hsmall, hfirst⟩
      have hfront : front = [] := by
        by_contra hfront
        rw [h.first.mpr hfront] at hfirst
        exact Ret.noConfusion hfirst
      have hall := hdeleted ⟨.inr hret, hgranted⟩
      rw [hfront] at hall
      rw [h.split, hfront]
      exact hall
  · rintro ⟨hhead, hinval⟩
    refine ⟨fun record hrecord => ?_, fun hdeleted record hrecord => ?_⟩
    · rcases List.mem_append.mp hrecord with hrecord | hrecord
      · obtain ⟨first, hfirst, rfl⟩ := List.mem_map.mp hrecord
        have hzero := hinv.none (hhead (List.ne_nil_of_mem hfirst)) first
          (by rw [h.split]; exact List.mem_append_left _ hfirst)
        exact Nat.le_of_eq (congrArg (· + 1) hzero)
      · exact hinv.once record (by rw [h.split]; exact List.mem_append_right _ hrecord)
    · rcases hdeleted.1 with hret | hret
      · rw [h.all hret, List.append_nil] at hrecord
        obtain ⟨first, -, rfl⟩ := List.mem_map.mp hrecord
        exact Nat.succ_ne_zero first.times
      · obtain ⟨hsmall, hfirst⟩ := h.inval.mp hret
        have hfront : front = [] := by
          by_contra hfront
          rw [h.first.mpr hfront] at hfirst
          exact Ret.noConfusion hfirst
        rw [hfront] at hrecord
        exact hinval hsmall hfirst hdeleted.2 record (by rw [h.split, hfront]; exact hrecord)

/-- What a right attempt leaves, before the deletion. -/
theorem Effect.inv {front back : List Saved} {ret : Ret} (h : Effect attempt store front back ret)
    (hinv : Inv store)
    (hfits : (attempt.posts 0).1 = .success → ∀ record ∈ store.saved.head?, record.times = 0) :
    Inv ⟨arrived attempt store, store.unhandled⟩ := by
  rw [h.marked]
  by_cases hfront : front = []
  · rw [hfront, List.map_nil]
    have hsame : store.saved = [] ++ back := hfront ▸ h.split
    rw [← hsame]
    exact ⟨hinv.once, hinv.ordered⟩
  · have hzero := hinv.none (hfits (h.first.mpr hfront))
    rw [h.split] at hzero
    have hone : ∀ record ∈ front.map Saved.again, record.times = 1 := by
      intro record hrecord
      obtain ⟨first, hfirst, rfl⟩ := List.mem_map.mp hrecord
      exact congrArg (· + 1) (hzero first (List.mem_append_left _ hfirst))
    have hback : ∀ record ∈ back, record.times = 0 :=
      fun record hrecord => hzero record (List.mem_append_right _ hrecord)
    refine ⟨fun record hrecord => ?_, List.pairwise_append.mpr ⟨ordered_of_const hone,
      ordered_of_const hback, fun record _ later hlater => ?_⟩⟩
    · rcases List.mem_append.mp hrecord with hrecord | hrecord
      · exact Nat.le_of_eq (hone record hrecord)
      · rw [hback record hrecord]
        exact Nat.zero_le 1
    · rw [hback later hlater]
      exact Nat.zero_le _

/-- Which attempts are right, when all before them were. -/
theorem attemptRight_iff (h : Inv store) :
    (AttemptRight store attempt ↔ AttemptFits store attempt) ∧
      (AttemptFits store attempt → Inv (step attempt store).1) := by
  have hinv := inv_store attempt h
  unfold AttemptRight AttemptFits step
  dsimp only
  generalize attempt.store store = begun at hinv ⊢
  by_cases hreaches : Reaches begun attempt
  · obtain ⟨front, back, ret, heffect⟩ := effect_of_reaches hreaches
    rw [heffect.right_iff hinv hreaches.2.2.1]
    refine ⟨⟨fun hfits _ => hfits, fun hfits => hfits hreaches⟩, fun hfits => ?_⟩
    exact inv_deleted _ _ _ (heffect.inv hinv (hfits hreaches).1)
  · obtain ⟨hnone, hstorage⟩ := handled_stays hreaches
    have harrived : arrived attempt begun = begun.saved := by
      unfold arrived
      rw [hnone]
      exact arrive_nil begun.saved
    rw [harrived, hstorage]
    refine ⟨⟨fun _ hno => absurd hno hreaches, fun _ => ⟨hinv.once, fun hnil => ?_⟩⟩,
      fun _ => inv_deleted _ _ _ hinv⟩
    have hempty : begun.saved = [] := by
      by_contra hsaved
      have hpos := records_flatten_pos hsaved
      rw [hnil] at hpos
      exact absurd hpos (by decide)
    rw [hempty]
    simp

theorem along_right_iff (attempts : List Attempt) (h : Inv store) :
    Along step AttemptRight attempts store ↔ Along step AttemptFits attempts store := by
  have hstep : ∀ store attempt, Inv store →
      (AttemptRight store attempt ↔ AttemptFits store attempt) ∧
      (AttemptFits store attempt → Inv (step attempt store).1) := fun _ _ => attemptRight_iff
  exact along_iff_along hstep h

end Results

end IotExplorer.SavedLogs
