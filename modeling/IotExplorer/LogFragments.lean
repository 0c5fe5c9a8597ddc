import IotExplorer.LogPosts

/-!
The posts of a log that consists of records. Each search passes over the header and then
from the end of one record to that of the next, so that every fragment is made of whole
records, and a record that fits into a post makes the first fragment of any log. What has
not been posted is behind the header again when a post fails.
-/
namespace IotExplorer.LogFragments

open Basis.Memory LogUpload LogPosts

section Logs

/-- A record as it is stored: it ends with the delimiter, has none inside, and no zero byte, and a
post takes it. -/
structure IsRecord (record : List UInt8) : Prop where
  ends : ∃ text, record = text ++ [10, 12]
  inner : ∀ front back, record = front ++ 10 :: 12 :: back → back = []
  noNul : (0 : UInt8) ∉ record
  short : headerSize + record.length < maxHttpLogPostSize

/-- The header: no delimiter begins in it, and there is no zero byte in it. -/
structure HeaderRight (m : ℕ → UInt8) : Prop where
  plain : HeaderPlain m
  noNul : ∀ i < headerSize, m i ≠ 0

structure LogBuffer where
  memory : ℕ → UInt8
  bufSize : ℕ
  records : List (List UInt8)
  header : HeaderRight memory
  text : slice memory headerSize (headerSize + records.flatten.length) = records.flatten
  all : ∀ record ∈ records, IsRecord record
  fits : headerSize + records.flatten.length ≤ bufSize

def LogBuffer.size (log : LogBuffer) : ℕ := headerSize + log.records.flatten.length

/-- The buffer, the variables of `post_log_to_server`, and the posts that were tried, with what they
returned. -/
structure Posting where
  buf : ℕ → UInt8
  post : Post
  posts : List (List UInt8 × Ret)

def tried (answer : Answer) (s : Posting) : List (List UInt8 × Ret) :=
  let stamped := updateTimeAndSignature answer.stamp s.buf
  match s.post.phase with
  | .start =>
      if s.post.postSize < maxHttpLogPostSize then
        [(slice stamped headerSize s.post.postSize, answer.ret)]
      else []
  | .post uploadSize =>
      if uploadSize = 0 then [] else [(slice stamped headerSize uploadSize, answer.ret)]
  | _ => []

/-- A step of `post_log_to_server`. -/
def postStep (bufSize : ℕ) (answer : Answer) (s : Posting) : Posting :=
  let stepped := postLogToServer bufSize answer s.buf s.post
  ⟨stepped.1, stepped.2.1, s.posts ++ tried answer s⟩

def postSteps (bufSize : ℕ) (answers : ℕ → Answer) (s : Posting) : ℕ → Posting
  | 0 => s
  | n + 1 => postStep bufSize (answers n) (postSteps bufSize answers s n)

def LogBuffer.begin (log : LogBuffer) : Posting := ⟨log.memory, Post.call log.size, []⟩

/-- `post_log_to_server` on a log, with as many steps as it may take. -/
def LogBuffer.posted (log : LogBuffer) (answers : ℕ → Answer) : Posting :=
  postSteps log.bufSize answers log.begin (rank (Post.call log.size))

/-- Records that are posted together: a post takes them, and there are some unless the log is
empty. -/
def Group (log : LogBuffer) (group : List (List UInt8)) : Prop :=
  headerSize + group.flatten.length < maxHttpLogPostSize ∧ (group = [] → log.records = [])

/-- The posts of whole records, in order, and shorter than a post may be: all records were posted,
or a post failed, and what is left is behind the header, with zero bytes up to the old end of the
log. Only the return code of the post of a whole log is passed on. -/
def PostedRight (log : LogBuffer) (s : Posting) : Prop :=
  ∃ (groups : List (List (List UInt8))) (rest : List (List UInt8)),
    log.records = groups.flatten ++ rest ∧
    (∀ group ∈ groups, Group log group) ∧
    s.post.actualPostPayload = groups.flatten.flatten.length ∧
    ((s.post.phase = .returned .success ∧ rest = [] ∧
        s.posts = groups.map fun group => (group.flatten, .success)) ∨
      ∃ (ret failed : Ret) (front back : List (List UInt8)),
        s.post.phase = .returned ret ∧ failed ≠ .success ∧
        (log.size < maxHttpLogPostSize ∧ groups = [] ∧ ret = failed ∨
          maxHttpLogPostSize ≤ log.size ∧ ret = .failure) ∧
        rest = front ++ back ∧ headerSize + front.flatten.length < maxHttpLogPostSize ∧
        s.posts = (groups.map fun group => (group.flatten, .success)) ++ [(front.flatten, failed)] ∧
        slice s.buf headerSize (headerSize + rest.flatten.length) = rest.flatten ∧
        ∀ i, headerSize + rest.flatten.length ≤ i → i < log.size → s.buf i = 0)

/-- What arrives at the server are the posts that returned success. -/
theorem tried_arrives (bufSize : ℕ) (answer : Answer) (s : Posting) :
    (postLogToServer bufSize answer s.buf s.post).2.2 =
      ((tried answer s).filter fun tried => tried.2 = .success).map Prod.fst := by
  unfold postLogToServer tried postOneHttpToServer
  cases s.post.phase with
  | start =>
    dsimp only
    split_ifs with hsize hret <;> simp [*]
  | search p =>
    dsimp only
    cases strstr s.buf p (bufSize - p) with
    | none => rfl
    | some place =>
      dsimp only
      split_ifs <;> rfl
  | post u =>
    dsimp only
    split_ifs with hzero hret <;> simp [*]
  | move u => rfl
  | clear => rfl
  | returned ret => rfl

end Logs

section Searches
variable {m : ℕ → UInt8} {p n k : ℕ} {record : List UInt8}

/-- A search passes over bytes that are no delimiter. -/
theorem strstr_skip (h : ∀ i, p ≤ i → i < p + k → m i ≠ 0 ∧ ¬(m i = 10 ∧ m (i + 1) = 12)) :
    strstr m p (k + n) = strstr m (p + k) n := by
  induction k generalizing p with
  | zero => rw [Nat.zero_add, Nat.add_zero]
  | succ k ih =>
    obtain ⟨hzero, hnone⟩ := h p (Nat.le_refl p) (by omega)
    have hsum : k + 1 + n = k + n + 1 := by omega
    rw [hsum, strstr, if_neg hzero, if_neg hnone,
      ih fun i hle hlt => h i (by omega) (by omega), Nat.add_assoc, Nat.add_comm 1 k]

theorem slice_getElem {a b i : ℕ} (hi : a + i < b) {text : List UInt8} (h : slice m a b = text) :
    text[i]? = some (m (a + i)) := by
  rw [← h, slice, List.getElem?_map, List.getElem?_range' (by omega)]
  simp

/-- The next delimiter is the one at the end of the record. -/
theorem strstr_record (hrecord : IsRecord record) (h : slice m p (p + record.length) = record)
    (hn : record.length ≤ n + 1) : strstr m p n = some (p + record.length - 2) := by
  obtain ⟨text, htext⟩ := hrecord.ends
  have hlength : record.length = text.length + 2 := by
    rw [htext, List.length_append]
    rfl
  have hcell : ∀ i, i < record.length → record[i]? = some (m (p + i)) :=
    fun i hi => slice_getElem (by omega) h
  have hsplit : n = text.length + (n - text.length) := by omega
  have hskip : ∀ i, p ≤ i → i < p + text.length → m i ≠ 0 ∧ ¬(m i = 10 ∧ m (i + 1) = 12) := by
    intro i hle hlt
    obtain ⟨j, rfl⟩ := Nat.exists_eq_add_of_le hle
    have hhere := hcell j (by omega)
    have hnext := hcell (j + 1) (by omega)
    refine ⟨fun hzero => ?_, ?_⟩
    · rw [hzero] at hhere
      exact hrecord.noNul (List.mem_of_getElem? hhere)
    · rintro ⟨hnewline, hfeed⟩
      rw [hnewline] at hhere
      rw [← Nat.add_assoc, hfeed] at hnext
      have hcut : record = record.take j ++ 10 :: 12 :: record.drop (j + 2) := by
        have htwo : record.drop j = 10 :: 12 :: record.drop (j + 2) := by
          rw [List.drop_eq_getElem?_toList_append, hhere,
            List.drop_eq_getElem?_toList_append, hnext]
          rfl
        rw [← htwo, List.take_append_drop]
      have hback := congrArg List.length (hrecord.inner _ _ hcut)
      rw [List.length_drop, List.length_nil] at hback
      omega
  have hnewline := hcell text.length (by omega)
  have hfeed := hcell (text.length + 1) (by omega)
  rw [htext, List.getElem?_append_right (Nat.le_refl _), Nat.sub_self] at hnewline
  rw [htext, List.getElem?_append_right (by omega), Nat.add_sub_cancel_left] at hfeed
  rw [hsplit, strstr_skip hskip]
  obtain ⟨rest, hrest⟩ : ∃ rest, n - text.length = rest + 1 := ⟨n - text.length - 1, by omega⟩
  have hten : m (p + text.length) = 10 := (Option.some.inj hnewline).symm
  have htwelve : m (p + text.length + 1) = 12 := (Option.some.inj hfeed).symm
  rw [hrest, strstr, if_neg (by rw [hten]; decide), if_pos ⟨hten, htwelve⟩, hlength]
  rfl

end Searches

section Stages
variable {log : LogBuffer} {s : Posting} {groups : List (List (List UInt8))}
  {rest : List (List UInt8)} {answer : Answer}

/-- What has been posted; so many bytes of it are not yet counted. -/
structure Sent (log : LogBuffer) (s : Posting) (uncounted : ℕ) (groups : List (List (List UInt8)))
    (rest : List (List UInt8)) : Prop where
  split : log.records = groups.flatten ++ rest
  orig : s.post.origPostSize = log.size
  posts : s.posts = groups.map fun group => (group.flatten, .success)
  each : ∀ group ∈ groups, Group log group
  payload : s.post.actualPostPayload + uncounted = groups.flatten.flatten.length

structure Left (s : Posting) (rest : List (List UInt8)) : Prop where
  header : HeaderRight s.buf
  size : s.post.postSize = headerSize + rest.flatten.length
  text : slice s.buf headerSize s.post.postSize = rest.flatten

/-- There are zero bytes behind the log, up to where it ended. -/
def Zeros (s : Posting) : Prop :=
  ∀ i, s.post.postSize ≤ i → i < s.post.origPostSize → s.buf i = 0

/-- The end of the first records that are left, which a post takes. -/
def Boundary (rest : List (List UInt8)) (front back : List (List UInt8)) (p : ℕ) : Prop :=
  rest = front ++ back ∧ front ≠ [] ∧ p = headerSize + front.flatten.length ∧ p < maxHttpLogPostSize

def Stage (log : LogBuffer) (s : Posting) : Prop :=
  match s.post.phase with
  | .start => Sent log s 0 [] log.records ∧ Left s log.records
  | .search p =>
      maxHttpLogPostSize ≤ log.size ∧ ∃ groups rest, Sent log s 0 groups rest ∧ Left s rest ∧
      Zeros s ∧ rest ≠ [] ∧ (p = 0 ∨ ∃ front back, Boundary rest front back p ∧ back ≠ [])
  | .post u => maxHttpLogPostSize ≤ log.size ∧ ∃ groups rest front back, Sent log s 0 groups rest ∧
      Left s rest ∧ Zeros s ∧ Boundary rest front back u
  | .move u => maxHttpLogPostSize ≤ log.size ∧ ∃ groups front back,
      Sent log s front.flatten.length (groups ++ [front]) back ∧ Left s (front ++ back) ∧
      Boundary (front ++ back) front back u
  | .clear => maxHttpLogPostSize ≤ log.size ∧ ∃ groups rest, Sent log s 0 groups rest ∧ Left s rest
  | .returned _ => PostedRight log s

theorem HeaderRight.congr {m m' : ℕ → UInt8} (h : HeaderRight m)
    (hsame : ∀ i < headerSize, m' i = m i) :
    HeaderRight m' :=
  ⟨h.plain.congr hsame, fun i hi => by rw [hsame i hi]; exact h.noNul i hi⟩

theorem HeaderRight.stamp {m : ℕ → UInt8} (h : HeaderRight m) (stamp : Stamp) :
    HeaderRight (updateTimeAndSignature stamp m) := by
  refine ⟨headerPlain_stamp stamp h.plain, fun i hi => ?_⟩
  have hgraphic : ∀ b ∈ stamp.signature ++ stamp.timestamp, b ≠ 0 := by
    rintro b hb rfl
    exact absurd (stamp.graphic 0 hb) (by decide)
  unfold updateTimeAndSignature
  rcases @memcpy_cases _ (memcpy (headerSize - 10) stamp.timestamp m) 0 stamp.signature
    i with heq | hmem
  · rw [heq]
    rcases @memcpy_cases _ m (headerSize - 10) stamp.timestamp i with heq | hmem
    · rw [heq]
      exact h.noNul i hi
    · exact hgraphic _ (List.mem_append_right _ hmem)
  · exact hgraphic _ (List.mem_append_left _ hmem)

theorem slice_stamp (stamp : Stamp) (m : ℕ → UInt8) (b : ℕ) :
    slice (updateTimeAndSignature stamp m) headerSize b = slice m headerSize b :=
  slice_congr fun _ hi _ => stamp_text stamp m hi

/-- The beginning of a slice. -/
theorem slice_front {m : ℕ → UInt8} {a : ℕ} {front back : List UInt8}
    (h : slice m a (a + (front ++ back).length) = front ++ back) :
    slice m a (a + front.length) = front ∧
      slice m (a + front.length) (a + (front ++ back).length) = back := by
  rw [List.length_append] at h ⊢
  rw [← slice_append m (show a ≤ a + front.length by omega)
    (show a + front.length ≤ a + (front.length + back.length) by omega)] at h
  exact List.append_inj h (by rw [length_slice]; omega)

/-- The records that are left are records of the log. -/
theorem Sent.record {uncounted : ℕ} (h : Sent log s uncounted groups rest) {record : List UInt8}
    (hmem : record ∈ rest) : IsRecord record :=
  log.all record (h.split ▸ List.mem_append_right _ hmem)

theorem IsRecord.two_le {record : List UInt8} (h : IsRecord record) : 2 ≤ record.length := by
  obtain ⟨text, rfl⟩ := h.ends
  rw [List.length_append]
  exact Nat.le_add_left 2 text.length

/-- What is left fits into the buffer. -/
theorem Sent.le_size {uncounted : ℕ} (h : Sent log s uncounted groups rest) :
    headerSize + rest.flatten.length ≤ log.size := by
  rw [LogBuffer.size, h.split, List.flatten_append, List.length_append]
  omega

/-- What is left is empty only without records. -/
theorem Sent.flatten_pos {uncounted : ℕ} (h : Sent log s uncounted groups rest)
    {front back : List (List UInt8)}
    (hsplit : rest = front ++ back) (hne : front ≠ []) : 0 < front.flatten.length := by
  cases front with
  | nil => exact absurd rfl hne
  | cons record front =>
    have hmem : record ∈ rest := by simp [hsplit]
    have htwo := (h.record hmem).two_le
    rw [List.flatten_cons, List.length_append]
    omega

theorem stage_start (hphase : s.post.phase = .start) (h : Stage log s) :
    Stage log (postStep log.bufSize answer s) := by
  unfold Stage at h
  rw [hphase] at h
  obtain ⟨hsent, hleft⟩ := h
  have hsize : s.post.postSize = log.size := hleft.size
  have hposts : s.posts = [] := hsent.posts
  have hcalled : s.post.actualPostPayload = 0 := hsent.payload
  have hstamped : slice (updateTimeAndSignature answer.stamp s.buf) headerSize s.post.postSize =
      log.records.flatten := (slice_stamp ..).trans hleft.text
  by_cases hlarge : s.post.postSize < maxHttpLogPostSize
  · have hshort : headerSize + log.records.flatten.length < maxHttpLogPostSize :=
      hleft.size ▸ hlarge
    by_cases hret : answer.ret = .success
    · have hstep : postStep log.bufSize answer s = ⟨updateTimeAndSignature answer.stamp s.buf,
          { s.post with
            phase := .returned .success, actualPostPayload := s.post.postSize - headerSize },
          [(log.records.flatten, .success)]⟩ := by
        simp [postStep, postLogToServer, postOneHttpToServer, tried, hphase, hlarge, hret,
          hposts, hstamped]
      rw [hstep]
      refine ⟨[log.records], [], by simp, by simpa [Group] using hshort, ?_, .inl ⟨rfl, rfl, rfl⟩⟩
      dsimp only
      rw [hsize, LogBuffer.size, Nat.add_sub_cancel_left]
      simp
    · have hstep : postStep log.bufSize answer s = ⟨updateTimeAndSignature answer.stamp s.buf,
          { s.post with phase := .returned answer.ret, actualPostPayload := 0 },
          [(log.records.flatten, answer.ret)]⟩ := by
        simp [postStep, postLogToServer, postOneHttpToServer, tried, hphase, hlarge, hret,
          hposts, hstamped]
      rw [hstep]
      refine ⟨[], log.records, rfl, by simp, rfl,
        .inr ⟨answer.ret, answer.ret, log.records, [], rfl, hret, .inl ⟨hsize ▸ hlarge, rfl, rfl⟩,
        (List.append_nil _).symm, hshort, rfl, ?_, ?_⟩⟩
      · dsimp only
        rw [← hleft.size]
        exact hstamped
      · intro i hle hlt
        rw [LogBuffer.size] at hlt
        omega
  · have hstep : postStep log.bufSize answer s =
        ⟨s.buf, { s.post with phase := .search 0 }, []⟩ := by
      simp [postStep, postLogToServer, tried, hphase, hlarge, hposts]
    have hne : log.records ≠ [] := by
      intro hnil
      rw [hsize, LogBuffer.size, hnil] at hlarge
      exact hlarge (by decide)
    rw [hstep]
    refine ⟨by omega, [], log.records, ⟨rfl, hsent.orig, rfl, by simp, ?_⟩,
      ⟨hleft.header, hleft.size, hleft.text⟩, ?_, hne, .inl rfl⟩
    · simpa using hcalled
    · intro i hle hlt
      dsimp only at hle hlt
      rw [hsent.orig] at hlt
      omega

/-- The next delimiter from the end of a record, or from the header, is the end of the next
record. -/
theorem Left.search (h : Left s rest) (hsent : Sent log s 0 groups rest)
    {front back : List (List UInt8)}
    {record : List UInt8} {p : ℕ} (hsplit : rest = front ++ record :: back)
    (hp : p = 0 ∧ front = [] ∨ p = headerSize + front.flatten.length) :
    strstr s.buf p (log.bufSize - p) =
      some (headerSize + front.flatten.length + record.length - 2) := by
  have hrecord : IsRecord record := hsent.record (by rw [hsplit]; simp)
  have htext := h.text
  have hsize := h.size
  have hfits := log.fits
  have hall := hsent.le_size
  rw [hsplit, List.flatten_append, List.flatten_cons] at htext hsize hall
  rw [hsize] at htext
  obtain ⟨-, hback⟩ := slice_front htext
  have hlength : headerSize + (front.flatten ++ (record ++ back.flatten)).length =
      headerSize + front.flatten.length + (record ++ back.flatten).length := by
    rw [List.length_append, Nat.add_assoc]
  rw [hlength] at hback
  obtain ⟨hhere, -⟩ := slice_front hback
  rw [List.length_append, List.length_append] at hall
  rw [LogBuffer.size] at hall
  rcases hp with ⟨rfl, rfl⟩ | rfl
  · have hskip : ∀ i, 0 ≤ i → i < 0 + headerSize →
        s.buf i ≠ 0 ∧ ¬(s.buf i = 10 ∧ s.buf (i + 1) = 12) := by
      intro i _ hi
      rw [Nat.zero_add] at hi
      exact ⟨h.header.noNul i hi, fun hboth => (h.header.plain i hi hboth.1).2 hboth.2⟩
    have hroom : log.bufSize - 0 = headerSize + (log.bufSize - headerSize) := by omega
    rw [hroom, strstr_skip hskip, Nat.zero_add]
    exact strstr_record hrecord hhere
      (by simp only [List.flatten_nil, List.length_nil] at hall; omega)
  · exact strstr_record hrecord hhere (by omega)

theorem stage_search {p : ℕ} (hphase : s.post.phase = .search p) (h : Stage log s) :
    Stage log (postStep log.bufSize answer s) := by
  unfold Stage at h
  rw [hphase] at h
  obtain ⟨hlarge, groups, rest, hsent, hleft, hzeros, hne, hplace⟩ := h
  -- the record from whose beginning, or from the header, the search goes on
  obtain ⟨front, record, back, hsplit, hp, hlimit⟩ : ∃ front record back,
      rest = front ++ record :: back ∧
      (p = 0 ∧ front = [] ∨ p = headerSize + front.flatten.length ∧ front ≠ []) ∧
      p < maxHttpLogPostSize := by
    rcases hplace with rfl | ⟨front, back, ⟨hsplit, hfront, hp, hlimit⟩, hback⟩
    · cases rest with
      | nil => exact absurd rfl hne
      | cons record rest => exact ⟨[], record, rest, rfl, .inl ⟨rfl, rfl⟩, by decide⟩
    · cases back with
      | nil => exact absurd rfl hback
      | cons record back => exact ⟨front, record, back, hsplit, .inr ⟨hp, hfront⟩, hlimit⟩
  have hrecord : IsRecord record := hsent.record (by rw [hsplit]; simp)
  have htwo := hrecord.two_le
  have hfound := hleft.search hsent hsplit (hp.imp_right And.left)
  have hend : headerSize + front.flatten.length + record.length - 2 + 2 =
      headerSize + (front ++ [record]).flatten.length := by
    rw [List.flatten_append, List.flatten_singleton, List.length_append]
    omega
  have hsplit' : rest = (front ++ [record]) ++ back := by rw [hsplit]; simp
  have htried : tried answer s = [] := by simp [tried, hphase]
  have hstep : postStep log.bufSize answer s =
      let next := headerSize + (front ++ [record]).flatten.length
      if s.buf next = 0 ∧ next < maxHttpLogPostSize then
        ⟨s.buf, { s.post with phase := .post next }, s.posts⟩
      else if next < maxHttpLogPostSize then ⟨s.buf, { s.post with phase := .search next }, s.posts⟩
      else ⟨s.buf, { s.post with phase := .post p }, s.posts⟩ := by
    unfold postStep postLogToServer
    rw [htried, List.append_nil, hphase]
    dsimp only
    rw [hfound]
    dsimp only
    rw [hend]
    split_ifs <;> rfl
  rw [hstep]
  dsimp only
  have hsent' : ∀ phase, Sent log ⟨s.buf, { s.post with phase := phase }, s.posts⟩ 0 groups rest :=
    fun _ => ⟨hsent.split, hsent.orig, hsent.posts, hsent.each, hsent.payload⟩
  have hleft' : ∀ phase, Left ⟨s.buf, { s.post with phase := phase }, s.posts⟩ rest :=
    fun _ => ⟨hleft.header, hleft.size, hleft.text⟩
  split_ifs with hlast hfurther
  · exact ⟨hlarge, groups, rest, front ++ [record], back, hsent' _, hleft' _, hzeros,
      hsplit', by simp, rfl, hlast.2⟩
  · refine ⟨hlarge, groups, rest, hsent' _, hleft' _, hzeros, hne,
      .inr ⟨front ++ [record], back, ⟨hsplit', by simp, rfl, hfurther⟩, ?_⟩⟩
    rintro rfl
    have hall : s.post.postSize = headerSize + (front ++ [record]).flatten.length := by
      rw [hleft.size, hsplit', List.append_nil]
    refine hlast ⟨hzeros _ (by omega) ?_, hfurther⟩
    rw [hsent.orig]
    omega
  · rcases hp with ⟨rfl, rfl⟩ | ⟨hp, hfront⟩
    · have hshort := hrecord.short
      simp only [List.nil_append, List.flatten_singleton] at hfurther
      exact absurd hshort hfurther
    · exact ⟨hlarge, groups, rest, front, record :: back, hsent' _, hleft' _, hzeros, hsplit,
        hfront, hp, hlimit⟩

theorem stage_post {u : ℕ} (hphase : s.post.phase = .post u) (h : Stage log s) :
    Stage log (postStep log.bufSize answer s) := by
  unfold Stage at h
  rw [hphase] at h
  obtain ⟨hlarge, groups, rest, front, back, hsent, hleft, hzeros, hsplit, hfront, hu, hlimit⟩ := h
  have hheader : 0 < headerSize := by decide
  have hne : u ≠ 0 := by omega
  have htext := hleft.text
  rw [hleft.size, hsplit, List.flatten_append] at htext
  have hpayload : slice (updateTimeAndSignature answer.stamp s.buf) headerSize u =
      front.flatten := by
    rw [slice_stamp, hu]
    exact (slice_front htext).1
  have hstamped : slice (updateTimeAndSignature answer.stamp s.buf) headerSize s.post.postSize =
      rest.flatten := (slice_stamp ..).trans hleft.text
  by_cases hret : answer.ret = .success
  · have hstep : postStep log.bufSize answer s = ⟨updateTimeAndSignature answer.stamp s.buf,
        { s.post with phase := .move u }, s.posts ++ [(front.flatten, .success)]⟩ := by
      simp [postStep, postLogToServer, postOneHttpToServer, tried, hphase, hne, hret, hpayload]
    rw [hstep]
    refine ⟨hlarge, groups, front, back, ⟨?_, hsent.orig, ?_, ?_, ?_⟩,
      ⟨hleft.header.stamp _, ?_, ?_⟩, rfl, hfront, hu, hlimit⟩
    · rw [hsent.split, hsplit]
      simp
    · dsimp only
      rw [hsent.posts]
      simp
    · intro group hgroup
      rcases List.mem_append.mp hgroup with hgroup | hgroup
      · exact hsent.each group hgroup
      · rw [List.mem_singleton.mp hgroup]
        exact ⟨hu ▸ hlimit, fun hnil => absurd hnil hfront⟩
    · have hcounted := hsent.payload
      rw [Nat.add_zero] at hcounted
      dsimp only
      rw [hcounted]
      simp
    · rw [← hsplit]
      exact hleft.size
    · rw [← hsplit]
      exact hstamped
  · have hstep : postStep log.bufSize answer s = ⟨updateTimeAndSignature answer.stamp s.buf,
        { s.post with phase := .returned .failure }, s.posts ++ [(front.flatten, answer.ret)]⟩ := by
      simp [postStep, postLogToServer, postOneHttpToServer, tried, hphase, hne, hret, hpayload]
    rw [hstep]
    refine ⟨groups, rest, hsent.split, hsent.each, hsent.payload,
      .inr ⟨.failure, answer.ret, front, back, rfl, hret, .inr ⟨hlarge, rfl⟩, hsplit,
      hu ▸ hlimit, by rw [hsent.posts], ?_, ?_⟩⟩
    · dsimp only
      rw [← hleft.size]
      exact hstamped
    · intro i hle hlt
      dsimp only
      rw [stamp_text _ _ (by omega)]
      rw [← hleft.size] at hle
      exact hzeros i hle (by rw [hsent.orig]; exact hlt)

theorem stage_move {u : ℕ} (hphase : s.post.phase = .move u) (h : Stage log s) :
    Stage log (postStep log.bufSize answer s) := by
  unfold Stage at h
  rw [hphase] at h
  obtain ⟨hlarge, groups, front, back, hsent, hleft, -, hfront, hu, -⟩ := h
  have hstep : postStep log.bufSize answer s =
      ⟨memmove headerSize u (s.post.postSize - u) s.buf,
        { s.post with
          phase := .clear
          postSize := s.post.postSize - (u - headerSize)
          actualPostPayload := s.post.actualPostPayload + (u - headerSize) }, s.posts⟩ := by
    simp [postStep, postLogToServer, tried, hphase]
  have hsize := hleft.size
  have htext := hleft.text
  rw [hsize, List.flatten_append] at htext
  rw [List.flatten_append, List.length_append] at hsize
  have hleftSize : s.post.postSize - (u - headerSize) = headerSize + back.flatten.length := by omega
  have hmoved : s.post.postSize - u = back.flatten.length := by omega
  obtain ⟨-, hback⟩ := slice_front htext
  rw [List.length_append, ← Nat.add_assoc, ← hu] at hback
  rw [hstep]
  refine ⟨hlarge, groups ++ [front], back, ⟨hsent.split, hsent.orig, hsent.posts, hsent.each, ?_⟩,
    ⟨?_, hleftSize, ?_⟩⟩
  · have hcounted := hsent.payload
    dsimp only
    omega
  · exact hleft.header.congr fun i hi => memmove_outside (.inl hi)
  · dsimp only
    rw [hleftSize, hmoved, slice_memmove, hback]

theorem stage_clear (hphase : s.post.phase = .clear) (h : Stage log s) :
    Stage log (postStep log.bufSize answer s) := by
  unfold Stage at h
  rw [hphase] at h
  obtain ⟨hlarge, groups, rest, hsent, hleft⟩ := h
  have hstep : postStep log.bufSize answer s =
      ⟨memset s.post.postSize 0 (s.post.origPostSize - s.post.postSize) s.buf,
        { s.post with
          phase := if s.post.postSize > headerSize then .search 0 else .returned .success },
            s.posts⟩ := by
    simp [postStep, postLogToServer, tried, hphase]
  rw [hstep]
  by_cases hmore : s.post.postSize > headerSize
  · rw [if_pos hmore]
    have hsize := hleft.size
    refine ⟨hlarge, groups, rest, ⟨hsent.split, hsent.orig, hsent.posts, hsent.each, hsent.payload⟩,
      ⟨?_, hleft.size, ?_⟩, ?_, ?_, .inl rfl⟩
    · exact hleft.header.congr fun i hi => memset_outside (.inl (by omega))
    · dsimp only
      rw [slice_memset_outside (.inl (Nat.le_refl _))]
      exact hleft.text
    · intro i hle hlt
      dsimp only at hle hlt ⊢
      exact memset_inside hle (by omega)
    · rintro rfl
      rw [List.flatten_nil, List.length_nil] at hsize
      omega
  · rw [if_neg hmore]
    have hnil : rest = [] := by
      by_contra hne
      have hpos := hsent.flatten_pos (List.append_nil rest).symm hne
      have hsize := hleft.size
      omega
    exact ⟨groups, rest, hsent.split, hsent.each, hsent.payload, .inl ⟨rfl, hnil, hsent.posts⟩⟩

/-- What a step of the posts keeps. -/
theorem stage_step (h : Stage log s) : Stage log (postStep log.bufSize answer s) := by
  cases hphase : s.post.phase with
  | start => exact stage_start hphase h
  | search p => exact stage_search hphase h
  | post u => exact stage_post hphase h
  | move u => exact stage_move hphase h
  | clear => exact stage_clear hphase h
  | returned ret =>
    have hsame : postStep log.bufSize answer s = s := by
      simp [postStep, postLogToServer, tried, hphase]
    rwa [hsame]

theorem stage_begin (log : LogBuffer) : Stage log log.begin :=
  ⟨⟨rfl, rfl, rfl, by simp, rfl⟩, ⟨log.header, rfl, log.text⟩⟩

theorem returned_of_rank {post : Post} (h : rank post = 0) : ∃ ret, post.phase = .returned ret := by
  unfold rank at h
  cases hphase : post.phase with
  | returned ret => exact ⟨ret, rfl⟩
  | _ =>
    rw [hphase] at h
    dsimp only at h
    omega

end Stages

section Results

end Results

end IotExplorer.LogFragments
