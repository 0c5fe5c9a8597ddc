import IotExplorer.LogUpload

/-!
The posts of one log. The search for the end of a fragment stays behind the header, so
each fragment that is posted makes the log shorter, and the posts come to an end. What a
step can do is said once, for the log buffer and for the saved log.
-/
namespace IotExplorer.LogPosts

open Basis.Memory LogUpload

section Header
variable {m m' : ℕ → UInt8}

def HeaderPlain (m : ℕ → UInt8) : Prop :=
  ∀ i < headerSize, m i = 10 → i + 1 < headerSize ∧ m (i + 1) ≠ 12

theorem HeaderPlain.change (h : HeaderPlain m)
    (hsame : ∀ i < headerSize, m' i = m i ∨ (m' i ≠ 10 ∧ m' i ≠ 12)) : HeaderPlain m' := by
  intro i hi hten
  rcases hsame i hi with heq | ⟨hne, _⟩
  · obtain ⟨hnext, hfeed⟩ := h i hi (heq.symm.trans hten)
    refine ⟨hnext, ?_⟩
    rcases hsame (i + 1) hnext with heq' | ⟨_, hne'⟩
    · rwa [heq']
    · exact hne'
  · exact absurd hten hne

theorem HeaderPlain.congr (h : HeaderPlain m) (hsame : ∀ i < headerSize, m' i = m i) :
    HeaderPlain m' :=
  h.change fun i hi => Or.inl (hsame i hi)

theorem stamp_text (stamp : Stamp) (m : ℕ → UInt8) {i : ℕ} (hi : headerSize ≤ i) :
    updateTimeAndSignature stamp m i = m i := by
  have hsize : headerSize = 112 := rfl
  rw [updateTimeAndSignature, memcpy_outside (by rw [stamp.signature_length]; omega),
    memcpy_outside (by rw [stamp.timestamp_length]; omega)]

/-- The names of the product and of the device decide whether the header is plain. -/
theorem headerPlain_init {mode : UInt8} {productId deviceName : List UInt8}
    (hmode : mode ≠ 10 ∧ mode ≠ 12)
    (hproduct : ∀ b ∈ productId, b ≠ 10 ∧ b ≠ 12) (hdevice : ∀ b ∈ deviceName, b ≠ 10 ∧ b ≠ 12) :
    HeaderPlain (initLogBuffer mode productId deviceName) := by
  have hblank : HeaderPlain (memset 0 35 headerSize fun _ => 0) := by
    intro i hi hten
    rcases memset_cases 0 (35 : UInt8) headerSize (fun _ => 0) i with heq | heq
    · rw [heq] at hten
      exact absurd hten (by decide)
    · rw [heq] at hten
      exact absurd hten (by decide)
  have hmoded : HeaderPlain (memcpy 40 [mode] (memset 0 35 headerSize fun _ => 0)) := by
    apply hblank.change
    intro i _
    refine memcpy_cases.imp_right fun hmem => ?_
    rw [List.mem_singleton.mp hmem]
    exact hmode
  have hproducted : HeaderPlain
      (memcpy 44 productId (memcpy 40 [mode] (memset 0 35 headerSize fun _ => 0))) := by
    apply hmoded.change
    intro i _
    exact memcpy_cases.imp_right fun hmem => hproduct _ hmem
  apply hproducted.change
  intro i _
  exact memcpy_cases.imp_right fun hmem => hdevice _ hmem

/-- The stamp writes no delimiter. -/
theorem headerPlain_stamp (stamp : Stamp) (h : HeaderPlain m) :
    HeaderPlain (updateTimeAndSignature stamp m) := by
  have hgraphic : ∀ b ∈ stamp.signature ++ stamp.timestamp, b ≠ 10 ∧ b ≠ 12 := by
    intro b hb
    have hle := stamp.graphic b hb
    constructor
    · rintro rfl
      exact absurd hle (by decide)
    · rintro rfl
      exact absurd hle (by decide)
  have htime : HeaderPlain (memcpy (headerSize - 10) stamp.timestamp m) := by
    apply h.change
    intro i _
    exact memcpy_cases.imp_right fun hmem => hgraphic _ (List.mem_append_right _ hmem)
  apply htime.change
  intro i _
  exact memcpy_cases.imp_right fun hmem => hgraphic _ (List.mem_append_left _ hmem)

end Header

section Moves
variable {m : ℕ → UInt8} {p q bufSize : ℕ} {answer : Answer} {l : Post}

/-- The first delimiter from `p` on begins at `q`, and there is no zero byte before its end. -/
structure Found (m : ℕ → UInt8) (p q : ℕ) : Prop where
  behind : p ≤ q
  newline : m q = 10
  formFeed : m (q + 1) = 12
  text : ∀ i, p ≤ i → i ≤ q + 1 → m i ≠ 0
  first : ∀ i, p ≤ i → i < q → ¬(m i = 10 ∧ m (i + 1) = 12)

theorem found_of_strstr {n : ℕ} (h : strstr m p n = some q) : Found m p q := by
  induction n generalizing p with
  | zero => cases h
  | succ n ih =>
    rw [strstr] at h
    split_ifs at h with hzero hdelimiter
    · -- the delimiter is here
      obtain rfl := Option.some.inj h
      refine ⟨Nat.le_refl p, hdelimiter.1, hdelimiter.2, ?_,
        fun i hle hlt => absurd hle (Nat.not_le.mpr hlt)⟩
      intro i hle hge
      have hcases : i = p ∨ i = p + 1 := by omega
      rcases hcases with rfl | rfl
      · exact hzero
      · rw [hdelimiter.2]
        decide
    · have hrest := ih h
      have hbehind := hrest.behind
      refine ⟨by omega, hrest.newline, hrest.formFeed, ?_, ?_⟩
      · intro i hle hge
        rcases Nat.eq_or_lt_of_le hle with rfl | hlt
        · exact hzero
        · exact hrest.text i hlt hge
      · intro i hle hlt
        rcases Nat.eq_or_lt_of_le hle with rfl | hlt'
        · exact hdelimiter
        · exact hrest.first i hlt' hlt

/-- In a plain header there is no delimiter. -/
theorem Found.behind_header (h : Found m p q) (hplain : HeaderPlain m) : headerSize ≤ q := by
  by_contra hlt
  exact (hplain q (by omega) h.newline).2 h.formFeed

inductive PostMoves (m : ℕ → UInt8) (l : Post) : (ℕ → UInt8) × Post × List (List UInt8) → Prop
  | sent (stamp : Stamp) (hphase : l.phase = .start) (hsize : l.postSize < maxHttpLogPostSize) :
      PostMoves m l (updateTimeAndSignature stamp m,
        { l with phase := .returned .success, actualPostPayload := l.postSize - headerSize },
        [slice (updateTimeAndSignature stamp m) headerSize l.postSize])
  | refused (stamp : Stamp) (ret : Ret) (hphase : l.phase = .start) (hret : ret ≠ .success) :
      PostMoves m l (updateTimeAndSignature stamp m,
        { l with phase := .returned ret, actualPostPayload := 0 }, [])
  | large (hphase : l.phase = .start) (hsize : maxHttpLogPostSize ≤ l.postSize) :
      PostMoves m l (m, { l with phase := .search 0 }, [])
  | invalid (p : ℕ) (hphase : l.phase = .search p) :
      PostMoves m l (m, { l with phase := .returned .inval }, [])
  | further (p q : ℕ) (hphase : l.phase = .search p) (hfound : Found m p q)
      (hsize : q + 2 < maxHttpLogPostSize) : PostMoves m l
        (m, { l with phase := .search (q + 2) }, [])
  | last (p q : ℕ) (hphase : l.phase = .search p) (hfound : Found m p q)
      (hsize : q + 2 < maxHttpLogPostSize) : PostMoves m l
        (m, { l with phase := .post (q + 2) }, [])
  | full (p q : ℕ) (hphase : l.phase = .search p) (hfound : Found m p q)
      (hsize : maxHttpLogPostSize ≤ q + 2) : PostMoves m l (m, { l with phase := .post p }, [])
  | nothing (hphase : l.phase = .post 0) :
      PostMoves m l (m, { l with phase := .returned .failure }, [])
  | posted (stamp : Stamp) (u : ℕ) (hphase : l.phase = .post u) (hu : u ≠ 0) :
      PostMoves m l (updateTimeAndSignature stamp m, { l with phase := .move u },
        [slice (updateTimeAndSignature stamp m) headerSize u])
  | failed (stamp : Stamp) (u : ℕ) (hphase : l.phase = .post u) :
      PostMoves m l (updateTimeAndSignature stamp m, { l with phase := .returned .failure }, [])
  | moved (u : ℕ) (hphase : l.phase = .move u) :
      PostMoves m l (memmove headerSize u (l.postSize - u) m,
        { l with
          phase := .clear
          postSize := l.postSize - (u - headerSize)
          actualPostPayload := l.actualPostPayload + (u - headerSize) }, [])
  | cleared (hphase : l.phase = .clear) (hleft : headerSize < l.postSize) :
      PostMoves m l (memset l.postSize 0 (l.origPostSize - l.postSize) m,
        { l with phase := .search 0 }, [])
  | finished (hphase : l.phase = .clear) (hleft : l.postSize ≤ headerSize) :
      PostMoves m l (memset l.postSize 0 (l.origPostSize - l.postSize) m,
        { l with phase := .returned .success }, [])

theorem postMoves_start (hphase : l.phase = .start) :
    PostMoves m l (postLogToServer bufSize answer m l) := by
  unfold postLogToServer postOneHttpToServer
  rw [hphase]
  dsimp only
  split_ifs with hsize hret
  · rw [hret]
    exact .sent answer.stamp hphase hsize
  · exact .refused answer.stamp answer.ret hphase hret
  · exact .large hphase (by omega)

theorem postMoves_search (hphase : l.phase = .search p) :
    PostMoves m l (postLogToServer bufSize answer m l) := by
  unfold postLogToServer
  rw [hphase]
  dsimp only
  cases hplace : strstr m p (bufSize - p) with
  | none => exact .invalid p hphase
  | some q =>
    have hfound := found_of_strstr hplace
    dsimp only
    split_ifs with hlast hfurther
    · exact .last p q hphase hfound hlast.2
    · exact .further p q hphase hfound hfurther
    · exact .full p q hphase hfound (by omega)

theorem postMoves_post (hphase : l.phase = .post p) :
    PostMoves m l (postLogToServer bufSize answer m l) := by
  unfold postLogToServer postOneHttpToServer
  rw [hphase]
  dsimp only
  split_ifs with hzero hret
  · exact .nothing (hphase.trans (by rw [hzero]))
  · exact .posted answer.stamp p hphase hzero
  · exact .failed answer.stamp p hphase

theorem postMoves_clear (hphase : l.phase = .clear) :
    PostMoves m l (postLogToServer bufSize answer m l) := by
  unfold postLogToServer
  rw [hphase]
  dsimp only
  split_ifs with hleft
  · exact .cleared hphase hleft
  · exact .finished hphase (by omega)

/-- A step of the posts that have not returned is one of these. -/
theorem postMoves (hphase : ∀ ret, l.phase ≠ .returned ret) :
    PostMoves m l (postLogToServer bufSize answer m l) := by
  cases heq : l.phase with
  | start => exact postMoves_start heq
  | search p => exact postMoves_search heq
  | post u => exact postMoves_post heq
  | move u =>
    unfold postLogToServer
    rw [heq]
    exact .moved u heq
  | clear => exact postMoves_clear heq
  | returned ret => exact absurd heq (hphase ret)

end Moves

section Ends
variable {m : ℕ → UInt8} {l : Post} {r : (ℕ → UInt8) × Post × List (List UInt8)}

/-- A place that the search has reached is behind the header. -/
def PhaseGoes (postSize : ℕ) : PostPhase → Prop
  | .search p => headerSize < postSize ∧ (p = 0 ∨ headerSize + 2 ≤ p)
  | .post u => headerSize < postSize ∧ (u = 0 ∨ headerSize + 2 ≤ u)
  | .move u => headerSize < postSize ∧ headerSize + 2 ≤ u
  | _ => True

/-- The header is plain, and there is something left to post. -/
def PostGoes (m : ℕ → UInt8) (l : Post) : Prop := HeaderPlain m ∧ PhaseGoes l.postSize l.phase

/-- How many steps the posts can still take. -/
def rank (l : Post) : ℕ :=
  match l.phase with
  | .start => l.postSize * (maxHttpLogPostSize + 4) + maxHttpLogPostSize + 4
  | .search p => l.postSize * (maxHttpLogPostSize + 4) + (maxHttpLogPostSize - p) + 3
  | .post _ => l.postSize * (maxHttpLogPostSize + 4) + 2
  | .move _ => l.postSize * (maxHttpLogPostSize + 4) + 1
  | .clear => l.postSize * (maxHttpLogPostSize + 4) + maxHttpLogPostSize + 4
  | .returned _ => 0

theorem PostMoves.goes (h : PostMoves m l r) (hgoes : PostGoes m l) : PostGoes r.1 r.2.1 := by
  obtain ⟨hplain, hphaseGoes⟩ := hgoes
  have hsizes : headerSize < maxHttpLogPostSize := by decide
  cases h with
  | sent stamp hphase hsize => exact ⟨headerPlain_stamp stamp hplain, trivial⟩
  | refused stamp ret hphase hret => exact ⟨headerPlain_stamp stamp hplain, trivial⟩
  | large hphase hsize =>
    have hleft : headerSize < l.postSize := by omega
    exact ⟨hplain, hleft, Or.inl rfl⟩
  | invalid p hphase => exact ⟨hplain, trivial⟩
  | further p q hphase hfound hsize =>
    rw [hphase] at hphaseGoes
    have hbehind := hfound.behind_header hplain
    exact ⟨hplain, hphaseGoes.1, Or.inr (by omega)⟩
  | last p q hphase hfound hsize =>
    rw [hphase] at hphaseGoes
    have hbehind := hfound.behind_header hplain
    exact ⟨hplain, hphaseGoes.1, Or.inr (by omega)⟩
  | full p q hphase hfound hsize =>
    rw [hphase] at hphaseGoes
    exact ⟨hplain, hphaseGoes⟩
  | nothing hphase => exact ⟨hplain, trivial⟩
  | posted stamp u hphase hu =>
    rw [hphase] at hphaseGoes
    exact ⟨headerPlain_stamp stamp hplain, hphaseGoes.1, hphaseGoes.2.resolve_left hu⟩
  | failed stamp u hphase => exact ⟨headerPlain_stamp stamp hplain, trivial⟩
  | moved u hphase =>
    refine ⟨hplain.congr ?_, trivial⟩
    intro i hi
    exact memmove_outside (Or.inl hi)
  | cleared hphase hleft =>
    refine ⟨hplain.congr ?_, hleft, Or.inl rfl⟩
    intro i hi
    exact memset_outside (Or.inl (by omega))
  | finished hphase hleft =>
    refine ⟨hplain.change ?_, trivial⟩
    intro i _
    rcases memset_cases l.postSize 0 (l.origPostSize - l.postSize) m i with heq | heq
    · exact Or.inl heq
    · refine Or.inr ?_
      dsimp only
      rw [heq]
      exact ⟨by decide, by decide⟩

/-- Each step brings the posts nearer to their end. -/
theorem PostMoves.rank_lt (h : PostMoves m l r) (hgoes : PostGoes m l) : rank r.2.1 < rank l := by
  obtain ⟨hplain, hphaseGoes⟩ := hgoes
  cases h with
  | sent stamp hphase hsize =>
    simp only [rank, hphase]
    omega
  | refused stamp ret hphase hret =>
    simp only [rank, hphase]
    omega
  | large hphase hsize =>
    simp only [rank, hphase]
    omega
  | invalid p hphase =>
    simp only [rank, hphase]
    omega
  | further p q hphase hfound hsize =>
    have hbehind := hfound.behind
    simp only [rank, hphase]
    omega
  | last p q hphase hfound hsize =>
    simp only [rank, hphase]
    omega
  | full p q hphase hfound hsize =>
    simp only [rank, hphase]
    omega
  | nothing hphase =>
    simp only [rank, hphase]
    omega
  | posted stamp u hphase hu =>
    simp only [rank, hphase]
    omega
  | failed stamp u hphase =>
    simp only [rank, hphase]
    omega
  | moved u hphase =>
    -- the payload is not empty
    rw [hphase] at hphaseGoes
    obtain ⟨hsize, hu⟩ := hphaseGoes
    have hless : l.postSize - (u - headerSize) + 1 ≤ l.postSize := by omega
    have hmul := Nat.mul_le_mul_right (maxHttpLogPostSize + 4) hless
    rw [Nat.add_mul, Nat.one_mul] at hmul
    simp only [rank, hphase]
    omega
  | cleared hphase hleft =>
    simp only [rank, hphase]
    omega
  | finished hphase hleft =>
    simp only [rank, hphase]
    omega

end Ends

end IotExplorer.LogPosts
