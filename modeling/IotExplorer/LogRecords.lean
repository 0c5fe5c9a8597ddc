import IotExplorer.LogPosts
import IotExplorer.Basis.Pieces

/-!
Where the records of the log are during an upload. They are, in order, what has been
uploaded, what has been saved, and two blocks of the buffer: what is left of the log that
is being uploaded, and what has been appended behind it since. The blocks begin and end
where a delimiter ends.
-/
namespace IotExplorer.LogRecords

open Basis.Memory Basis.Pieces LogUpload LogPosts

section Division
variable {m m' : ℕ → UInt8} {a b c a' b' c' u index index' : ℕ} {storage : List UInt8}
  {log : List Event}

/-- The records in the buffer and those accepted since, as they are stored. -/
def records (contents : List (List UInt8)) (log : List Event) : List (List UInt8) :=
  (contents ++ log.filterMap Event.content).map stored

def uploadedText (log : List Event) : List UInt8 := (log.filterMap Event.payload).flatten

def savedText (log : List Event) : List UInt8 := (log.filterMap Event.text).flatten

/-- Where the records are: what is left is in the block from `a` to `b`, what is new behind `c`. -/
structure Holds (contents : List (List UInt8)) (before : List UInt8) (a b c : ℕ) (m : ℕ → UInt8)
    (index : ℕ) (storage : List UInt8) (log : List Event) : Prop where
  bounds : headerSize ≤ a ∧ a ≤ b ∧ b ≤ c ∧ c ≤ index
  text : (records contents log).flatten =
    uploadedText log ++ (savedText log ++ (slice m a b ++ slice m c index))
  uploaded : Delimited 10 12 (uploadedText log)
  saved : Delimited 10 12 (savedText log)
  left : Delimited 10 12 (slice m a b)
  new : Delimited 10 12 (slice m c index)
  storage : storage = before ++ savedText log ∨ storage = savedText log

section Logs
variable (contents : List (List UInt8)) (log : List Event) (text : List UInt8)

@[simp] theorem records_accepted : (records contents (log ++ [.accepted text])).flatten =
    (records contents log).flatten ++ stored text := by
  simp [records, Event.content]

@[simp] theorem records_uploaded :
    records contents (log ++ [.uploaded text]) = records contents log := by
  simp [records, List.filterMap_cons, Event.content]

@[simp] theorem records_saved : records contents (log ++ [.saved text]) = records contents log := by
  simp [records, List.filterMap_cons, Event.content]

@[simp] theorem records_resent (payloads : List (List UInt8)) :
    records contents (log ++ payloads.map .resent) = records contents log := by
  have hnone : (payloads.map Event.resent).filterMap Event.content = [] := by
    rw [List.filterMap_eq_nil_iff]
    simp [Event.content]
  simp [records, hnone]

@[simp] theorem uploadedText_accepted :
    uploadedText (log ++ [.accepted text]) = uploadedText log := by
  simp [uploadedText, List.filterMap_cons, Event.payload]

@[simp] theorem uploadedText_uploaded :
    uploadedText (log ++ [.uploaded text]) = uploadedText log ++ text := by
  simp [uploadedText, Event.payload]

@[simp] theorem uploadedText_saved : uploadedText (log ++ [.saved text]) = uploadedText log := by
  simp [uploadedText, List.filterMap_cons, Event.payload]

@[simp] theorem uploadedText_resent (payloads : List (List UInt8)) :
    uploadedText (log ++ payloads.map .resent) = uploadedText log := by
  have hnone : (payloads.map Event.resent).filterMap Event.payload = [] := by
    rw [List.filterMap_eq_nil_iff]
    simp [Event.payload]
  simp [uploadedText, hnone]

@[simp] theorem savedText_accepted : savedText (log ++ [.accepted text]) = savedText log := by
  simp [savedText, List.filterMap_cons, Event.text]

@[simp] theorem savedText_uploaded : savedText (log ++ [.uploaded text]) = savedText log := by
  simp [savedText, List.filterMap_cons, Event.text]

@[simp] theorem savedText_saved : savedText (log ++ [.saved text]) = savedText log ++ text := by
  simp [savedText, Event.text]

@[simp] theorem savedText_resent (payloads : List (List UInt8)) :
    savedText (log ++ payloads.map .resent) = savedText log := by
  have hnone : (payloads.map Event.resent).filterMap Event.text = [] := by
    rw [List.filterMap_eq_nil_iff]
    simp [Event.text]
  simp [savedText, hnone]

end Logs

theorem delimited_nil : Delimited (10 : UInt8) 12 [] := Or.inl rfl

/-- A block that ends with the delimiter. -/
theorem delimited_slice (hab : a + 2 ≤ b) (hnewline : m (b - 2) = 10) (hfeed : m (b - 1) = 12) :
    Delimited 10 12 (slice m a b) := by
  rw [slice_last_two m hab, hnewline, hfeed]
  exact Or.inr ⟨slice m a (b - 2), rfl⟩

theorem slice_delimited (h : Delimited 10 12 (slice m a b)) (hab : a < b) :
    a + 2 ≤ b ∧ m (b - 2) = 10 ∧ m (b - 1) = 12 := by
  have hlength := length_slice m a b
  rcases h with h | ⟨t, h⟩
  · rw [h, List.length_nil] at hlength
    omega
  · rw [h, List.length_append] at hlength
    have hle : a + 2 ≤ b := by
      simp only [List.length_cons, List.length_nil] at hlength
      omega
    rw [slice_last_two m hle] at h
    have hcells := (List.append_inj' h rfl).2
    simp only [List.cons.injEq, and_true] at hcells
    exact ⟨hle, hcells⟩

variable {contents : List (List UInt8)} {before : List UInt8}

/-- The same records elsewhere in the buffer. -/
theorem Holds.of_slices (h : Holds contents before a b c m index storage log)
    (hbounds : headerSize ≤ a' ∧ a' ≤ b' ∧ b' ≤ c' ∧ c' ≤ index')
    (hslices : slice m' a' b' ++ slice m' c' index' = slice m a b ++ slice m c index)
    (hleft : Delimited 10 12 (slice m' a' b')) (hnew : Delimited 10 12 (slice m' c' index')) :
    Holds contents before a' b' c' m' index' storage log :=
  ⟨hbounds, by rw [hslices]; exact h.text, h.uploaded, h.saved, hleft, hnew, h.storage⟩

/-- Other cells do not matter. -/
theorem Holds.congr (h : Holds contents before a b c m index storage log)
    (hleft : ∀ i, a ≤ i → i < b → m' i = m i) (hnew : ∀ i, c ≤ i → m' i = m i) :
    Holds contents before a b c m' index storage log := by
  have hl : slice m' a b = slice m a b := slice_congr hleft
  have hn : slice m' c index = slice m c index := slice_congr fun i hi _ => hnew i hi
  refine h.of_slices h.bounds (by rw [hl, hn]) ?_ ?_
  · rw [hl]
    exact h.left
  · rw [hn]
    exact h.new

/-- A record is appended. -/
theorem Holds.append {content : List UInt8} (h : Holds contents before a b c m index storage log)
    (hframe : ∀ i < index, m' i = m i) (hindex : index ≤ index')
    (hstored : slice m' index index' = stored content)
    (hdelimited : Delimited 10 12 (stored content)) :
    Holds contents before a b c m' index' storage (log ++ [.accepted content]) := by
  obtain ⟨hhead, hab, hbc, hci⟩ := h.bounds
  have hleft : slice m' a b = slice m a b := slice_congr fun i _ hi => hframe i (by omega)
  have hnew : slice m' c index' = slice m c index ++ stored content := by
    rw [← slice_append m' hci hindex, hstored]
    congr 1
    exact slice_congr fun i _ hi => hframe i hi
  refine ⟨⟨hhead, hab, hbc, Nat.le_trans hci hindex⟩, ?_, ?_, ?_, ?_, ?_, ?_⟩
  · rw [records_accepted, h.text, uploadedText_accepted, savedText_accepted, hleft, hnew]
    simp only [List.append_assoc]
  · rw [uploadedText_accepted]
    exact h.uploaded
  · rw [savedText_accepted]
    exact h.saved
  · rw [hleft]
    exact h.left
  · rw [hnew]
    exact delimited_append h.new hdelimited
  · rw [savedText_accepted]
    exact h.storage

/-- What is left is uploaded up to a delimiter. -/
theorem Holds.upload (h : Holds contents before a b c m index storage log)
    (hsaved : savedText log = [])
    (hau : a ≤ u) (hub : u ≤ b) (hcut : Delimited 10 12 (slice m a u)) :
    Holds contents before u b c m index storage (log ++ [.uploaded (slice m a u)]) := by
  obtain ⟨hhead, hab, hbc, hci⟩ := h.bounds
  have hsplit := slice_append m hau hub
  refine ⟨⟨Nat.le_trans hhead hau, hub, hbc, hci⟩, ?_, ?_, ?_, ?_, h.new, ?_⟩
  · rw [records_uploaded, h.text, uploadedText_uploaded, savedText_uploaded, hsaved, ← hsplit]
    simp only [List.append_assoc, List.nil_append]
  · rw [uploadedText_uploaded]
    exact delimited_append h.uploaded hcut
  · rw [savedText_uploaded]
    exact h.saved
  · have hleft := h.left
    rw [← hsplit] at hleft
    exact hleft.right (by decide) hcut
  · rw [savedText_uploaded]
    exact h.storage

/-- All that is left is saved. -/
theorem Holds.save {b : ℕ} (h : Holds contents before headerSize b b m index storage log)
    (hsaved : savedText log = []) (full : Prop) [Decidable full] :
    Holds contents before b b b m index
      ((if full then [] else storage) ++ slice m headerSize b)
      (log ++ [.saved (slice m headerSize b)]) := by
  obtain ⟨hhead, hab, hbc, hci⟩ := h.bounds
  refine ⟨⟨hab, Nat.le_refl b, Nat.le_refl b, hci⟩, ?_, ?_, ?_, ?_, h.new, ?_⟩
  · rw [records_saved, h.text, uploadedText_saved, savedText_saved, hsaved, slice_self]
    simp only [List.nil_append]
  · rw [uploadedText_saved]
    exact h.uploaded
  · rw [savedText_saved]
    exact delimited_append h.saved h.left
  · rw [slice_self]
    exact delimited_nil
  · have hstorage := h.storage
    rw [hsaved, List.append_nil] at hstorage
    rw [savedText_saved, hsaved, List.nil_append]
    split_ifs
    · exact Or.inr rfl
    · rcases hstorage with rfl | rfl
      · exact Or.inl rfl
      · exact Or.inr rfl

/-- What is left begins where the block of the new records begins. -/
theorem Holds.joined (h : Holds contents before a a c m index storage log) (hc : headerSize ≤ c) :
    Holds contents before c c c m index storage log := by
  refine h.of_slices ⟨hc, Nat.le_refl c, Nat.le_refl c, h.bounds.2.2.2⟩ ?_ ?_ h.new
  · rw [slice_self, slice_self]
  · rw [slice_self]
    exact delimited_nil

/-- All records in the buffer are now what is left. -/
theorem Holds.whole (h : Holds contents before headerSize b b m index storage log) :
    Holds contents before headerSize index index m index storage log := by
  obtain ⟨-, hhead, -, hci⟩ := h.bounds
  have hall := slice_append m hhead hci
  refine h.of_slices ⟨Nat.le_refl _, by omega, Nat.le_refl _, Nat.le_refl _⟩ ?_ ?_ ?_
  · rw [hall, slice_self, List.append_nil]
  · rw [← hall]
    exact delimited_append h.left h.new
  · rw [slice_self]
    exact delimited_nil

/-- What is left is moved behind the header. -/
theorem Holds.move (h : Holds contents before a b c m index storage log) :
    Holds contents before headerSize (headerSize + (b - a)) c
      (memmove headerSize a (b - a) m) index storage log := by
  obtain ⟨hhead, hab, hbc, hci⟩ := h.bounds
  have hb : a + (b - a) = b := by omega
  have hleft : slice (memmove headerSize a (b - a) m) headerSize (headerSize + (b - a)) =
      slice m a b := by
    rw [slice_memmove, hb]
  have hnew : slice (memmove headerSize a (b - a) m) c index = slice m c index :=
    slice_memmove_outside (by omega)
  refine h.of_slices ⟨Nat.le_refl _, by omega, by omega, hci⟩ (by rw [hleft, hnew]) ?_ ?_
  · rw [hleft]
    exact h.left
  · rw [hnew]
    exact h.new

/-- The new records are moved to what is left, and the place behind them is cleared. -/
theorem Holds.rebase {n : ℕ} (h : Holds contents before headerSize b c m index storage log) :
    Holds contents before headerSize (index - (c - b)) (index - (c - b))
      (memset (index - (c - b)) 0 n (memmove b c (index - c) m)) (index - (c - b)) storage log := by
  obtain ⟨hhead, hab, hbc, hci⟩ := h.bounds
  have hend : index - (c - b) = b + (index - c) := by omega
  rw [hend]
  have hnew : slice (memmove b c (index - c) m) b (b + (index - c)) = slice m c index := by
    rw [slice_memmove, Nat.add_sub_of_le hci]
  have hleft : slice (memmove b c (index - c) m) headerSize b = slice m headerSize b :=
    slice_memmove_outside (Or.inl (Nat.le_refl b))
  have hall : slice (memset (b + (index - c)) 0 n (memmove b c (index - c) m)) headerSize
      (b + (index - c)) = slice m headerSize b ++ slice m c index := by
    rw [slice_memset_outside (Or.inl (Nat.le_refl _)), ← slice_append _ hab (Nat.le_add_right b _),
      hleft, hnew]
  refine h.of_slices ⟨Nat.le_refl _, by omega, Nat.le_refl _, Nat.le_refl _⟩ ?_ ?_ ?_
  · rw [hall, slice_self, List.append_nil]
  · rw [hall]
    exact delimited_append h.left h.new
  · rw [slice_self]
    exact delimited_nil

/-- The new records are moved behind the header, and the place behind them is cleared. -/
theorem Holds.settle {n : ℕ} (h : Holds contents before c c c m index storage log) :
    Holds contents before headerSize headerSize headerSize
      (memset (index - c + headerSize) 0 n (memmove headerSize c (index - c) m))
        (index - c + headerSize)
      storage log := by
  obtain ⟨hhead, -, -, hci⟩ := h.bounds
  have hnew : slice (memset (index - c + headerSize) 0 n (memmove headerSize c (index - c) m))
      headerSize
      (index - c + headerSize) = slice m c index := by
    rw [slice_memset_outside (Or.inl (Nat.le_refl _)), Nat.add_comm, slice_memmove,
      Nat.add_sub_of_le hci]
  refine h.of_slices ⟨Nat.le_refl _, Nat.le_refl _, Nat.le_refl _, by omega⟩ ?_ ?_ ?_
  · rw [hnew, slice_self, slice_self]
  · rw [slice_self]
    exact delimited_nil
  · rw [hnew]
    exact h.new

/-- The buffer is reset when nothing is new. -/
theorem Holds.reset (h : Holds contents before index index index m index storage log) :
    Holds contents before headerSize headerSize headerSize m' headerSize storage log := by
  refine h.of_slices ⟨Nat.le_refl _, Nat.le_refl _, Nat.le_refl _, Nat.le_refl _⟩ ?_ ?_ ?_
  · rw [slice_self, slice_self]
  · rw [slice_self]
    exact delimited_nil
  · rw [slice_self]
    exact delimited_nil

/-- The storage is emptied before anything is saved. -/
theorem Holds.deleted {a b c : ℕ} (h : Holds contents before a b c m index storage log)
    (hsaved : savedText log = []) : Holds contents before a b c m index [] log :=
  ⟨h.bounds, h.text, h.uploaded, h.saved, h.left, h.new, Or.inr hsaved.symm⟩

/-- Posts of the saved log do not matter. -/
theorem Holds.of_resent {a b c : ℕ} (h : Holds contents before a b c m index storage log)
    (payloads : List (List UInt8)) :
    Holds contents before a b c m index storage (log ++ payloads.map .resent) := by
  refine ⟨h.bounds, ?_, ?_, ?_, h.left, h.new, ?_⟩
  · rw [records_resent, uploadedText_resent, savedText_resent]
    exact h.text
  · rw [uploadedText_resent]
    exact h.uploaded
  · rw [savedText_resent]
    exact h.saved
  · rw [savedText_resent]
    exact h.storage

end Division

section Posts
variable {contents : List (List UInt8)} {before : List UInt8} {m m' : ℕ → UInt8}
  {index index' p q u : ℕ}
  {storage : List UInt8} {log : List Event} {l : Post}

/-- A place up to which the log can be posted: none yet, or the end of a delimiter. -/
def Cut (m : ℕ → UInt8) (postSize p : ℕ) : Prop :=
  p = 0 ∨ (p ≤ postSize ∧ m (p - 2) = 10 ∧ m (p - 1) = 12)

/-- Why a search does not leave the log: it is as large as a post, or there is a zero byte behind
it. -/
def Fenced (m : ℕ → UInt8) (l : Post) (p : ℕ) : Prop :=
  (l.postSize = l.origPostSize ∧ maxHttpLogPostSize ≤ l.postSize ∧ p < maxHttpLogPostSize) ∨
    (l.postSize < l.origPostSize ∧ m l.postSize = 0)

def PostHolds (contents : List (List UInt8)) (before : List UInt8) (m : ℕ → UInt8) (index : ℕ)
    (storage : List UInt8) (log : List Event) (l : Post) : PostPhase → Prop
  | .start => l.actualPostPayload = 0 ∧ l.postSize = l.origPostSize ∧
      Holds contents before headerSize l.postSize l.origPostSize m index storage log
  | .search p =>
      l.actualPostPayload + l.postSize = l.origPostSize ∧ Fenced m l p ∧ Cut m l.postSize p ∧
      Holds contents before headerSize l.postSize l.origPostSize m index storage log
  | .post u => l.actualPostPayload + l.postSize = l.origPostSize ∧ Cut m l.postSize u ∧
      Holds contents before headerSize l.postSize l.origPostSize m index storage log
  | .move u => l.actualPostPayload + l.postSize = l.origPostSize ∧
      Holds contents before u l.postSize l.origPostSize m index storage log
  | .clear => l.actualPostPayload + l.postSize = l.origPostSize ∧ l.postSize < l.origPostSize ∧
      Holds contents before headerSize l.postSize l.origPostSize m index storage log
  | .returned ret =>
      if ret = .success then
        Holds contents before l.origPostSize l.origPostSize l.origPostSize m index storage log
      else
        Holds contents before headerSize (l.origPostSize - l.actualPostPayload) l.origPostSize m
          index storage log

/-- The search stays in the log. -/
theorem found_le (hfound : Found m p q) (hgoes : PhaseGoes l.postSize (.search p))
    (hfenced : Fenced m l p)
    (hcut : Cut m l.postSize p) (hleft : Delimited 10 12 (slice m headerSize l.postSize)) :
    q + 2 ≤ l.postSize := by
  have hle : p ≤ l.postSize := by
    rcases hcut with rfl | ⟨hle, -⟩
    · exact Nat.zero_le _
    · exact hle
  by_contra hlt
  rcases hfenced with ⟨-, hlarge, hsmall⟩ | ⟨-, hzero⟩
  · -- the log ends with a delimiter, which the search does not pass
    obtain ⟨hhead, hnewline, hfeed⟩ := slice_delimited hleft hgoes.1
    by_cases hbehind : p ≤ l.postSize - 2
    · have hnext : l.postSize - 2 + 1 = l.postSize - 1 := by omega
      exact hfound.first (l.postSize - 2) hbehind (by omega) ⟨hnewline, hnext ▸ hfeed⟩
    · have hlast : p = l.postSize - 1 := by omega
      rcases hcut with rfl | ⟨-, -, hfeed'⟩
      · omega
      · have hprevious : p - 1 = l.postSize - 2 := by omega
        rw [hprevious, hnewline] at hfeed'
        exact absurd hfeed' (by decide)
  · exact hfound.text l.postSize hle (by omega) hzero

theorem cut_of_found (hfound : Found m p q) (hle : q + 2 ≤ l.postSize) :
    Cut m l.postSize (q + 2) := by
  refine Or.inr ⟨hle, ?_, ?_⟩
  · exact hfound.newline
  · exact hfound.formFeed

/-- The posts have failed behind what was posted. -/
theorem PostHolds.failed {ret : Ret} (hret : ret ≠ .success)
    (hsum : l.actualPostPayload + l.postSize = l.origPostSize)
    (h : Holds contents before headerSize l.postSize l.origPostSize m index storage log) :
    PostHolds contents before m index storage log { l with phase := .returned ret }
      (.returned ret) := by
  have hpost : l.origPostSize - l.actualPostPayload = l.postSize := by omega
  rw [PostHolds, if_neg hret, hpost]
  exact h

theorem Holds.stamp {a b c : ℕ} (h : Holds contents before a b c m index storage log)
    (stamp : Stamp) :
    Holds contents before a b c (updateTimeAndSignature stamp m) index storage log := by
  obtain ⟨hhead, hab, hbc, -⟩ := h.bounds
  refine h.congr ?_ ?_
  · intro i hi _
    exact stamp_text stamp m (by omega)
  · intro i hi
    exact stamp_text stamp m (by omega)

/-- What a search finds is in the log. -/
theorem PostHolds.found (h : PostHolds contents before m index storage log l (.search p))
    (hgoes : PhaseGoes l.postSize (.search p)) (hfound : Found m p q) :
    Cut m l.postSize (q + 2) := by
  obtain ⟨-, hfenced, hcut, hholds⟩ := h
  exact cut_of_found hfound (found_le hfound hgoes hfenced hcut hholds.left)

/-- What stands in front of a cut is posted. -/
theorem PostHolds.posted (h : PostHolds contents before m index storage log l (.post u))
    (hgoes : PhaseGoes l.postSize (.post u)) (hu : u ≠ 0) (hsaved : savedText log = [])
    (stamp : Stamp) :
    PostHolds contents before (updateTimeAndSignature stamp m) index storage
      (log ++ [.uploaded (slice (updateTimeAndSignature stamp m) headerSize u)])
      { l with phase := .move u } (.move u) := by
  obtain ⟨hsum, hcut, hholds⟩ := h
  obtain ⟨hle, hnewline, hfeed⟩ := hcut.resolve_left hu
  have hbehind := hgoes.2.resolve_left hu
  have hdelimited : Delimited 10 12 (slice (updateTimeAndSignature stamp m) headerSize u) := by
    apply delimited_slice hbehind
    · rw [stamp_text stamp m (by omega)]
      exact hnewline
    · rw [stamp_text stamp m (by omega)]
      exact hfeed
  exact ⟨hsum, (hholds.stamp stamp).upload hsaved (by omega) hle hdelimited⟩

/-- What was not posted is moved behind the header. -/
theorem PostHolds.moved (h : PostHolds contents before m index storage log l (.move u))
    (hgoes : PhaseGoes l.postSize (.move u)) :
    PostHolds contents before (memmove headerSize u (l.postSize - u) m) index storage log
      { l with
        phase := .clear
        postSize := l.postSize - (u - headerSize)
        actualPostPayload := l.actualPostPayload + (u - headerSize) } .clear := by
  obtain ⟨hsum, hholds⟩ := h
  obtain ⟨hhead, hle, hbc, -⟩ := hholds.bounds
  have hu := hgoes.2
  have hend : headerSize + (l.postSize - u) = l.postSize - (u - headerSize) := by omega
  refine ⟨by dsimp only; omega, by dsimp only; omega, ?_⟩
  dsimp only
  rw [← hend]
  exact hholds.move

/-- The place behind what is left is cleared, and the next search ends there. -/
theorem PostHolds.cleared (h : PostHolds contents before m index storage log l .clear) :
    PostHolds contents before (memset l.postSize 0 (l.origPostSize - l.postSize) m) index storage
      log { l with phase := .search 0 } (.search 0) := by
  obtain ⟨hsum, hlt, hholds⟩ := h
  have hzero : memset l.postSize 0 (l.origPostSize - l.postSize) m l.postSize = 0 :=
    memset_inside (Nat.le_refl _) (by omega)
  refine ⟨hsum, Or.inr ⟨hlt, hzero⟩, Or.inl rfl, ?_⟩
  refine hholds.congr ?_ ?_
  · intro i _ hi
    exact memset_outside (Or.inl hi)
  · intro i hi
    exact memset_outside (Or.inr (by omega))

/-- Nothing is left behind the header. -/
theorem PostHolds.finished (h : PostHolds contents before m index storage log l .clear)
    (hleft : l.postSize ≤ headerSize) :
    PostHolds contents before (memset l.postSize 0 (l.origPostSize - l.postSize) m) index storage
      log { l with phase := .returned .success } (.returned .success) := by
  obtain ⟨hsum, hlt, hholds⟩ := h
  obtain ⟨-, hhead, hbc, -⟩ := hholds.bounds
  have hsize : l.postSize = headerSize := by omega
  rw [PostHolds, if_pos rfl]
  rw [hsize] at hholds ⊢
  refine (hholds.joined (by omega)).congr ?_ ?_
  · intro i hi hi'
    omega
  · intro i hi
    exact memset_outside (Or.inr (by omega))

/-- A step of the posts keeps the records. -/
theorem postHolds_step {r : (ℕ → UInt8) × Post × List (List UInt8)} (hmoves : PostMoves m l r)
    (hgoes : PostGoes m l) (hsaved : savedText log = [])
    (h : PostHolds contents before m index storage log l l.phase) :
    savedText (log ++ r.2.2.map .uploaded) = [] ∧
      PostHolds contents before r.1 index storage (log ++ r.2.2.map .uploaded) r.2.1
        r.2.1.phase := by
  obtain ⟨hplain, hphaseGoes⟩ := hgoes
  cases hmoves with
  | sent stamp hphase hsize =>
    rw [hphase] at h
    obtain ⟨-, hsize, hholds⟩ := h
    have hstamped := hholds.stamp stamp
    have hposted := hstamped.upload hsaved hstamped.bounds.2.1 (Nat.le_refl _) hstamped.left
    refine ⟨by simpa using hsaved, ?_⟩
    rw [PostHolds, if_pos rfl]
    exact hsize ▸ hposted
  | refused stamp ret hphase hret =>
    rw [hphase] at h
    obtain ⟨-, hsize, hholds⟩ := h
    rw [List.map_nil, List.append_nil]
    refine ⟨hsaved, ?_⟩
    rw [PostHolds, if_neg hret]
    dsimp only
    rw [Nat.sub_zero, ← hsize]
    exact hsize ▸ hholds.stamp stamp
  | large hphase hsize =>
    rw [hphase] at h
    obtain ⟨hactual, hsize', hholds⟩ := h
    rw [List.map_nil, List.append_nil]
    exact ⟨hsaved, by dsimp only; omega, Or.inl ⟨hsize', hsize, by decide⟩, Or.inl rfl, hholds⟩
  | invalid p hphase =>
    rw [hphase] at h
    rw [List.map_nil, List.append_nil]
    exact ⟨hsaved, PostHolds.failed (by decide) h.1 h.2.2.2⟩
  | further p q hphase hfound hsize =>
    rw [hphase] at h hphaseGoes
    have hcut := h.found hphaseGoes hfound
    obtain ⟨hsum, hfenced, -, hholds⟩ := h
    rw [List.map_nil, List.append_nil]
    exact ⟨hsaved, hsum, hfenced.imp_left fun hfirst => ⟨hfirst.1, hfirst.2.1, hsize⟩, hcut, hholds⟩
  | last p q hphase hfound hsize =>
    rw [hphase] at h hphaseGoes
    have hcut := h.found hphaseGoes hfound
    rw [List.map_nil, List.append_nil]
    exact ⟨hsaved, h.1, hcut, h.2.2.2⟩
  | full p q hphase hfound hsize =>
    rw [hphase] at h
    rw [List.map_nil, List.append_nil]
    exact ⟨hsaved, h.1, h.2.2.1, h.2.2.2⟩
  | nothing hphase =>
    rw [hphase] at h
    rw [List.map_nil, List.append_nil]
    exact ⟨hsaved, PostHolds.failed (by decide) h.1 h.2.2⟩
  | posted stamp u hphase hu =>
    rw [hphase] at h hphaseGoes
    exact ⟨by simpa using hsaved, h.posted hphaseGoes hu hsaved stamp⟩
  | failed stamp u hphase =>
    rw [hphase] at h
    rw [List.map_nil, List.append_nil]
    exact ⟨hsaved, PostHolds.failed (by decide) h.1 (h.2.2.stamp stamp)⟩
  | moved u hphase =>
    rw [hphase] at h hphaseGoes
    rw [List.map_nil, List.append_nil]
    exact ⟨hsaved, h.moved hphaseGoes⟩
  | cleared hphase hleft =>
    rw [hphase] at h
    rw [List.map_nil, List.append_nil]
    exact ⟨hsaved, h.cleared⟩
  | finished hphase hleft =>
    rw [hphase] at h
    rw [List.map_nil, List.append_nil]
    exact ⟨hsaved, h.finished hleft⟩

end Posts

section Appends
variable {contents : List (List UInt8)} {before : List UInt8} {m m' : ℕ → UInt8}
  {index index' p : ℕ}
  {storage : List UInt8} {log : List Event} {l : Post} {content : List UInt8}

/-- What an accepted record does to the buffer. -/
structure Appended (m m' : ℕ → UInt8) (index index' : ℕ) (content : List UInt8) : Prop where
  le : index ≤ index'
  fits : index' < uploadBufferSize
  frame : ∀ i < index, m' i = m i
  text : slice m' index index' = stored content
  delimited : Delimited 10 12 (stored content)

theorem delimited_stored (hlong : 2 ≤ content.length) : Delimited 10 12 (stored content) := by
  refine Or.inr ⟨content.take (content.length - 2), ?_⟩
  rw [stored, Nat.sub_eq_zero_of_le hlong, List.drop_zero]

theorem stored_ne_nil (hlong : 2 ≤ content.length) : stored content ≠ [] := by
  rw [stored, Nat.sub_eq_zero_of_le hlong]
  simp

/-- A record of two bytes or more is appended, or the log stays as it is. -/
theorem appendToUploadBuffer_cases (hlong : 2 ≤ content.length) (taken : Bool) (s : State) :
    appendToUploadBuffer content taken s = (s, []) ∨
      ∃ m' index', Appended s.logBuffer m' s.logIndex index' content ∧
        appendToUploadBuffer content taken s =
          ({ s with logBuffer := m', logIndex := index' }, [.accepted content]) := by
  rw [appendToUploadBuffer]
  split_ifs with hrefused
  · exact Or.inl rfl
  · refine Or.inr ⟨_, _, ⟨Nat.le_add_right _ _, ?_, ?_, ?_, delimited_stored hlong⟩, rfl⟩
    · omega
    · intro i hi
      rw [memcpy_outside (by omega), memcpy_outside (by omega), memcpy_outside (by omega)]
    · have hfirst : s.logIndex + (content.length - 2) = s.logIndex + content.length - 2 := by omega
      have hcopied := slice_memcpy s.logIndex content s.logBuffer
      rw [← slice_append _ (show s.logIndex ≤ s.logIndex + content.length - 2 by omega)
        (show s.logIndex + content.length - 2 ≤ s.logIndex + content.length by omega)] at hcopied
      have htake := congrArg (List.take (content.length - 2)) hcopied
      rw [List.take_left' (by rw [length_slice]; omega)] at htake
      rw [slice_last_two _ (by omega), slice_memcpy_outside (by omega),
        slice_memcpy_outside (by simp; omega), htake, stored, Nat.sub_eq_zero_of_le hlong,
        List.drop_zero]
      congr 2
      · exact memcpy_inside (i := 0) (by simp)
      · rw [memcpy_outside (by simp; omega)]
        congr 1
        exact memcpy_inside (i := 0) (by simp)

theorem Appended.holds (h : Appended m m' index index' content) {a b c : ℕ}
    (hholds : Holds contents before a b c m index storage log) :
    Holds contents before a b c m' index' storage (log ++ [.accepted content]) :=
  hholds.append h.frame h.le h.text h.delimited

/-- An append while the log is posted. -/
theorem Appended.postHolds (h : Appended m m' index index' content)
    (hgoes : PhaseGoes l.postSize l.phase)
    (hholds : PostHolds contents before m index storage log l l.phase) :
    PostHolds contents before m' index' storage (log ++ [.accepted content]) l l.phase := by
  have hcut : ∀ p, (p = 0 ∨ headerSize + 2 ≤ p) → l.postSize ≤ index → Cut m l.postSize p →
      Cut m' l.postSize p := by
    rintro p hp hsize (hzero | ⟨hle, hnewline, hfeed⟩)
    · exact Or.inl hzero
    · rcases hp with hp | hp
      · exact Or.inl hp
      · refine Or.inr ⟨hle, ?_, ?_⟩
        · rw [h.frame (p - 2) (by omega)]
          exact hnewline
        · rw [h.frame (p - 1) (by omega)]
          exact hfeed
  cases hphase : l.phase with
  | start =>
    rw [hphase] at hholds
    exact ⟨hholds.1, hholds.2.1, h.holds hholds.2.2⟩
  | search p =>
    rw [hphase] at hholds hgoes
    obtain ⟨hsum, hfenced, hcutp, hholds⟩ := hholds
    obtain ⟨-, -, hbc, hci⟩ := hholds.bounds
    refine ⟨hsum, ?_, hcut p hgoes.2 (by omega) hcutp, h.holds hholds⟩
    refine hfenced.imp_right fun hzero => ⟨hzero.1, ?_⟩
    rw [h.frame l.postSize (by omega)]
    exact hzero.2
  | post u =>
    rw [hphase] at hholds hgoes
    obtain ⟨hsum, hcutu, hholds⟩ := hholds
    obtain ⟨-, -, hbc, hci⟩ := hholds.bounds
    exact ⟨hsum, hcut u hgoes.2 (by omega) hcutu, h.holds hholds⟩
  | move u =>
    rw [hphase] at hholds
    exact ⟨hholds.1, h.holds hholds.2⟩
  | clear =>
    rw [hphase] at hholds
    exact ⟨hholds.1, hholds.2.1, h.holds hholds.2.2⟩
  | returned ret =>
    rw [hphase, PostHolds] at hholds
    rw [PostHolds]
    split_ifs at hholds ⊢
    · exact h.holds hholds
    · exact h.holds hholds

end Appends

end IotExplorer.LogRecords
