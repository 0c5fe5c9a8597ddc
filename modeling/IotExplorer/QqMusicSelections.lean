import IotExplorer.Basis.CyclicWalks
import IotExplorer.QqMusicRuns

/-!
The selection of the song to play. The next and the previous song that can be played are looked
for by a recursion that ends only at such a song, over an index of eight bits; a song that is
asked for by its id is compared with the id as an int.
-/
namespace IotExplorer.QqMusicSelections

open Basis.CyclicWalks QqMusicClient QqMusicRuns

section Selections

/-- `QQMusicGetSongInfoType`. -/
inductive GetSongInfoType
  | current
  | previous
  | next
  | random
  | none
  deriving DecidableEq, Repr

/-- A song can be played: it has a URL and is owned. -/
def playable (song : Song) : Bool := song.songUrl.val.headD 0 ≠ 0 ∧ song.userOwnRule = 1

/-- The `switch` of `_qqmusic_get_play_song_info_from_type`: the new play index, which has eight
bits. -/
def chooseIndex (type : GetSongInfoType) (draw : ℕ) (list : SongList) : Except Fault (Option ℕ) :=
  match type with
  | .current => .ok (some list.playIndex)
  | .next =>
      let moved : ℤ := ((list.playIndex + 1) % 256 : ℕ)
      .ok (some (moved.tmod list.totalSong % 256).toNat)
  | .previous =>
      (int32 (list.playIndex - 1 + list.totalSong)).map fun moved =>
        some (moved.tmod list.totalSong % 256).toNat
  | .random => .ok (some ((draw : ℤ).tmod list.totalSong % 256).toNat)
  | .none => .ok none

/-- `_qqmusic_get_play_song_info_from_type`, for so many calls of itself, with what `rand` draws in
each: the index of the song, and the list. -/
def fromType : ℕ → GetSongInfoType →
    (ℕ → ℕ) → SongList → Option (Except Fault (Option ℕ × SongList))
  | 0, _, _, _ => none
  | calls + 1, type, draws, list =>
      match chooseIndex type (draws 0) list with
      | .error fault => some (.error fault)
      | .ok none => some (.ok (none, list))
      | .ok (some index) =>
          let list := { list with playIndex := index }
          if type = .current then some (.ok (some index, list))
          else
            match list.songs[index]? with
            | none => some (.error .memory)
            | some song =>
                if playable song then some (.ok (some index, list))
                else fromType calls type (fun k => draws (k + 1)) list

/-- The first song with an id among the songs that are counted. -/
def firstWith (list : SongList) (songId : ℕ) : Option ℕ :=
  (list.songs.take list.totalSong.toNat).findIdx? fun song => song.songId = songId

/-- An id as an int, and compared as one of 64 bits. -/
def asInt (songId : ℕ) : ℕ := ((songId : ℤ).bmod (2 ^ 32) % 2 ^ 64).toNat

/-- `_qqmusic_get_play_song_info_from_id`. -/
def fromId (songId : ℕ) (list : SongList) : Except Fault (Option ℕ × SongList) :=
  match firstWith list (asInt songId) with
  | some index => .ok (some index, { list with playIndex := index % 256 })
  | none => if list.songs.length < list.totalSong then .error .memory else .ok (none, list)

/-- `IOT_QQMusic_GetPlaySongInfo`. -/
def getPlaySongInfo (calls : ℕ) (songId : UInt64) (type : GetSongInfoType) (draws : ℕ → ℕ)
    (list : SongList) :
    Option (Except Fault (Option ℕ × SongList)) :=
  if list.totalSong = 0 then some (.ok (none, list))
  else if songId = 0 then fromType calls type draws list
  else some (fromId songId.toNat list)

inductive Selection
  | next
  | previous
  | random (draws : ℕ → ℕ)
  | byId (songId : UInt64) (hne : songId ≠ 0)

def select (calls : ℕ) (list : SongList) : Selection → Option (Except Fault (Option ℕ × SongList))
  | .next => getPlaySongInfo calls 0 .next (fun _ => 0) list
  | .previous => getPlaySongInfo calls 0 .previous (fun _ => 0) list
  | .random draws => getPlaySongInfo calls 0 .random draws list
  | .byId songId _ => getPlaySongInfo calls songId .none (fun _ => 0) list

def Returns (selection : Selection) (list : SongList) (result : Option ℕ) (after : SongList) :
    Prop :=
  ∃ calls, select calls list selection = some (.ok (result, after))

end Selections

section Right

/-- A list with at least one song: as many songs as are counted, of which one is the current
song. -/
structure Ready (list : SongList) : Prop where
  size : SizeRight list
  nonempty : 1 ≤ list.totalSong
  short : list.totalSong < 2 ^ 31
  index : list.playIndex < list.songs.length
  byte : list.playIndex < 256

inductive Reached (start : SongList) : SongList → Prop
  | start : Reached start start
  | selected {list after : SongList} (selection : Selection) (result : Option ℕ) :
      Reached start list → Returns selection list result after → Reached start after

/-- The song at an index can be played. -/
def playableAt (list : SongList) (index : ℕ) : Bool := list.songs[index]?.any playable

/-- The first song that can be played behind the current one, which comes last. -/
def nextPlayable (list : SongList) : Option ℕ :=
  (forward list.songs.length list.playIndex).find? (playableAt list)

/-- The first song that can be played in front of the current one, which comes last. -/
def previousPlayable (list : SongList) : Option ℕ :=
  (backward list.songs.length list.playIndex).find? (playableAt list)

/-- A selection returns with this song, which is then the current one. -/
def Chooses (selection : Selection) (list : SongList) (result : Option ℕ) : Prop :=
  ∃ after, Returns selection list result after ∧ ∀ index ∈ result, after.playIndex = index

/-- The song that a selection is to choose; a random one may be any. -/
def Right (list : SongList) : Selection → Prop
  | .next => Chooses .next list (nextPlayable list)
  | .previous => Chooses .previous list (previousPlayable list)
  | .random _ => True
  | .byId songId hne => Chooses (.byId songId hne) list (firstWith list songId.toNat)

def lastIndex (list : SongList) : ℕ := (list.songs.length - 1) % 256

/-- There is a song that can be played, and the walk comes to it in eight bits: forward, it is one
of the first 256; backward, it is in front of the current song, or not behind the place where the
walk goes on from the end. -/
def Fits (list : SongList) : Selection → Prop
  | .next => ∃ index < 256, nextPlayable list = some index
  | .previous => list.playIndex + list.songs.length ≤ 2 ^ 31 ∧
      ∃ index, previousPlayable list = some index ∧
        (index < list.playIndex ∨ index = lastIndex list ∨
          index < lastIndex list ∧ lastIndex list + list.songs.length ≤ 2 ^ 31)
  | .random _ => True
  | .byId songId _ => (∀ index ∈ firstWith list songId.toNat, index < 256) ∧
      (asInt songId.toNat = songId.toNat ∨
        firstWith list songId.toNat = none ∧ firstWith list (asInt songId.toNat) = none)

end Right

section Walks
variable {list after : SongList} {type : GetSongInfoType} {result : Option ℕ}

def withIndex (list : SongList) (index : ℕ) : SongList := { list with playIndex := index }

theorem Ready.withIndex (h : Ready list) {index : ℕ} (hindex : index < list.songs.length)
    (hbyte : index < 256) : Ready (withIndex list index) :=
  ⟨h.size, h.nonempty, h.short, hindex, hbyte⟩

theorem Ready.total (h : Ready list) : list.totalSong = (list.songs.length : ℤ) := h.size.symm

def nextIndex (n index : ℕ) : Except Fault ℕ := .ok ((index + 1) % min n 256)

def previousIndex (n index : ℕ) : Except Fault ℕ :=
  if index + n ≤ 2 ^ 31 then .ok (if index = 0 then (n - 1) % 256 else index - 1)
    else .error .overflow

theorem tmod_toNat (a n : ℕ) : (((a : ℤ).tmod n) % 256).toNat = a % n % 256 := by
  rw [← Int.ofNat_tmod]
  omega

theorem chooseIndex_next (h : Ready list) (draw : ℕ) :
    chooseIndex .next draw list = (nextIndex list.songs.length list.playIndex).map some := by
  have hindex := h.index
  have hbyte := h.byte
  have hmoved : (list.playIndex + 1) % 256 % list.songs.length % 256 =
      (list.playIndex + 1) % min list.songs.length 256 := by
    by_cases hlong : list.songs.length ≤ 256
    · rw [min_eq_left hlong]
      by_cases hend : list.playIndex + 1 = 256
      · have hlength : list.songs.length = 256 := by omega
        rw [hend, hlength]
      · rw [Nat.mod_eq_of_lt (show list.playIndex + 1 < 256 by omega)]
        have hless : (list.playIndex + 1) % list.songs.length < list.songs.length :=
          Nat.mod_lt _ (by omega)
        rcases Nat.lt_or_ge ((list.playIndex + 1) % list.songs.length) 256 with hlow | hhigh
        · exact Nat.mod_eq_of_lt hlow
        · omega
    · rw [min_eq_right (by omega)]
      have hless : (list.playIndex + 1) % 256 < 256 := Nat.mod_lt _ (by decide)
      rw [Nat.mod_eq_of_lt (show (list.playIndex + 1) % 256 < list.songs.length by omega),
        Nat.mod_mod]
  unfold chooseIndex
  rw [h.total]
  dsimp only
  rw [tmod_toNat, hmoved]
  rfl

theorem chooseIndex_previous (h : Ready list) (draw : ℕ) :
    chooseIndex .previous draw list =
      (previousIndex list.songs.length list.playIndex).map some := by
  have hindex := h.index
  have hbyte := h.byte
  have hshort := h.short
  rw [h.total] at hshort
  unfold chooseIndex int32 previousIndex
  rw [h.total]
  dsimp only
  by_cases hfits : list.playIndex + list.songs.length ≤ 2 ^ 31
  · have hmoved : (list.playIndex : ℤ) - 1 + list.songs.length =
        ((list.playIndex + list.songs.length - 1 : ℕ) : ℤ) := by omega
    rw [if_pos (by omega), if_pos hfits, hmoved]
    simp only [Except.map]
    rw [tmod_toNat]
    congr 3
    split_ifs with hzero
    · rw [hzero, Nat.zero_add,
        Nat.mod_eq_of_lt (show list.songs.length - 1 < list.songs.length by omega)]
    · have hwrap : list.playIndex + list.songs.length - 1 =
          list.playIndex - 1 + list.songs.length := by omega
      rw [hwrap, Nat.add_mod_right,
        Nat.mod_eq_of_lt (show list.playIndex - 1 < list.songs.length by omega),
        Nat.mod_eq_of_lt (show list.playIndex - 1 < 256 by omega)]
  · rw [if_neg (by omega), if_neg hfits]
    rfl

theorem chooseIndex_random (h : Ready list) (draw : ℕ) :
    chooseIndex .random draw list = .ok (some (draw % list.songs.length % 256)) := by
  unfold chooseIndex
  rw [h.total]
  dsimp only
  rw [tmod_toNat]

/-- How a walk moves the current song. -/
structure Moves (list : SongList) (type : GetSongInfoType) (step : ℕ → Except Fault ℕ) : Prop where
  walks : type ≠ .current
  chosen : ∀ p draw, Ready (withIndex list p) →
    chooseIndex type draw (withIndex list p) = (step p).map some
  keeps : ∀ p q, p < list.songs.length → p < 256 → step p = .ok q → q < list.songs.length ∧ q < 256

/-- A selection by walking returns as the walk does. -/
theorem fromType_walk {step : ℕ → Except Fault ℕ} (hmoves : Moves list type step) {p : ℕ}
    (h : Ready (withIndex list p)) (calls : ℕ) (draws : ℕ → ℕ) :
    fromType calls type draws (withIndex list p) =
      (walk step (playableAt list) calls p).map fun found =>
      found.map fun index => (some index, withIndex list index) := by
  induction calls generalizing p draws with
  | zero => rfl
  | succ calls ih =>
    rw [fromType, walk, hmoves.chosen p _ h]
    cases hmoved : step p with
    | error fault => rfl
    | ok index =>
      obtain ⟨hindex, hbyte⟩ := hmoves.keeps p index h.index h.byte hmoved
      have hsong : list.songs[index]? = some list.songs[index] := List.getElem?_eq_getElem hindex
      have hgood : playableAt list index =
          playable list.songs[index] := by rw [playableAt, hsong]; rfl
      have hrest := ih (h.withIndex hindex hbyte) fun k => draws (k + 1)
      simp only [Except.map, if_neg hmoves.walks]
      change (match list.songs[index]? with
        | none => some (Except.error Fault.memory)
        | some song => if playable song then some (Except.ok (some index, withIndex list index))
            else fromType calls type (fun k => draws (k + 1)) (withIndex list index)) = _
      rw [hsong, hgood]
      dsimp only
      split_ifs with hplayable
      · rfl
      · exact hrest

/-- A selection by walking chooses the song that the walk reaches. -/
theorem walk_returns_iff {step : ℕ → Except Fault ℕ} (hmoves : Moves list type step)
    (h : Ready list)
    (draws : ℕ → ℕ) :
    (∃ calls, getPlaySongInfo calls 0 type draws list = some (.ok (result, after))) ↔
      ∃ index, Reaches step (playableAt list) list.playIndex index ∧ result = some index ∧
        after = withIndex list index := by
  have hnonempty : list.totalSong ≠ 0 := by
    have hpos := h.nonempty
    omega
  have hcall (calls : ℕ) : getPlaySongInfo calls 0 type draws list =
      (walk step (playableAt list) calls list.playIndex).map fun found =>
        found.map fun index => (some index, withIndex list index) := by
    rw [getPlaySongInfo, if_neg hnonempty, if_pos rfl]
    exact fromType_walk hmoves h calls draws
  simp only [hcall, reaches_iff]
  constructor
  · rintro ⟨calls, hcalls⟩
    obtain ⟨found, hfound, hresult⟩ := Option.map_eq_some_iff.mp hcalls
    cases found with
    | error fault => cases hresult
    | ok index =>
      cases hresult
      exact ⟨index, ⟨calls, hfound⟩, rfl, rfl⟩
  · rintro ⟨index, ⟨calls, hcalls⟩, rfl, rfl⟩
    exact ⟨calls, by rw [hcalls]; rfl⟩

/-- A walk chooses the one song that it reaches. -/
theorem walk_chooses_iff {step : ℕ → Except Fault ℕ} (hmoves : Moves list type step)
    (h : Ready list)
    {selection : Selection} (hselect : ∀ calls, select calls list selection =
      getPlaySongInfo calls 0 type (fun _ => 0) list) :
    Chooses selection list result ↔
      ∃ index, Reaches step (playableAt list) list.playIndex index ∧ result = some index := by
  have hreturns (after : SongList) : Returns selection list result after ↔
      ∃ index, Reaches step (playableAt list) list.playIndex index ∧ result = some index ∧
        after = withIndex list index := by
    rw [← walk_returns_iff hmoves h (fun _ => 0), Returns]
    simp only [hselect]
  constructor
  · rintro ⟨after, hafter, -⟩
    obtain ⟨index, hreached, hresult, -⟩ := (hreturns after).mp hafter
    exact ⟨index, hreached, hresult⟩
  · rintro ⟨index, hreached, rfl⟩
    refine ⟨withIndex list index, (hreturns _).mpr ⟨index, hreached, rfl, rfl⟩, ?_⟩
    rintro _ ⟨⟩
    rfl

theorem nextIndex_keeps {n p q : ℕ} (hp : p < n) (hq : nextIndex n p = .ok q) :
    q < n ∧ q < 256 := by
  cases hq
  exact lt_min_iff.mp (Nat.mod_lt _ (by omega))

theorem previousIndex_keeps {n p q : ℕ} (hp : p < n) (hbyte : p < 256)
    (hq : previousIndex n p = .ok q) :
    q < n ∧ q < 256 := by
  unfold previousIndex at hq
  split_ifs at hq with hfits hzero
  · cases hq
    have hmod := Nat.mod_le (n - 1) 256
    exact ⟨by omega, Nat.mod_lt _ (by decide)⟩
  · cases hq
    omega

/-- Each choice of an index denotes a song of the list. -/
theorem chooseIndex_keeps (h : Ready list) {draw index : ℕ}
    (hchosen : chooseIndex type draw list = .ok (some index)) :
    index < list.songs.length ∧ index < 256 := by
  have hpos : 0 < list.songs.length := Nat.zero_lt_of_lt h.index
  cases type with
  | current =>
    cases hchosen
    exact ⟨h.index, h.byte⟩
  | previous =>
    rw [chooseIndex_previous h] at hchosen
    cases hmoved : previousIndex list.songs.length list.playIndex with
    | error fault =>
      rw [hmoved] at hchosen
      cases hchosen
    | ok moved =>
      rw [hmoved] at hchosen
      cases hchosen
      exact previousIndex_keeps h.index h.byte hmoved
  | next =>
    rw [chooseIndex_next h] at hchosen
    cases hchosen
    exact nextIndex_keeps h.index rfl
  | random =>
    rw [chooseIndex_random h] at hchosen
    cases hchosen
    have hdraw : draw % list.songs.length < list.songs.length := Nat.mod_lt _ hpos
    exact ⟨lt_of_le_of_lt (Nat.mod_le _ _) hdraw, Nat.mod_lt _ (by decide)⟩
  | none => cases hchosen

theorem fromType_ready (h : Ready list) {calls : ℕ} {draws : ℕ → ℕ}
    (hreturned : fromType calls type draws list = some (.ok (result, after))) : Ready after := by
  induction calls generalizing list draws with
  | zero => cases hreturned
  | succ calls ih =>
    rw [fromType] at hreturned
    cases hchosen : chooseIndex type (draws 0) list with
    | error fault =>
      rw [hchosen] at hreturned
      cases hreturned
    | ok chosen =>
      rw [hchosen] at hreturned
      cases chosen with
      | none =>
        cases hreturned
        exact h
      | some index =>
        obtain ⟨hindex, hbyte⟩ := chooseIndex_keeps h hchosen
        have hnext : Ready (withIndex list index) := h.withIndex hindex hbyte
        dsimp only at hreturned
        split_ifs at hreturned with hcurrent
        · cases hreturned
          exact hnext
        · split at hreturned
          · cases hreturned
          · split_ifs at hreturned with hplayable
            · cases hreturned
              exact hnext
            · exact ih hnext hreturned

theorem fromId_eq (h : Ready list) (songId : ℕ) : fromId songId list =
    .ok (match firstWith list (asInt songId) with
      | some index => (some index, withIndex list (index % 256))
      | none => (none, list)) := by
  unfold fromId
  cases firstWith list (asInt songId) with
  | some index => rfl
  | none =>
    rw [if_neg (by rw [h.total]; exact lt_irrefl _)]

theorem firstWith_some {songId index : ℕ} (hfound : firstWith list songId = some index) :
    index < list.songs.length ∧ ∃ song, list.songs[index]? = some song ∧ song.songId = songId := by
  obtain ⟨hlt, hid, -⟩ := List.findIdx?_eq_some_iff_getElem.mp hfound
  rw [List.getElem_take] at hid
  rw [List.length_take] at hlt
  have hindex : index < list.songs.length := lt_of_lt_of_le hlt (Nat.min_le_right _ _)
  exact ⟨hindex, list.songs[index], List.getElem?_eq_getElem hindex, by simpa using hid⟩

theorem fromId_ready (h : Ready list) {songId : ℕ}
    (hreturned : fromId songId list = .ok (result, after)) :
    Ready after := by
  rw [fromId_eq h] at hreturned
  cases hfound : firstWith list (asInt songId) with
  | none =>
    rw [hfound] at hreturned
    cases hreturned
    exact h
  | some index =>
    rw [hfound] at hreturned
    cases hreturned
    exact h.withIndex (lt_of_le_of_lt (Nat.mod_le _ _) (firstWith_some hfound).1)
      (Nat.mod_lt _ (by decide))

theorem getPlaySongInfo_ready (h : Ready list) {calls : ℕ} {songId : UInt64} {draws : ℕ → ℕ}
    (hreturned : getPlaySongInfo calls songId type draws list = some (.ok (result, after))) :
    Ready after := by
  unfold getPlaySongInfo at hreturned
  split_ifs at hreturned with hnone hzero
  · cases hreturned
    exact h
  · exact fromType_ready h hreturned
  · exact fromId_ready h (Option.some.inj hreturned)

theorem returns_ready (h : Ready list) {selection : Selection}
    (hreturned : Returns selection list result after) :
    Ready after := by
  obtain ⟨calls, hcalls⟩ := hreturned
  cases selection <;> exact getPlaySongInfo_ready h hcalls

end Walks

section Results
variable {list after : SongList}

theorem reached_ready {start : SongList} (hstart : Ready start) (h : Reached start list) :
    Ready list := by
  induction h with
  | start => exact hstart
  | selected selection result _ hreturned ih => exact returns_ready ih hreturned

theorem moves_next (list : SongList) : Moves list .next (nextIndex list.songs.length) :=
  ⟨by decide, fun _ draw h => chooseIndex_next h draw, fun _ _ hp _ hq => nextIndex_keeps hp hq⟩

theorem moves_previous (list : SongList) : Moves list .previous (previousIndex list.songs.length) :=
  ⟨by decide, fun _ draw h => chooseIndex_previous h draw,
    fun _ _ hp hbyte hq => previousIndex_keeps hp hbyte hq⟩

/-- The walk forward goes around the first 256 songs. -/
theorem next_right_iff (h : Ready list) : Right list .next ↔ Fits list .next := by
  have hindex : list.playIndex < min list.songs.length 256 := lt_min h.index h.byte
  have hcircle (i : ℕ) :=
    @reaches_forward_iff _ (nextIndex list.songs.length) (playableAt list) _ _ i hindex
    fun _ _ => rfl
  have hchooses (result : Option ℕ) :=
    @walk_chooses_iff list .next result _ (moves_next list) h .next fun _ => rfl
  unfold Right Fits
  rw [hchooses]
  constructor
  · rintro ⟨index, hreached, hnext⟩
    obtain ⟨hlt, -⟩ := (find_forward_iff hindex).mp ((hcircle index).mp hreached)
    exact ⟨index, (lt_min_iff.mp hlt).2, hnext⟩
  · rintro ⟨index, hbyte, hnext⟩
    refine ⟨index, (hcircle index).mpr ((find_forward_iff hindex).mpr ?_), hnext⟩
    obtain ⟨hlt, hgood, ⟨hup, hbad⟩ | ⟨hdown, habove, hbelow⟩⟩ :=
      (find_forward_iff h.index).mp hnext
    · exact ⟨lt_min hlt hbyte, hgood, .inl ⟨hup, hbad⟩⟩
    · exact ⟨lt_min hlt hbyte, hgood,
        .inr ⟨hdown, fun j hj hjn => habove j hj (lt_min_iff.mp hjn).1, hbelow⟩⟩

/-- The walk backward goes on from the end of the list in eight bits. -/
theorem previous_right_iff (h : Ready list) : Right list .previous ↔ Fits list .previous := by
  have hpos : 0 < list.songs.length := Nat.zero_lt_of_lt h.index
  have hshort := h.short
  rw [h.total] at hshort
  have hlast : lastIndex list < list.songs.length :=
    lt_of_le_of_lt (Nat.mod_le _ _) (Nat.sub_lt hpos Nat.one_pos)
  have hchooses (result : Option ℕ) :=
    @walk_chooses_iff list .previous result _ (moves_previous list) h .previous fun _ => rfl
  have hdown (j : ℕ) (hj : 0 < j) (hfits : j + list.songs.length ≤ 2 ^ 31) :
      previousIndex list.songs.length j = .ok (j - 1) := by
    rw [previousIndex, if_pos hfits, if_neg (Nat.ne_of_gt hj)]
  have hwrap : previousIndex list.songs.length 0 = .ok (lastIndex list) := by
    rw [previousIndex, if_pos (by omega), if_pos rfl]
    rfl
  have hfirst {j i : ℕ} (hreached : Reaches (previousIndex list.songs.length)
      (playableAt list) j i) :
      j + list.songs.length ≤ 2 ^ 31 := by
    by_contra hfits
    have herror : previousIndex list.songs.length j = .error .overflow := by
      rw [previousIndex, if_neg hfits]
    cases hreached with
    | here hnext _ => cases herror.symm.trans hnext
    | later hnext _ _ => cases herror.symm.trans hnext
  unfold Right Fits
  rw [hchooses]
  constructor
  · rintro ⟨index, hreached, hprevious⟩
    refine ⟨hfirst hreached, index, hprevious, ?_⟩
    obtain ⟨hlt, hgood, ⟨hbelow, -⟩ | ⟨habove, hbad, -⟩⟩ := (find_backward_iff h.index).mp hprevious
    · exact .inl hbelow
    · right
      rw [reaches_down_iff (Nat.zero_le _)
        (fun j hj hjp => hdown j hj (by have hall := hfirst hreached; omega))
        fun j _ hj => hbad j hj] at hreached
      cases hgoodLast : playableAt list (lastIndex list) with
      | true => exact .inl ((reaches_here_iff hwrap hgoodLast).mp hreached)
      | false =>
        have hrest := (reaches_later_iff hwrap hgoodLast).mp hreached
        have hkeeps (j r : ℕ) (hj : j ≤ lastIndex list)
            (hjr : previousIndex list.songs.length j = .ok r) :
            r ≤ lastIndex list := by
          unfold previousIndex at hjr
          split_ifs at hjr with hfits hzero
          · cases hjr
            exact Nat.le_refl _
          · cases hjr
            omega
        have hle := hrest.invariant hkeeps (Nat.le_refl _)
        have hne : index ≠ lastIndex list := by
          rintro rfl
          rw [hgoodLast] at hgood
          cases hgood
        exact .inr ⟨by omega, hfirst hrest⟩
  · rintro ⟨hfits, index, hprevious, hwhere⟩
    refine ⟨index, ?_, hprevious⟩
    obtain ⟨hlt, hgood, ⟨hbelow, hbad⟩ | ⟨habove, hbad, hbadAbove⟩⟩ :=
      (find_backward_iff h.index).mp hprevious
    · exact reaches_down hbelow (fun j hj hjp => hdown j (by omega) (by omega)) hbad hgood
    · rw [reaches_down_iff (Nat.zero_le _) (fun j hj hjp => hdown j hj (by omega)) fun j _ hj =>
        hbad j hj]
      rcases hwhere with hbelow | rfl | ⟨hless, hroom⟩
      · omega
      · exact .here hwrap hgood
      · refine .later hwrap (hbadAbove _ hless hlast) ?_
        exact reaches_down hless (fun j hj hjm => hdown j (by omega) (by omega))
          (fun j hj hjm => hbadAbove j hj (by omega)) hgood

/-- A song is found by its id if the id is not changed by becoming an int, or is no song's. -/
theorem byId_right_iff (h : Ready list) (songId : UInt64) (hne : songId ≠ 0) :
    Right list (.byId songId hne) ↔ Fits list (.byId songId hne) := by
  have hnonempty : list.totalSong ≠ 0 := by
    have hpos := h.nonempty
    omega
  have hcall (calls : ℕ) : select calls list (.byId songId hne) =
      some (fromId songId.toNat list) := by
    rw [select, getPlaySongInfo, if_neg hnonempty, if_neg hne]
  have hreturns (result : Option ℕ) (after : SongList) : Returns
      (.byId songId hne) list result after ↔
      fromId songId.toNat list = .ok (result, after) := by
    simp only [Returns, hcall, Option.some.injEq, exists_const]
  unfold Right Fits Chooses
  simp only [hreturns, fromId_eq h, Except.ok.injEq]
  by_cases hkept : asInt songId.toNat = songId.toNat
  · rw [hkept]
    cases hfound : firstWith list songId.toNat with
    | none => simp
    | some index => simp [withIndex]
  · -- the two searches look for different ids, so they do not end at the same song
    have hdiffer {index : ℕ} (hseen : firstWith list (asInt songId.toNat) = some index) :
        firstWith list songId.toNat ≠ some index := by
      intro hfound
      obtain ⟨-, song, hsong, hid⟩ := firstWith_some hseen
      obtain ⟨-, song', hsong', hid'⟩ := firstWith_some hfound
      cases hsong.symm.trans hsong'
      exact hkept (hid.symm.trans hid')
    cases hseen : firstWith list (asInt songId.toNat) with
    | none => cases hfound : firstWith list songId.toNat <;> simp [hkept]
    | some index =>
      have hother := hdiffer hseen
      cases hfound : firstWith list songId.toNat with
      | none => simp [hkept]
      | some index' =>
        rw [hfound] at hother
        have hindex : index ≠ index' := fun heq => hother (congrArg some heq.symm)
        simp [hkept, hindex]

theorem right_iff_fits (h : Ready list) (selection : Selection) :
    Right list selection ↔ Fits list selection := by
  cases selection with
  | next => exact next_right_iff h
  | previous => exact previous_right_iff h
  | random draws => exact Iff.rfl
  | byId songId hne => exact byId_right_iff h songId hne

def oneSong (song : Song) : SongList :=
  { SongList.zero with totalSong := 1, songInfoArray := some [song] }

theorem oneSong_ready (song : Song) : Ready (oneSong song) :=
  ⟨rfl, le_refl (1 : ℤ), show (1 : ℤ) < 2 ^ 31 by decide, Nat.one_pos, show 0 < 256 by decide⟩

/-- The next song is looked for without end in a list with a song that cannot be played. -/
theorem selections_wrong : Ready (oneSong Song.zero) ∧ ¬ Right (oneSong Song.zero) .next := by
  refine ⟨oneSong_ready _, fun hright => ?_⟩
  obtain ⟨index, -, hnext⟩ := (next_right_iff (oneSong_ready _)).mp hright
  have hnone : nextPlayable (oneSong Song.zero) = none := by decide
  cases hnone.symm.trans hnext

/-- In every list that selections lead to the play index denotes a song, and a selection is right
exactly if it meets the list as it must. -/
theorem selections_right_iff (start list : SongList) (hstart : Ready start) (h : Reached start list)
    (selection : Selection) :
    list.playIndex < list.songs.length ∧ (Right list selection ↔ Fits list selection) :=
  ⟨(reached_ready hstart h).index, right_iff_fits (reached_ready hstart h) selection⟩

/-- The second song of a list is the next one, as the first one cannot be played. -/
theorem selections_right_iff_second :
    Right { SongList.zero with
      totalSong := 2
      songInfoArray :=
        some [Song.zero, { Song.zero with userOwnRule := 1, songUrl := ⟨[104], by decide⟩ }] }
      .next := by
  have hready : Ready { SongList.zero with
      totalSong := 2
      songInfoArray :=
        some [Song.zero, { Song.zero with userOwnRule := 1, songUrl := ⟨[104], by decide⟩ }] } :=
    ⟨rfl, show (1 : ℤ) ≤ 2 by decide, show (2 : ℤ) < 2 ^ 31 by decide,
      show 0 < 2 by decide, show 0 < 256 by decide⟩
  refine (selections_right_iff _ _ hready .start .next).2.mpr ⟨1, by decide, ?_⟩
  decide

end Results

end IotExplorer.QqMusicSelections
