import IotExplorer.ArrayFormat
import IotExplorer.PrintedTexts
import IotExplorer.QqMusicRuns
import Mathlib.Data.List.TakeDrop

/-!
The texts of the music client: those of a song, which are copied into its arrays with the length
that they have in the message, and the text of the list, which is printed song by song. The length
of that text is counted on when the array is full, and what is left of the array gets negative.
-/
namespace IotExplorer.SongTexts

open Basis.Outcomes Basis.JsonText Basis.Decimals JsonParser TemplateJson DeviceProperty ReportArray
open GatewayMessages ArrayFormat PrintedTexts QqMusicClient QqMusicRuns

section Printing

/-- `HAL_Snprintf` into the array; what nothing bounds leaves it. -/
def printString (str : Buffer) (place room : ℤ) (out : List UInt8) : Except Fault (ℤ × Buffer) :=
  (printBound str place room out).elim (.error .memory) .ok

/-- The loop of `_format_song_list_string`. -/
def formatSongs : List Song → ℤ → Buffer → Except Fault (ℤ × Buffer)
  | [], formatLen, str => .ok (formatLen, str)
  | song :: songs, formatLen, str => do
      let (printed, str) ← printString str formatLen (2048 - formatLen) (formatSong song)
      formatSongs songs (formatLen + printed) str

/-- What `_format_song_list_string` leaves in `song_list_str`, with how far it writes. -/
def songListStr (list : SongList) (before : List UInt8) : Except Fault Buffer :=
  if list.totalSong = 0 then .ok ⟨before, 0⟩
  else if list.songs.length < list.totalSong then .error .memory
  else do
    let (formatLen, str) ← printString ⟨[], 0⟩ 0 2048 (formatHeader list.id list.type)
    let (formatLen, str) ← formatSongs (list.songs.take list.totalSong.toNat) formatLen str
    let (_, str) ← printString str (formatLen - 1) (2048 - formatLen - 1) (ascii "]\x7d")
    return str

end Printing

section Right

/-- Each text of a song ends inside its array. -/
structure Terminated (song : Song) : Prop where
  url : song.songUrl.val.length < 512
  name : song.songName.val.length < 128
  singer : song.singerName.val.length < 128

def listText (list : SongList) : List UInt8 :=
  formatHeader list.id list.type ++
    (itemsBody true (list.songs.map fun song => signedText ((song.songId : ℤ).bmod (2 ^ 32))) ++
      ascii "]\x7d")

/-- A text is in the array of this size, and is this one. -/
structure Holds (size : ℕ) (str : Buffer) (text : List UInt8) : Prop where
  inside : str.reach ≤ size
  terminated : str.text.length < size
  complete : str.text = text

def numberMembers : List (List UInt8) := [ascii "userOwnRule", ascii "songId", ascii "songPlayTime"]

def textMembers : List (List UInt8 × ℕ) :=
  [(ascii "songURL", 512), (ascii "songName", 128), (ascii "singerName", 128)]

/-- No member is read past the end, and each text is shorter than its array. -/
def SongFits (alloc : List UInt8 → Bool) (doc : Ptr) : Prop :=
  (∀ key ∈ numberMembers, Runs (getText alloc doc key) fun _ => True) ∧
    ∀ member ∈ textMembers, Runs (getText alloc doc member.1) fun value =>
      ∀ text ∈ value, text.length < member.2

/-- An entry is shorter than the copy, and its members fit. -/
def EntryFits (alloc : List UInt8 → Bool) (json : List UInt8) : Prop :=
  json.length < 512 ∧ SongFits alloc (json ++ [0])

def objects (entries : List Entry) : List Entry :=
  entries.filter fun entry => entry.valType = .object

/-- The objects fit for which there is room, and the array is not read past its end. -/
def EntriesFit (alloc : ℕ → List UInt8 → Bool) (ending : Ending) (i room : ℕ)
    (entries : List Entry) : Prop :=
  (ending = .finished ∨ room < (objects entries).length) ∧
    ∀ k entry, ((objects entries).take room)[k]? = some entry →
      EntryFits (alloc (i + k)) (entry.val.take entry.valLen)

/-- A list as its types allow it, with as many songs as are counted. -/
structure Typed (list : SongList) : Prop where
  size : SizeRight list
  id : list.id < 2 ^ 64
  type : -2 ^ 31 ≤ list.type ∧ list.type < 2 ^ 31

/-- The text of a list fits with its end; an empty list is not printed, and its text must be
there. -/
def ListFits (list : SongList) (before : List UInt8) : Prop :=
  (list.totalSong = 0 → before = listText list) ∧
    (list.totalSong ≠ 0 → (formatBody list.id list.type list.songs).length ≤ 2044)

end Right

section Songs
variable {alloc : List UInt8 → Bool} {doc : Ptr}

theorem runs_copyText_terminated (size : ℕ) (hsize : 0 < size) (value : Option (List UInt8))
    (p : Prop) :
    Runs (copyText size value) (fun array => array.val.length < size ∧ p) ↔
      (∀ text ∈ value, text.length < size) ∧ p := by
  unfold copyText
  cases value with
  | none => simp [hsize]
  | some text =>
    simp only [Option.mem_some_iff, forall_eq']
    split_ifs with hfits
    · exact Iff.rfl
    · exact iff_of_false id fun h => hfits h.1.le

/-- A number can be read if its text can. -/
theorem runs_getInt32 (key : List UInt8) (p : Prop) :
    Runs (getInt32 alloc doc key) (fun _ => p) ↔
      Runs (getText alloc doc key) (fun _ => True) ∧ p := by
  rw [getInt32, runs_map]
  cases getText alloc doc key <;> simp

theorem runs_getUint64 (key : List UInt8) (p : Prop) :
    Runs (getUint64 alloc doc key) (fun _ => p) ↔
      Runs (getText alloc doc key) (fun _ => True) ∧ p := by
  rw [getUint64, runs_map]
  cases getText alloc doc key <;> simp

/-- A text is copied into its array, and ends there, if it is shorter. -/
theorem runs_member (key : List UInt8) (size : ℕ) (hsize : 0 < size) (p : Prop) :
    Runs (getText alloc doc key)
      (fun value => Runs (copyText size value) fun array => array.val.length < size ∧ p) ↔
      Runs (getText alloc doc key) (fun value => ∀ text ∈ value, text.length < size) ∧ p := by
  simp only [runs_copyText_terminated size hsize]
  cases getText alloc doc key <;> simp

/-- A song is parsed inside its arrays if its texts fit. -/
theorem parseSongInfo_iff (alloc : List UInt8 → Bool) (doc : Ptr) :
    Runs (parseSongInfo alloc doc) Terminated ↔ SongFits alloc doc := by
  have hterminated (song : Song) : Terminated song ↔ song.songUrl.val.length < 512 ∧
      song.songName.val.length < 128 ∧ song.singerName.val.length < 128 ∧ True :=
    ⟨fun h => ⟨h.url, h.name, h.singer, trivial⟩, fun h => ⟨h.1, h.2.1, h.2.2.1⟩⟩
  unfold parseSongInfo SongFits numberMembers textMembers
  simp only [runs_bind, runs_pure, hterminated]
  -- the texts are terminated one by one, so that each of them is asked for where it is copied
  simp only [runs_and]
  simp only [runs_member _ _ (show 0 < 128 by decide), runs_member _ _ (show 0 < 512 by decide),
    runs_getInt32, runs_getUint64]
  simp only [List.forall_mem_cons, List.not_mem_nil, false_implies, implies_true, and_true,
    and_assoc]

theorem parseSongListObj_iff (alloc : List UInt8 → Bool) (json : List UInt8) :
    Runs (parseSongListObj alloc json) Terminated ↔ EntryFits alloc json := by
  unfold parseSongListObj EntryFits
  split_ifs with hshort
  · rw [parseSongInfo_iff, and_iff_right hshort]
  · rw [runs_error, false_iff]
    exact fun h => hshort h.1

theorem objects_cons (entry : Entry) (entries : List Entry) : objects (entry :: entries) =
    if entry.valType = .object then entry :: objects entries else objects entries := by
  simp [objects, List.filter_cons]

/-- The songs of an array are parsed inside their arrays if its objects fit. -/
theorem parseObjects_iff (alloc : ℕ → List UInt8 → Bool) (ending : Ending) (i room : ℕ)
    (entries : List Entry) :
    Runs (parseObjects alloc ending i room entries) (fun songs => ∀ song ∈ songs, Terminated song) ↔
      EntriesFit alloc ending i room entries := by
  induction entries generalizing i room with
  | nil =>
    unfold parseObjects EntriesFit
    split_ifs with hending <;> simp [objects, hending]
  | cons entry entries ih =>
    unfold parseObjects
    by_cases hobject : entry.valType = .object
    · rw [if_neg (not_not_intro hobject)]
      unfold EntriesFit
      rw [objects_cons, if_pos hobject]
      cases room with
      | zero => simp
      | succ room =>
        have hrest := ih (i + 1) room
        unfold EntriesFit at hrest
        rw [← Nat.and_forall_add_one]
        simp only [runs_bind, runs_pure, List.forall_mem_cons, runs_and, hrest, List.take_succ_cons,
          List.getElem?_cons_zero, List.getElem?_cons_succ, List.length_cons,
          Nat.add_lt_add_iff_right, Option.some.injEq, forall_eq', ← parseSongListObj_iff,
          Nat.add_zero, Nat.add_right_comm i 1]
        cases parseSongListObj (alloc i) (entry.val.take entry.valLen) with
        | error fault => simp
        | ok song => exact and_left_comm
    · rw [if_pos hobject, ih]
      unfold EntriesFit
      rw [objects_cons, if_neg hobject]

end Songs

section Formatting
variable {text out : List UInt8} {str : Buffer} {list : SongList}

/-- A print at the end of what has been printed, unless that is longer than the array. -/
theorem printString_end (h : Printed 2048 text str) (hout : out.length < 2 ^ 31) :
    (2048 < text.length ∧ printString str text.length (2048 - text.length) out = .error .memory) ∨
      (text.length ≤ 2048 ∧ ∃ str', printString str text.length (2048 - text.length) out =
        .ok (out.length, str') ∧ Printed 2048 (text ++ out) str') := by
  unfold printString
  rcases h.bound (by decide) hout with ⟨hlong, hprinted⟩ | ⟨hshort, str', hprinted, h'⟩
  · left
    rw [hprinted]
    exact ⟨by omega, rfl⟩
  · right
    rw [hprinted]
    exact ⟨by omega, str', rfl, h'⟩

/-- The text of an int of 32 bits has at most 11 characters. -/
theorem signedText_bmod_length (value : ℤ) : (signedText (value.bmod (2 ^ 32))).length ≤ 11 := by
  have hlength := signedText_length (Int32.ofInt value)
  rw [Int32.toInt_ofInt] at hlength
  exact hlength

theorem formatSong_length (song : Song) : (formatSong song).length < 2 ^ 31 := by
  have hid := signedText_bmod_length song.songId
  rw [formatSong, List.length_append, List.length_singleton]
  omega

/-- The songs are printed one behind another, until what was printed is longer than the array. -/
theorem formatSongs_cases (songs : List Song) (h : Printed 2048 text str) :
    (2048 < (text ++ songs.flatMap formatSong).length ∧
        formatSongs songs text.length str = .error .memory) ∨
      ∃ str', formatSongs songs text.length str =
        .ok ((text ++ songs.flatMap formatSong).length, str') ∧
        Printed 2048 (text ++ songs.flatMap formatSong) str' := by
  induction songs generalizing text str with
  | nil =>
    right
    rw [List.flatMap_nil, List.append_nil]
    exact ⟨str, rfl, h⟩
  | cons song songs ih =>
    have hsong := formatSong_length song
    rw [List.flatMap_cons, ← List.append_assoc, formatSongs]
    rcases printString_end h hsong with ⟨hlong, hprinted⟩ | ⟨-, str', hprinted, h'⟩
    · left
      rw [hprinted]
      refine ⟨?_, rfl⟩
      rw [List.length_append, List.length_append]
      omega
    · have hlength : (text.length : ℤ) + (formatSong song).length =
          ((text ++ formatSong song).length : ℕ) := by
        rw [List.length_append]
        push_cast
        rfl
      rw [hprinted, ok_bind]
      dsimp only
      rw [hlength]
      exact ih h'

theorem formatHeader_length (h : Typed list) : (formatHeader list.id list.type).length ≤ 80 := by
  have hid := (decimal_length_le_iff list.id 20 (by decide)).mpr (lt_trans h.id (by decide))
  have hrange := h.type
  have htype := signedText_bmod_length list.type
  rw [Int.bmod_eq_of_le (by omega) (by omega)] at htype
  have hfirst : (ascii "\x7b\\\"songListId\\\":").length = 16 := by decide
  have hsecond : (ascii ",\\\"songListType\\\":").length = 18 := by decide
  have hthird : (ascii ",\\\"songList\\\":[").length = 15 := by decide
  rw [formatHeader]
  simp only [List.length_append, hfirst, hsecond, hthird]
  omega

theorem formatBody_nonempty (id : ℕ) (type : ℤ) (songs : List Song) :
    0 < (formatBody id type songs).length := by
  have hfirst : 0 < (ascii "\x7b\\\"songListId\\\":").length := by decide
  rw [formatBody, formatHeader]
  simp only [List.length_append]
  omega

/-- The text of a list is printed as `formatText` has it, unless it is longer than the array. -/
theorem songListStr_cases (h : Typed list) (hsome : list.totalSong ≠ 0) (before : List UInt8) :
    (2047 < (formatBody list.id list.type list.songs).length ∧
      songListStr list before = .error .memory) ∨
      ((formatBody list.id list.type list.songs).length ≤ 2047 ∧ ∃ reach ≤ 2048,
        songListStr list before =
          .ok ⟨formatText (formatBody list.id list.type list.songs), reach⟩) := by
  have htake : list.songs.take list.totalSong.toNat = list.songs := by
    have hsize := h.size
    unfold SizeRight at hsize
    apply List.take_of_length_le
    omega
  have hcount : ¬ (list.songs.length : ℤ) < list.totalSong := Int.not_lt.mpr (le_of_eq h.size.symm)
  have hbegin : Printed 2048 [] ⟨[], 0⟩ := printed_nil (by decide)
  have hpos := formatBody_nonempty list.id list.type list.songs
  unfold songListStr
  rw [if_neg hsome, if_neg hcount, htake]
  rcases printString_end hbegin (lt_of_le_of_lt (formatHeader_length h) (by decide)) with ⟨hlong, -⟩
    | ⟨-, str, hheader, hstr⟩
  · cases hlong
  rw [List.length_nil, Nat.cast_zero, sub_zero] at hheader
  rw [hheader, ok_bind]
  dsimp only
  rw [List.nil_append] at hstr
  have hbody : formatHeader list.id list.type ++ list.songs.flatMap formatSong =
      formatBody list.id list.type list.songs := rfl
  have hsongs := formatSongs_cases list.songs hstr
  rw [hbody] at hsongs
  generalize formatBody list.id list.type list.songs = body at hsongs hpos ⊢
  rcases hsongs with ⟨hlong, hloop⟩ | ⟨str', hloop, hbody'⟩
  · left
    rw [hloop]
    exact ⟨by omega, rfl⟩
  rw [hloop, ok_bind]
  dsimp only
  have hplace : ((body.length : ℤ) - 1).toNat = body.length - 1 := by omega
  unfold printString printBound
  rw [hplace]
  by_cases hlong : 2047 < body.length
  · left
    rw [if_pos (by omega)]
    exact ⟨hlong, rfl⟩
  · right
    have htext := hbody'.text
    have hinside := hbody'.inside
    rw [List.take_of_length_le (by omega)] at htext
    rw [if_neg (by omega)]
    refine ⟨by omega, ?_⟩
    by_cases hfull : body.length = 2047
    · have hroom : (2048 : ℤ) - body.length - 1 = 0 := by omega
      rw [hroom, printAt_zero _ _ (by decide), formatText, if_pos (by omega), ← htext]
      exact ⟨str'.reach, by omega, rfl⟩
    · rw [printAt_room (by rw [htext]; omega) (by omega) (by omega), if_pos (by decide), formatText,
        if_neg (by omega)]
      have hroom : ((2048 : ℤ) - body.length - 1).toNat - 1 = 2047 - body.length - 1 := by omega
      have hkept : ((ascii "]\x7d").take (2047 - body.length - 1)).length ≤
          2047 - body.length - 1 :=
        List.length_take_le ..
      rw [htext, hroom]
      refine ⟨_, ?_, rfl⟩
      omega

/-- What is left in the array is what the application gets. -/
theorem formatSongListString_eq {music : Music} (h : Typed music.songList) (before : List UInt8) :
    formatSongListString music = (songListStr music.songList before).map fun str =>
      if music.songList.totalSong ≠ 0 ∧ music.syncCallback then [.formatted str.text] else [] := by
  have htake : music.songList.songs.take music.songList.totalSong.toNat = music.songList.songs := by
    have hsize := h.size
    unfold SizeRight at hsize
    apply List.take_of_length_le
    omega
  have hcount : ¬ (music.songList.songs.length : ℤ) < music.songList.totalSong :=
    Int.not_lt.mpr (le_of_eq h.size.symm)
  unfold formatSongListString
  dsimp only
  by_cases hnone : music.songList.totalSong = 0
  · rw [if_pos hnone, songListStr, if_pos hnone]
    simp [Except.map, hnone]
  · rw [if_neg hnone, if_neg hcount, htake]
    rcases songListStr_cases h hnone before with ⟨hlong, hstr⟩ | ⟨hfits, reach, -, hstr⟩
    · rw [if_pos hlong, hstr]
      rfl
    · rw [if_neg (Nat.not_lt.mpr hfits), hstr]
      simp [Except.map, hnone]

/-- The comma behind the last song is replaced by the end of the text, if that fits. -/
theorem formatText_eq_iff (hsome : list.songs ≠ []) :
    formatText (formatBody list.id list.type list.songs) = listText list ↔
      (formatBody list.id list.type list.songs).length ≤ 2044 := by
  have hitems :=
    @flatMap_comma (list.songs.map fun song => signedText ((song.songId : ℤ).bmod (2 ^ 32)))
    (mt List.map_eq_nil_iff.mp hsome) true
  rw [if_pos rfl, List.nil_append, List.flatMap_map] at hitems
  have hbody : formatBody list.id list.type list.songs = (formatHeader list.id list.type ++
      itemsBody true (list.songs.map fun song => signedText ((song.songId : ℤ).bmod (2 ^ 32)))) ++
        [comma] := by
    rw [List.append_assoc, ← hitems]
    rfl
  rw [hbody, listText, ← List.append_assoc]
  generalize formatHeader list.id list.type ++ itemsBody true _ = init
  have hend : (ascii "]\x7d").length = 2 := by decide
  have hkept : init.length + 1 - 1 = init.length := Nat.add_sub_cancel ..
  rw [formatText, List.length_append, List.length_singleton, hkept, List.take_left]
  split_ifs with hfull
  · refine iff_of_false (fun heq => ?_) (by omega)
    have hlength := congrArg List.length heq
    rw [List.length_append, List.length_append, List.length_singleton, hend] at hlength
    omega
  · rw [List.append_cancel_left_eq, List.take_eq_self_iff, hend]
    omega

theorem formatText_length {body : List UInt8} (h : body.length ≤ 2047) :
    (formatText body).length ≤ 2047 := by
  have hend : ((ascii "]\x7d").take (2047 - body.length - 1)).length ≤ 2047 - body.length - 1 :=
    List.length_take_le ..
  unfold formatText
  split_ifs with hfull
  · exact h
  · rw [List.length_append, List.length_take]
    omega

/-- The list is printed with its end if its text fits. -/
theorem songListStr_iff (h : Typed list) (before : List UInt8) :
    Runs (songListStr list before) (fun str => Holds 2048 str (listText list)) ↔
      ListFits list before := by
  by_cases hnone : list.totalSong = 0
  · have hsongs : list.songs = [] := by
      have hsize := h.size
      rw [SizeRight, hnone] at hsize
      exact List.length_eq_zero_iff.mp (by omega)
    have hshort : (listText list).length < 2048 := by
      have hheader := formatHeader_length h
      have hend : (ascii "]\x7d").length = 2 := by decide
      rw [listText, hsongs, List.map_nil, itemsBody, List.nil_append, List.length_append, hend]
      omega
    have hfits : ListFits list before ↔ before = listText list :=
      ⟨fun hall => hall.1 hnone, fun hbefore => ⟨fun _ => hbefore, fun hsome => absurd hnone hsome⟩⟩
    rw [songListStr, if_pos hnone, runs_ok, hfits]
    exact ⟨Holds.complete, fun hbefore => ⟨Nat.zero_le _, hbefore ▸ hshort, hbefore⟩⟩
  · have hsongs : list.songs ≠ [] := by
      have hsize := h.size
      intro hempty
      rw [SizeRight, hempty] at hsize
      exact hnone hsize.symm
    have hfits : ListFits list before ↔ (formatBody list.id list.type list.songs).length ≤ 2044 :=
      ⟨fun hall => hall.2 hnone, fun hfits => ⟨fun hzero => absurd hzero hnone, fun _ => hfits⟩⟩
    rw [hfits]
    rcases songListStr_cases h hnone before with ⟨hlong, hstr⟩ | ⟨hshort, reach, hreach, hstr⟩
    · rw [hstr, runs_error, false_iff]
      omega
    · rw [hstr, runs_ok, ← formatText_eq_iff hsongs]
      refine ⟨Holds.complete, fun hcomplete => ⟨hreach, ?_, hcomplete⟩⟩
      exact Nat.lt_succ_of_le (formatText_length hshort)

end Formatting

section Results

def ArrayFits (alloc : ℕ → List UInt8 → Bool) (room : ℕ) (text : List UInt8) : Prop :=
  let loop := forEach .array (text ++ [0])
  EntriesFit alloc loop.ending 0 room loop.entries

/-- An object of 512 bytes, whose copy is terminated behind its end. -/
theorem songTexts_wrong : ¬ Runs (parseSongListObj (fun _ => true)
    (ascii "\x7b" ++ List.replicate 510 0x20 ++ ascii "\x7d")) Terminated := by
  have hlength : (ascii "\x7b" ++ List.replicate 510 0x20 ++ ascii "\x7d").length = 512 := by
    rw [List.length_append, List.length_append, List.length_replicate]
    rfl
  rw [parseSongListObj, if_neg (by rw [hlength]; decide)]
  exact id

/-- The texts of the client stay in their arrays, and are complete, exactly if they are short
enough: those of a song, of an entry, of the songs of an array, and of a list. -/
theorem songTexts_right_iff (alloc : List UInt8 → Bool) (doc : Ptr) (json : List UInt8)
    (songAlloc : ℕ → List UInt8 → Bool) (room : ℕ) (text : List UInt8) (list : SongList)
    (h : Typed list)
    (before : List UInt8) :
    (Runs (parseSongInfo alloc doc) Terminated ↔ SongFits alloc doc) ∧
      (Runs (parseSongListObj alloc json) Terminated ↔ EntryFits alloc json) ∧
      (Runs (parseObjArray songAlloc room text) (fun songs => ∀ song ∈ songs, Terminated song) ↔
        ArrayFits songAlloc room text) ∧
      (Runs (songListStr list before) (fun str => Holds 2048 str (listText list)) ↔
        ListFits list before) :=
  ⟨parseSongInfo_iff alloc doc, parseSongListObj_iff alloc json,
    parseObjects_iff songAlloc _ 0 room _, songListStr_iff h before⟩

/-- The text of a list with two songs is complete. -/
theorem songTexts_right_iff_two :
    Runs (songListStr
        { SongList.zero with totalSong := 2, songInfoArray := some [Song.zero, Song.zero] } [])
      (fun str => Holds 2048 str (listText
        { SongList.zero with totalSong := 2, songInfoArray := some [Song.zero, Song.zero] })) := by
  have hlist : Typed
      { SongList.zero with totalSong := 2, songInfoArray := some [Song.zero, Song.zero] } :=
    ⟨rfl, show 0 < 2 ^ 64 by decide, show (-2 ^ 31 : ℤ) ≤ 0 ∧ (0 : ℤ) < 2 ^ 31 by decide⟩
  refine (songTexts_right_iff (fun _ => true) [0] [] (fun _ _ => true) 0 [] _ hlist
    []).2.2.2.mpr ?_
  exact ⟨fun hnone => absurd hnone (by decide), fun _ => by decide⟩

end Results

end IotExplorer.SongTexts
