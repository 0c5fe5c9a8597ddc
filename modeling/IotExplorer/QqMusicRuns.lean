import IotExplorer.Basis.Outcomes
import IotExplorer.QqMusicClient

/-!
Runs of the music client. The array holds as many songs as are counted, and no
page is stored twice, exactly as long as every message meets what the code does
not check: memory for the first page, a page that was not stored yet, texts and
numbers that fit.
-/
namespace IotExplorer.QqMusicRuns

open Basis.Runs Basis.Outcomes Basis.Bitmap JsonParser TemplateJson DeviceProperty QqMusicClient

section Pieces

/-- The text of a list fits its array. -/
def FormatFits (id : ℕ) (type : ℤ) (songs : List Song) : Prop :=
  songs = [] ∨ (formatBody id type songs).length ≤ 2047

instance (id : ℕ) (type : ℤ) (songs : List Song) : Decidable (FormatFits id type songs) := by
  unfold FormatFits
  infer_instance

/-- The number of elements is the number of songs that are counted. -/
def SizeRight (list : SongList) : Prop := (list.songs.length : ℤ) = list.totalSong

def asksNothing (event : Event) : Bool :=
  match event with
  | .queried _ => false
  | _ => true

/-- A list of the right size is printed if its text fits. -/
theorem formatSongListString_cases {music : Music} (hsize : SizeRight music.songList) :
    (FormatFits music.songList.id music.songList.type music.songList.songs ∧
      ∃ events, formatSongListString music = .ok events ∧ events.all asksNothing = true) ∨
    (¬ FormatFits music.songList.id music.songList.type music.songList.songs ∧
      formatSongListString music = .error .memory) := by
  unfold SizeRight at hsize
  have htake : music.songList.songs.take music.songList.totalSong.toNat = music.songList.songs := by
    apply List.take_of_length_le
    omega
  have hcount : ¬ (music.songList.songs.length : ℤ) < music.songList.totalSong := by omega
  unfold formatSongListString FormatFits
  dsimp only
  rw [htake, if_neg hcount]
  by_cases hnone : music.songList.totalSong = 0
  · left
    rw [if_pos hnone]
    exact ⟨.inl (List.length_eq_zero_iff.mp (by omega)), [], rfl, rfl⟩
  · have hsome : music.songList.songs ≠ [] := by
      intro h
      rw [h, List.length_nil] at hsize
      omega
    rw [if_neg hnone]
    by_cases hlong : (formatBody music.songList.id music.songList.type
        music.songList.songs).length > 2047
    · right
      rw [if_pos hlong]
      exact ⟨not_or.mpr ⟨hsome, by omega⟩, rfl⟩
    · left
      rw [if_neg hlong]
      refine ⟨.inr (by omega), _, rfl, ?_⟩
      split <;> rfl

theorem runs_format {music : Music} (hsize : SizeRight music.songList) (p : Prop) :
    Runs (formatSongListString music) (fun _ => p) ↔
      FormatFits music.songList.id music.songList.type music.songList.songs ∧ p := by
  rcases formatSongListString_cases hsize with ⟨hfits, events, heq, -⟩ | ⟨hlong, heq⟩
  · rw [heq, runs_ok, and_iff_right hfits]
  · rw [heq, runs_error, false_iff]
    exact fun h => hlong h.1

/-- A page number of 8 bits is noted, unless it is the first one behind the bitmap. -/
theorem utilsSetBitmapOnebit_cases (bitmap : UtilsBitmap) (page : ℤ) :
    (page % 256 = 128 ∧ utilsSetBitmapOnebit bitmap page = .error .memory) ∨
    (page % 256 ≠ 128 ∧ ∃ bitmap', utilsSetBitmapOnebit bitmap page = .ok bitmap' ∧
      ∀ i < 128, test bitmap' i = if (i : ℤ) = page % 256 then some true else test bitmap i) := by
  have hindex : ((page % 256).toNat : ℤ) = page % 256 := by omega
  unfold utilsSetBitmapOnebit
  dsimp only
  generalize (page % 256).toNat = index at hindex ⊢
  rw [← hindex]
  by_cases hbig : index > 128
  · right
    rw [if_pos hbig]
    refine ⟨by omega, bitmap, rfl, ?_⟩
    intro i hi
    rw [if_neg (by omega)]
  · rw [if_neg hbig]
    by_cases hout : index = 128
    · left
      have hmark : mark bitmap index = none := by
        unfold mark
        rw [dif_neg (by omega)]
      rw [hmark]
      exact ⟨by omega, rfl⟩
    · right
      have hin : index / 32 < 4 := by omega
      obtain ⟨bitmap', hmark⟩ : ∃ bitmap', mark bitmap index = some bitmap' := exists_mark hin
      rw [hmark]
      refine ⟨by omega, bitmap', rfl, ?_⟩
      intro i _
      rw [test_mark (by decide) hmark]
      simp only [Nat.cast_inj]

theorem runs_setBit (bitmap : UtilsBitmap) (page : ℤ) (post : UtilsBitmap → Prop) (p : Prop)
    (h : ∀ bitmap', (∀ i < 128, test bitmap' i =
      if (i : ℤ) = page % 256 then some true else test bitmap i) → (post bitmap' ↔ p)) :
    Runs (utilsSetBitmapOnebit bitmap page) post ↔ page % 256 ≠ 128 ∧ p := by
  rcases utilsSetBitmapOnebit_cases bitmap page with ⟨hout, heq⟩ | ⟨hin, bitmap', heq, htest⟩
  · rw [heq, runs_error, false_iff]
    exact fun h => h.1 hout
  · rw [heq, runs_ok, h bitmap' htest, and_iff_right hin]

theorem runs_firstZero (bitmap : UtilsBitmap) (p : Prop) :
    Runs (utilsGetBitmapFirstZero bitmap) (fun _ => p) ↔
      (∃ i < 128, test bitmap i = some false) ∧ p := by
  unfold utilsGetBitmapFirstZero
  cases hfirst : firstClear bitmap 128 with
  | none =>
    rw [runs_error, false_iff]
    rintro ⟨⟨i, hi, htest⟩, -⟩
    have hnone := List.find?_eq_none.mp hfirst i (List.mem_range.mpr hi)
    exact hnone (by simpa using htest)
  | some i =>
    rw [runs_ok]
    have hfound := List.find?_some hfirst
    have hmem := List.mem_range.mp (List.mem_of_find?_eq_some hfirst)
    exact (and_iff_right ⟨i, hmem, by simpa using hfound⟩).symm

/-- A value is copied if it fits the array. -/
theorem copyText_cases (size : ℕ) (value : Option (List UInt8)) :
    ((∀ text ∈ value, text.length ≤ size) ∧ ∃ array, copyText size value = .ok array) ∨
    (¬ (∀ text ∈ value, text.length ≤ size) ∧ copyText size value = .error .memory) := by
  cases value with
  | none =>
    left
    exact ⟨(fun text htext => by cases htext), _, rfl⟩
  | some text =>
    simp only [Option.mem_some_iff, forall_eq']
    by_cases hfits : text.length ≤ size
    · left
      exact ⟨hfits, _, dif_pos hfits⟩
    · right
      exact ⟨hfits, dif_neg hfits⟩

theorem runs_copyText (size : ℕ) (value : Option (List UInt8)) (p : Prop) :
    Runs (copyText size value) (fun _ => p) ↔ (∀ text ∈ value, text.length ≤ size) ∧ p := by
  rcases copyText_cases size value with ⟨hfits, array, heq⟩ | ⟨hlong, heq⟩
  · rw [heq, runs_ok, and_iff_right hfits]
  · rw [heq, runs_error, false_iff]
    exact fun h => hlong h.1

theorem runs_int32 (value : ℤ) (post : ℤ → Prop) :
    Runs (int32 value) post ↔ (-2 ^ 31 ≤ value ∧ value < 2 ^ 31) ∧ post value := by
  unfold int32
  split
  next h => rw [runs_ok, and_iff_right h]
  next h =>
    rw [runs_error, false_iff]
    exact fun hand => h hand.1

/-- An array is there if there is memory for it, and then its size must fit. -/
theorem runs_mallocSongs (message : Message) (count : ℤ) (post : Bool → Prop) :
    Runs (mallocSongs message count) post ↔
      (message.array = false → post false) ∧
        (message.array = true → ArrayFits count ∧ post true) := by
  unfold mallocSongs
  cases message.array with
  | false => simp
  | true =>
    by_cases hfits : ArrayFits count
    · simp [hfits]
    · simp [hfits]

/-- No more songs are parsed than there is room for. -/
theorem parseObjects_length {alloc : ℕ → List UInt8 → Bool} {ending : Ending} {i room : ℕ}
    {entries : List Entry} {songs : List Song}
    (h : parseObjects alloc ending i room entries = .ok songs) : songs.length ≤ room := by
  induction entries generalizing i room songs with
  | nil =>
    unfold parseObjects at h
    split at h
    · obtain rfl := Except.ok.inj h
      exact Nat.zero_le _
    · cases h
  | cons entry entries ih =>
    unfold parseObjects at h
    split at h
    · exact ih h
    · split at h
      · obtain rfl := Except.ok.inj h
        exact Nat.zero_le _
      next room =>
        obtain ⟨song, hsong, h⟩ :=
          runs_iff.mp ((runs_bind _ (· = songs)).mp (runs_iff.mpr ⟨_, h, rfl⟩))
        obtain ⟨rest, hrest, h⟩ := runs_iff.mp ((runs_bind _ (· = songs)).mp h)
        obtain rfl := h
        rw [List.length_cons]
        exact Nat.succ_le_succ (ih hrest)

theorem fill_length {room : ℕ} {songs : List Song} (h : songs.length ≤ room) :
    (fill room songs).length = room := by
  rw [fill, List.length_append, List.length_replicate]
  omega

end Pieces

section Conditions

/-- The array holds as many songs as are counted, no page was stored twice, and
nothing undefined has happened. -/
structure Right (music : Music) : Prop where
  running : music.halted = false
  size : SizeRight music.songList
  once : music.pages.Nodup

def firstCount (total pageSize : ℤ) : ℤ := if total ≤ pageSize then total else pageSize

/-- What a synchronization has to meet behind its numbers: the name fits, the page
can be noted, and there is memory for the first page, whose size and text fit, or it
has no songs. The return code goes into a reply that fits. -/
def ListMeets (message : Message) (doc : Ptr) (id : ℕ) (type total pageSize page : ℤ)
    (replies : ℤ → Prop) : Prop :=
  Runs (getText message.alloc doc (ascii "name")) fun name =>
    (∀ text ∈ name, text.length ≤ 128) ∧
      Runs (getText message.alloc doc (ascii "songList")) fun songList =>
        (songList = none → replies (-1)) ∧
          ∀ text ∈ songList, page % 256 ≠ 128 ∧ (pageSize < total → total - pageSize < 2 ^ 31) ∧
            (message.array = false → firstCount total pageSize = 0 ∧ replies (-1)) ∧
            (message.array = true → ArrayFits (firstCount total pageSize) ∧
              Runs (parseObjArray message.songAlloc (firstCount total pageSize).toNat text)
                fun songs =>
                  FormatFits id type (fill (firstCount total pageSize).toNat songs) ∧ replies 0)

def SyncMeets (message : Message) (params : List UInt8) (replies : ℤ → Prop) : Prop :=
  Runs (syncNumbers message.alloc (params ++ [0])) fun numbers =>
    (numbers.complete = false → replies (-1001)) ∧
      (numbers.complete = true →
        ListMeets message (params ++ [0]) (numbers.id.getD 0) (numbers.type.getD 0)
          (numbers.total.getD 0) (numbers.pageSize.getD 0) (numbers.page.getD 0) replies)

def AddMeets (message : Message) (doc : Ptr) (music : Music) : Prop :=
  music.songList.totalSong + 1 < 2 ^ 31 ∧
    (message.array = true → ArrayFits (music.songList.totalSong + 1) ∧
      Runs (getText message.alloc doc (ascii "params")) fun params =>
        ∃ text, params = some text ∧ Runs (parseSongInfo message.alloc (text ++ [0])) fun song =>
          FormatFits music.songList.id music.songList.type (music.songList.songs ++ [song]))

def SongMeets (message : Message) (doc : Ptr) (music : Music) : Prop :=
  Runs (getInt32 message.alloc doc (ascii "code")) fun code => code = some 0 →
    Runs (getInt32 message.alloc doc (ascii "params.songId")) fun songId => ∀ id ∈ songId,
      Runs (findSong music.songList id) fun found =>
        (found = none → AddMeets message doc music) ∧
          (found ≠ none → Runs (getText message.alloc doc (ascii "params.songURL")) fun url =>
            ∃ text, url = some text ∧ text.length ≤ 512)

/-- What a page has to meet: if a block is handed out for the longer array, that is of
the size of the array, and the size of the page is not negative; it was not stored before
and can be noted, there is a page to ask for if songs are left, and the text of the longer
list fits. -/
def PageMeets (message : Message) (doc : Ptr) (pageSize page total : ℤ) (music : Music) : Prop :=
  (-2 ^ 31 ≤ music.songList.totalSong + pageSize ∧ music.songList.totalSong + pageSize < 2 ^ 31) ∧
    (message.array = true → ArrayFits (music.songList.totalSong + pageSize) ∧
      0 ≤ pageSize ∧ page % 256 ≠ 128 ∧
        (music.songList.totalSong + pageSize < total →
          ∃ i : ℕ, i < 128 ∧ (i : ℤ) ≠ page % 256 ∧
            test music.songList.pageBitmap i = some false) ∧
        page ∉ music.pages ∧ Runs (getText message.alloc doc (ascii "params.songList"))
          fun songList =>
          Runs (pageSongs message pageSize songList) fun songs =>
            FormatFits music.songList.id music.songList.type
              (music.songList.songs ++ fill pageSize.toNat songs))

def ReplyMeets (message : Message) (doc : Ptr) (music : Music) : Prop :=
  Runs (getInt32 message.alloc doc (ascii "code")) fun code => code = some 0 →
    Runs (getUint64 message.alloc doc (ascii "params.id")) fun id =>
      id = some music.songList.id →
        Runs (getInt32 message.alloc doc (ascii "params.pageSize")) fun pageSize =>
          Runs (getInt32 message.alloc doc (ascii "params.page")) fun page =>
            Runs (getInt32 message.alloc doc (ascii "params.total")) fun total =>
              PageMeets message doc (pageSize.getD 0) (page.getD 0) (total.getD 0) music

def Meets (music : Music) (message : Message) : Prop :=
  Runs (getText message.alloc (message.text.val ++ [0]) (ascii "method")) fun method =>
    Runs (getText message.alloc (message.text.val ++ [0]) (ascii "clientToken")) fun token =>
      ∃ name, method = some name ∧
        if (ascii "qqmusic_sync_song_list").isPrefixOf name then
          Runs (getText message.alloc (message.text.val ++ [0]) (ascii "params")) fun params =>
            (params = none → (syncReplyText token (-1)).length < 512) ∧
              ∀ text ∈ params, SyncMeets message text fun rc =>
                (syncReplyText token rc).length < 512
        else if (ascii "qqmusic_query_song_reply").isPrefixOf name then
          SongMeets message (message.text.val ++ [0]) music
        else if (ascii "qqmusic_query_song_list_reply").isPrefixOf name then
          ReplyMeets message (message.text.val ++ [0]) music
        else True

end Conditions

section Steps
variable {message : Message} {doc : Ptr} {music : Music}

/-- The rule for the page that comes first. -/
theorem runs_firstPage {list : SongList} {total pageSize : ℤ}
    (hclear : ∃ i < 128, test list.pageBitmap i = some false) (post : ℤ → Prop) :
    Runs (firstPage list total pageSize) (fun first => post first.1) ↔
      (pageSize < total → total - pageSize < 2 ^ 31) ∧ post (firstCount total pageSize) := by
  unfold firstPage firstCount
  by_cases hall : total ≤ pageSize
  · have hnot : ¬ pageSize < total := by omega
    rw [if_pos hall, if_pos hall, runs_ok]
    exact (and_iff_right fun h => absurd h hnot).symm
  · have hmore : pageSize < total := by omega
    rw [if_neg hall, if_neg hall]
    simp only [runs_bind, queryNext, runs_pure]
    rw [runs_congr fun left _ => runs_firstZero list.pageBitmap (post pageSize), runs_int32,
      and_iff_right hclear]
    constructor
    · rintro ⟨⟨-, hlt⟩, hpost⟩
      exact ⟨fun _ => hlt, hpost⟩
    · rintro ⟨hlt, hpost⟩
      exact ⟨⟨by omega, hlt hmore⟩, hpost⟩

/-- The rule for the array of the first page: without one the list has no elements,
whatever it counts. -/
theorem storeFirstPage_iff {text : List UInt8} {page : ℤ} {playSongId : ℕ} {queries : List Event}
    (replies : ℤ → Prop) (hrunning : music.halted = false) (hpages : music.pages = [])
    (hnone : music.songList.songInfoArray = none) :
    Runs (storeFirstPage message text page playSongId queries music)
        (fun result => Right result.2.1 ∧ replies result.1) ↔
      (message.array = false → music.songList.totalSong = 0 ∧ replies (-1)) ∧
        (message.array = true → ArrayFits music.songList.totalSong ∧
          Runs (parseObjArray message.songAlloc music.songList.totalSong.toNat text) fun songs =>
            FormatFits music.songList.id music.songList.type
              (fill music.songList.totalSong.toNat songs) ∧ replies 0) := by
  have hempty : Right music ↔ music.songList.totalSong = 0 := by
    constructor
    · intro hright
      have hsize := hright.size
      rw [SizeRight, SongList.songs, hnone] at hsize
      exact hsize.symm
    · intro hcount
      refine ⟨hrunning, ?_, hpages ▸ List.nodup_nil⟩
      rw [SizeRight, SongList.songs, hnone, hcount]
      rfl
  unfold storeFirstPage
  dsimp only
  rw [runs_bind, runs_mallocSongs]
  refine and_congr (imp_congr_right fun _ => ?_)
    (imp_congr_right fun _ => and_congr_right fun hfits => ?_)
  · rw [if_pos (by rfl), runs_pure, hempty]
  · rw [if_neg (by decide), runs_bind]
    apply runs_congr
    intro songs hsongs
    have hlonger : SizeRight { music.songList with
        songInfoArray := some (fill music.songList.totalSong.toNat songs) } := by
      have hcount := hfits.1
      simp only [SizeRight, SongList.songs, Option.getD_some,
        fill_length (parseObjects_length hsongs)]
      omega
    rw [runs_bind]
    simp only [runs_pure]
    refine (runs_format hlonger _).trans (and_congr_right fun _ => and_iff_right ?_)
    exact ⟨hrunning, hlonger, List.nodup_cons.mpr ⟨List.not_mem_nil, List.nodup_nil⟩⟩

/-- Behind the first page that is noted in an empty bitmap there is one to ask for. -/
theorem exists_clear {empty bitmap : UtilsBitmap} {page : ℤ} (hempty : empty = fun _ => 0)
    (hbits : ∀ i < 128,
      test bitmap i = if (i : ℤ) = page % 256 then some true else test empty i) :
    ∃ i < 128, test bitmap i = some false := by
  have hfree : ∀ i : ℕ, i < 128 → (i : ℤ) ≠ page % 256 → test bitmap i = some false := by
    intro i hi hne
    rw [hbits i hi, if_neg hne, hempty, test_zero (by omega)]
  by_cases hpage : page % 256 = 0
  · exact ⟨1, by decide, hfree 1 (by decide) (by omega)⟩
  · exact ⟨0, by decide, hfree 0 (by decide) (by omega)⟩

variable (music) in
theorem storeSongList_iff {total pageSize page : ℤ} (playSongId : ℕ) (replies : ℤ → Prop)
    (hrunning : music.halted = false) (hpages : music.pages = [])
    (hzero : music.songList.totalSong = 0) (harray : music.songList.songInfoArray = none)
    (hbitmap : music.songList.pageBitmap = fun _ => 0) :
    Runs (storeSongList message doc total pageSize page playSongId music)
        (fun result => Right result.2.1 ∧ replies result.1) ↔
      ListMeets message doc music.songList.id music.songList.type total pageSize page replies := by
  unfold storeSongList ListMeets
  rw [runs_bind]
  apply runs_congr
  intro name _
  rw [runs_bind]
  refine (runs_congr fun nameArray _ => ?_).trans (runs_copyText 128 name _)
  rw [runs_bind]
  apply runs_congr
  intro songList _
  cases songList with
  | none =>
    have hright : Right { music with songList := { music.songList with name := nameArray } } := by
      refine ⟨hrunning, ?_, hpages ▸ List.nodup_nil⟩
      simp only [SizeRight, SongList.songs, harray, hzero]
      rfl
    dsimp only
    rw [runs_pure]
    constructor
    · intro h
      exact ⟨fun _ => h.2, fun text htext => by cases htext⟩
    · intro h
      exact ⟨hright, h.1 rfl⟩
  | some text =>
    simp only [reduceCtorEq, IsEmpty.forall_iff, true_and, Option.mem_some_iff, forall_eq']
    rw [runs_bind]
    refine runs_setBit _ page _ _ fun bitmap hbits => ?_
    have hclear := exists_clear hbitmap hbits
    rw [runs_bind]
    refine (runs_congr fun first _ => ?_).trans (runs_firstPage hclear fun count =>
      (message.array = false → count = 0 ∧ replies (-1)) ∧
        (message.array = true → ArrayFits count ∧
          Runs (parseObjArray message.songAlloc count.toNat text) fun songs =>
            FormatFits music.songList.id music.songList.type (fill count.toNat songs) ∧ replies 0))
    exact storeFirstPage_iff replies hrunning hpages harray

theorem syncSongList_iff (token : Option (List UInt8)) (hright : Right music) :
    Runs (syncSongList message doc token music) (fun result => Right result.1) ↔
      Runs (getText message.alloc doc (ascii "params")) fun params =>
        (params = none → (syncReplyText token (-1)).length < 512) ∧
          ∀ text ∈ params, SyncMeets message text fun rc =>
            (syncReplyText token rc).length < 512 := by
  unfold syncSongList
  rw [runs_bind]
  apply runs_congr
  intro params _
  rw [runs_bind]
  -- the reply is written whatever became of the list
  have hreply : ∀ result : ℤ × Music × List Event,
      Runs (if (syncReplyText token result.1).length < 512 then
          pure (result.2.1, result.2.2 ++ [.replied (syncReplyText token result.1)])
        else .error .memory : Except Fault (Music × List Event)) (fun result => Right result.1) ↔
      Right result.2.1 ∧ (syncReplyText token result.1).length < 512 := by
    intro result
    split
    next hfits => rw [runs_pure, and_iff_left hfits]
    next hlong =>
      rw [runs_error, false_iff]
      exact fun h => hlong h.2
  refine (runs_congr fun result _ => hreply result).trans ?_
  unfold syncParams
  cases params with
  | none =>
    dsimp only
    rw [runs_ok, and_iff_right hright]
    simp
  | some params =>
    simp only [reduceCtorEq, IsEmpty.forall_iff, true_and, Option.mem_some_iff, forall_eq']
    unfold qqmusicParseSongList SyncMeets
    rw [runs_bind]
    apply runs_congr
    intro numbers _
    cases hcomplete : numbers.complete with
    | false =>
      have hcleared : Right { music with songList := numbers.list, pages := [] } :=
        ⟨hright.running, rfl, List.nodup_nil⟩
      rw [if_neg Bool.false_ne_true, runs_pure, and_iff_right hcleared]
      simp
    | true =>
      rw [if_pos rfl]
      simp only [Bool.true_eq_false, IsEmpty.forall_iff, true_and, forall_const]
      exact storeSongList_iff { music with songList := numbers.list, pages := [] } _
        (fun rc => (syncReplyText token rc).length < 512) hright.running rfl rfl rfl rfl

theorem runs_copySongs {list : SongList} (hsize : SizeRight list) (more : ℤ)
    (post : List Song → Prop) :
    Runs (copySongs list more) post ↔ 0 ≤ more ∧ post list.songs := by
  unfold SizeRight at hsize
  have htake : list.songs.take list.totalSong.toNat = list.songs := by
    apply List.take_of_length_le
    omega
  unfold copySongs
  rw [htake]
  by_cases hmore : more < 0
  · rw [if_pos (.inr (.inl hmore)), runs_error, false_iff]
    omega
  · rw [if_neg (by omega), runs_ok, and_iff_right (by omega)]

theorem addSong_iff (hright : Right music) :
    Runs (addSong message doc music) (fun result => Right result.1) ↔
      AddMeets message doc music := by
  have hsize := hright.size
  unfold SizeRight at hsize
  unfold addSong AddMeets
  dsimp only
  rw [runs_bind]
  have hint : (-2 ^ 31 ≤ music.songList.totalSong + 1 ∧ music.songList.totalSong + 1 < 2 ^ 31) ↔
      music.songList.totalSong + 1 < 2 ^ 31 := by omega
  rw [runs_int32, hint]
  refine and_congr_right fun _ => ?_
  rw [runs_bind, runs_mallocSongs]
  refine (and_iff_right fun _ => ?_).trans
    (imp_congr_right fun _ => and_congr_right fun _ => ?_)
  · rw [if_pos (by rfl), runs_pure]
    exact hright
  · rw [if_neg (by decide), runs_bind, runs_copySongs hright.size, and_iff_right (by decide),
      runs_bind]
    apply runs_congr
    intro params _
    cases params with
    | none => simp
    | some text =>
      simp only [Option.some_inj, exists_eq_left']
      rw [runs_bind]
      apply runs_congr
      intro song _
      rw [runs_bind]
      simp only [runs_pure]
      have hlonger : SizeRight { music.songList with
          totalSong := music.songList.totalSong + 1
          songInfoArray := some (music.songList.songs ++ [song]) } := by
        simp only [SizeRight, SongList.songs, Option.getD_some, List.length_append,
          List.length_singleton] at hsize ⊢
        omega
      exact (runs_format hlonger _).trans (and_iff_left ⟨hright.running, hlonger, hright.once⟩)

theorem songReply_iff (hright : Right music) :
    Runs (songReply message doc music) (fun result => Right result.1) ↔
      SongMeets message doc music := by
  unfold songReply SongMeets
  rw [runs_bind]
  apply runs_congr
  intro code _
  by_cases hcode : code = some 0
  · rw [if_neg (not_not.mpr hcode), runs_bind, forall_prop_of_true hcode]
    apply runs_congr
    intro songId _
    cases songId with
    | none => exact iff_of_true hright fun id hid => by cases hid
    | some id =>
      simp only [Option.mem_some_iff, forall_eq']
      rw [runs_bind]
      apply runs_congr
      intro found _
      cases found with
      | none => simpa using addSong_iff hright
      | some i =>
        simp only [reduceCtorEq, IsEmpty.forall_iff, true_and, ne_eq, not_false_eq_true,
          forall_const]
        rw [runs_bind]
        apply runs_congr
        intro url _
        cases url with
        | none => simp
        | some text =>
          simp only [Option.some_inj, exists_eq_left']
          rw [runs_bind]
          simp only [runs_pure]
          refine (runs_congr fun urlArray _ => ?_).trans
            ((runs_copyText 512 (some text) True).trans ?_)
          · refine iff_of_true ⟨hright.running, ?_, hright.once⟩ trivial
            have hsize := hright.size
            simp only [SizeRight, SongList.songs, Option.getD_some, List.length_modify] at hsize ⊢
            exact hsize
          · simp
  · rw [if_pos hcode, runs_pure]
    exact iff_of_true hright fun h => absurd h hcode

/-- A further page is asked for if songs are left. -/
theorem runs_laterPage (list : SongList) (total : ℤ) (p : Prop) :
    Runs (laterPage list total) (fun _ => p) ↔
      (list.totalSong < total → ∃ i < 128, test list.pageBitmap i = some false) ∧ p := by
  unfold laterPage
  by_cases hleft : list.totalSong < total
  · rw [if_pos hleft, runs_map, queryNext, runs_bind]
    simp only [runs_pure]
    rw [runs_firstZero, forall_prop_of_true hleft]
  · rw [if_neg hleft, runs_ok]
    exact (and_iff_right fun h => absurd h hleft).symm

theorem pageSongs_length {pageSize : ℤ} {songList : Option (List UInt8)} {songs : List Song}
    (h : pageSongs message pageSize songList = .ok songs) : songs.length ≤ pageSize.toNat := by
  cases songList with
  | none =>
    obtain rfl := Except.ok.inj h
    exact Nat.zero_le _
  | some text => exact parseObjects_length h

theorem appendPage_iff {pageSize page total : ℤ} (hright : Right music) :
    Runs (appendPage message doc pageSize page total music) (fun result => Right result.1) ↔
      PageMeets message doc pageSize page total music := by
  have hsize := hright.size
  unfold appendPage PageMeets
  dsimp only
  rw [runs_bind, runs_int32]
  refine and_congr_right fun _ => ?_
  rw [runs_bind, runs_mallocSongs]
  refine (and_iff_right fun _ => ?_).trans
    (imp_congr_right fun _ => and_congr_right fun _ => ?_)
  · rw [if_pos (by rfl), runs_pure]
    exact hright
  · rw [if_neg (by decide), runs_bind, runs_copySongs hsize]
    refine and_congr_right fun hpageSize => ?_
    rw [← and_assoc, ← and_assoc, runs_bind]
    refine (runs_congr fun songList _ => ?_).trans (runs_and _)
    rw [runs_bind]
    refine (runs_congr fun songs hsongs => ?_).trans (runs_and _)
    rw [and_assoc, and_assoc, runs_bind]
    refine runs_setBit _ page _ _ fun bitmap hbits => ?_
    have hfree : (∃ i < 128, test bitmap i = some false) ↔ ∃ i : ℕ, i < 128 ∧
        (i : ℤ) ≠ page % 256 ∧ test music.songList.pageBitmap i = some false := by
      refine exists_congr fun i => and_congr_right fun hi => ?_
      rw [hbits i hi]
      by_cases hpage : (i : ℤ) = page % 256
      · simp [hpage]
      · simp [hpage]
    have hlonger : SizeRight { music.songList with
        totalSong := music.songList.totalSong + pageSize
        pageBitmap := bitmap
        songInfoArray := some (music.songList.songs ++ fill pageSize.toNat songs) } := by
      have hfill := fill_length (pageSongs_length hsongs)
      simp only [SizeRight, SongList.songs, Option.getD_some, List.length_append] at hsize ⊢
      omega
    rw [runs_bind, ← hfree]
    refine (runs_congr fun queries _ => ?_).trans (runs_laterPage _ total _)
    rw [runs_bind]
    simp only [runs_pure]
    refine (runs_format hlonger _).trans (and_comm.trans (and_congr_left fun _ => ?_))
    constructor
    · intro hright'
      exact (List.nodup_cons.mp hright'.once).1
    · intro hpage
      exact ⟨hright.running, hlonger, List.nodup_cons.mpr ⟨hpage, hright.once⟩⟩

theorem songListReply_iff (hright : Right music) :
    Runs (songListReply message doc music) (fun result => Right result.1) ↔
      ReplyMeets message doc music := by
  unfold songListReply ReplyMeets
  rw [runs_bind]
  apply runs_congr
  intro code _
  by_cases hcode : code = some 0
  · rw [if_neg (not_not.mpr hcode), runs_bind, forall_prop_of_true hcode]
    apply runs_congr
    intro id _
    by_cases hid : id = some music.songList.id
    · rw [if_neg (not_not.mpr hid), runs_bind, forall_prop_of_true hid]
      apply runs_congr
      intro pageSize _
      rw [runs_bind]
      apply runs_congr
      intro page _
      rw [runs_bind]
      apply runs_congr
      intro total _
      exact appendPage_iff hright
    · rw [if_pos hid, runs_pure]
      exact iff_of_true hright fun h => absurd h hid
  · rw [if_pos hcode, runs_pure]
    exact iff_of_true hright fun h => absurd h hcode

theorem qqmusicDownMessageCallback_iff (hright : Right music) :
    Runs (qqmusicDownMessageCallback message music) (fun result => Right result.1) ↔
      Meets music message := by
  unfold qqmusicDownMessageCallback Meets
  dsimp only
  rw [runs_bind]
  apply runs_congr
  intro method _
  rw [runs_bind]
  apply runs_congr
  intro token _
  cases method with
  | none => simp
  | some name =>
    simp only [Option.some_inj, exists_eq_left']
    split
    · exact syncSongList_iff token hright
    · split
      · exact songReply_iff hright
      · split
        · exact songListReply_iff hright
        · exact iff_of_true hright trivial

/-- A message keeps the list right exactly if it meets what the code relies on. -/
theorem step_right_iff (hright : Right music) :
    Right (step message music).1 ↔ Meets music message := by
  rw [← qqmusicDownMessageCallback_iff hright]
  have hrunning : ¬ music.halted = true := by simp [hright.running]
  unfold step
  rw [if_neg hrunning]
  cases qqmusicDownMessageCallback message music with
  | error fault =>
    refine iff_of_false ?_ id
    intro h
    cases h.running
  | ok result => exact Iff.rfl

end Steps

section Runs

/-- Every state that is reached is right exactly if every message meets what the code
relies on. -/
theorem run_right_iff (syncCallback playCallback : Bool) (messages : List Message) :
    Along step (fun music message => Right (step message music).1) messages
        (.init syncCallback playCallback) ↔
      Along step Meets messages (.init syncCallback playCallback) := by
  apply along_invariant_iff
  · intro music message hright
    exact step_right_iff hright
  · exact ⟨rfl, rfl, List.nodup_nil⟩

end Runs

end IotExplorer.QqMusicRuns
