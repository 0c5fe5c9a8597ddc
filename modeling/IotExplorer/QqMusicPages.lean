import IotExplorer.QqMusicRuns

/-!
A song list that the cloud sends in pages of PAGE_SIZE songs: one message of
synchronization with the first page, and an answer to every query of the client.
The state between two answers is that of a list whose first pages are stored; each
answer stores the next page and has the one behind it queried. The session ends
with the whole list exactly if there is memory for every page and the texts fit.
-/
namespace IotExplorer.QqMusicPages

open Basis.Runs Basis.Outcomes Basis.Bitmap Basis.Decimals JsonParser TemplateJson DeviceProperty
open QqMusicClient
  QqMusicRuns

section Lists

structure CloudList where
  type : ℤ
  quality : ℤ
  id : ℕ
  songs : List Song

namespace CloudList
variable (list : CloudList) (k : ℕ)

def front : List Song := list.songs.take (10 * k)

/-- The songs of a page; pages are numbered from zero. -/
def page : List Song := (list.songs.drop (10 * k)).take 10

def lastPage : ℕ := (list.songs.length - 1) / 10

/-- The query for a page: with fewer songs than a page has, so many are asked for. -/
def query : Query :=
  ⟨list.type, list.quality, list.id, k, min (list.songs.length - 10 * k : ℕ) 10⟩

/-- The query for a page that the list has. -/
def next : List Query := if 10 * k < list.songs.length then [list.query k] else []

theorem page_length : (list.page k).length = min 10 (list.songs.length - 10 * k) := by
  rw [page, List.length_take, List.length_drop]

theorem front_length : (list.front k).length = min (10 * k) list.songs.length :=
  List.length_take

theorem front_succ : list.front (k + 1) = list.front k ++ list.page k := by
  unfold front page
  rw [Nat.mul_succ, List.take_add]

theorem front_of_le {k : ℕ} (h : list.songs.length ≤ 10 * k) : list.front k = list.songs :=
  List.take_of_length_le h

end CloudList

end Lists

section Messages
variable (message : Message) (list : CloudList)

/-- The message synchronizes the list: it has its numbers and its first page. -/
structure SyncSays (token name : Option (List UInt8)) : Prop where
  method : getText message.alloc (message.text.val ++ [0]) (ascii "method") =
    .ok (some (ascii "qqmusic_sync_song_list"))
  token : getText message.alloc (message.text.val ++ [0]) (ascii "clientToken") = .ok token
  params : ∃ params playSongId songList,
    getText message.alloc (message.text.val ++ [0]) (ascii "params") = .ok (some params) ∧
    syncNumbers message.alloc (params ++ [0]) =
      .ok ⟨some list.type, some list.quality, some list.songs.length, some list.id, some 10,
        some 0, some playSongId⟩ ∧
    getText message.alloc (params ++ [0]) (ascii "name") = .ok name ∧
    getText message.alloc (params ++ [0]) (ascii "songList") = .ok (some songList) ∧
    parseObjArray message.songAlloc (list.page 0).length songList = .ok (list.page 0)

/-- The message answers the query for a page of the list. -/
structure PageSays (k : ℕ) : Prop where
  method : getText message.alloc (message.text.val ++ [0]) (ascii "method") =
    .ok (some (ascii "qqmusic_query_song_list_reply"))
  token : ∃ token, getText message.alloc (message.text.val ++ [0]) (ascii "clientToken") = .ok token
  code : getInt32 message.alloc (message.text.val ++ [0]) (ascii "code") = .ok (some 0)
  id : getUint64 message.alloc (message.text.val ++ [0]) (ascii "params.id") = .ok (some list.id)
  pageSize : getInt32 message.alloc (message.text.val ++ [0]) (ascii "params.pageSize") =
    .ok (some (list.page k).length)
  page : getInt32 message.alloc (message.text.val ++ [0]) (ascii "params.page") = .ok (some k)
  total : getInt32 message.alloc (message.text.val ++ [0]) (ascii "params.total") =
    .ok (some list.songs.length)
  songs : ∃ songList,
    getText message.alloc (message.text.val ++ [0]) (ascii "params.songList") =
      .ok (some songList) ∧
    parseObjArray message.songAlloc (list.page k).length songList = .ok (list.page k)

end Messages

section Sessions

def asked (event : Event) : Option Query :=
  match event with
  | .queried query => some query
  | _ => none

/-- What has become of a session: the state, the queries that were answered, and those
that still wait. -/
structure Session where
  music : Music
  answered : List Query
  waiting : List Query

def exchange (answer : Query → Message) : ℕ → List Query → Music → Session
  | _, [], music => ⟨music, [], []⟩
  | 0, query :: waiting, music => ⟨music, [], query :: waiting⟩
  | steps + 1, query :: waiting, music =>
      let result := step (answer query) music
      let rest := exchange answer steps (waiting ++ result.2.filterMap asked) result.1
      { rest with answered := query :: rest.answered }

/-- A synchronization, and the answers to the queries behind it. -/
def session (answer : Query → Message) (steps : ℕ) (sync : Message) (music : Music) : Session :=
  let result := step sync music
  exchange answer steps (result.2.filterMap asked) result.1

end Sessions

section Stages

/-- The first pages of the list are stored, up to the k-th. -/
structure Stage (list : CloudList) (k : ℕ) (music : Music) : Prop where
  running : music.halted = false
  type : music.songList.type = list.type
  quality : music.songList.quality = list.quality
  id : music.songList.id = list.id
  count : music.songList.totalSong = (list.front (k + 1)).length
  songs : music.songList.songInfoArray = some (list.front (k + 1))
  bits : ∀ i < 128, test music.songList.pageBitmap i = some (decide (i ≤ k))

variable {list : CloudList} {k : ℕ} {music : Music} {message : Message}

theorem Stage.size (hstage : Stage list k music) : SizeRight music.songList := by
  rw [SizeRight, hstage.count, SongList.songs, hstage.songs]
  rfl

/-- The next page is asked for as long as songs are left. -/
theorem Stage.queryNext_eq (hstage : Stage list k music) (hpages : list.songs.length ≤ 1280)
    (hmore : 10 * (k + 1) < list.songs.length) :
    queryNext music.songList (list.songs.length - music.songList.totalSong) =
      .ok (.queried (list.query (k + 1))) := by
  have hclear : test music.songList.pageBitmap (k + 1) = some false := by
    rw [hstage.bits (k + 1) (by omega)]
    simp
  have hset : ∀ i < k + 1, test music.songList.pageBitmap i = some true := by
    intro i hi
    rw [hstage.bits i (by omega)]
    simp
    omega
  have hfirst : utilsGetBitmapFirstZero music.songList.pageBitmap = .ok (k + 1) := by
    unfold utilsGetBitmapFirstZero
    rw [firstClear_eq (by omega) hclear hset]
  have hleft : (list.songs.length : ℤ) - music.songList.totalSong =
      (list.songs.length - 10 * (k + 1) : ℕ) := by
    rw [hstage.count, list.front_length]
    omega
  unfold queryNext CloudList.query
  rw [hfirst, hleft, hstage.type, hstage.quality, hstage.id]
  rfl

theorem Stage.laterPage_eq (hstage : Stage list k music) (hpages : list.songs.length ≤ 1280) :
    ∃ queries, queries.filterMap asked = list.next (k + 1) ∧
      laterPage music.songList list.songs.length = .ok queries := by
  unfold laterPage CloudList.next
  have hcount : music.songList.totalSong < list.songs.length ↔
      10 * (k + 1) < list.songs.length := by
    rw [hstage.count, list.front_length]
    omega
  by_cases hmore : 10 * (k + 1) < list.songs.length
  · rw [if_pos (hcount.mpr hmore), hstage.queryNext_eq hpages hmore, if_pos hmore]
    exact ⟨[.queried (list.query (k + 1))], rfl, rfl⟩
  · rw [if_neg fun h => hmore (hcount.mp h), if_neg hmore]
    exact ⟨[], rfl, rfl⟩

theorem int32_page (hcount : music.songList.totalSong = (list.front (k + 1)).length)
    (hpages : list.songs.length ≤ 1280) :
    int32 (music.songList.totalSong + (list.page (k + 1)).length) =
      .ok ((list.front (k + 2)).length : ℤ) := by
  have hlonger : music.songList.totalSong + ((list.page (k + 1)).length : ℤ) =
      (list.front (k + 2)).length := by
    rw [hcount, list.front_succ (k + 1), List.length_append, Nat.cast_add]
  have hle : (list.front (k + 2)).length ≤ 1280 := by
    rw [list.front_length]
    omega
  unfold int32
  rw [hlonger]
  exact if_pos (by omega)

/-- The arrays of a session have few songs. -/
theorem mallocSongs_front (message : Message) (hpages : list.songs.length ≤ 1280) (k : ℕ) :
    mallocSongs message ((list.front k).length : ℤ) = .ok message.array := by
  have hle : (list.front k).length ≤ 1280 := by
    rw [list.front_length]
    omega
  have hfits : ArrayFits ((list.front k).length : ℤ) := by
    unfold ArrayFits songInfoSize
    omega
  unfold mallocSongs
  cases message.array with
  | false => rfl
  | true => rw [if_neg (by decide), if_pos hfits]

/-- A full page leaves no element that stays zero. -/
theorem fill_page (list : CloudList) (k : ℕ) :
    fill (list.page k).length (list.page k) = list.page k := by
  rw [fill, Nat.sub_self, List.replicate_zero, List.append_nil]

/-- With memory the next page is stored, and the one behind it is asked for, before the
list is printed. -/
theorem appendPage_eq (hstage : Stage list k music) (hpages : list.songs.length ≤ 1280)
    (hmore : 10 * (k + 1) < list.songs.length) (htold : PageSays message list (k + 1))
    (harray : message.array = true) :
    ∃ music' queries, Stage list (k + 1) music' ∧ queries.filterMap asked = list.next (k + 2) ∧
      appendPage message (message.text.val ++ [0]) (list.page (k + 1)).length (k + 1 : ℕ)
          list.songs.length music =
        (formatSongListString music').bind fun formatted =>
          .ok (music', queries ++ formatted) := by
  obtain ⟨songList, hlist, hparse⟩ := htold.songs
  have hfront : (list.front (k + 1)).length = 10 * (k + 1) := by
    rw [list.front_length]
    omega
  have hpage : (list.page (k + 1)).length = min 10 (list.songs.length - 10 * (k + 1)) :=
    list.page_length (k + 1)
  have hold : copySongs music.songList (list.page (k + 1)).length = .ok (list.front (k + 1)) := by
    unfold copySongs
    have hsongs : music.songList.songs = list.front (k + 1) := by
      rw [SongList.songs, hstage.songs]
      rfl
    rw [hstage.count, hsongs, if_neg (by omega), Int.toNat_natCast, List.take_length]
  have hindex : ((k + 1 : ℕ) : ℤ) % 256 = (k + 1 : ℕ) := by omega
  obtain ⟨bitmap, hbitmap, hbits⟩ : ∃ bitmap,
      utilsSetBitmapOnebit music.songList.pageBitmap (k + 1 : ℕ) = .ok bitmap ∧
        ∀ i < 128, test bitmap i = some (decide (i ≤ k + 1)) := by
    rcases utilsSetBitmapOnebit_cases music.songList.pageBitmap (k + 1 : ℕ) with
      ⟨hout, -⟩ | ⟨-, bitmap, hbitmap, hbits⟩
    · omega
    · refine ⟨bitmap, hbitmap, fun i hi => ?_⟩
      rw [hbits i hi, hindex, hstage.bits i hi]
      by_cases hnew : i = k + 1
      · simp [hnew]
      · have hle : i ≤ k + 1 ↔ i ≤ k := by omega
        rw [if_neg (by omega), decide_eq_decide.mpr hle]
  have hstored : Stage list (k + 1)
      { music with
        songList :=
          { music.songList with
            totalSong := (list.front (k + 2)).length
            pageBitmap := bitmap
            songInfoArray := some (list.front (k + 2)) }
        pages := ((k + 1 : ℕ) : ℤ) :: music.pages } :=
    ⟨hstage.running, hstage.type, hstage.quality, hstage.id, rfl, rfl, hbits⟩
  obtain ⟨queries, hasked, hlater⟩ := hstored.laterPage_eq hpages
  refine ⟨_, queries, hstored, hasked, ?_⟩
  unfold appendPage
  dsimp only
  rw [int32_page hstage.count hpages, ok_bind, mallocSongs_front message hpages, ok_bind,
    if_neg (by simp [harray]), hold, ok_bind, hlist, ok_bind]
  dsimp only [pageSongs]
  rw [Int.toNat_natCast, hparse, ok_bind, hbitmap, ok_bind, fill_page, ← list.front_succ, hlater,
    ok_bind]
  rfl

/-- An answer about a page goes to the part for pages. -/
theorem callback_page (hid : music.songList.id = list.id) (htold : PageSays message list k) :
    qqmusicDownMessageCallback message music =
      appendPage message (message.text.val ++ [0]) (list.page k).length k list.songs.length
        music := by
  obtain ⟨token, htoken⟩ := htold.token
  have hsync : ¬ (ascii "qqmusic_sync_song_list").isPrefixOf
      (ascii "qqmusic_query_song_list_reply") = true := by decide
  have hsong : ¬ (ascii "qqmusic_query_song_reply").isPrefixOf
      (ascii "qqmusic_query_song_list_reply") = true := by decide
  have hpage : (ascii "qqmusic_query_song_list_reply").isPrefixOf
      (ascii "qqmusic_query_song_list_reply") = true := by decide
  unfold qqmusicDownMessageCallback
  dsimp only
  rw [htold.method, ok_bind, htoken, ok_bind]
  dsimp only
  rw [if_neg hsync, if_neg hsong, if_pos hpage, songListReply, htold.code, ok_bind,
    if_neg (not_not.mpr rfl), htold.id, ok_bind, hid, if_neg (not_not.mpr rfl), htold.pageSize,
    ok_bind, htold.page, ok_bind, htold.total, ok_bind]
  rfl

theorem step_of_ok {result : Music × List Event} (hrunning : music.halted = false)
    (h : qqmusicDownMessageCallback message music = .ok result) : step message music = result := by
  unfold step
  rw [if_neg (by simp [hrunning]), h]

theorem step_of_error {fault : Fault} (hrunning : music.halted = false)
    (h : qqmusicDownMessageCallback message music = .error fault) :
    (step message music).1.halted = true ∧ (step message music).2.filterMap asked = [] := by
  unfold step
  rw [if_neg (by simp [hrunning]), h]
  exact ⟨rfl, rfl⟩

/-- The events of printing ask for nothing. -/
theorem filterMap_asked_eq_nil {events : List Event} (h : events.all asksNothing = true) :
    events.filterMap asked = [] := by
  apply List.filterMap_eq_nil_iff.mpr
  intro event hevent
  have hnone := List.all_eq_true.mp h event hevent
  cases event with
  | queried query => cases hnone
  | formatted text => rfl
  | played songId => rfl
  | replied text => rfl
  | fault fault => rfl

/-- The answer about the next page: nothing is kept without memory, a text that does not
fit ends the run, and otherwise the page is stored. -/
theorem step_page_cases (hstage : Stage list k music) (hpages : list.songs.length ≤ 1280)
    (hmore : 10 * (k + 1) < list.songs.length) (htold : PageSays message list (k + 1)) :
    (message.array = false ∧ step message music = (music, [])) ∨
    (message.array = true ∧ ¬ FormatFits list.id list.type (list.front (k + 2)) ∧
      (step message music).1.halted = true ∧ (step message music).2.filterMap asked = []) ∨
    (message.array = true ∧ FormatFits list.id list.type (list.front (k + 2)) ∧
      Stage list (k + 1) (step message music).1 ∧
      (step message music).2.filterMap asked = list.next (k + 2)) := by
  have hcallback := callback_page hstage.id htold
  cases harray : message.array with
  | false =>
    left
    refine ⟨rfl, step_of_ok hstage.running (hcallback.trans ?_)⟩
    unfold appendPage
    dsimp only
    rw [int32_page hstage.count hpages, ok_bind, mallocSongs_front message hpages, ok_bind,
      if_pos (by simp [harray])]
    rfl
  | true =>
    right
    obtain ⟨music', queries, hstored, hasked, hpage⟩ :=
      appendPage_eq hstage hpages hmore htold harray
    rw [hpage] at hcallback
    have hsongs : music'.songList.songs = list.front (k + 2) := by
      rw [SongList.songs, hstored.songs]
      rfl
    rcases formatSongListString_cases hstored.size with ⟨hfits, events, hformat, hnone⟩ |
      ⟨hlong, hformat⟩
    · right
      rw [hstored.id, hstored.type, hsongs] at hfits
      rw [hformat] at hcallback
      rw [step_of_ok hstage.running hcallback, List.filterMap_append, hasked,
        filterMap_asked_eq_nil hnone, List.append_nil]
      exact ⟨rfl, hfits, hstored, rfl⟩
    · left
      rw [hstored.id, hstored.type, hsongs] at hlong
      rw [hformat] at hcallback
      exact ⟨rfl, hlong, step_of_error hstage.running hcallback⟩

/-- The first page is counted, and the next one asked for, before there is an array. -/
theorem Stage.firstPage_eq (hstage : Stage list 0 music) (hpages : list.songs.length ≤ 1280) :
    ∃ queries, queries.filterMap asked = list.next 1 ∧
      firstPage { music.songList with totalSong := 0, songInfoArray := none } list.songs.length 10 =
        .ok (music.songList.totalSong, queries) := by
  have hcount : music.songList.totalSong = (min 10 list.songs.length : ℕ) := by
    rw [hstage.count, list.front_length]
  unfold firstPage CloudList.next
  by_cases hmore : 10 * 1 < list.songs.length
  · have hten : music.songList.totalSong = 10 := by omega
    have hint : int32 ((list.songs.length : ℤ) - 10) = .ok ((list.songs.length : ℤ) - 10) := by
      unfold int32
      exact if_pos (by omega)
    have hquery := hstage.queryNext_eq hpages hmore
    rw [hten] at hquery ⊢
    have hquery' : queryNext { music.songList with totalSong := 0, songInfoArray := none }
        ((list.songs.length : ℤ) - 10) = .ok (.queried (list.query 1)) := hquery
    rw [if_pos hmore, if_neg (by omega), hint, ok_bind, hquery']
    exact ⟨_, rfl, rfl⟩
  · rw [if_neg hmore, if_pos (by omega), hcount, Nat.min_eq_right (by omega)]
    exact ⟨[], rfl, rfl⟩

/-- The first page is stored if there is memory for it. -/
theorem storeSongList_eq {doc : Ptr} {name : Option (List UInt8)} {songList : List UInt8}
    (playSongId : ℕ) (hrunning : music.halted = false) (hpages : list.songs.length ≤ 1280)
    (hname : getText message.alloc doc (ascii "name") = .ok name) {nameArray : CharArray 128}
    (hcopy : copyText 128 name = .ok nameArray)
    (hlist : getText message.alloc doc (ascii "songList") = .ok (some songList))
    (hparse : parseObjArray message.songAlloc (list.page 0).length songList = .ok (list.page 0)) :
    ∃ music' queries, Stage list 0 music' ∧ queries.filterMap asked = list.next 1 ∧
      storeSongList message doc list.songs.length 10 0 playSongId
          { music with
            songList :=
              { SongList.zero with type := list.type, quality := list.quality, id := list.id }
            pages := [] } =
        if message.array then
          (formatSongListString music').bind fun formatted =>
            .ok (0, music', queries ++ formatted ++ playSong music' playSongId)
        else
          .ok (-1, { music' with
            songList := { music'.songList with songInfoArray := none }
            pages := [] }, queries) := by
  obtain ⟨bitmap, hbitmap, hbits⟩ : ∃ bitmap,
      utilsSetBitmapOnebit SongList.zero.pageBitmap 0 = .ok bitmap ∧
        ∀ i < 128, test bitmap i = some (decide (i ≤ 0)) := by
    rcases utilsSetBitmapOnebit_cases SongList.zero.pageBitmap 0 with
      ⟨hout, -⟩ | ⟨-, bitmap, hbitmap, hbits⟩
    · cases hout
    · refine ⟨bitmap, hbitmap, fun i hi => ?_⟩
      rw [hbits i hi]
      by_cases hnew : i = 0
      · simp [hnew]
      · rw [if_neg (by omega), SongList.zero, test_zero (by omega), decide_eq_false (by omega)]
  have hfront : list.front 1 = list.page 0 := by
    rw [list.front_succ 0]
    rfl
  have hstored : Stage list 0
      { music with
        songList :=
          { SongList.zero with
            type := list.type
            quality := list.quality
            id := list.id
            name := nameArray
            pageBitmap := bitmap
            totalSong := (list.front 1).length
            songInfoArray := some (list.front 1) }
        pages := [0] } :=
    ⟨hrunning, rfl, rfl, rfl, rfl, rfl, hbits⟩
  obtain ⟨queries, hasked, hfirst⟩ := hstored.firstPage_eq hpages
  have hfirst' : firstPage
      { SongList.zero with
        type := list.type
        quality := list.quality
        id := list.id
        name := nameArray
        pageBitmap := bitmap } list.songs.length 10 = .ok ((list.front 1).length, queries) := hfirst
  refine ⟨_, queries, hstored, hasked, ?_⟩
  unfold storeSongList
  dsimp only at hfirst' ⊢
  rw [hname, ok_bind, hcopy, ok_bind, hlist, ok_bind]
  dsimp only
  rw [hbitmap, ok_bind, hfirst', ok_bind]
  dsimp only
  rw [storeFirstPage]
  dsimp only
  rw [mallocSongs_front message hpages, ok_bind]
  cases message.array with
  | false => rfl
  | true =>
    rw [if_neg (by simp), if_pos rfl, Int.toNat_natCast, hfront, hparse, ok_bind, fill_page]
    rfl

/-- The message of synchronization is met by memory for the first page, and its name, the
token in the reply and the text of the list fit. -/
structure SyncFits (message : Message) (list : CloudList) (token name : Option (List UInt8)) :
    Prop where
  array : message.array = true
  name : ∀ text ∈ name, text.length ≤ 128
  reply : (syncReplyText token 0).length < 512
  format : FormatFits list.id list.type (list.front 1)

/-- The songs of the first page are counted, but there is no array. -/
structure Lost (list : CloudList) (music : Music) : Prop where
  running : music.halted = false
  id : music.songList.id = list.id
  count : music.songList.totalSong = (list.front 1).length
  songs : music.songList.songInfoArray = none

/-- A message of synchronization goes to the part for lists. -/
theorem callback_sync {token name : Option (List UInt8)} (music : Music)
    (htold : SyncSays message list token name) :
    ∃ doc playSongId songList,
      getText message.alloc doc (ascii "name") = .ok name ∧
      getText message.alloc doc (ascii "songList") = .ok (some songList) ∧
      parseObjArray message.songAlloc (list.page 0).length songList = .ok (list.page 0) ∧
      qqmusicDownMessageCallback message music =
        (storeSongList message doc list.songs.length 10 0 playSongId
          { music with
            songList :=
              { SongList.zero with type := list.type, quality := list.quality, id := list.id }
            pages := [] }).bind fun result =>
          if (syncReplyText token result.1).length < 512 then
            .ok (result.2.1, result.2.2 ++ [.replied (syncReplyText token result.1)])
          else .error .memory := by
  obtain ⟨params, playSongId, songList, hparams, hnumbers, hname, hlist, hparse⟩ := htold.params
  refine ⟨params ++ [0], playSongId, songList, hname, hlist, hparse, ?_⟩
  have hsync : (ascii "qqmusic_sync_song_list").isPrefixOf
      (ascii "qqmusic_sync_song_list") = true := by decide
  unfold qqmusicDownMessageCallback
  dsimp only
  rw [htold.method, ok_bind, htold.token, ok_bind]
  dsimp only
  rw [if_pos hsync, syncSongList, hparams, ok_bind]
  unfold syncParams qqmusicParseSongList
  dsimp only
  have hcomplete : SyncNumbers.complete ⟨some list.type, some list.quality,
      some list.songs.length, some list.id, some 10, some 0, some playSongId⟩ = true := rfl
  rw [hnumbers, ok_bind, if_pos hcomplete]
  rfl

/-- What a message of synchronization leaves: the first page is stored, or the run has
ended, or the page is counted without an array. -/
theorem step_sync_cases {token name : Option (List UInt8)} (hrunning : music.halted = false)
    (hpages : list.songs.length ≤ 1280) (htold : SyncSays message list token name) :
    (SyncFits message list token name ∧ Stage list 0 (step message music).1 ∧
      (step message music).2.filterMap asked = list.next 1) ∨
    (¬ SyncFits message list token name ∧ (step message music).1.halted = true ∧
      (step message music).2.filterMap asked = []) ∨
    (¬ SyncFits message list token name ∧ Lost list (step message music).1 ∧
      (step message music).2.filterMap asked = list.next 1) := by
  obtain ⟨doc, playSongId, songList, hname, hlist, hparse, hcallback⟩ := callback_sync music htold
  rcases copyText_cases 128 name with ⟨hfits, nameArray, hcopy⟩ | ⟨hlong, hcopy⟩
  · obtain ⟨music', queries, hstored, hasked, hstore⟩ :=
      storeSongList_eq playSongId hrunning hpages hname hcopy hlist hparse
    have hsongs : music'.songList.songs = list.front 1 := by
      rw [SongList.songs, hstored.songs]
      rfl
    rw [hstore] at hcallback
    cases harray : message.array with
    | false =>
      right
      rw [harray, if_neg Bool.false_ne_true] at hcallback
      have hnot : ¬ SyncFits message list token name := fun h => by
        cases harray.symm.trans h.array
      by_cases hreply : (syncReplyText token (-1)).length < 512
      · right
        have hstep := step_of_ok hrunning (hcallback.trans (if_pos hreply))
        rw [hstep, List.filterMap_append, hasked]
        exact ⟨hnot, ⟨hstored.running, hstored.id, hstored.count, rfl⟩, List.append_nil _⟩
      · left
        exact ⟨hnot, step_of_error hrunning (hcallback.trans (if_neg hreply))⟩
    | true =>
      rw [harray, if_pos rfl] at hcallback
      rcases formatSongListString_cases hstored.size with
        ⟨hformat, events, heq, hnone⟩ | ⟨hlong, heq⟩
      · rw [hstored.id, hstored.type, hsongs] at hformat
        rw [heq] at hcallback
        by_cases hreply : (syncReplyText token 0).length < 512
        · left
          have hstep := step_of_ok hrunning (hcallback.trans (if_pos hreply))
          have hplay : (playSong music' playSongId).filterMap asked = [] := by
            unfold playSong
            split <;> rfl
          rw [hstep]
          refine ⟨⟨harray, hfits, hreply, hformat⟩, hstored, ?_⟩
          simp only [List.filterMap_append, hasked, filterMap_asked_eq_nil hnone, hplay,
            List.append_nil]
          exact List.append_nil _
        · right
          left
          exact ⟨fun h => hreply h.reply, step_of_error hrunning (hcallback.trans (if_neg hreply))⟩
      · right
        left
        rw [hstored.id, hstored.type, hsongs] at hlong
        rw [heq] at hcallback
        exact ⟨fun h => hlong h.format, step_of_error hrunning hcallback⟩
  · right
    left
    have hstore : storeSongList message doc list.songs.length 10 0 playSongId
        { music with
          songList :=
            { SongList.zero with type := list.type, quality := list.quality, id := list.id }
          pages := [] } = .error .memory := by
      unfold storeSongList
      rw [hname, ok_bind, hcopy]
      rfl
    rw [hstore] at hcallback
    exact ⟨fun h => hlong h.name, step_of_error hrunning hcallback⟩

end Stages

section Exchanges
variable {list : CloudList} {answer : Query → Message} {steps k : ℕ} {music : Music}

/-- The session has ended with the whole list, and every page behind the k-th was asked
for once, in order. -/
structure SessionRight (list : CloudList) (k : ℕ) (session : Session) : Prop where
  running : session.music.halted = false
  count : session.music.songList.totalSong = list.songs.length
  songs : session.music.songList.songInfoArray = some list.songs
  answered : session.answered = (List.range' (k + 1) (list.lastPage - k)).map list.query
  waiting : session.waiting = []

/-- What the pages behind the k-th have to meet: memory for each, and a text of the whole
list that fits. -/
def PagesFit (list : CloudList) (answer : Query → Message) (k : ℕ) : Prop :=
  FormatFits list.id list.type list.songs ∧
    ∀ j, k < j → 10 * j < list.songs.length → (answer (list.query j)).array = true

@[simp] theorem exchange_nil : exchange answer steps [] music = ⟨music, [], []⟩ := by
  cases steps <;> rfl

theorem exchange_cons (query : Query) :
    exchange answer (steps + 1) [query] music =
      { exchange answer steps ((step (answer query) music).2.filterMap asked)
          (step (answer query) music).1 with
        answered := query ::
          (exchange answer steps ((step (answer query) music).2.filterMap asked)
            (step (answer query) music).1).answered } := rfl

/-- The text of fewer songs is not longer. -/
theorem formatFits_front {id : ℕ} {type : ℤ} (h : FormatFits id type list.songs) (k : ℕ) :
    FormatFits id type (list.front k) := by
  rcases h with hnone | hfits
  · left
    rw [CloudList.front, hnone, List.take_nil]
  · right
    have hsplit := List.take_append_drop (10 * k) list.songs
    rw [formatBody, ← hsplit, List.flatMap_append, ← List.append_assoc, List.length_append] at hfits
    exact (Nat.le_add_right _ _).trans hfits

/-- With all pages stored there is nothing left to ask for. -/
theorem exchange_stored_iff (hstage : Stage list k music)
    (hformat : FormatFits list.id list.type (list.front (k + 1)))
    (hall : list.songs.length ≤ 10 * (k + 1)) :
    SessionRight list k (exchange answer steps (list.next (k + 1)) music) ↔
      PagesFit list answer k := by
  have hlast : list.lastPage - k = 0 := by
    unfold CloudList.lastPage
    omega
  have hfront := list.front_of_le hall
  have hcount := hstage.count
  have hsongs := hstage.songs
  rw [hfront] at hformat hcount hsongs
  rw [CloudList.next, if_neg (by omega), exchange_nil]
  refine iff_of_true ⟨hstage.running, hcount, hsongs, ?_, rfl⟩ ⟨hformat, ?_⟩
  · rw [hlast]
    rfl
  · intro j hj hmore
    omega

/-- The pages behind the k-th are fetched one after the other, as long as there is memory
and the text fits. -/
theorem exchange_right_iff (hpages : list.songs.length ≤ 1280)
    (htold : ∀ j, 0 < j → 10 * j < list.songs.length → PageSays (answer (list.query j)) list j)
    (hsteps : list.lastPage ≤ k + steps) (hstage : Stage list k music)
    (hformat : FormatFits list.id list.type (list.front (k + 1))) :
    SessionRight list k (exchange answer steps (list.next (k + 1)) music) ↔
      PagesFit list answer k := by
  unfold CloudList.lastPage at hsteps
  induction steps generalizing k music with
  | zero => exact exchange_stored_iff hstage hformat (by omega)
  | succ steps ih =>
    by_cases hmore : 10 * (k + 1) < list.songs.length
    · have hlast : list.lastPage - k = list.lastPage - (k + 1) + 1 := by
        unfold CloudList.lastPage
        omega
      rw [CloudList.next, if_pos hmore, exchange_cons]
      rcases step_page_cases hstage hpages hmore (htold (k + 1) (by omega) hmore) with
        ⟨hmemory, hstep⟩ | ⟨hmemory, hlong, hhalted, hasked⟩ | ⟨hmemory, hfits, hstored, hasked⟩
      · rw [hstep]
        refine iff_of_false ?_ ?_
        · intro h
          have hsongs := h.songs
          simp only [List.filterMap_nil, exchange_nil, hstage.songs, Option.some_inj] at hsongs
          have hlen := congrArg List.length hsongs
          rw [list.front_length] at hlen
          omega
        · intro h
          cases hmemory.symm.trans (h.2 (k + 1) (by omega) hmore)
      · rw [hasked, exchange_nil]
        refine iff_of_false ?_ ?_
        · intro h
          cases hhalted.symm.trans h.running
        · intro h
          exact hlong (formatFits_front h.1 (k + 2))
      · rw [hasked]
        have hrest := ih (by omega) hstored hfits
        have hasks : (List.range' (k + 1) (list.lastPage - k)).map list.query =
            list.query (k + 1) ::
              (List.range' (k + 1 + 1) (list.lastPage - (k + 1))).map list.query := by
          rw [hlast, List.range'_succ, List.map_cons]
        constructor
        · rintro ⟨hrunning, hcount, hsongs, hanswered, hwaiting⟩
          rw [hasks] at hanswered
          obtain ⟨hformat, harray⟩ := hrest.mp
            ⟨hrunning, hcount, hsongs, (List.cons.inj hanswered).2, hwaiting⟩
          refine ⟨hformat, fun j hj hmore => ?_⟩
          rcases Nat.lt_or_ge (k + 1) j with hlater | hnext
          · exact harray j hlater hmore
          · obtain rfl : j = k + 1 := by omega
            exact hmemory
        · rintro ⟨hformat, harray⟩
          obtain ⟨hrunning, hcount, hsongs, hanswered, hwaiting⟩ := hrest.mpr
            ⟨hformat, fun j hj hmore => harray j (by omega) hmore⟩
          refine ⟨hrunning, hcount, hsongs, ?_, hwaiting⟩
          rw [hasks]
          exact congrArg _ hanswered
    · exact exchange_stored_iff hstage hformat (by omega)

/-- A list without an array never becomes the whole list. -/
theorem exchange_lost (hpages : list.songs.length ≤ 1280)
    (htold : ∀ j, 0 < j → 10 * j < list.songs.length → PageSays (answer (list.query j)) list j)
    (hsteps : list.lastPage ≤ steps) (hlost : Lost list music) :
    ¬ SessionRight list 0 (exchange answer steps (list.next 1) music) := by
  have hnone : ¬ SessionRight list 0 ⟨music, [], []⟩ ∧
      ¬ SessionRight list 0 ⟨music, [list.query 1], []⟩ := by
    constructor <;> exact fun h => by cases hlost.songs.symm.trans h.songs
  unfold CloudList.lastPage at hsteps
  by_cases hmore : 10 * 1 < list.songs.length
  · obtain ⟨steps, rfl⟩ : ∃ steps', steps = steps' + 1 := ⟨steps - 1, by omega⟩
    have hcallback := callback_page hlost.id (htold 1 Nat.one_pos hmore)
    unfold appendPage at hcallback
    dsimp only at hcallback
    rw [int32_page (k := 0) hlost.count hpages, ok_bind, mallocSongs_front _ hpages, ok_bind]
      at hcallback
    rw [CloudList.next, if_pos hmore, exchange_cons]
    cases harray : (answer (list.query 1)).array with
    | false =>
      rw [if_pos (by simp [harray])] at hcallback
      rw [step_of_ok hlost.running hcallback, List.filterMap_nil, exchange_nil]
      exact hnone.2
    | true =>
      have hcopy : copySongs music.songList (list.page 1).length = .error .memory := by
        unfold copySongs
        rw [hlost.count, SongList.songs, hlost.songs, list.front_length]
        exact if_pos (.inr (.inr (by simp; omega)))
      rw [if_neg (by simp [harray]), hcopy, error_bind] at hcallback
      obtain ⟨hhalted, hasked⟩ := step_of_error hlost.running hcallback
      rw [hasked, exchange_nil]
      exact fun h => by cases hhalted.symm.trans h.running
  · rw [CloudList.next, if_neg hmore, exchange_nil]
    exact hnone.1

/-- A list in pages of PAGE_SIZE songs is received as a whole exactly if its messages fit. -/
theorem session_right_iff {sync : Message} {token name : Option (List UInt8)}
    (hrunning : music.halted = false) (hpages : list.songs.length ≤ 1280)
    (hsync : SyncSays sync list token name)
    (htold : ∀ j, 0 < j → 10 * j < list.songs.length → PageSays (answer (list.query j)) list j)
    (hsteps : list.lastPage ≤ steps) :
    SessionRight list 0 (session answer steps sync music) ↔
      SyncFits sync list token name ∧ PagesFit list answer 0 := by
  unfold session
  dsimp only
  rcases step_sync_cases hrunning hpages hsync with
    ⟨hfits, hstored, hasked⟩ | ⟨hnot, hhalted, hasked⟩ | ⟨hnot, hlost, hasked⟩
  · rw [hasked, and_iff_right hfits]
    exact exchange_right_iff hpages htold (by omega) hstored hfits.format
  · rw [hasked, exchange_nil]
    refine iff_of_false ?_ fun h => hnot h.1
    intro h
    cases hhalted.symm.trans h.running
  · rw [hasked]
    exact iff_of_false (exchange_lost hpages htold hsteps hlost) fun h => hnot h.1

end Exchanges

section Runs
variable {list : CloudList} {answer : Query → Message} {steps : ℕ} {music : Music}

/-- In every run every state is right exactly if every message meets what the code relies
on; and a list that is sent in pages arrives as a whole exactly if its messages fit. -/
theorem song_lists_right_iff (syncCallback playCallback : Bool) (messages : List Message)
    {sync : Message} {token name : Option (List UInt8)} (hrunning : music.halted = false)
    (hpages : list.songs.length ≤ 128 * 10) (hsync : SyncSays sync list token name)
    (htold : ∀ k, 0 < k → 10 * k < list.songs.length → PageSays (answer (list.query k)) list k)
    (hsteps : list.lastPage ≤ steps) :
    (Along step (fun music message => Right (step message music).1) messages
        (.init syncCallback playCallback) ↔
      Along step Meets messages (.init syncCallback playCallback)) ∧
    (SessionRight list 0 (session answer steps sync music) ↔
      SyncFits sync list token name ∧ PagesFit list answer 0) := by
  constructor
  · exact run_right_iff syncCallback playCallback messages
  · exact session_right_iff hrunning hpages hsync htold hsteps

def member (key value : List UInt8) : List UInt8 :=
  ascii "\"" ++ key ++ (ascii "\":" ++ value ++ ascii ",")

def songTexts (ids : List ℕ) : List UInt8 :=
  let songText := fun id => ascii "\x7b\"songId\":" ++ decimal id ++ ascii "\x7d"
  ascii "[" ++ ((ids.map songText).intersperse (ascii ",")).flatten ++ ascii "]"

/-- Eleven songs: a full page and one song more. -/
def eleven : CloudList :=
  ⟨5, 4, 7, (List.range' 1 11).map fun id => { Song.zero with songId := id }⟩

def elevenParams : List UInt8 :=
  ascii "\x7b" ++ member (ascii "type") (ascii "5") ++ member (ascii "quality") (ascii "4") ++
    (member (ascii "total") (ascii "11") ++ member (ascii "id") (ascii "7") ++
      member (ascii "pageSize") (ascii "10") ++ member (ascii "page") (ascii "0") ++
        (member (ascii "playSongId") (ascii "0") ++
          (ascii "\"songList\":" ++ songTexts (List.range' 1 10) ++ ascii "\x7d")))

def elevenSync : Message where
  text :=
    ⟨ascii "\x7b" ++ member (ascii "method") (ascii "\"qqmusic_" ++ ascii "sync_song_list\"") ++
    (ascii "\"params\":" ++ elevenParams ++ ascii "\x7d"), by decide +kernel⟩
  alloc := fun _ => true
  songAlloc := fun _ _ => true
  array := true

/-- The answer about their second page. -/
def elevenReply : Message where
  text := ⟨ascii "\x7b" ++ member (ascii "method")
      (ascii "\"qqmusic_" ++ ascii "query_song_list_" ++ ascii "reply\"") ++
    (member (ascii "code") (ascii "0") ++ (ascii "\"params\":\x7b" ++
      (member (ascii "total") (ascii "11") ++ member (ascii "id") (ascii "7") ++
        member (ascii "pageSize") (ascii "1") ++ member (ascii "page") (ascii "1") ++
          (ascii "\"songList\":" ++ songTexts [11] ++ ascii "\x7d\x7d")))), by decide +kernel⟩
  alloc := fun _ => true
  songAlloc := fun _ _ => true
  array := true

theorem elevenSync_reads : SyncSays elevenSync eleven none none where
  method := by decide +kernel
  token := by decide +kernel
  params := ⟨elevenParams, 0, songTexts (List.range' 1 10), by decide +kernel, by decide +kernel,
    by decide +kernel, by decide +kernel, by decide +kernel⟩

theorem elevenReply_reads : PageSays elevenReply eleven 1 where
  method := by decide +kernel
  token := ⟨none, by decide +kernel⟩
  code := by decide +kernel
  id := by decide +kernel
  pageSize := by decide +kernel
  page := by decide +kernel
  total := by decide +kernel
  songs := ⟨songTexts [11], by decide +kernel, by decide +kernel⟩

theorem song_lists_right_iff_eleven :
    SessionRight eleven 0 (session (fun _ => elevenReply) 1 elevenSync (.init true true)) := by
  have hpage : ∀ k, 0 < k → 10 * k < eleven.songs.length → PageSays elevenReply eleven k := by
    intro k hk hmore
    have hlength : eleven.songs.length = 11 := rfl
    obtain rfl : k = 1 := by omega
    exact elevenReply_reads
  apply Iff.mpr (And.right (song_lists_right_iff true true [] rfl (by decide) elevenSync_reads
    hpage (Nat.le_refl 1)))
  exact ⟨⟨rfl, (fun text htext => by cases htext), by decide, by decide⟩,
    by decide, fun k _ _ => rfl⟩

/-- A page that arrives twice is stored twice. -/
theorem song_lists_page_twice :
    ¬ Along step (fun music message => Right (step message music).1)
      [elevenSync, elevenReply, elevenReply] (.init true true) := by
  have hpages : (run step [elevenSync, elevenReply, elevenReply] (.init true true)).1.pages =
      [1, 1, 0] := by decide +kernel
  simp only [run_cons, run_nil] at hpages
  simp only [Along]
  rintro ⟨-, -, htwice, -⟩
  have honce := htwice.once
  rw [hpages] at honce
  exact absurd honce (by decide)

end Runs

end IotExplorer.QqMusicPages
