import IotExplorer.Basis.Bitmap
import IotExplorer.FileManageClient

/-!
The client of the music service: the song list that the cloud sends in pages, and
the messages that fill it. The array of songs grows by the sizes that a message
claims; which pages were stored is noted in a bitmap. A message that makes the
code leave its memory, read past a text or overflow an int ends the run. The
pages that were stored are not in the C structure and only observe it.
-/
namespace IotExplorer.QqMusicClient

open Basis.Bitmap Basis.JsonText Basis.Decimals JsonParser TemplateJson DeviceProperty
open FileManageClient (lookup)

/-- Behaviour that C leaves undefined. -/
inductive Fault where
  | json | memory | overflow
  deriving DecidableEq

section Reading
variable (alloc : List UInt8 → Bool) (doc : Ptr) (key : List UInt8)

/-- `LITE_json_value_of`, as far as a read past the text is concerned. -/
def getText : Except Fault (Option (List UInt8)) :=
  match lookup alloc doc key with
  | .error _ => .error .json
  | .ok value => .ok value

/-- `LITE_json_get_int32`. -/
def getInt32 : Except Fault (Option ℤ) :=
  (getText alloc doc key).map fun value => value.bind (scanInt 32)

/-- `LITE_json_get_uint64`. -/
def getUint64 : Except Fault (Option ℕ) :=
  (getText alloc doc key).map fun value => value.bind (scanUint 64)

/-- An int that was computed; an overflow is undefined. -/
def int32 (value : ℤ) : Except Fault ℤ :=
  if -2 ^ 31 ≤ value ∧ value < 2 ^ 31 then .ok value else .error .overflow

end Reading

section Songs

abbrev CharArray (size : ℕ) := {text : List UInt8 // text.length ≤ size}

/-- `QQMusicSongInfo`. -/
structure Song where
  userOwnRule : ℤ
  songId : ℕ
  songPlayTime : ℤ
  songUrl : CharArray 512
  songName : CharArray 128
  singerName : CharArray 128
  deriving DecidableEq

def Song.zero : Song :=
  ⟨0, 0, 0, ⟨[], Nat.zero_le _⟩, ⟨[], Nat.zero_le _⟩, ⟨[], Nat.zero_le _⟩⟩

/-- The `memcpy` of a value into a zeroed array, which nothing bounds. -/
def copyText (size : ℕ) (value : Option (List UInt8)) : Except Fault (CharArray size) :=
  match value with
  | none => .ok ⟨[], Nat.zero_le _⟩
  | some text => if h : text.length ≤ size then .ok ⟨text, h⟩ else .error .memory

/-- `_parse_song_info`; a member that is missing stays zero. -/
def parseSongInfo (alloc : List UInt8 → Bool) (doc : Ptr) : Except Fault Song := do
  let userOwnRule ← getInt32 alloc doc (ascii "userOwnRule")
  let songId ← getUint64 alloc doc (ascii "songId")
  let songPlayTime ← getInt32 alloc doc (ascii "songPlayTime")
  let songUrl ← copyText 512 (← getText alloc doc (ascii "songURL"))
  let songName ← copyText 128 (← getText alloc doc (ascii "songName"))
  let singerName ← copyText 128 (← getText alloc doc (ascii "singerName"))
  return ⟨userOwnRule.getD 0, songId.getD 0, songPlayTime.getD 0, songUrl, songName, singerName⟩

/-- `_parse_song_list_obj`, with its buffer of 512 bytes. -/
def parseSongListObj (alloc : List UInt8 → Bool) (json : List UInt8) : Except Fault Song :=
  if json.length < 512 then parseSongInfo alloc (json ++ [0]) else .error .memory

/-- The loop of `LITE_dt_parse_obj_array`: the objects among the entries, as long as
there is room. -/
def parseObjects (alloc : ℕ → List UInt8 → Bool) (ending : Ending) :
    ℕ → ℕ → List Entry → Except Fault (List Song)
  | _, _, [] => if ending = .finished then .ok [] else .error .json
  | i, room, entry :: entries =>
      if entry.valType ≠ .object then parseObjects alloc ending i room entries
      else
        match room with
        | 0 => .ok []
        | room + 1 => do
            let song ← parseSongListObj (alloc i) (entry.val.take entry.valLen)
            let songs ← parseObjects alloc ending (i + 1) room entries
            return song :: songs

/-- `LITE_dt_parse_obj_array` on the text of an array, with room for so many songs. -/
def parseObjArray (alloc : ℕ → List UInt8 → Bool) (room : ℕ) (text : List UInt8) :
    Except Fault (List Song) :=
  let loop := forEach .array (text ++ [0])
  parseObjects alloc loop.ending 0 room loop.entries

/-- The songs in front of elements that stay zero. -/
def fill (room : ℕ) (songs : List Song) : List Song :=
  songs ++ List.replicate (room - songs.length) .zero

end Songs

section Pages

abbrev UtilsBitmap := Words 32 4

/-- `utils_set_bitmap_onebit` with an index of 8 bits; the index 128 passes its check. -/
def utilsSetBitmapOnebit (bitmap : UtilsBitmap) (index : ℤ) : Except Fault UtilsBitmap :=
  let index := (index % 256).toNat
  if index > 128 then .ok bitmap
  else
    match mark bitmap index with
    | none => .error .memory
    | some bitmap => .ok bitmap

/-- `utils_get_bitmap_first_zero`. Its counter of 8 bits never reaches 128: with every
bit set it reads behind the bitmap. -/
def utilsGetBitmapFirstZero (bitmap : UtilsBitmap) : Except Fault ℕ :=
  match firstClear bitmap 128 with
  | none => .error .memory
  | some index => .ok index

end Pages

section State

/-- `QQMusicSongListInfo`. -/
structure SongList where
  type : ℤ
  id : ℕ
  quality : ℤ
  name : CharArray 128
  totalSong : ℤ
  playIndex : ℕ
  pageBitmap : UtilsBitmap
  songInfoArray : Option (List Song)

def SongList.zero : SongList :=
  ⟨0, 0, 0, ⟨[], Nat.zero_le _⟩, 0, 0, fun _ => 0, none⟩

/-- `QCloudIoTQQMusic`. -/
structure Music where
  songList : SongList
  syncCallback : Bool
  playCallback : Bool
  pages : List ℤ
  halted : Bool

/-- What `IOT_QQMusic_Enable` leaves. -/
def Music.init (syncCallback playCallback : Bool) : Music :=
  ⟨.zero, syncCallback, playCallback, [], false⟩

/-- The request of `_qqmusic_query_song_list`. -/
structure Query where
  type : ℤ
  quality : ℤ
  id : ℕ
  page : ℤ
  pageSize : ℤ
  deriving DecidableEq

inductive Event where
  | queried (query : Query)
  | formatted (text : List UInt8)
  | played (songId : ℕ)
  | replied (text : List UInt8)
  | fault (fault : Fault)
  deriving DecidableEq

def SongList.songs (list : SongList) : List Song := list.songInfoArray.getD []

/-- The request for the first page that is not noted, with so many songs left. -/
def queryNext (list : SongList) (left : ℤ) : Except Fault Event := do
  let page ← utilsGetBitmapFirstZero list.pageBitmap
  return .queried ⟨list.type, list.quality, list.id, page, min left 10⟩

/-- The first part of the text of a list. -/
def formatHeader (id : ℕ) (type : ℤ) : List UInt8 :=
  ascii "\x7b\\\"songListId\\\":" ++ decimal id ++
    (ascii ",\\\"songListType\\\":" ++ signedText type ++ ascii ",\\\"songList\\\":[")

/-- `%d,` of a song id: its low 32 bits. -/
def formatSong (song : Song) : List UInt8 := signedText ((song.songId : ℤ).bmod (2 ^ 32)) ++ [comma]

/-- What is written before the end of the text. -/
def formatBody (id : ℕ) (type : ℤ) (songs : List Song) : List UInt8 :=
  formatHeader id type ++ songs.flatMap formatSong

/-- The end of the text, cut to the array of 2048 bytes. -/
def formatText (body : List UInt8) : List UInt8 :=
  if body.length ≥ 2047 then body
  else body.take (body.length - 1) ++ (ascii "]\x7d").take (2047 - body.length - 1)

/-- `_format_song_list_string`. The length is counted on when nothing more fits. -/
def formatSongListString (music : Music) : Except Fault (List Event) :=
  let list := music.songList
  if list.totalSong = 0 then .ok []
  else if list.songs.length < list.totalSong then .error .memory
  else
    let body := formatBody list.id list.type (list.songs.take list.totalSong.toNat)
    if body.length > 2047 then .error .memory
    else .ok (if music.syncCallback then [.formatted (formatText body)] else [])

end State

section Messages

/-- A message, and what its handler meets: memory for the copies of values, for those
of the i-th song, and for the array, whatever size is asked for. -/
structure Message where
  text : CString
  alloc : List UInt8 → Bool
  songAlloc : ℕ → List UInt8 → Bool
  array : Bool

/-- `sizeof(QQMusicSongInfo)`. -/
def songInfoSize : ℤ := 792

/-- A uint32_t holds the size of an array of so many songs. -/
def ArrayFits (count : ℤ) : Prop := 0 ≤ count ∧ songInfoSize * count < 2 ^ 32

instance (count : ℤ) : Decidable (ArrayFits count) :=
  inferInstanceAs (Decidable (0 ≤ count ∧ songInfoSize * count < 2 ^ 32))

/-- The `HAL_Malloc` of an array of so many songs and its memset: whether there is an array.
`HAL_Malloc` takes a uint32_t; of a size that does not fit there it hands out a remainder,
and the memset of the whole size leaves it. -/
def mallocSongs (message : Message) (count : ℤ) : Except Fault Bool :=
  if !message.array then .ok false
  else if ArrayFits count then .ok true
  else .error .memory

structure SyncNumbers where
  type : Option ℤ
  quality : Option ℤ
  total : Option ℤ
  id : Option ℕ
  pageSize : Option ℤ
  page : Option ℤ
  playSongId : Option ℕ
  deriving DecidableEq

def syncNumbers (alloc : List UInt8 → Bool) (doc : Ptr) : Except Fault SyncNumbers := do
  let type ← getInt32 alloc doc (ascii "type")
  let quality ← getInt32 alloc doc (ascii "quality")
  let total ← getInt32 alloc doc (ascii "total")
  let id ← getUint64 alloc doc (ascii "id")
  let pageSize ← getInt32 alloc doc (ascii "pageSize")
  let page ← getInt32 alloc doc (ascii "page")
  let playSongId ← getUint64 alloc doc (ascii "playSongId")
  return ⟨type, quality, total, id, pageSize, page, playSongId⟩

def SyncNumbers.list (numbers : SyncNumbers) : SongList :=
  { SongList.zero with
    type := numbers.type.getD 0
    quality := numbers.quality.getD 0
    id := numbers.id.getD 0 }

def SyncNumbers.complete (numbers : SyncNumbers) : Bool :=
  numbers.type.isSome && numbers.quality.isSome && numbers.total.isSome && numbers.id.isSome &&
    numbers.pageSize.isSome && numbers.page.isSome && numbers.playSongId.isSome

/-- The number of songs in the first page, and the request for the next one. -/
def firstPage (list : SongList) (total pageSize : ℤ) : Except Fault (ℤ × List Event) :=
  if total ≤ pageSize then .ok (total, [])
  else do
    let query ← queryNext list (← int32 (total - pageSize))
    return (pageSize, [query])

def playSong (music : Music) (songId : ℕ) : List Event :=
  if songId ≠ 0 ∧ music.playCallback then [.played (songId % 2 ^ 32)] else []

/-- `_qqmusic_parse_song_list` from the malloc of the array on. -/
def storeFirstPage (message : Message) (text : List UInt8) (page : ℤ) (playSongId : ℕ)
    (queries : List Event) (music : Music) : Except Fault (ℤ × Music × List Event) := do
  let list := music.songList
  if !(← mallocSongs message list.totalSong) then return (-1, music, queries)
  else
    let songs ← parseObjArray message.songAlloc list.totalSong.toNat text
    let music :=
      { music with
        songList := { list with songInfoArray := some (fill list.totalSong.toNat songs) }
        pages := [page] }
    let formatted ← formatSongListString music
    return (0, music, queries ++ formatted ++ playSong music playSongId)

/-- `_qqmusic_parse_song_list` behind its numbers. -/
def storeSongList (message : Message) (doc : Ptr) (total pageSize page : ℤ) (playSongId : ℕ)
    (music : Music) : Except Fault (ℤ × Music × List Event) := do
  let name ← copyText 128 (← getText message.alloc doc (ascii "name"))
  let list := { music.songList with name := name }
  match ← getText message.alloc doc (ascii "songList") with
  | none => return (-1, { music with songList := list }, [])
  | some text =>
      let bitmap ← utilsSetBitmapOnebit list.pageBitmap page
      let list := { list with pageBitmap := bitmap }
      let (totalSong, queries) ← firstPage list total pageSize
      let list := { list with totalSong := totalSong }
      storeFirstPage message text page playSongId queries { music with songList := list }

def qqmusicParseSongList (message : Message) (params : List UInt8) (music : Music) :
    Except Fault (ℤ × Music × List Event) := do
  let numbers ← syncNumbers message.alloc (params ++ [0])
  let music := { music with songList := numbers.list, pages := [] }
  if numbers.complete then
    storeSongList message (params ++ [0]) (numbers.total.getD 0) (numbers.pageSize.getD 0)
      (numbers.page.getD 0) (numbers.playSongId.getD 0) music
  else return (-1001, music, [])

/-- The reply to a synchronization; a token that is missing is printed as such. -/
def syncReplyText (token : Option (List UInt8)) (rc : ℤ) : List UInt8 :=
  ascii "\x7b\"method\":\"qqmusic_" ++
    (ascii "sync_song_list_reply" ++ (ascii "\",\"clientToken\":\"" ++
    (token.getD (ascii "(null)") ++ (ascii "\",\"params\":\x7b\"code\":" ++ (signedText rc ++
      ascii ",\"msg\":\"ok\"\x7d\x7d")))))

/-- What becomes of the list when the parameters are there, and when not. -/
def syncParams (message : Message) (params : Option (List UInt8)) (music : Music) :
    Except Fault (ℤ × Music × List Event) :=
  match params with
  | none => .ok (-1, music, [])
  | some params => qqmusicParseSongList message params music

/-- The part of the callback for a synchronization. -/
def syncSongList (message : Message) (doc : Ptr) (token : Option (List UInt8)) (music : Music) :
    Except Fault (Music × List Event) := do
  let params ← getText message.alloc doc (ascii "params")
  let (rc, music, events) ← syncParams message params music
  if (syncReplyText token rc).length < 512 then
    return (music, events ++ [.replied (syncReplyText token rc)])
  else .error .memory

/-- `_qqmusic_get_play_song_info_from_id`, for an id that is not zero: the index of
the song. The search reads as many elements as are counted. -/
def findSong (list : SongList) (songId : ℤ) : Except Fault (Option ℕ) :=
  if list.totalSong = 0 ∨ songId = 0 then .ok none
  else
    match (list.songs.take list.totalSong.toNat).findIdx? fun song =>
        (song.songId : ℤ) = songId % 2 ^ 64 with
    | some i => .ok (some i)
    | none => if list.songs.length < list.totalSong then .error .memory else .ok none

/-- The songs that are copied into a new array of this many more elements. -/
def copySongs (list : SongList) (more : ℤ) : Except Fault (List Song) :=
  if list.totalSong < 0 ∨ more < 0 ∨ list.songs.length < list.totalSong then .error .memory
  else .ok (list.songs.take list.totalSong.toNat)

def addSong (message : Message) (doc : Ptr) (music : Music) :
    Except Fault (Music × List Event) := do
  let list := music.songList
  let totalSong ← int32 (list.totalSong + 1)
  if !(← mallocSongs message totalSong) then return (music, [])
  else
    let songs ← copySongs list 1
    match ← getText message.alloc doc (ascii "params") with
    | none => .error .memory
    | some params =>
        let song ← parseSongInfo message.alloc (params ++ [0])
        let music :=
          { music with
            songList :=
              { list with totalSong := totalSong, songInfoArray := some (songs ++ [song]) } }
        let formatted ← formatSongListString music
        return (music, formatted)

/-- The new URL of a song lies over the old one. -/
def overwriteUrl (url : CharArray 512) (song : Song) : Song :=
  { song with
    songUrl := ⟨url.val ++ song.songUrl.val.drop url.val.length, by
      have hold := song.songUrl.property
      have hnew := url.property
      rw [List.length_append, List.length_drop]
      omega⟩ }

/-- The part of the callback for a song that was asked for. -/
def songReply (message : Message) (doc : Ptr) (music : Music) :
    Except Fault (Music × List Event) := do
  let code ← getInt32 message.alloc doc (ascii "code")
  if code ≠ some 0 then return (music, [])
  else
    match ← getInt32 message.alloc doc (ascii "params.songId") with
    | none => return (music, [])
    | some songId =>
        match ← findSong music.songList songId with
        | none => addSong message doc music
        | some i =>
            match ← getText message.alloc doc (ascii "params.songURL") with
            | none => .error .memory
            | some text =>
                let url ← copyText 512 (some text)
                let list := music.songList
                return ({ music with
                  songList :=
                    { list with
                      playIndex := i % 256
                      songInfoArray := some (list.songs.modify i (overwriteUrl url)) } }, [])

/-- The songs of a page; without a list there are none. -/
def pageSongs (message : Message) (pageSize : ℤ) (songList : Option (List UInt8)) :
    Except Fault (List Song) :=
  match songList with
  | none => .ok []
  | some text => parseObjArray message.songAlloc pageSize.toNat text

/-- The request for a further page, when songs are left. -/
def laterPage (list : SongList) (total : ℤ) : Except Fault (List Event) :=
  if list.totalSong < total then (queryNext list (total - list.totalSong)).map ([·]) else .ok []

def appendPage (message : Message) (doc : Ptr) (pageSize page total : ℤ) (music : Music) :
    Except Fault (Music × List Event) := do
  let list := music.songList
  let totalSong ← int32 (list.totalSong + pageSize)
  if !(← mallocSongs message totalSong) then return (music, [])
  else
    let old ← copySongs list pageSize
    let songList ← getText message.alloc doc (ascii "params.songList")
    let songs ← pageSongs message pageSize songList
    let bitmap ← utilsSetBitmapOnebit list.pageBitmap page
    let list :=
      { list with
        totalSong := totalSong
        pageBitmap := bitmap
        songInfoArray := some (old ++ fill pageSize.toNat songs) }
    let queries ← laterPage list total
    let music := { music with songList := list, pages := page :: music.pages }
    let formatted ← formatSongListString music
    return (music, queries ++ formatted)

/-- The part of the callback for a page that was asked for. -/
def songListReply (message : Message) (doc : Ptr) (music : Music) :
    Except Fault (Music × List Event) := do
  let code ← getInt32 message.alloc doc (ascii "code")
  if code ≠ some 0 then return (music, [])
  else
    let songListId ← getUint64 message.alloc doc (ascii "params.id")
    if songListId ≠ some music.songList.id then return (music, [])
    else
      let pageSize ← getInt32 message.alloc doc (ascii "params.pageSize")
      let page ← getInt32 message.alloc doc (ascii "params.page")
      let total ← getInt32 message.alloc doc (ascii "params.total")
      appendPage message doc (pageSize.getD 0) (page.getD 0) (total.getD 0) music

def qqmusicDownMessageCallback (message : Message) (music : Music) :
    Except Fault (Music × List Event) := do
  let doc := message.text.val ++ [0]
  let method ← getText message.alloc doc (ascii "method")
  let token ← getText message.alloc doc (ascii "clientToken")
  match method with
  | none => .error .memory
  | some method =>
      if (ascii "qqmusic_sync_song_list").isPrefixOf method
        then syncSongList message doc token music
      else if (ascii "qqmusic_query_song_reply").isPrefixOf method then songReply message doc music
      else if (ascii "qqmusic_query_song_list_reply").isPrefixOf method then
        songListReply message doc music
      else return (music, [])

/-- A message arrives; after undefined behaviour nothing follows. -/
def step (message : Message) (music : Music) : Music × List Event :=
  if music.halted then (music, [])
  else
    match qqmusicDownMessageCallback message music with
    | .error fault => ({ music with halted := true }, [.fault fault])
    | .ok result => result

end Messages

end IotExplorer.QqMusicClient
