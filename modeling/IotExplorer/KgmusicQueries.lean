import IotExplorer.PrintedTexts
import IotExplorer.Requests

/-!
The queries of the music service of Kugou. The parameters are printed into an array and put behind
the header of the payload in another one. What is left of that is counted down by the lengths that
the prints would have had, and nothing is looked at before the payload is published.
-/
namespace IotExplorer.KgmusicQueries

open Basis.JsonText Basis.JsonMarks TemplateJson DeviceProperty ReportArray GatewayMessages
  PrintedTexts
open EventObjects (plain_signedText)
open Requests (strstr)

section Formats

inductive Piece
  | literal (text : String)
  | string
  | int

inductive Argument
  | string (text : List UInt8)
  | int (value : Int32)

/-- What is printed for a format; a conversion needs an argument of its kind. -/
def formatted : List Piece → List Argument → Option (List UInt8)
  | [], _ => some []
  | .literal text :: pieces, args => (formatted pieces args).map (ascii text ++ ·)
  | .string :: pieces, .string text :: args => (formatted pieces args).map (text ++ ·)
  | .int :: pieces, .int value :: args => (formatted pieces args).map (signedText value.toInt ++ ·)
  | _, _ => none

variable {pieces : List Piece} {args : List Argument}

@[simp] theorem formatted_nil : formatted [] args = some [] := rfl

@[simp] theorem formatted_literal (text : String) :
    formatted (.literal text :: pieces) args = (formatted pieces args).map (ascii text ++ ·) := rfl

@[simp] theorem formatted_string (text : List UInt8) :
    formatted (.string :: pieces) (.string text :: args) =
      (formatted pieces args).map (text ++ ·) := rfl

@[simp] theorem formatted_int (value : Int32) : formatted (.int :: pieces) (.int value :: args) =
    (formatted pieces args).map (signedText value.toInt ++ ·) := rfl

structure KgmusicCommandJsonFormat where
  typeKey : String
  jsonFormat : List Piece
  noPage : Bool
  noListId : Bool

inductive ListType
  | albumInfo
  | playlistSong
  | awesomeEveryday
  | awesomeRecommend
  | awesomeNewsong
  | topSong
  deriving DecidableEq, Repr

def pagesFormat (first : String) : List Piece :=
  [.literal first, .int, .literal ",\"size\":", .int, .literal ",\"kugou_command\":\"", .string,
    .literal "\",\"except_fields\":\"", .string, .literal "\"\x7d"]

def bareFormat : List Piece :=
  [.literal "\x7b\"kugou_command\":\"", .string, .literal "\",\"except_fields\":\"", .string,
    .literal "\"\x7d"]

/-- The entries of `sg_kgmusic_command_json_format`. -/
def commandJsonFormat : ListType → KgmusicCommandJsonFormat
  | .albumInfo =>
      ⟨"album_info", .literal "\x7b\"album_id\":\"" :: .string :: pagesFormat "\",\"page\":",
        false, false⟩
  | .playlistSong =>
      ⟨"playlist_song", .literal "\x7b\"playlist_id\": \"" :: .string :: pagesFormat "\",\"page\":",
        false, false⟩
  | .awesomeEveryday => ⟨"awesome_everyday", bareFormat, true, true⟩
  | .awesomeRecommend => ⟨"awesome_recommend", bareFormat, true, true⟩
  | .awesomeNewsong =>
      ⟨"awesome_newsong", .literal "\x7b\"top_id\":" :: .string :: pagesFormat ",\"page\":",
        false, false⟩
  | .topSong =>
      ⟨"top_song", .literal "\x7b\"top_id\":\"" :: .string :: pagesFormat "\",\"page\":",
        false, false⟩

/-- The order of `sg_kgmusic_command_json_format`. -/
def listTypes : List ListType :=
  [.albumInfo, .playlistSong, .awesomeEveryday, .awesomeRecommend, .awesomeNewsong, .topSong]

end Formats

section Queries

/-- `QcloudIotKgmusicSongListParams`. -/
structure SongListParams where
  page : Int32
  pageSize : Int32
  listId : List UInt8
  listType : Option (List UInt8)
  exceptFields : Option (List UInt8)

/-- The device info of the client, as far as it is printed. -/
structure DeviceInfo where
  productId : List UInt8
  deviceName : List UInt8

def arguments (format : KgmusicCommandJsonFormat) (query : SongListParams) (type : List UInt8) :
    List Argument :=
  let rest := [.string type, .string (query.exceptFields.getD [])]
  if format.noPage && format.noListId then rest
  else if format.noPage && !format.noListId then .string query.listId :: rest
  else if !format.noPage && format.noListId then .int query.page :: .int query.pageSize :: rest
  else .string query.listId :: .int query.page :: .int query.pageSize :: rest

def headerText (device : DeviceInfo) (token : Int32) (method : List UInt8) : List UInt8 :=
  ascii "\x7b\"method\":\"" ++
    (method ++ (ascii "\",\"clientToken\":\"kugoumusic-" ++ (device.productId ++
    (device.deviceName ++ (ascii "-" ++ (signedText token.toInt ++ ascii "\""))))))

/-- The parameters in `_qcloud_iot_kgmusic_publish_msg`, with the place behind them and what is
left. -/
def printParams (params : Option (List UInt8)) (payloadPoint remainLen : ℤ) (payload : Buffer) :
    Option (ℤ × ℤ × Buffer) :=
  match params with
  | none => some (payloadPoint, remainLen, payload)
  | some params =>
      (printBound payload payloadPoint remainLen (ascii ",\"params\":" ++ params)).map
        fun printed =>
        (payloadPoint + printed.1, remainLen - printed.1, printed.2)

/-- `_qcloud_iot_kgmusic_publish_msg`, up to what it publishes. -/
def publishMsg (device : DeviceInfo) (token : Int32) (method : List UInt8)
    (params : Option (List UInt8)) :
    Option Buffer := do
  let (payloadLen, payload) ← printBound ⟨[], 0⟩ 0 512 (headerText device token method)
  let (payloadPoint, remainLen, payload) ← printParams params payloadLen (512 - payloadLen) payload
  let (_, payload) ← printBound payload payloadPoint remainLen (ascii "\x7d")
  return payload

inductive Outcome
  | refused
  | published (payload : Buffer)

def SongListParams.type (query : SongListParams) : Option (List UInt8 × ListType) := do
  let type ← query.listType
  let listType ← listTypes.find? fun listType => strstr
    (ascii (commandJsonFormat listType).typeKey) type
  return (type, listType)

/-- `IOT_KGMUSIC_syncquery_songlist`, up to what it publishes. -/
def syncquerySonglist (device : DeviceInfo) (token : Int32) (query : SongListParams) :
    Option Outcome :=
  match query.type with
  | none => some .refused
  | some (type, listType) => do
      let format := commandJsonFormat listType
      let text ← formatted format.jsonFormat (arguments format query type)
      let (_, params) ← printBound ⟨[], 0⟩ 0 512 text
      (publishMsg device token (ascii "kugou_user_command") (some params.text)).map .published

/-- `IOT_KGMUSIC_syncquery_song`, up to what it publishes. -/
def syncquerySong (device : DeviceInfo) (token : Int32) (songId : List UInt8) : Option Outcome := do
  let (_, params) ← printBound ⟨[], 0⟩ 0 64
    (ascii "\x7b\"song_id\":\"" ++ (songId ++ ascii "\"\x7d"))
  (publishMsg device token (ascii "kugou_query_song") (some params.text)).map .published

end Queries

section Requests

/-- A member with a text for its value that stands for itself. -/
def Spells (name : String) (text : List UInt8) (m : Layout × Json) : Prop :=
  plain text = true ∧ m = textMember name text

/-- A member with a text that is the spelling of its value. -/
def Shows (name : String) (text : List UInt8) (m : Layout × Json) : Prop :=
  ∃ (gaps : Gaps) (value : Json), gaps.before.all isBlank = true ∧ value.wellFormed = true ∧
    gaps.after.all isBlank = true ∧ text = gaps.before ++ (value.text ++ gaps.after) ∧
    m = ({ member name with beforeValue := gaps.before, afterValue := gaps.after }, value)

def numberMember (name : String) (value : Int32) : Layout × Json :=
  (member name, .number (signedNumber value.toInt))

def clientToken (device : DeviceInfo) (token : Int32) : List UInt8 :=
  ascii "kugoumusic-" ++
    (device.productId ++ (device.deviceName ++ (ascii "-" ++ signedText token.toInt)))

def request (device : DeviceInfo) (token : Int32) (method : List UInt8)
    (params : Option (Layout × Json)) : Json :=
  .object [] (textMember "method" method :: textMember "clientToken" (clientToken device token) ::
    params.toList)

/-- A text is one object with the method and the token as they are, and such parameters. -/
def Requests (device : DeviceInfo) (token : Int32) (method : List UInt8)
    (carries : Option (Layout × Json) → Prop) (text : List UInt8) : Prop :=
  ∃ params, carries params ∧ plain method = true ∧ plain (clientToken device token) = true ∧
    (request device token method params).wellFormed = true ∧
      text = (request device token method params).text

/-- A payload stays in its array, and is such a request. -/
structure Good (requests : List UInt8 → Prop) (payload : Buffer) : Prop where
  inside : payload.reach ≤ 512
  terminated : payload.text.length < 512
  request : requests payload.text

def Passed (params : Option (List UInt8)) (m : Option (Layout × Json)) : Prop :=
  match params with
  | none => m = none
  | some text => ∃ m', Shows "params" text m' ∧ m = some m'

def IdMember (listId : List UInt8) (m : Layout × Json) : ListType → Prop
  | .albumInfo => Spells "album_id" listId m
  | .playlistSong =>
      plain listId = true ∧ m =
        ({ member "playlist_id" with beforeValue := [space] }, .string listId)
  | .awesomeNewsong => Shows "top_id" listId m
  | .topSong => Spells "top_id" listId m
  | .awesomeEveryday => False
  | .awesomeRecommend => False

/-- The members of a query: the id and the pages if its type has them, the type, and what is left
out. -/
def QueryMembers (query : SongListParams) (type : List UInt8) (listType : ListType)
    (members : List (Layout × Json)) : Prop :=
  plain type = true ∧ plain (query.exceptFields.getD []) = true ∧
    ∃ ids, (if (commandJsonFormat listType).noListId then ids = [] else ∃ m,
      IdMember query.listId m listType ∧ ids = [m]) ∧
      members = ids ++
        (if (commandJsonFormat listType).noPage then []
          else [numberMember "page" query.page, numberMember "size" query.pageSize]) ++
        [textMember "kugou_command" type, textMember "except_fields" (query.exceptFields.getD [])]

/-- The parameters are such a value. -/
def Carries (carried : Json → Prop) (m : Option (Layout × Json)) : Prop :=
  ∃ value, carried value ∧ m = some (member "params", value)

def ListValue (query : SongListParams) (type : List UInt8) (listType : ListType) (value : Json) :
    Prop :=
  ∃ members, QueryMembers query type listType members ∧ value = .object [] members

def SongValue (songId : List UInt8) (value : Json) : Prop :=
  plain songId = true ∧ value = .object [] [textMember "song_id" songId]

def ListRight (device : DeviceInfo) (token : Int32) (query : SongListParams) : Prop :=
  ∃ outcome, syncquerySonglist device token query = some outcome ∧
    ∀ payload, outcome = .published payload →
    ∃ type listType, query.type = some (type, listType) ∧
      Good (Requests device token (ascii "kugou_user_command")
        (Carries (ListValue query type listType))) payload

def SongRight (device : DeviceInfo) (token : Int32) (songId : List UInt8) : Prop :=
  ∃ outcome, syncquerySong device token songId = some outcome ∧
    ∀ payload, outcome = .published payload →
    Good (Requests device token (ascii "kugou_query_song") (Carries (SongValue songId))) payload

def MessageRight (device : DeviceInfo) (token : Int32) (method : List UInt8)
    (params : Option (List UInt8)) : Prop :=
  ∃ payload, publishMsg device token method params = some payload ∧
    Good (Requests device token method (Passed params)) payload

end Requests

section Conditions

def payloadText (device : DeviceInfo) (token : Int32) (method : List UInt8)
    (params : Option (List UInt8)) :
    List UInt8 :=
  headerText device token method ++ (params.elim [] (ascii ",\"params\":" ++ ·) ++ ascii "\x7d")

/-- The names that are printed stand for themselves. -/
def DeviceInfo.Plain (device : DeviceInfo) : Prop :=
  plain device.productId = true ∧ plain device.deviceName = true

/-- A payload fits, its texts stand for themselves, and its parameters are JSON. -/
def MessageFits (device : DeviceInfo) (token : Int32) (method : List UInt8)
    (params : Option (List UInt8)) : Prop :=
  (payloadText device token method params).length < 512 ∧ device.Plain ∧ plain method = true ∧
    ∀ text ∈ params, IsJson text

def listText (query : SongListParams) (type : List UInt8) (listType : ListType) : List UInt8 :=
  (formatted (commandJsonFormat listType).jsonFormat
    (arguments (commandJsonFormat listType) query type)).getD []

/-- The id of a list stands for itself, or is printed as a value and is one. -/
def IdFits (listId : List UInt8) : ListType → Prop
  | .awesomeNewsong => IsJson listId
  | .albumInfo | .playlistSong | .topSong => plain listId = true
  | .awesomeEveryday | .awesomeRecommend => True

/-- A query for a list that is known fits the payload, and its texts stand for themselves. -/
def ListFits (device : DeviceInfo) (token : Int32) (query : SongListParams) : Prop :=
  ∀ type listType, query.type = some (type, listType) →
    (payloadText device token (ascii "kugou_user_command")
      (some (listText query type listType))).length < 512 ∧
      device.Plain ∧ plain type = true ∧ plain (query.exceptFields.getD []) = true ∧
        IdFits query.listId listType

def songText (songId : List UInt8) : List UInt8 :=
  ascii "\x7b\"song_id\":\"" ++ (songId ++ ascii "\"\x7d")

/-- A query for a song fits its array and the payload, and its texts stand for themselves. -/
def SongFits (device : DeviceInfo) (token : Int32) (songId : List UInt8) : Prop :=
  (songText songId).length < 64 ∧
    (payloadText device token (ascii "kugou_query_song") (some (songText songId))).length < 512 ∧
    device.Plain ∧ plain songId = true

end Conditions

section Prints
variable {device : DeviceInfo} {token : Int32} {method : List UInt8} {params : Option (List UInt8)}

/-- The parameters of a payload that fits are printed behind its header. -/
theorem printParams_fits {text : List UInt8} {buffer : Buffer} (h : Printed 512 text buffer)
    (hfits : (text ++ params.elim [] (ascii ",\"params\":" ++ ·)).length < 512) : ∃ buffer',
      printParams params text.length (512 - text.length) buffer =
        some (((text ++ params.elim [] (ascii ",\"params\":" ++ ·)).length : ℤ),
          512 - ((text ++ params.elim [] (ascii ",\"params\":" ++ ·)).length : ℤ), buffer') ∧
      Printed 512 (text ++ params.elim [] (ascii ",\"params\":" ++ ·)) buffer' := by
  cases params with
  | none =>
    rw [Option.elim_none, List.append_nil]
    exact ⟨buffer, rfl, h⟩
  | some params =>
    rw [Option.elim_some] at hfits ⊢
    obtain ⟨buffer', hprinted, h'⟩ := h.bound_fits (by decide) (by exact_mod_cast hfits)
    refine ⟨buffer', ?_, h'⟩
    rw [printParams, hprinted, Option.map_some, @List.length_append _ text, Nat.cast_add, sub_sub]

/-- A payload that fits is printed as a whole. -/
theorem publishMsg_fits (hfits : (payloadText device token method params).length < 512) :
    ∃ payload, publishMsg device token method params = some payload ∧ payload.reach ≤ 512 ∧
      payload.text = payloadText device token method params := by
  have hbegin : Printed 512 [] ⟨[], 0⟩ := printed_nil (by decide)
  have hpayload : payloadText device token method params = headerText device token method ++
      params.elim [] (ascii ",\"params\":" ++ ·) ++ ascii "\x7d" := (List.append_assoc _ _ _).symm
  rw [hpayload] at hfits ⊢
  have hrest : (headerText device token method ++ params.elim [] (ascii ",\"params\":" ++ ·)).length
      < 512 := by
    rw [List.length_append] at hfits
    omega
  have hheader : (headerText device token method).length < 512 := by
    rw [List.length_append] at hrest
    omega
  obtain ⟨header, hprinted, h⟩ :=
    @Printed.bound_fits 512 [] (headerText device token method) _ hbegin (by decide)
    (by exact_mod_cast hheader)
  rw [List.length_nil, Nat.cast_zero, sub_zero] at hprinted
  obtain ⟨middle, hmiddle, h'⟩ := printParams_fits h hrest
  obtain ⟨payload, hend, hwhole⟩ := h'.bound_fits (by decide) (by exact_mod_cast hfits)
  have hinside := hwhole.inside
  refine ⟨payload, ?_, by omega, hwhole.whole (by exact_mod_cast hfits)⟩
  rw [List.nil_append] at hmiddle hend
  unfold publishMsg
  rw [hprinted, Option.bind_eq_bind, Option.bind_some]
  dsimp only
  rw [hmiddle, Option.bind_eq_bind, Option.bind_some]
  dsimp only
  rw [hend]
  rfl

end Prints

section Texts

abbrev names : List String :=
  ["method", "clientToken", "params", "page", "size", "kugou_command", "except_fields", "album_id",
    "playlist_id", "top_id", "song_id"]

/-- What is printed in front of the values of a request. -/
def RequestLiterals : Prop :=
  ascii "\x7b\"method\":\"" = openBrace :: quote :: (ascii "method" ++ [quote, colon, quote]) ∧
    ascii "\",\"clientToken\":\"kugoumusic-" =
      quote :: comma :: quote ::
        (ascii "clientToken" ++ (quote :: colon :: quote :: ascii "kugoumusic-")) ∧
    ascii ",\"params\":" = comma :: quote :: (ascii "params" ++ [quote, colon])

def PageLiterals : Prop :=
  ascii ",\"page\":" = comma :: quote :: (ascii "page" ++ [quote, colon]) ∧
    ascii "\",\"page\":" = quote :: ascii ",\"page\":" ∧
    ascii ",\"size\":" = comma :: quote :: (ascii "size" ++ [quote, colon]) ∧
    ascii ",\"kugou_command\":\"" =
      comma :: quote :: (ascii "kugou_command" ++ [quote, colon, quote]) ∧
    ascii "\x7b\"kugou_command\":\"" =
      openBrace :: quote :: (ascii "kugou_command" ++ [quote, colon, quote]) ∧
    ascii "\",\"except_fields\":\"" =
      quote :: comma :: quote :: (ascii "except_fields" ++ [quote, colon, quote]) ∧
    ascii "\"\x7d" = [quote, closeBrace]

def IdLiterals : Prop :=
  ascii "\x7b\"album_id\":\"" =
      openBrace :: quote :: (ascii "album_id" ++ (quote :: colon :: ([] ++ [quote]))) ∧
    ascii "\x7b\"playlist_id\": \"" =
      openBrace :: quote :: (ascii "playlist_id" ++ (quote :: colon :: ([space] ++ [quote]))) ∧
    ascii "\x7b\"top_id\":" = openBrace :: quote :: (ascii "top_id" ++ [quote, colon]) ∧
    ascii "\x7b\"top_id\":\"" =
      openBrace :: quote :: (ascii "top_id" ++ (quote :: colon :: ([] ++ [quote]))) ∧
    ascii "\x7b\"song_id\":\"" = openBrace :: quote :: (ascii "song_id" ++ [quote, colon, quote])

/-- The texts in the formats, all evaluated at once. -/
theorem literals : names.all (fun name => rawString (ascii name)) = true ∧
    RequestLiterals ∧ PageLiterals ∧ IdLiterals ∧ plain (ascii "kugoumusic-") = true ∧
    plain (ascii "kugou_user_command") = true ∧ plain (ascii "kugou_query_song") = true := by
  unfold RequestLiterals PageLiterals IdLiterals
  decide +kernel

theorem request_literals : RequestLiterals := literals.2.1

theorem page_literals : PageLiterals := literals.2.2.1

theorem id_literals : IdLiterals := literals.2.2.2.1

theorem names_raw : ∀ name ∈ names, rawString (ascii name) = true :=
  List.all_eq_true.mp literals.1

variable {device : DeviceInfo} {token : Int32} {method : List UInt8}

def behindComma (m : Layout × Json) : List UInt8 :=
  comma :: (m.1.front ++ (m.2.text ++ m.1.afterValue))

/-- A request is the header with its parameters behind it. -/
theorem request_text (params : Option (Layout × Json)) : (request device token method params).text =
    headerText device token method ++ (params.elim [] behindComma ++ ascii "\x7d") := by
  obtain ⟨hmethod, htoken, -⟩ := request_literals
  rw [headerText, hmethod, htoken, show ascii "\"" = [quote] by decide,
    show ascii "\x7d" = [closeBrace] by decide]
  cases params with
  | none => simp [request, textMember, member, clientToken, Layout.front, Json.text, membersText]
  | some m =>
    simp [request, behindComma, textMember, member, clientToken, Layout.front, Json.text,
      membersText]

theorem request_wellFormed {params : Option (Layout × Json)} (hmethod : plain method = true)
    (htoken : plain (clientToken device token) = true)
    (hparams : membersWellFormed params.toList = true) :
    (request device token method params).wellFormed = true :=
  object_wellFormed (membersWellFormed_text (names_raw "method" (by simp))
    (rawString_of_plain hmethod)
    (membersWellFormed_text (names_raw "clientToken" (by simp))
      (rawString_of_plain htoken) hparams))

/-- The token stands for itself if the names do. -/
theorem plain_clientToken : plain (clientToken device token) = true ↔ device.Plain := by
  have hnumber := plain_signedText token.toInt
  have hfirst : plain (ascii "kugoumusic-") = true := literals.2.2.2.2.1
  have hdash : plain (ascii "-") = true := by decide
  unfold clientToken DeviceInfo.Plain
  unfold plain at *
  rw [List.all_append, List.all_append, List.all_append, List.all_append, hnumber, hfirst, hdash]
  simp

/-- A member that shows a text has it behind its name. -/
theorem shows_text {name : String} {text : List UInt8} {m : Layout × Json} (h : Shows name text m) :
    m.1.front ++ (m.2.text ++ m.1.afterValue) =
      quote :: (ascii name ++ (quote :: colon :: text)) := by
  obtain ⟨gaps, value, -, -, -, rfl, rfl⟩ := h
  simp [member, Layout.front]

theorem shows_wellFormed {name : String} {text : List UInt8} {m : Layout × Json}
    {rest : List (Layout × Json)}
    (hname : rawString (ascii name) = true) (h : Shows name text m)
    (hrest : membersWellFormed rest = true) :
    membersWellFormed (m :: rest) = true := by
  obtain ⟨gaps, value, hbefore, hvalue, hafter, -, rfl⟩ := h
  simp [membersWellFormed, Layout.wellFormed, member, hname, hbefore, hvalue, hafter, hrest]

theorem exists_shows {name : String} {text : List UInt8} :
    (∃ m, Shows name text m) ↔ IsJson text := by
  constructor
  · rintro ⟨m, gaps, value, hbefore, hvalue, hafter, htext, -⟩
    exact ⟨gaps, value, hbefore, hvalue, hafter, htext⟩
  · rintro ⟨gaps, value, hbefore, hvalue, hafter, htext⟩
    exact ⟨_, gaps, value, hbefore, hvalue, hafter, htext, rfl⟩

/-- The parameters that are passed are printed as they are in the request. -/
theorem passed_text {params : Option (List UInt8)} {m : Option (Layout × Json)}
    (h : Passed params m) :
    m.elim [] behindComma = params.elim [] (ascii ",\"params\":" ++ ·) := by
  obtain ⟨-, -, hfirst⟩ := request_literals
  cases params with
  | none =>
    obtain rfl : m = none := h
    rfl
  | some text =>
    obtain ⟨m', hshows, rfl⟩ := h
    rw [Option.elim_some, behindComma, shows_text hshows, Option.elim_some, hfirst]
    simp

theorem passed_wellFormed {params : Option (List UInt8)} {m : Option (Layout × Json)}
    (h : Passed params m) :
    membersWellFormed m.toList = true := by
  cases params with
  | none =>
    obtain rfl : m = none := h
    rfl
  | some text =>
    obtain ⟨m', hshows, rfl⟩ := h
    exact shows_wellFormed (names_raw "params" (by simp)) hshows membersWellFormed_nil

theorem exists_passed {params : Option (List UInt8)} :
    (∃ m, Passed params m) ↔ ∀ text ∈ params, IsJson text := by
  cases params with
  | none =>
    refine iff_of_true ⟨none, rfl⟩ ?_
    rintro _ ⟨⟩
  | some text =>
    have hall : (∀ text' ∈ some text, IsJson text') ↔ IsJson text := by simp
    rw [hall, ← @exists_shows "params"]
    exact ⟨fun ⟨_, m, hshows, _⟩ => ⟨m, hshows⟩, fun ⟨m, hshows⟩ => ⟨some m, m, hshows, rfl⟩⟩

/-- A message is right if it fits. -/
theorem message_right_iff (device : DeviceInfo) (token : Int32) (method : List UInt8)
    (params : Option (List UInt8)) :
    MessageRight device token method params ↔ MessageFits device token method params := by
  unfold MessageRight MessageFits
  constructor
  · rintro ⟨payload, -, -, hterminated, m, hpassed, hmethod, htoken, -, htext⟩
    rw [htext, request_text, passed_text hpassed] at hterminated
    exact ⟨hterminated, plain_clientToken.mp htoken, hmethod, exists_passed.mp ⟨m, hpassed⟩⟩
  · rintro ⟨hfits, hdevice, hmethod, hparams⟩
    obtain ⟨payload, hpublished, hreach, htext⟩ := publishMsg_fits hfits
    obtain ⟨m, hpassed⟩ := exists_passed.mpr hparams
    have htoken : plain (clientToken device token) = true := plain_clientToken.mpr hdevice
    refine ⟨payload, hpublished, hreach, by rw [htext]; exact hfits, m, hpassed, hmethod, htoken,
      request_wellFormed hmethod htoken (passed_wellFormed hpassed), ?_⟩
    rw [htext, request_text, passed_text hpassed, payloadText]

end Texts

section Lists
variable {query : SongListParams} {type : List UInt8} {listType : ListType}
  {members : List (Layout × Json)}

def pageMembers (query : SongListParams) (type : List UInt8) : List (Layout × Json) :=
  [numberMember "page" query.page, numberMember "size" query.pageSize,
    textMember "kugou_command" type, textMember "except_fields" (query.exceptFields.getD [])]

def pagesText (query : SongListParams) (type : List UInt8) : List UInt8 :=
  comma :: (membersText (pageMembers query type) ++ [closeBrace])

theorem formatted_pages (query : SongListParams) (type : List UInt8) :
    formatted (pagesFormat ",\"page\":") [.int query.page, .int query.pageSize, .string type,
      .string (query.exceptFields.getD [])] = some (pagesText query type) := by
  obtain ⟨hpage, -, hsize, htype, -, hfields, hend⟩ := page_literals
  simp [pagesFormat, pagesText, pageMembers, numberMember, textMember, member, Layout.front,
    Json.text, membersText, signedNumber_text, hpage, hsize, htype, hfields, hend]

/-- Behind an id in quotes the first of them closes it. -/
theorem formatted_pages_quoted (query : SongListParams) (type : List UInt8) :
    formatted (pagesFormat "\",\"page\":") [.int query.page, .int query.pageSize, .string type,
      .string (query.exceptFields.getD [])] = some (quote :: pagesText query type) := by
  obtain ⟨-, hquote, -⟩ := page_literals
  have hpages := formatted_pages query type
  rw [pagesFormat, formatted_literal, Option.map_eq_some_iff] at hpages ⊢
  obtain ⟨rest, hrest, htext⟩ := hpages
  exact ⟨rest, hrest, by rw [hquote, List.cons_append, htext]⟩

theorem pageMembers_text (m : Layout × Json) : (Json.object [] (m :: pageMembers query type)).text =
    openBrace :: (m.1.front ++ (m.2.text ++ (m.1.afterValue ++ pagesText query type))) := by
  simp [Json.text, membersText, pageMembers, pagesText]

/-- A query with an id in quotes, whose name stands in front of it. -/
theorem formatted_quoted {first name : String} {blanks : List UInt8}
    (hfirst : ascii first =
      openBrace :: quote :: (ascii name ++ (quote :: colon :: (blanks ++ [quote])))) :
    formatted (.literal first :: .string :: pagesFormat "\",\"page\":")
      [.string query.listId, .int query.page, .int query.pageSize, .string type,
      .string (query.exceptFields.getD [])] =
    some (Json.object [] (({ member name with beforeValue := blanks }, .string query.listId) ::
      pageMembers query type)).text := by
  rw [pageMembers_text, formatted_literal, formatted_string, formatted_pages_quoted, hfirst]
  simp [member, Layout.front, Json.text]

/-- A query whose id is printed as a value. -/
theorem formatted_shown {first name : String} {m : Layout × Json}
    (hfirst : ascii first = openBrace :: quote :: (ascii name ++ [quote, colon]))
    (h : Shows name query.listId m) :
    formatted (.literal first :: .string :: pagesFormat ",\"page\":")
      [.string query.listId, .int query.page, .int query.pageSize, .string type,
      .string (query.exceptFields.getD [])] =
    some (Json.object [] (m :: pageMembers query type)).text := by
  rw [pageMembers_text, formatted_literal, formatted_string, formatted_pages, hfirst,
    ← List.append_assoc m.2.text, ← List.append_assoc m.1.front, shows_text h]
  simp

/-- A query without an id and pages. -/
theorem formatted_bare : formatted bareFormat [.string type, .string (query.exceptFields.getD [])] =
    some (Json.object [] [textMember "kugou_command" type,
      textMember "except_fields" (query.exceptFields.getD [])]).text := by
  obtain ⟨-, -, -, -, htype, hfields, hend⟩ := page_literals
  simp [bareFormat, textMember, member, Layout.front, Json.text, membersText, htype, hfields,
    hend]

theorem arguments_pages {format : KgmusicCommandJsonFormat} (hpage : format.noPage = false)
    (hlist : format.noListId = false) :
    arguments format query type = [.string query.listId, .int query.page,
      .int query.pageSize, .string type, .string (query.exceptFields.getD [])] := by
  simp [arguments, hpage, hlist]

theorem arguments_bare {format : KgmusicCommandJsonFormat} (hpage : format.noPage = true)
    (hlist : format.noListId = true) :
    arguments format query type = [.string type, .string (query.exceptFields.getD [])] := by
  simp [arguments, hpage, hlist]

/-- The members of a query have the text that is printed for it. -/
theorem queryMembers_text (h : QueryMembers query type listType members) :
    formatted (commandJsonFormat listType).jsonFormat
      (arguments (commandJsonFormat listType) query type) =
      some (Json.object [] members).text := by
  obtain ⟨-, -, ids, hids, rfl⟩ := h
  cases listType with
  | albumInfo =>
    obtain ⟨m, ⟨-, rfl⟩, rfl⟩ := hids
    rw [arguments_pages rfl rfl]
    exact @formatted_quoted query type _ "album_id" [] id_literals.1
  | playlistSong =>
    obtain ⟨m, ⟨-, rfl⟩, rfl⟩ := hids
    rw [arguments_pages rfl rfl]
    exact @formatted_quoted query type _ "playlist_id" [space] id_literals.2.1
  | awesomeEveryday =>
    obtain rfl : ids = [] := hids
    rw [arguments_bare rfl rfl]
    exact formatted_bare
  | awesomeRecommend =>
    obtain rfl : ids = [] := hids
    rw [arguments_bare rfl rfl]
    exact formatted_bare
  | awesomeNewsong =>
    obtain ⟨m, hshows, rfl⟩ := hids
    rw [arguments_pages rfl rfl]
    exact formatted_shown id_literals.2.2.1 hshows
  | topSong =>
    obtain ⟨m, ⟨-, rfl⟩, rfl⟩ := hids
    rw [arguments_pages rfl rfl]
    exact @formatted_quoted query type _ "top_id" [] id_literals.2.2.2.1

theorem pageMembers_wellFormed (htype : plain type = true)
    (hfields : plain (query.exceptFields.getD []) = true) :
    membersWellFormed (pageMembers query type) = true := by
  have hlast := membersWellFormed_text (names_raw "except_fields" (by simp))
    (rawString_of_plain hfields) membersWellFormed_nil
  have hrest := membersWellFormed_text (names_raw "kugou_command" (by simp))
    (rawString_of_plain htype) hlast
  have hnumber (value : Int32) : (Json.number (signedNumber value.toInt)).wellFormed = true := by
    rw [Json.wellFormed, signedNumber_wellFormed]
  exact membersWellFormed_member (names_raw "page" (by simp)) (hnumber _)
    (membersWellFormed_member (names_raw "size" (by simp)) (hnumber _) hrest)

/-- The members of a query make an object. -/
theorem queryMembers_wellFormed (h : QueryMembers query type listType members) :
    (Json.object [] members).wellFormed = true := by
  obtain ⟨htype, hfields, ids, hids, rfl⟩ := h
  have hpages := pageMembers_wellFormed htype hfields
  have hbare : membersWellFormed [textMember "kugou_command" type,
      textMember "except_fields" (query.exceptFields.getD [])] = true :=
    membersWellFormed_text (names_raw "kugou_command" (by simp)) (rawString_of_plain htype)
      (membersWellFormed_text (names_raw "except_fields" (by simp)) (rawString_of_plain hfields)
        membersWellFormed_nil)
  apply object_wellFormed
  cases listType with
  | albumInfo =>
    obtain ⟨m, ⟨hid, rfl⟩, rfl⟩ := hids
    exact membersWellFormed_text (names_raw "album_id" (by simp)) (rawString_of_plain hid) hpages
  | playlistSong =>
    obtain ⟨m, ⟨hid, rfl⟩, rfl⟩ := hids
    have hname := names_raw "playlist_id" (by simp)
    change membersWellFormed (_ :: pageMembers query type) = true
    simp [membersWellFormed, Layout.wellFormed, member, hname, Json.wellFormed,
      rawString_of_plain hid, hpages, isBlank, space]
  | awesomeEveryday =>
    obtain rfl : ids = [] := hids
    exact hbare
  | awesomeRecommend =>
    obtain rfl : ids = [] := hids
    exact hbare
  | awesomeNewsong =>
    obtain ⟨m, hshows, rfl⟩ := hids
    exact shows_wellFormed (names_raw "top_id" (by simp)) hshows hpages
  | topSong =>
    obtain ⟨m, ⟨hid, rfl⟩, rfl⟩ := hids
    exact membersWellFormed_text (names_raw "top_id" (by simp)) (rawString_of_plain hid) hpages

/-- There are members for a query if its texts stand for themselves. -/
theorem exists_queryMembers : (∃ members, QueryMembers query type listType members) ↔
    plain type = true ∧ plain (query.exceptFields.getD []) = true ∧
      IdFits query.listId listType := by
  constructor
  · rintro ⟨members, htype, hfields, ids, hids, -⟩
    refine ⟨htype, hfields, ?_⟩
    cases listType with
    | awesomeEveryday => trivial
    | awesomeRecommend => trivial
    | awesomeNewsong =>
      obtain ⟨m, hid, -⟩ := hids
      exact exists_shows.mp ⟨m, hid⟩
    | albumInfo | playlistSong | topSong =>
      obtain ⟨m, hid, -⟩ := hids
      exact hid.1
  · rintro ⟨htype, hfields, hid⟩
    cases listType with
    | awesomeEveryday => exact ⟨_, htype, hfields, [], rfl, rfl⟩
    | awesomeRecommend => exact ⟨_, htype, hfields, [], rfl, rfl⟩
    | awesomeNewsong =>
      obtain ⟨m, hshows⟩ := (@exists_shows "top_id" _).mpr hid
      exact ⟨_, htype, hfields, [m], ⟨m, hshows, rfl⟩, rfl⟩
    | albumInfo | playlistSong | topSong => exact ⟨_, htype, hfields, _, ⟨_, ⟨hid, rfl⟩, rfl⟩, rfl⟩

end Lists

section Results
variable {device : DeviceInfo} {token : Int32} {method text : List UInt8} {carried : Json → Prop}

/-- The member of the parameters shows their text. -/
theorem passed_member {value : Json} (hvalue : value.wellFormed = true) :
    Passed (some value.text) (some (member "params", value)) :=
  ⟨_, ⟨⟨[], []⟩, value, rfl, hvalue, rfl, (List.append_nil _).symm, rfl⟩, rfl⟩

/-- A request for such a value that is in the array fits. -/
theorem good_fits {payload : Buffer}
    (hcarried : ∀ value, carried value → value.wellFormed = true ∧ value.text = text)
    (h : Good (Requests device token method (Carries carried)) payload) :
    payload.text = payloadText device token method (some text) ∧
      (payloadText device token method (some text)).length < 512 ∧ device.Plain ∧
        ∃ value, carried value := by
  obtain ⟨-, hterminated, m, ⟨value, hvalue, rfl⟩, hmethod, htoken, -, htext⟩ := h
  obtain ⟨hwf, rfl⟩ := hcarried value hvalue
  rw [request_text, passed_text (passed_member hwf)] at htext
  rw [htext] at hterminated
  exact ⟨htext, hterminated, plain_clientToken.mp htoken, value, hvalue⟩

/-- What fits is published as a request. -/
theorem fits_good (hmethod : plain method = true)
    (hcarried : ∀ value, carried value → value.wellFormed = true ∧ value.text = text)
    (hfits : (payloadText device token method (some text)).length < 512) (hdevice : device.Plain)
    (hvalue : ∃ value, carried value) :
    ∃ payload, publishMsg device token method (some text) = some payload ∧
      Good (Requests device token method (Carries carried)) payload := by
  obtain ⟨payload, hpublished, hreach, htext⟩ := publishMsg_fits hfits
  obtain ⟨value, hvalue⟩ := hvalue
  obtain ⟨hwf, rfl⟩ := hcarried value hvalue
  have htoken : plain (clientToken device token) = true := plain_clientToken.mpr hdevice
  refine ⟨payload, hpublished, hreach, by rw [htext]; exact hfits, _, ⟨value, hvalue, rfl⟩,
    hmethod, htoken, request_wellFormed hmethod htoken (passed_wellFormed (passed_member hwf)), ?_⟩
  rw [htext, request_text, passed_text (passed_member hwf), payloadText]

theorem formatted_listText (query : SongListParams) (type : List UInt8) (listType : ListType) :
    formatted (commandJsonFormat listType).jsonFormat
      (arguments (commandJsonFormat listType) query type) =
      some (listText query type listType) := by
  have hsome : (formatted (commandJsonFormat listType).jsonFormat
      (arguments (commandJsonFormat listType) query type)).isSome = true := by
    cases listType <;> rfl
  obtain ⟨text, htext⟩ := Option.isSome_iff_exists.mp hsome
  rw [listText, htext, Option.getD_some]

theorem listValue_text {query : SongListParams} {type : List UInt8} {listType : ListType}
    (value : Json)
    (h : ListValue query type listType value) :
    value.wellFormed = true ∧ value.text = listText query type listType := by
  obtain ⟨members, hmembers, rfl⟩ := h
  have htext := queryMembers_text hmembers
  rw [formatted_listText] at htext
  exact ⟨queryMembers_wellFormed hmembers, (Option.some.inj htext).symm⟩

theorem songValue_text {songId : List UInt8} (value : Json) (h : SongValue songId value) :
    value.wellFormed = true ∧ value.text = songText songId := by
  obtain ⟨hplain, rfl⟩ := h
  obtain ⟨-, -, -, -, hfirst⟩ := id_literals
  refine ⟨object_wellFormed
    (membersWellFormed_text (names_raw "song_id" (by simp)) (rawString_of_plain hplain)
    membersWellFormed_nil), ?_⟩
  rw [songText, hfirst, show ascii "\"\x7d" = [quote, closeBrace] by decide]
  simp [textMember, member, Layout.front, Json.text, membersText]

/-- The parameters of a payload that fits. -/
theorem params_length (hfits : (payloadText device token method (some text)).length < 512) :
    text.length < 511 := by
  rw [payloadText, Option.elim_some, List.length_append, List.length_append,
    List.length_append] at hfits
  have hend : (ascii "\x7d").length = 1 := by decide
  omega

/-- A query for a list is published as it is if it fits. -/
theorem list_right_iff (device : DeviceInfo) (token : Int32) (query : SongListParams) :
    ListRight device token query ↔ ListFits device token query := by
  unfold ListRight ListFits syncquerySonglist
  cases hknown : query.type with
  | none =>
    refine iff_of_true ⟨.refused, rfl, ?_⟩ ?_
    · rintro _ ⟨⟩
    · rintro _ _ ⟨⟩
  | some known =>
    obtain ⟨type, listType⟩ := known
    obtain ⟨printed, params, hparams, hkept⟩ :=
      @printBound_start 512 ⟨[], 0⟩ (by decide) (by decide)
      (listText query type listType)
    dsimp only
    rw [formatted_listText, Option.bind_eq_bind, Option.bind_some, hparams, Option.bind_eq_bind,
      Option.bind_some]
    dsimp only
    constructor
    · rintro ⟨outcome, houtcome, hgood⟩ _ _ ⟨⟩
      obtain ⟨payload, -, rfl⟩ := Option.map_eq_some_iff.mp houtcome
      obtain ⟨type', listType', heq, hgood⟩ := hgood payload rfl
      cases heq
      obtain ⟨-, hfits, hdevice, value, members, hmembers, -⟩ := good_fits listValue_text hgood
      exact ⟨hfits, hdevice, exists_queryMembers.mp ⟨members, hmembers⟩⟩
    · intro h
      obtain ⟨hfits, hdevice, hquery⟩ := h type listType rfl
      obtain ⟨members, hmembers⟩ := exists_queryMembers.mpr hquery
      have hlength := params_length hfits
      rw [List.take_of_length_le (by omega)] at hkept
      obtain ⟨payload, hpublished, hgood⟩ := fits_good literals.2.2.2.2.2.1
        listValue_text hfits hdevice ⟨_, members, hmembers, rfl⟩
      refine ⟨.published payload, ?_, ?_⟩
      · rw [hkept, hpublished]
        rfl
      · rintro _ ⟨⟩
        exact ⟨type, listType, rfl, hgood⟩

/-- A query for a song is published as it is if it fits. -/
theorem song_right_iff (device : DeviceInfo) (token : Int32) (songId : List UInt8) :
    SongRight device token songId ↔ SongFits device token songId := by
  unfold SongRight SongFits syncquerySong
  obtain ⟨printed, params, hparams, hkept⟩ :=
    @printBound_start 64 ⟨[], 0⟩ (by decide) (by decide) (songText songId)
  change (∃ outcome, (printBound ⟨[], 0⟩ 0 64 (songText songId) >>= _) = some outcome ∧ _) ↔ _
  rw [hparams, Option.bind_eq_bind, Option.bind_some]
  dsimp only
  constructor
  · rintro ⟨outcome, houtcome, hgood⟩
    obtain ⟨payload, hpublished, rfl⟩ := Option.map_eq_some_iff.mp houtcome
    have hgood := hgood payload rfl
    obtain ⟨htext, hfits, hdevice, value, hplain, -⟩ := good_fits songValue_text hgood
    refine ⟨?_, hfits, hdevice, hplain⟩
    by_contra hlong
    -- parameters that were cut do not have the length that they have in the request
    have hcut : params.text.length = 63 := by
      rw [hkept, List.length_take]
      exact Nat.min_eq_left (by omega)
    have hshorter :
        (payloadText device token (ascii "kugou_query_song") (some params.text)).length <
        (payloadText device token (ascii "kugou_query_song") (some (songText songId))).length := by
      simp only [payloadText, Option.elim_some, List.length_append]
      omega
    obtain ⟨payload', hpublished', -, htext'⟩ := publishMsg_fits (lt_trans hshorter hfits)
    cases hpublished.symm.trans hpublished'
    rw [← htext, ← htext'] at hshorter
    exact lt_irrefl _ hshorter
  · rintro ⟨hshort, hfits, hdevice, hplain⟩
    rw [List.take_of_length_le
      (show (songText songId).length ≤ (64 : ℤ).toNat - 1 from Nat.le_of_lt_succ hshort)] at hkept
    obtain ⟨payload, hpublished, hgood⟩ := fits_good literals.2.2.2.2.2.2
      songValue_text hfits hdevice ⟨_, hplain, rfl⟩
    refine ⟨.published payload, ?_, ?_⟩
    · rw [hkept, hpublished]
      rfl
    · rintro _ ⟨⟩
      exact hgood

/-- Behind the id of a song of 50 bytes the object is cut, and what is published lacks a brace. -/
theorem queries_wrong :
    ¬ SongRight ⟨ascii "PRODUCT", ascii "device"⟩ 0 (List.replicate 50 0x61) := by
  rw [song_right_iff]
  rintro ⟨hshort, -⟩
  have hfirst : (ascii "\x7b\"song_id\":\"").length = 12 := by decide
  have hend : (ascii "\"\x7d").length = 2 := by decide
  rw [songText, List.length_append, List.length_append, List.length_replicate, hfirst,
    hend] at hshort
  exact absurd hshort (by decide)

/-- A payload stays in its array and is the request, and so is the query for a list or a song,
exactly if they fit and their texts stand for themselves. -/
theorem queries_right_iff (device : DeviceInfo) (token : Int32) :
    (∀ method params, MessageRight device token method params ↔
      MessageFits device token method params) ∧
      (∀ query, ListRight device token query ↔ ListFits device token query) ∧
      (∀ songId, SongRight device token songId ↔ SongFits device token songId) :=
  ⟨message_right_iff device token, list_right_iff device token, song_right_iff device token⟩

end Results

end IotExplorer.KgmusicQueries
