import IotExplorer.PrintedTexts

/-!
The messages that ask for a speech recognition. The options that are set are printed one by
one behind the required members, each if there is room for an estimate of it, and the
closing braces go over the comma of the last member. What is left of the buffer is counted
from behind that comma, so that a message that fits exactly loses a brace.
-/
namespace IotExplorer.AsrMessages

open Basis.JsonText TemplateJson DeviceProperty ReportArray GatewayMessages PrintedTexts

section Requests

structure RecordAsrConf where
  engineType : Int32
  chNum : Int32
  filterDirty : Int32
  filterModal : Int32
  filterPunc : Int32
  convertNumMode : Int32
  speakerDiarization : Int32
  speakerNumber : Int32
  hotWordId : Option Plain

structure RealTimeAsrConf where
  engineType : Int32
  resType : Int32
  voiceFormat : Int32
  voiceId : Plain
  seq : Int32
  ending : Int32
  needVad : Int32
  vadSilenceTime : Int32
  filterDirty : Int32
  filterModal : Int32
  filterPunc : Int32
  convertNumMode : Int32
  hotWordId : Option Plain

/-- `AsrReq`, as far as it is printed; the two configurations are members of a union. -/
structure AsrReq where
  reqType : Int32
  asrToken : Option Plain
  recordConf : RecordAsrConf
  realtimeConf : RealTimeAsrConf

def engineTypeToStr (type : Int32) : List UInt8 :=
  match type.toInt with
  | 0 => ascii "8k_en"
  | 1 => ascii "8k_zh"
  | 2 => ascii "8k_zh_s"
  | 4 => ascii "16k_zh_video"
  | 5 => ascii "16k_en"
  | 6 => ascii "16k_ca"
  | 7 => ascii "16k_ja"
  | 8 => ascii "6k_wuu-SH"
  | _ => ascii "16k_zh"

def oneParaStrLen : ℤ := 25

/-- An option: whether it is set, the room that is asked for, and what is printed. -/
structure AsrOption where
  enabled : Bool
  room : ℤ
  out : List UInt8

def intOption (name : String) (value : Int32) : AsrOption :=
  ⟨value ≠ 0, oneParaStrLen,
    quote :: (ascii name ++ (quote :: colon :: (signedText value.toInt ++ [comma])))⟩

/-- An option that is a number, with another number behind it. -/
def twoIntsOption (name next : String) (value nextValue : Int32) : AsrOption :=
  ⟨value ≠ 0, 2 * oneParaStrLen,
    quote :: (ascii name ++ (quote :: colon :: (signedText value.toInt ++
      (comma :: quote :: (ascii next ++
        (quote :: colon :: (signedText nextValue.toInt ++ [comma])))))))⟩

/-- `hot_word_id`. -/
def hotWordOption (hotWordId : Option Plain) : AsrOption :=
  ⟨hotWordId.isSome, 2 * oneParaStrLen,
    ascii "\"hot_word_id\":\"" ++ (shownText hotWordId ++ ascii "\",")⟩

def recordOptions (conf : RecordAsrConf) : List AsrOption :=
  [twoIntsOption "speaker_diarization" "speaker_number" conf.speakerDiarization
      conf.speakerNumber,
    intOption "filter_dirty" conf.filterDirty, intOption "filter_modal" conf.filterModal,
    intOption "filter_punc" conf.filterPunc,
    intOption "convert_num_mode" conf.convertNumMode, hotWordOption conf.hotWordId]

def realtimeOptions (conf : RealTimeAsrConf) : List AsrOption :=
  [twoIntsOption "need_vad" "vad_silence_time" conf.needVad conf.vadSilenceTime,
    intOption "filter_dirty" conf.filterDirty, intOption "filter_modal" conf.filterModal,
    intOption "filter_punc" conf.filterPunc,
    intOption "convert_num_mode" conf.convertNumMode, hotWordOption conf.hotWordId]

def recordRequired (req : AsrReq) : List UInt8 :=
  ascii "\x7b\"method\":\"request_asr\",\"params\":\x7b\"req_type\":" ++
    (signedText req.reqType.toInt ++
    (ascii ",\"engine_type\":\"" ++ (engineTypeToStr req.recordConf.engineType ++
      (ascii "\",\"channel_num\":" ++ (signedText req.recordConf.chNum.toInt ++
        (ascii ",\"resource_token\":\"" ++ (shownText req.asrToken ++ ascii "\",")))))))

def realtimeRequired (req : AsrReq) : List UInt8 :=
  ascii "\x7b\"method\":\"request_asr\",\"params\":\x7b\"req_type\":" ++
    (signedText req.reqType.toInt ++
    (ascii ",\"engine_type\":\"" ++ (engineTypeToStr req.realtimeConf.engineType ++
      (ascii "\",\"res_type\":" ++ (signedText req.realtimeConf.resType.toInt ++
        (ascii ",\"voice_format\":" ++ (signedText req.realtimeConf.voiceFormat.toInt ++
          (ascii ",\"seq\":" ++ (signedText req.realtimeConf.seq.toInt ++
            (ascii ",\"end\":" ++ (signedText req.realtimeConf.ending.toInt ++
              (ascii ",\"voice_id\":\"" ++ (req.realtimeConf.voiceId.val ++
                (ascii "\",\"resource_token\":\"" ++
                  (shownText req.asrToken ++ ascii "\",")))))))))))))))

end Requests

section Builders

/-- The options are printed at the end of the text, as long as there is the room that is asked
for. -/
def addOptions (len : ℤ) : List AsrOption → Buffer → Bool × Buffer
  | [], buffer => (true, buffer)
  | option :: options, buffer =>
      if option.enabled then
        let remainSize := len - buffer.text.length
        if remainSize < option.room then (false, buffer)
        else addOptions len options (printAt buffer buffer.text.length remainSize option.out).2
      else addOptions len options buffer

/-- What both builders do, behind the checks of their pointers: `memset`, whose length is a
`size_t`, and the prints. -/
def genAsrRequestMsg (len : Int32) (required : List UInt8) (options : List AsrOption) :
    ℤ × Buffer :=
  let cleared : Buffer := ⟨[], (len.toInt % 2 ^ 64).toNat⟩
  let begun := (printAt cleared 0 len.toInt required).2
  let added := addOptions len.toInt options begun
  if added.1 then
    let remainSize := len.toInt - added.2.text.length
    if remainSize < 2 then (-134, added.2)
    else printAt added.2 (added.2.text.length - 1) remainSize (ascii "\x7d\x7d")
  else (-134, added.2)

def genRecordAsrRequestMsg (len : Int32) (req : AsrReq) : ℤ × Buffer :=
  genAsrRequestMsg len (recordRequired req) (recordOptions req.recordConf)

def genRealtimeAsrRequestMsg (len : Int32) (req : AsrReq) : ℤ × Buffer :=
  genAsrRequestMsg len (realtimeRequired req) (realtimeOptions req.realtimeConf)

/-- `_request_asr_file_manage_result`: the error, or the message that is reported. -/
def requestAsrFileManageResult (req : AsrReq) : Except ℤ (List UInt8) :=
  let built := if req.reqType = 1 then genRealtimeAsrRequestMsg 512 req
    else genRecordAsrRequestMsg 512 req
  if built.1 < 0 then .error built.1 else .ok built.2.text

end Builders

section Right

def intMember (name : String) (value : Int32) : Layout × Json :=
  (member name, .number (signedNumber value.toInt))

def intMembers (name : String) (value : Int32) : List (Layout × Json) :=
  if value = 0 then [] else [intMember name value]

/-- The members of an option with another number behind it. -/
def twoIntMembers (name next : String) (value nextValue : Int32) : List (Layout × Json) :=
  if value = 0 then [] else [intMember name value, intMember next nextValue]

def hotWordMembers (hotWordId : Option Plain) : List (Layout × Json) :=
  hotWordId.elim [] fun text => [textMember "hot_word_id" text.val]

/-- The params of a request for a record: the required members and every option that is set. -/
def recordMembers (req : AsrReq) : List (Layout × Json) :=
  let conf := req.recordConf
  [intMember "req_type" req.reqType, textMember "engine_type" (engineTypeToStr conf.engineType),
      intMember "channel_num" conf.chNum, textMember "resource_token" (shownText req.asrToken)] ++
    (twoIntMembers "speaker_diarization" "speaker_number" conf.speakerDiarization
      conf.speakerNumber ++
      (intMembers "filter_dirty" conf.filterDirty ++ (intMembers "filter_modal" conf.filterModal ++
        (intMembers "filter_punc" conf.filterPunc ++
          (intMembers "convert_num_mode" conf.convertNumMode ++
          hotWordMembers conf.hotWordId)))))

def realtimeMembers (req : AsrReq) : List (Layout × Json) :=
  let conf := req.realtimeConf
  [intMember "req_type" req.reqType, textMember "engine_type" (engineTypeToStr conf.engineType),
      intMember "res_type" conf.resType, intMember "voice_format" conf.voiceFormat,
      intMember "seq" conf.seq, intMember "end" conf.ending, textMember "voice_id" conf.voiceId.val,
      textMember "resource_token" (shownText req.asrToken)] ++
    (twoIntMembers "need_vad" "vad_silence_time" conf.needVad conf.vadSilenceTime ++
      (intMembers "filter_dirty" conf.filterDirty ++ (intMembers "filter_modal" conf.filterModal ++
        (intMembers "filter_punc" conf.filterPunc ++
          (intMembers "convert_num_mode" conf.convertNumMode ++
          hotWordMembers conf.hotWordId)))))

def message (params : List (Layout × Json)) : Json :=
  .object [] [textMember "method" (ascii "request_asr"), (member "params", .object [] params)]

/-- No write leaves the buffer; behind a success the buffer holds all of the message, which is JSON;
and a message that does not fit with its NUL is refused. -/
structure RequestRight (len : Int32) (params : List (Layout × Json)) (built : ℤ × Buffer) :
    Prop where
  inside : (built.2.reach : ℤ) ≤ len.toInt
  complete : 0 ≤ built.1 → built.2.text = (message params).text ∧ (message params).wellFormed = true
  refused : len.toInt < (message params).text.length + 1 → built.1 < 0

def AsrOption.text (option : AsrOption) : List UInt8 := if option.enabled then option.out else []

/-- Behind so many bytes each option that is set finds the room that is asked for. -/
def Roomy (len : ℤ) : ℤ → List AsrOption → Prop
  | _, [] => True
  | n, option :: options =>
      (option.enabled → option.room ≤ len - n) ∧ Roomy len (n + option.text.length) options

/-- The members that are printed, with a comma behind each. -/
def printedText (required : List UInt8) (options : List AsrOption) : List UInt8 :=
  required ++ options.flatMap AsrOption.text

/-- The length is not negative, and the members that are printed do not leave exactly two bytes
while each option finds its room. -/
def RequestFits (len : Int32) (required : List UInt8) (options : List AsrOption) : Prop :=
  0 ≤ len.toInt ∧ ¬(Roomy len.toInt required.length options ∧
    len.toInt = (printedText required options).length + 2)

end Right

section Prints
variable {len : ℤ} {text required : List UInt8} {options : List AsrOption} {buffer : Buffer}

/-- Each option is printed, or one of them does not find its room. -/
theorem addOptions_spec (h : Printed len text buffer) (hpos : 0 < len) (hint : len < 2 ^ 31)
    (hrooms : ∀ option ∈ options, 2 ≤ option.room) :
    ((addOptions len options buffer).1 ↔ Roomy len text.length options) ∧
      ((addOptions len options buffer).2.reach : ℤ) ≤ len ∧
      (Roomy len text.length options →
        Printed len (printedText text options) (addOptions len options buffer).2) := by
  induction options generalizing text buffer with
  | nil =>
    refine ⟨iff_of_true rfl trivial, h.inside, fun _ => ?_⟩
    rw [printedText, List.flatMap_nil, List.append_nil]
    exact h
  | cons option options ih =>
    have hrest := fun other hmem => hrooms other (List.mem_cons_of_mem option hmem)
    have htwo := hrooms option (List.mem_cons_self ..)
    have hleft := h.left hpos
    have hall : ∀ front : List UInt8, printedText front (option :: options) =
        printedText (front ++ option.text) options := by
      intro front
      rw [printedText, printedText, List.flatMap_cons, List.append_assoc]
    unfold addOptions Roomy
    cases henabled : option.enabled with
    | false =>
      have hnone : option.text = [] := by simp [AsrOption.text, henabled]
      rw [hall, hnone, List.append_nil]
      simpa using ih h hrest
    | true =>
      have hout : option.text = option.out := by simp [AsrOption.text, henabled]
      rw [if_pos rfl, hall, hout]
      dsimp only
      by_cases hroom : option.room ≤ len - text.length
      · rw [if_neg (by omega)]
        have hnext := ih (h.print hpos hint option.out) hrest
        rw [List.length_append, Nat.cast_add] at hnext
        simpa [hroom] using hnext
      · rw [if_pos (by omega)]
        simp [hroom, h.inside]

/-- What the builders do. -/
theorem genAsrRequestMsg_spec {len : Int32} (hpos : 0 < len.toInt)
    (hrooms : ∀ option ∈ options, 2 ≤ option.room) :
    ((genAsrRequestMsg len required options).2.reach : ℤ) ≤ len.toInt ∧
      (0 ≤ (genAsrRequestMsg len required options).1 ↔ Roomy len.toInt required.length options ∧
        (printedText required options).length + 2 ≤ len.toInt) ∧
      (0 ≤ (genAsrRequestMsg len required options).1 →
        (genAsrRequestMsg len required options).2.text = (printedText required options).dropLast ++
          (ascii "\x7d\x7d").take
            (len.toInt - (printedText required options).length - 1).toNat) := by
  have hint : len.toInt < 2 ^ 31 := Int32.toInt_lt len
  have hnegative : ¬(0 : ℤ) ≤ -134 := by decide
  have hbegun : Printed len.toInt required
      (printAt ⟨[], (len.toInt % 2 ^ 64).toNat⟩ 0 len.toInt required).2 := by
    have hempty : Printed len.toInt [] ⟨[], (len.toInt % 2 ^ 64).toNat⟩ := printed_nil (by omega)
    simpa using hempty.print hpos hint required
  obtain ⟨hok, hinside, hprinted⟩ := addOptions_spec hbegun hpos hint hrooms
  unfold genAsrRequestMsg
  dsimp only
  generalize addOptions len.toInt options
    (printAt ⟨[], (len.toInt % 2 ^ 64).toNat⟩ 0 len.toInt required).2 =
      added at hok hinside hprinted ⊢
  by_cases hroomy : Roomy len.toInt required.length options
  · have hwhole := hprinted hroomy
    have hleft := hwhole.left hpos
    rw [if_pos (hok.mpr hroomy)]
    by_cases hfits : ((printedText required options).length : ℤ) + 2 ≤ len.toInt
    · have htext : added.2.text = printedText required options := by
        rw [hwhole.text]
        exact List.take_of_length_le (by omega)
      have hkept : ((ascii "\x7d\x7d").take ((len.toInt - added.2.text.length).toNat - 1)).length ≤
          min ((len.toInt - (printedText required options).length).toNat - 1) 2 := by
        rw [List.length_take, htext]
        exact Nat.le_refl _
      rw [if_neg (by omega), printAt_room (Nat.sub_le _ _) (by omega) (by omega)]
      refine ⟨?_, iff_of_true ?_ ⟨hroomy, hfits⟩, fun _ => ?_⟩
      · dsimp only
        rw [htext] at hkept ⊢
        omega
      · exact Int.natCast_nonneg 2
      · have hroom : (len.toInt - (printedText required options).length).toNat - 1 =
            (len.toInt - (printedText required options).length - 1).toNat := by omega
        dsimp only
        rw [htext, List.dropLast_eq_take, hroom]
    · rw [if_pos (by omega)]
      exact ⟨hinside, iff_of_false hnegative fun hboth => hfits hboth.2,
        fun hzero => absurd hzero hnegative⟩
  · have hfailed : added.1 = false := Bool.eq_false_iff.mpr fun h => hroomy (hok.mp h)
    rw [hfailed, if_neg Bool.false_ne_true]
    exact ⟨hinside, iff_of_false hnegative fun hboth => hroomy hboth.1,
      fun hzero => absurd hzero hnegative⟩

/-- Nothing fits into a buffer without bytes. -/
theorem genAsrRequestMsg_zero {len : Int32} (hzero : len.toInt = 0)
    (hrooms : ∀ option ∈ options, 2 ≤ option.room) :
    genAsrRequestMsg len required options = (-134, ⟨[], 0⟩) := by
  have hadded : ∃ ok, addOptions 0 options ⟨[], 0⟩ = (ok, ⟨[], 0⟩) := by
    induction options with
    | nil => exact ⟨true, rfl⟩
    | cons option options ih =>
      obtain ⟨ok, hok⟩ := ih fun other hmem => hrooms other (List.mem_cons_of_mem option hmem)
      have htwo := hrooms option (List.mem_cons_self ..)
      unfold addOptions
      cases option.enabled with
      | false => exact ⟨ok, by simpa using hok⟩
      | true => exact ⟨false, by simp; omega⟩
  have hbegun : ∀ buffer : Buffer, (printAt buffer 0 0 required).2 = buffer := by
    intro buffer
    have hprinted : (halSnprintf buffer 0 (Int.toNat 0) required).2 = buffer := rfl
    unfold printAt
    rw [if_neg (by decide)]
    dsimp only
    rw [hprinted, ite_self]
  obtain ⟨ok, hok⟩ := hadded
  unfold genAsrRequestMsg
  rw [hzero]
  dsimp only
  rw [hbegun, Int.zero_emod, Int.toNat_zero, hok]
  cases ok <;> rfl

/-- A builder is right unless its text leaves exactly two bytes. -/
theorem requestRight_iff {len : Int32} {params : List (Layout × Json)}
    (hrooms : ∀ option ∈ options, 2 ≤ option.room) (hne : printedText required options ≠ [])
    (htext : (message params).text = (printedText required options).dropLast ++ ascii "\x7d\x7d")
    (hwf : (message params).wellFormed = true) :
    RequestRight len params (genAsrRequestMsg len required options) ↔
      RequestFits len required options := by
  have hpos : 0 < (printedText required options).length := List.length_pos_iff.mpr hne
  have hlength : (message params).text.length = (printedText required options).length + 1 := by
    rw [htext, List.length_append, List.length_dropLast,
      show (ascii "\x7d\x7d").length = 2 by decide]
    omega
  unfold RequestFits
  rcases lt_trichotomy len.toInt 0 with hnegative | hzero | hlen
  · refine iff_of_false (fun hright => ?_) fun hfits => ?_
    · have hinside := hright.inside
      omega
    · omega
  · rw [genAsrRequestMsg_zero hzero hrooms, hzero]
    refine iff_of_true ⟨?_, fun hzero => absurd hzero (by decide), fun _ => by decide⟩
      ⟨Int.le_refl 0, ?_⟩
    · rw [hzero]
      exact Int.le_refl 0
    · rintro ⟨-, hexact⟩
      omega
  · obtain ⟨hinside, hreturned, hbuilt⟩ := @genAsrRequestMsg_spec required options len hlen hrooms
    generalize genAsrRequestMsg len required options = built at hinside hreturned hbuilt ⊢
    constructor
    · intro hright
      refine ⟨hlen.le, fun ⟨hroomy, hexact⟩ => ?_⟩
      have hok := hreturned.mpr ⟨hroomy, by omega⟩
      have hcut := (hbuilt hok).symm.trans (hright.complete hok).1
      have hlengths := congrArg List.length hcut
      rw [hlength, List.length_append, List.length_dropLast, List.length_take,
        show (ascii "\x7d\x7d").length = 2 by decide] at hlengths
      omega
    · rintro ⟨-, hexact⟩
      refine ⟨hinside, fun hok => ⟨?_, hwf⟩, fun hshort => ?_⟩
      · obtain ⟨hroomy, hfits⟩ := hreturned.mp hok
        have hmore : (ascii "\x7d\x7d").length ≤
            (len.toInt - (printedText required options).length - 1).toNat := by
          have hother : len.toInt ≠ (printedText required options).length + 2 :=
            fun heq => hexact ⟨hroomy, heq⟩
          rw [show (ascii "\x7d\x7d").length = 2 by decide]
          omega
        rw [hbuilt hok, htext, List.take_of_length_le hmore]
      · by_contra hok
        have hfits := (hreturned.mp (Int.not_lt.mp hok)).2
        omega

end Prints

section Texts

def membersPrinted (members : List (Layout × Json)) : List UInt8 :=
  members.flatMap fun member => member.1.front ++
    (member.2.text ++ (member.1.afterValue ++ [comma]))

theorem membersPrinted_eq {members : List (Layout × Json)} (hne : members ≠ []) :
    membersPrinted members = membersText members ++ [comma] := by
  induction members with
  | nil => exact absurd rfl hne
  | cons first rest ih =>
    obtain ⟨layout, value⟩ := first
    have hcons : membersPrinted ((layout, value) :: rest) =
        layout.front ++ (value.text ++ (layout.afterValue ++ [comma])) ++ membersPrinted rest :=
      List.flatMap_cons
    rw [hcons, membersText_cons]
    cases rest with
    | nil => simp [separator, membersPrinted, membersText]
    | cons next rest =>
      rw [ih (List.cons_ne_nil _ _)]
      simp [separator]

theorem membersPrinted_append (front back : List (Layout × Json)) :
    membersPrinted (front ++ back) = membersPrinted front ++ membersPrinted back :=
      List.flatMap_append

theorem intOption_text (name : String) (value : Int32) :
    (intOption name value).text = membersPrinted (intMembers name value) := by
  unfold AsrOption.text intOption intMembers
  by_cases hzero : value = 0
  · simp [hzero, membersPrinted]
  · simp [hzero, membersPrinted, intMember, member, Layout.front, Json.text, signedNumber_text]

theorem twoIntsOption_text (name next : String) (value nextValue : Int32) :
    (twoIntsOption name next value nextValue).text =
      membersPrinted (twoIntMembers name next value nextValue) := by
  unfold AsrOption.text twoIntsOption twoIntMembers
  by_cases hzero : value = 0
  · simp [hzero, membersPrinted]
  · simp [hzero, membersPrinted, intMember, member, Layout.front, Json.text, signedNumber_text]

theorem hotWordOption_text (hotWordId : Option Plain) :
    (hotWordOption hotWordId).text = membersPrinted (hotWordMembers hotWordId) := by
  have hfront : ascii "\"hot_word_id\":\"" =
      quote :: (ascii "hot_word_id" ++ [quote, colon, quote]) := by
    decide
  have hend : ascii "\"," = [quote, comma] := by decide
  unfold AsrOption.text hotWordOption hotWordMembers
  rw [hfront, hend]
  cases hotWordId with
  | none => simp [membersPrinted]
  | some text =>
    simp [membersPrinted, textMember, member, Layout.front, Json.text, shownText]

def messageFront : List UInt8 := ascii "\x7b\"method\":\"request_asr\",\"params\":\x7b"

theorem messageFront_eq :
    messageFront = openBrace :: quote :: (ascii "method" ++ (quote :: colon :: quote ::
    (ascii "request_asr" ++
      (quote :: comma :: quote :: (ascii "params" ++ [quote, colon, openBrace]))))) := by
  decide

theorem message_text (params : List (Layout × Json)) :
    (message params).text = messageFront ++ (membersText params ++ ascii "\x7d\x7d") := by
  rw [messageFront_eq, show ascii "\x7d\x7d" = [closeBrace, closeBrace] by decide]
  simp [message, Json.text, membersText, textMember, member, Layout.front]

/-- The text of a message takes the place of the last comma. -/
theorem message_text_of_printed {required : List UInt8} {options : List AsrOption}
    {params : List (Layout × Json)}
    (hne : params ≠ []) (h : printedText required options = messageFront ++ membersPrinted params) :
    (message params).text = (printedText required options).dropLast ++ ascii "\x7d\x7d" := by
  rw [message_text, h, membersPrinted_eq hne,
    ← List.append_assoc messageFront (membersText params) [comma], List.dropLast_concat,
    List.append_assoc]

theorem recordRequired_text (req : AsrReq) :
    recordRequired req = messageFront ++ membersPrinted [intMember "req_type" req.reqType,
      textMember "engine_type" (engineTypeToStr req.recordConf.engineType),
      intMember "channel_num" req.recordConf.chNum,
        textMember "resource_token" (shownText req.asrToken)] := by
  have hfront : ascii "\x7b\"method\":\"request_asr\",\"params\":\x7b\"req_type\":" =
      messageFront ++ quote :: (ascii "req_type" ++ [quote, colon]) := by decide
  have hengine : ascii ",\"engine_type\":\"" =
      comma :: quote :: (ascii "engine_type" ++ [quote, colon, quote]) := by decide
  have hchannel : ascii "\",\"channel_num\":" =
      quote :: comma :: quote :: (ascii "channel_num" ++ [quote, colon]) := by decide
  have htoken : ascii ",\"resource_token\":\"" =
      comma :: quote :: (ascii "resource_token" ++ [quote, colon, quote]) := by decide
  unfold recordRequired
  rw [hfront, hengine, hchannel, htoken, show ascii "\"," = [quote, comma] by decide]
  simp [membersPrinted, intMember, textMember, member, Layout.front, Json.text, signedNumber_text]

theorem realtimeRequired_text (req : AsrReq) :
    realtimeRequired req = messageFront ++ membersPrinted [intMember "req_type" req.reqType,
      textMember "engine_type" (engineTypeToStr req.realtimeConf.engineType),
      intMember "res_type" req.realtimeConf.resType,
      intMember "voice_format" req.realtimeConf.voiceFormat,
      intMember "seq" req.realtimeConf.seq, intMember "end" req.realtimeConf.ending,
      textMember "voice_id" req.realtimeConf.voiceId.val,
      textMember "resource_token" (shownText req.asrToken)] := by
  have hfront : ascii "\x7b\"method\":\"request_asr\",\"params\":\x7b\"req_type\":" =
      messageFront ++ quote :: (ascii "req_type" ++ [quote, colon]) := by decide
  have hengine : ascii ",\"engine_type\":\"" =
      comma :: quote :: (ascii "engine_type" ++ [quote, colon, quote]) := by decide
  have hres : ascii "\",\"res_type\":" =
      quote :: comma :: quote :: (ascii "res_type" ++ [quote, colon]) := by decide
  have hvoice : ascii ",\"voice_format\":" =
      comma :: quote :: (ascii "voice_format" ++ [quote, colon]) := by decide
  have hseq : ascii ",\"seq\":" = comma :: quote :: (ascii "seq" ++ [quote, colon]) := by decide
  have hending : ascii ",\"end\":" = comma :: quote :: (ascii "end" ++ [quote, colon]) := by decide
  have hid : ascii ",\"voice_id\":\"" =
      comma :: quote :: (ascii "voice_id" ++ [quote, colon, quote]) := by decide
  have htoken : ascii "\",\"resource_token\":\"" =
      quote :: comma :: quote :: (ascii "resource_token" ++ [quote, colon, quote]) := by decide
  unfold realtimeRequired
  rw [hfront, hengine, hres, hvoice, hseq, hending, hid, htoken,
    show ascii "\"," = [quote, comma] by decide]
  simp [membersPrinted, intMember, textMember, member, Layout.front, Json.text, signedNumber_text]

theorem recordText (req : AsrReq) :
    printedText (recordRequired req) (recordOptions req.recordConf) =
    messageFront ++ membersPrinted (recordMembers req) := by
  unfold printedText recordOptions recordMembers
  rw [recordRequired_text]
  simp only [List.flatMap_cons, List.flatMap_nil, intOption_text, twoIntsOption_text,
    hotWordOption_text, membersPrinted_append, List.append_nil, List.append_assoc]

theorem realtimeText (req : AsrReq) :
    printedText (realtimeRequired req) (realtimeOptions req.realtimeConf) =
    messageFront ++ membersPrinted (realtimeMembers req) := by
  unfold printedText realtimeOptions realtimeMembers
  rw [realtimeRequired_text]
  simp only [List.flatMap_cons, List.flatMap_nil, intOption_text, twoIntsOption_text,
    hotWordOption_text, membersPrinted_append, List.append_nil, List.append_assoc]

theorem membersWellFormed_append {front back : List (Layout × Json)} :
    membersWellFormed (front ++ back) = (membersWellFormed front && membersWellFormed back) := by
  induction front with
  | nil => rfl
  | cons first front ih =>
    obtain ⟨layout, value⟩ := first
    rw [List.cons_append, membersWellFormed, membersWellFormed, ih, Bool.and_assoc, Bool.and_assoc,
      Bool.and_assoc]

def memberNames : List String :=
  ["method", "params", "req_type", "engine_type", "channel_num", "resource_token", "res_type",
    "voice_format", "seq", "end", "voice_id", "speaker_diarization", "speaker_number", "need_vad",
    "vad_silence_time", "filter_dirty", "filter_modal", "filter_punc", "convert_num_mode",
    "hot_word_id"]

theorem memberNames_raw : ∀ name ∈ memberNames, rawString (ascii name) = true := by
  have hall : memberNames.all (fun name => rawString (ascii name)) = true := by decide +kernel
  exact List.all_eq_true.mp hall

theorem member_wellFormed {name : String} (hname : name ∈ memberNames) :
    (member name).wellFormed = true := by
  simp [Layout.wellFormed, member, memberNames_raw name hname]

theorem intMember_wellFormed {name : String} (hname : name ∈ memberNames) (value : Int32)
    {rest : List (Layout × Json)} (hrest : membersWellFormed rest = true) :
    membersWellFormed (intMember name value :: rest) = true := by
  simp [intMember, membersWellFormed, member_wellFormed hname, Json.wellFormed,
    signedNumber_wellFormed, hrest]

theorem textMember_wellFormed {name : String} (hname : name ∈ memberNames) {text : List UInt8}
    (htext : rawString text = true) {rest : List (Layout × Json)}
    (hrest : membersWellFormed rest = true) :
    membersWellFormed (textMember name text :: rest) = true :=
  membersWellFormed_text (memberNames_raw name hname) htext hrest

theorem intMembers_wellFormed {name : String} (hname : name ∈ memberNames) (value : Int32) :
    membersWellFormed (intMembers name value) = true := by
  unfold intMembers
  split_ifs
  · rfl
  · exact intMember_wellFormed hname value rfl

theorem twoIntMembers_wellFormed {name next : String} (hname : name ∈ memberNames)
    (hnext : next ∈ memberNames) (value nextValue : Int32) :
    membersWellFormed (twoIntMembers name next value nextValue) = true := by
  unfold twoIntMembers
  split_ifs
  · rfl
  · exact intMember_wellFormed hname value (intMember_wellFormed hnext nextValue rfl)

theorem hotWordMembers_wellFormed (hotWordId : Option Plain) :
    membersWellFormed (hotWordMembers hotWordId) = true := by
  cases hotWordId with
  | none => rfl
  | some text => exact textMember_wellFormed (by simp [memberNames]) (rawString_of_plain text.2) rfl

theorem engineTypeToStr_raw (type : Int32) : rawString (engineTypeToStr type) = true := by
  unfold engineTypeToStr
  split <;> decide +kernel

theorem message_wellFormed {params : List (Layout × Json)} (h : membersWellFormed params = true) :
    (message params).wellFormed = true := by
  have hparams : membersWellFormed [(member "params", Json.object [] params)] = true := by
    simp [membersWellFormed, @member_wellFormed "params" (by simp [memberNames]),
      Json.wellFormed, h]
  have hmethod : rawString (ascii "request_asr") = true := by decide +kernel
  have hmembers := @textMember_wellFormed "method" (by simp [memberNames]) _ hmethod _ hparams
  unfold message
  rw [Json.wellFormed, hmembers]
  rfl

/-- The options that both requests have leave the params well formed. -/
theorem options_wellFormed {required : List (Layout × Json)} {name next : String}
    (hname : name ∈ memberNames) (hnext : next ∈ memberNames)
    (value nextValue dirty modal punc mode : Int32) (hotWordId : Option Plain)
    (hrequired : membersWellFormed required = true) :
    membersWellFormed (required ++ (twoIntMembers name next value nextValue ++
      (intMembers "filter_dirty" dirty ++ (intMembers "filter_modal" modal ++
        (intMembers "filter_punc" punc ++ (intMembers "convert_num_mode" mode ++
          hotWordMembers hotWordId)))))) = true := by
  have hdirty := @intMembers_wellFormed "filter_dirty" (by simp [memberNames]) dirty
  have hmodal := @intMembers_wellFormed "filter_modal" (by simp [memberNames]) modal
  have hpunc := @intMembers_wellFormed "filter_punc" (by simp [memberNames]) punc
  have hmode := @intMembers_wellFormed "convert_num_mode" (by simp [memberNames]) mode
  simp only [membersWellFormed_append, hrequired, twoIntMembers_wellFormed hname hnext, hdirty,
    hmodal, hpunc, hmode, hotWordMembers_wellFormed, Bool.and_true]

theorem recordMembers_wellFormed (req : AsrReq) :
    membersWellFormed (recordMembers req) = true := by
  refine options_wellFormed (by simp [memberNames]) (by simp [memberNames]) _ _ _ _ _ _ _ ?_
  refine intMember_wellFormed (by simp [memberNames]) _ ?_
  refine textMember_wellFormed (by simp [memberNames]) (engineTypeToStr_raw _) ?_
  refine intMember_wellFormed (by simp [memberNames]) _ ?_
  exact textMember_wellFormed (by simp [memberNames]) (shownText_raw _) rfl

theorem realtimeMembers_wellFormed (req : AsrReq) :
    membersWellFormed (realtimeMembers req) = true := by
  have hid : rawString req.realtimeConf.voiceId.val = true :=
    rawString_of_plain req.realtimeConf.voiceId.2
  refine options_wellFormed (by simp [memberNames]) (by simp [memberNames]) _ _ _ _ _ _ _ ?_
  refine intMember_wellFormed (by simp [memberNames]) _ ?_
  refine textMember_wellFormed (by simp [memberNames]) (engineTypeToStr_raw _) ?_
  refine intMember_wellFormed (by simp [memberNames]) _ ?_
  refine intMember_wellFormed (by simp [memberNames]) _ ?_
  refine intMember_wellFormed (by simp [memberNames]) _ ?_
  refine intMember_wellFormed (by simp [memberNames]) _ ?_
  refine textMember_wellFormed (by simp [memberNames]) hid ?_
  exact textMember_wellFormed (by simp [memberNames]) (shownText_raw _) rfl

end Texts

section Results

theorem room_le {option : AsrOption}
    (h : option.room = oneParaStrLen ∨ option.room = 2 * oneParaStrLen) :
    2 ≤ option.room := by
  rcases h with h | h
  · rw [h]
    decide
  · rw [h]
    decide

theorem recordOptions_room (conf : RecordAsrConf) :
    ∀ option ∈ recordOptions conf, 2 ≤ option.room := by
  intro option hoption
  apply room_le
  simp only [recordOptions, List.mem_cons, List.not_mem_nil, or_false] at hoption
  rcases hoption with rfl | rfl | rfl | rfl | rfl | rfl
  · exact .inr rfl
  · exact .inl rfl
  · exact .inl rfl
  · exact .inl rfl
  · exact .inl rfl
  · exact .inr rfl

theorem realtimeOptions_room (conf : RealTimeAsrConf) :
    ∀ option ∈ realtimeOptions conf, 2 ≤ option.room := by
  intro option hoption
  apply room_le
  simp only [realtimeOptions, List.mem_cons, List.not_mem_nil, or_false] at hoption
  rcases hoption with rfl | rfl | rfl | rfl | rfl | rfl
  · exact .inr rfl
  · exact .inl rfl
  · exact .inl rfl
  · exact .inl rfl
  · exact .inl rfl
  · exact .inr rfl

theorem messageFront_append_ne (text : List UInt8) : messageFront ++ text ≠ [] := by
  rw [messageFront_eq]
  exact List.cons_ne_nil _ _

theorem recordRight_iff (len : Int32) (req : AsrReq) :
    RequestRight len (recordMembers req) (genRecordAsrRequestMsg len req) ↔
      RequestFits len (recordRequired req) (recordOptions req.recordConf) :=
  requestRight_iff (recordOptions_room req.recordConf) (recordText req ▸ messageFront_append_ne _)
    (message_text_of_printed (List.cons_ne_nil _ _) (recordText req))
    (message_wellFormed (recordMembers_wellFormed req))

theorem realtimeRight_iff (len : Int32) (req : AsrReq) :
    RequestRight len (realtimeMembers req) (genRealtimeAsrRequestMsg len req) ↔
      RequestFits len (realtimeRequired req) (realtimeOptions req.realtimeConf) :=
  requestRight_iff (realtimeOptions_room req.realtimeConf)
    (realtimeText req ▸ messageFront_append_ne _)
    (message_text_of_printed (List.cons_ne_nil _ _) (realtimeText req))
    (message_wellFormed (realtimeMembers_wellFormed req))

/-- The members of the request that is reported, and what is printed of them. -/
def reported (req : AsrReq) : List (Layout × Json) × List UInt8 :=
  if req.reqType = 1 then
    (realtimeMembers req, printedText (realtimeRequired req) (realtimeOptions req.realtimeConf))
  else (recordMembers req, printedText (recordRequired req) (recordOptions req.recordConf))

/-- What is reported to the file management is a complete message, if what is printed of it does not
take 510 bytes. -/
theorem reported_complete {req : AsrReq} {text : List UInt8}
    (h : requestAsrFileManageResult req = .ok text)
    (hlength : (reported req).2.length ≠ 510) : text = (message (reported req).1).text := by
  have hlen : (512 : Int32).toInt = 512 := by decide
  unfold requestAsrFileManageResult at h
  unfold reported at hlength ⊢
  by_cases htype : req.reqType = 1
  · rw [if_pos htype] at h hlength ⊢
    dsimp only at h hlength ⊢
    have hfits : RequestFits 512 (realtimeRequired req) (realtimeOptions req.realtimeConf) :=
      ⟨by decide, fun hboth => hlength (by have hexact := hboth.2; rw [hlen] at hexact; omega)⟩
    have hright := (realtimeRight_iff 512 req).mpr hfits
    split_ifs at h with hfailed
    cases h
    exact (hright.complete (Int.not_lt.mp hfailed)).1
  · rw [if_neg htype] at h hlength ⊢
    dsimp only at h hlength ⊢
    have hfits : RequestFits 512 (recordRequired req) (recordOptions req.recordConf) :=
      ⟨by decide, fun hboth => hlength (by have hexact := hboth.2; rw [hlen] at hexact; omega)⟩
    have hright := (recordRight_iff 512 req).mpr hfits
    split_ifs at h with hfailed
    cases h
    exact (hright.complete (Int.not_lt.mp hfailed)).1

/-- When the two builders are right. -/
theorem requests_right_iff (len : Int32) (req : AsrReq) :
    (RequestRight len (recordMembers req) (genRecordAsrRequestMsg len req) ↔
      RequestFits len (recordRequired req) (recordOptions req.recordConf)) ∧
    (RequestRight len (realtimeMembers req) (genRealtimeAsrRequestMsg len req) ↔
      RequestFits len (realtimeRequired req) (realtimeOptions req.realtimeConf)) :=
  ⟨recordRight_iff len req, realtimeRight_iff len req⟩

def shortRequest : AsrReq where
  reqType := 0
  asrToken := some ⟨ascii "t", by decide⟩
  recordConf := ⟨3, 1, 0, 0, 0, 0, 0, 0, none⟩
  realtimeConf := ⟨3, 0, 1, ⟨[], rfl⟩, 0, 0, 0, 0, 0, 0, 0, 0, none⟩

/-- A message of 108 bytes loses its last brace in a buffer of 109 bytes, and is said to be
complete. -/
theorem requests_wrong :
    ¬RequestRight 109 (recordMembers shortRequest) (genRecordAsrRequestMsg 109 shortRequest) := by
  have hbuilt : 0 ≤ (genRecordAsrRequestMsg 109 shortRequest).1 ∧
      (genRecordAsrRequestMsg 109 shortRequest).2.text ≠
        (message (recordMembers shortRequest)).text := by
    decide +kernel
  exact fun hright => hbuilt.2 (hright.complete hbuilt.1).1

end Results

end IotExplorer.AsrMessages
