import IotExplorer.Basis.JsonMarks
import IotExplorer.EventObjects
import IotExplorer.GatewayBindList
import IotExplorer.GatewayReplies

/-!
The messages that the gateway builds in a buffer: the replies to a change of its
sub-devices and to a question for them, and the report of its scenes. Each subtracts the
length that a print would have had from what is left of the buffer, which may be less.
-/
namespace IotExplorer.GatewayMessages

open Basis.JsonText Basis.JsonScan Basis.JsonMarks JsonParser JsonLookup TemplateJson DeviceProperty
open GatewayClient GatewayBindList GatewayReplies ReportArray

section Writers

/-- A buffer that is written from its start, with what the builder takes to be left of it, and the
least that was left at a print. -/
structure Writer where
  buffer : Buffer
  left : ℤ
  lowest : ℤ

/-- `HAL_Snprintf` at a place of a buffer. What is written behind the NUL of a text is no part
of it. A negative length is refused, as in `halSnprintf`. -/
def printAt (buffer : Buffer) (place : ℕ) (len : ℤ) (out : List UInt8) : ℤ × Buffer :=
  if len < 0 then (-1, buffer)
  else
    let written := halSnprintf buffer place len.toNat out
    (written.1,
      if place ≤ buffer.text.length then written.2 else { buffer with reach := written.2.reach })

/-- A print where a buffer of a size has been written to. -/
def Writer.print (size : ℤ) (out : List UInt8) (writer : Writer) : ℤ × Buffer :=
  printAt writer.buffer (size - writer.left).toNat writer.left out

/-- A print, behind which the place and what is left are moved by its return. -/
def Writer.put (size : ℤ) (out : List UInt8) (writer : Writer) : Writer :=
  let printed := writer.print size out
  ⟨printed.2, writer.left - printed.1, min writer.lowest writer.left⟩

def Writer.begin (size : ℤ) : Writer := ⟨⟨[], 0⟩, size, size⟩

/-- How a builder ends: how far the buffer was written to, the least that was left of it at a print,
and the text that is published. -/
structure Built where
  reach : ℕ
  lowest : ℤ
  published : Option (List UInt8)

/-- No write leaves a buffer of a size, what is left of it is never negative, and what is published
is JSON. -/
structure BuiltRight (size : ℤ) (built : Built) : Prop where
  inside : (built.reach : ℤ) ≤ size
  nonnegative : 0 ≤ built.lowest
  json : ∀ text ∈ built.published, IsJson text

end Writers

section Change

/-- The names of a sub-device in an entry of an array; the second is looked for behind the first. -/
def entryNames (entry : Entry) : Except Overrun (Option (List UInt8 × List UInt8)) :=
  match getJsonProductId (entryText entry) with
  | .error e => .error e
  | .ok none => .ok none
  | .ok (some productId) =>
      (getJsonDeviceName (entryText entry)).map fun name => name.map fun name => (productId, name)

def changePrefix (status : Int32) : List UInt8 :=
  ascii "\x7b\"type\":\"change\", \"payload\":\x7b\"status\":" ++
    (signedText status.toInt ++ ascii ", \"devices\":[")

/-- What is printed for a sub-device in it. -/
def changeItem (names : List UInt8 × List UInt8) : List UInt8 :=
  ascii "\x7b\"product_id\":\"" ++ (names.1 ++ (ascii "\",\"device_name\":\"" ++ (names.2 ++
    (ascii "\",\"result\":" ++ (signedText 0 ++ ascii "\x7d")))))

def listEnd : List UInt8 := ascii "]\x7d\x7d"

/-- The loop of `_gateway_ack_change`. -/
def changeLoop (ending : Ending) : List Entry → Bool → Writer → Except Overrun Writer
  | [], _, writer => if ending = .finished then .ok writer else .error .overrun
  | entry :: entries, isFirst, writer =>
      if writer.left < 128 then .ok writer
      else if isFirst = false ∧ (writer.print 1023 [comma]).1 < 0 then
        .ok { writer with buffer := (writer.print 1023 [comma]).2 }
      else
        let writer := if isFirst then writer else writer.put 1023 [comma]
        match entryNames entry with
        | .error e => .error e
        | .ok none => changeLoop ending entries false writer
        | .ok (some names) =>
            if (writer.print 1023 (changeItem names)).1 ≤ 0 then
              .ok { writer with buffer := (writer.print 1023 (changeItem names)).2 }
            else changeLoop ending entries false (writer.put 1023 (changeItem names))

/-- The last print of a message, and its publication. -/
def finishList (size : ℤ) (writer : Writer) : Built :=
  let buffer := (writer.print size listEnd).2
  ⟨buffer.reach, min writer.lowest writer.left, some buffer.text⟩

def gatewayAckChange (devices : List UInt8) (status : Int32) : Except Overrun Built :=
  let begun := Writer.begin 1023
  if (begun.print 1023 (changePrefix status)).1 < 0 then
    .ok ⟨(begun.print 1023 (changePrefix status)).2.reach, begun.lowest, none⟩
  else
    let loop := forEach .array (devices ++ [0])
    (changeLoop loop.ending loop.entries true (begun.put 1023 (changePrefix status))).map
      (finishList 1023)

end Change

section Describe

/-- The beginning of the reply to a question for the sub-devices. -/
def describePrefix : List UInt8 :=
  ascii "\x7b\"type\":\"change\", \"payload\":\x7b\"devices\":["

/-- What is printed for a sub-device in it. -/
def describeItem (device : Device) : List UInt8 :=
  ascii "\x7b\"product_id\":\"" ++ (device.productId ++ (ascii "\",\"device_name\":\"" ++
    (device.deviceName ++ ascii "\"\x7d")))

/-- The loop of `_gateway_ack_topo_describe`. -/
def describeLoop : List Device → Writer → Writer
  | [], writer => writer
  | [device], writer => writer.put 2047 (describeItem device)
  | device :: devices, writer =>
      describeLoop devices ((writer.put 2047 (describeItem device)).put 2047 [comma])

/-- `_gateway_ack_topo_describe` on the list of bound sub-devices. -/
def gatewayAckTopoDescribe (devices : List Device) : Built :=
  let begun := Writer.begin 2047
  if (begun.print 2047 describePrefix).1 < 0 then
    ⟨(begun.print 2047 describePrefix).2.reach, begun.lowest, none⟩
  else finishList 2047 (describeLoop devices (begun.put 2047 describePrefix))

end Describe

section Scenes

/-- `GatewaySceneInnerList`: texts in arrays of 64 bytes. -/
structure Scene where
  innerSceneId : List UInt8
  innerSceneName : List UInt8
  short : innerSceneId.length < 64 ∧ innerSceneName.length < 64

/-- What a report of scenes is made of besides the scenes: the product of the gateway, the number
of the report, and the time. -/
structure SceneReport where
  productId : List UInt8
  index : Int32
  seconds : Int64
  short : productId.length ≤ 10

/-- `METHOD_GATEWAY_REPORT_INNER_SCENE_LIST`. -/
def sceneMethod : List UInt8 := ascii "gateway_report_inner_scene_list"

def SceneReport.clientToken (report : SceneReport) : List UInt8 :=
  sceneMethod ++ (ascii "-" ++ (report.productId ++ (ascii "-" ++ signedText report.index.toInt)))

def scenePrefix (report : SceneReport) : List UInt8 :=
  ascii "\x7b\"method\":\"" ++ (sceneMethod ++ (ascii "\",\"clientToken\":\"" ++
    (report.clientToken ++ (ascii "\", \"timestamp\":" ++ (signedText report.seconds.toInt ++
      ascii ",\"params\":\x7b\"InnerSceneList\":[")))))

/-- What is printed for a scene, without the comma behind it. -/
def sceneItem (scene : Scene) : List UInt8 :=
  ascii "\x7b\"InnerSceneId\":\"" ++ (scene.innerSceneId ++ (ascii "\", \"InnerSceneName\":\"" ++
    (scene.innerSceneName ++ ascii "\"\x7d")))

/-- The loop over the scenes, and whether the buffer was not found too small. -/
def sceneLoop (reportLen : ℤ) : List Scene → Writer → Writer × Bool
  | [], writer => (writer, true)
  | scene :: scenes, writer =>
      let writer := writer.put reportLen (sceneItem scene ++ [comma])
      if writer.left ≤ 0 then (writer, false) else sceneLoop reportLen scenes writer

/-- The end that is put over the last character. -/
def patchEnd (place : ℕ) (buffer : Buffer) : Buffer :=
  ⟨if place ≤ buffer.text.length then buffer.text.take place ++ listEnd else buffer.text,
    max buffer.reach (place + 4)⟩

/-- `IOT_Gateway_Scene_Report_Inner_List`. -/
def sceneReportInnerList (report : SceneReport) (reportLen : Int32) (list : List Scene) : Built :=
  let begun := (Writer.begin reportLen.toInt).put reportLen.toInt (scenePrefix report)
  let looped := sceneLoop reportLen.toInt list begun
  if looped.2 = false then ⟨looped.1.buffer.reach, looped.1.lowest, none⟩
  else
    let buffer := patchEnd (reportLen.toInt - looped.1.left - 1).toNat looped.1.buffer
    ⟨buffer.reach, looped.1.lowest, some buffer.text⟩

end Scenes

section Prints
variable {size : ℤ} {text out : List UInt8} {writer : Writer}

/-- The builder has gone beyond the end of its buffer. -/
def Ruined (writer : Writer) : Prop := writer.lowest < 0 ∨ writer.left < 0

/-- A text has been written that is not longer than the buffer; the last character of one that is as
long had to make room for the NUL. -/
structure Good (size : ℤ) (text : List UInt8) (writer : Writer) : Prop where
  left : writer.left = size - text.length
  text : writer.buffer.text = if 0 < writer.left then text else text.dropLast
  lowest : 0 ≤ writer.lowest
  reach : (writer.buffer.reach : ℤ) ≤ size

/-- A text has been written, or the builder has gone beyond the end. -/
structure Wrote (size : ℤ) (text : List UInt8) (writer : Writer) : Prop where
  good : (text.length : ℤ) ≤ size → Good size text writer
  beyond : size < text.length → Ruined writer

theorem ruined_put (h : Ruined writer) (out : List UInt8) : Ruined (writer.put size out) := by
  left
  have hlowest : (writer.put size out).lowest = min writer.lowest writer.left := rfl
  rw [hlowest]
  rcases h with h | h
  · exact lt_of_le_of_lt (min_le_left _ _) h
  · exact lt_of_le_of_lt (min_le_right _ _) h

theorem printAt_eq {buffer : Buffer} {place len : ℕ} (hplace : place ≤ buffer.text.length)
    (hlen : 0 < len) (hint : len < 2 ^ 31) (hout : out.length < 2 ^ 31) :
    printAt buffer place len out = ((out.length : ℤ),
      ⟨buffer.text.take place ++ out.take (len - 1),
        max buffer.reach (place + (out.take (len - 1)).length + 1)⟩) := by
  unfold printAt
  rw [if_neg (Int.not_lt.mpr (Int.natCast_nonneg len)), Int.toNat_natCast]
  dsimp only
  rw [halSnprintf_eq hlen hint, if_pos hplace, if_pos hout]

/-- A print into no room writes nothing. -/
theorem printAt_zero (buffer : Buffer) (place : ℕ) (hout : out.length < 2 ^ 31) :
    printAt buffer place 0 out = ((out.length : ℤ), buffer) := by
  have hprinted : halSnprintf buffer place 0 out = ((out.length : ℤ), buffer) := by
    unfold halSnprintf
    rw [if_pos hout]
    rfl
  unfold printAt
  rw [if_neg (by decide), show Int.toNat 0 = 0 from rfl]
  dsimp only
  rw [hprinted, ite_self]

theorem Good.print (h : Good size text writer) (hle : (text.length : ℤ) ≤ size)
    (hint : size < 2 ^ 31)
    (hout : out.length < 2 ^ 31) :
    (writer.print size out).1 = out.length ∧
      (writer.print size out).2.text = (text ++ out).take (size - 1).toNat ∧
      ((writer.print size out).2.reach : ℤ) ≤ size := by
  obtain ⟨left, hleft⟩ : ∃ left : ℕ, writer.left = left := ⟨writer.left.toNat, by
    have hroom := h.left
    omega⟩
  have hroom := h.left
  have hplace : (size - writer.left).toNat = text.length := by omega
  unfold Writer.print
  rw [hplace, hleft]
  by_cases hzero : left = 0
  · have htext := h.text
    rw [if_neg (by omega)] at htext
    rw [hzero, Nat.cast_zero, printAt_zero _ _ hout]
    refine ⟨rfl, ?_, h.reach⟩
    rw [htext, List.dropLast_eq_take, List.take_append_of_le_length (by omega)]
    congr 1
    omega
  · have htext := h.text
    rw [if_pos (by omega)] at htext
    have hwhole : writer.buffer.text.length = text.length := by rw [htext]
    rw [printAt_eq (by omega) (by omega) (by omega) hout]
    refine ⟨rfl, ?_, ?_⟩
    · dsimp only
      have hrest : (size - 1).toNat - text.length = left - 1 := by omega
      rw [htext, List.take_length, List.take_append,
        List.take_of_length_le (show text.length ≤ (size - 1).toNat by omega), hrest]
    · have hkept : (out.take (left - 1)).length ≤ left - 1 := List.length_take_le ..
      have hreach := h.reach
      dsimp only
      push_cast
      omega

theorem Good.put_left (h : Good size text writer)
    (hle : (text.length : ℤ) ≤ size) (hint : size < 2 ^ 31) (hout : out.length < 2 ^ 31) :
    (writer.put size out).left = size - (text ++ out).length := by
  have hroom := h.left
  change writer.left - (writer.print size out).1 = _
  rw [(h.print hle hint hout).1, @List.length_append _ text]
  push_cast
  omega

theorem Wrote.put (h : Wrote size text writer) (hint : size < 2 ^ 31) (hout : out.length < 2 ^ 31)
    (hne : out ≠ []) : Wrote size (text ++ out) (writer.put size out) := by
  have hpos : 0 < out.length := List.length_pos_iff.mpr hne
  by_cases hle : (text.length : ℤ) ≤ size
  · have hgood := h.good hle
    obtain ⟨-, htext, hreach⟩ := hgood.print hle hint hout
    have hleft := hgood.put_left hle hint hout
    constructor
    · intro hfits
      have hroom := hgood.left
      refine ⟨hleft, ?_, le_min hgood.lowest (by omega), hreach⟩
      change (writer.print size out).2.text = _
      rw [htext]
      split_ifs with hmore
      · exact List.take_of_length_le (by omega)
      · rw [List.dropLast_eq_take]
        congr 1
        omega
    · intro hover
      right
      omega
  · refine ⟨fun hfits => ?_, fun _ => ruined_put (h.beyond (Int.not_le.mp hle)) out⟩
    rw [List.length_append] at hfits
    omega

theorem wrote_begin (size : ℤ) : Wrote size [] (Writer.begin size) := by
  constructor
  · intro hle
    refine ⟨by simp [Writer.begin], ?_, hle, hle⟩
    split_ifs <;> rfl
  · intro hover
    exact .inr hover

/-- A message is right if the text of it fits and what is published of it is JSON. -/
theorem finishList_right (h : Wrote size text writer) (hint : size < 2 ^ 31) :
    BuiltRight (size + 1) (finishList size writer) ↔
      (text.length : ℤ) ≤ size ∧ IsJson ((text ++ listEnd).take (size - 1).toNat) := by
  by_cases hle : (text.length : ℤ) ≤ size
  · have hgood := h.good hle
    obtain ⟨-, htext, hreach⟩ := hgood.print hle hint (show listEnd.length < 2 ^ 31 by decide)
    have hroom := hgood.left
    constructor
    · intro hright
      refine ⟨hle, ?_⟩
      rw [← htext]
      exact hright.json _ rfl
    · rintro ⟨-, hjson⟩
      refine ⟨?_, le_min hgood.lowest (by omega), ?_⟩
      · change ((writer.print size listEnd).2.reach : ℤ) ≤ size + 1
        omega
      · intro published hpublished
        obtain rfl : (writer.print size listEnd).2.text = published := Option.some.inj hpublished
        rw [htext]
        exact hjson
  · refine iff_of_false (fun hright => ?_) fun hboth => hle hboth.1
    have hlowest : 0 ≤ min writer.lowest writer.left := hright.nonnegative
    have hruined := h.beyond (Int.not_le.mp hle)
    unfold Ruined at hruined
    omega

end Prints

section Texts

def member (name : String) : Layout := ⟨[], ascii name, [], [], []⟩

def spacedMember (name : String) : Layout := ⟨[space], ascii name, [], [], []⟩

/-- Items with commas between them, or in front of each. -/
def itemsBody (isFirst : Bool) : List (List UInt8) → List UInt8
  | [] => []
  | item :: items => (if isFirst then [] else [comma]) ++ (item ++ itemsBody false items)

/-- Items with a comma behind each are items with commas between them, and a comma. -/
theorem flatMap_comma {items : List (List UInt8)} (hne : items ≠ []) (isFirst : Bool) :
    (if isFirst then [] else [comma]) ++ items.flatMap (fun item => item ++ [comma]) =
      itemsBody isFirst items ++ [comma] := by
  induction items generalizing isFirst with
  | nil => exact absurd rfl hne
  | cons item items ih =>
    cases items with
    | nil => simp [itemsBody]
    | cons next items =>
      have hrest := ih (List.cons_ne_nil _ _) false
      rw [if_neg Bool.false_ne_true] at hrest
      rw [itemsBody, List.flatMap_cons, List.append_assoc item, hrest]
      simp

/-- Values without blanks around them. -/
def tight (values : List Json) : List (Gaps × Json) := values.map fun value => (⟨[], []⟩, value)

theorem itemsText_tight (values : List Json) :
    itemsText (tight values) = itemsBody true (values.map Json.text) := by
  have hrest : ∀ values : List Json, values ≠ [] →
      comma :: itemsText (tight values) = itemsBody false (values.map Json.text) := by
    intro values hne
    induction values with
    | nil => exact absurd rfl hne
    | cons value values ih =>
      cases values with
      | nil => simp [tight, itemsText, itemsBody]
      | cons next values =>
        have htail := ih (List.cons_ne_nil _ _)
        rw [List.map_cons, itemsBody, ← htail]
        simp [tight, itemsText]
  cases values with
  | nil => rfl
  | cons value values =>
    cases values with
    | nil => simp [tight, itemsText, itemsBody]
    | cons next values =>
      have htail := hrest (next :: values) (List.cons_ne_nil _ _)
      rw [List.map_cons, itemsBody, ← htail]
      simp [tight, itemsText]

theorem tight_wellFormed {values : List Json} (h : ∀ value ∈ values, value.wellFormed = true) :
    itemsWellFormed (tight values) = true := by
  induction values with
  | nil => rfl
  | cons value values ih =>
    have hrest := ih fun other hmem => h other (List.mem_cons_of_mem value hmem)
    simp only [tight, List.map_cons, itemsWellFormed, Bool.and_eq_true]
    exact ⟨⟨⟨rfl, h value (List.mem_cons_self ..)⟩, rfl⟩, hrest⟩

/-- The names of a device and what they are spelled with. -/
def Spelled (names : List UInt8 × List UInt8) : Prop :=
  rawString names.1 = true ∧ rawString names.2 = true

/-- What is printed for a sub-device in the reply to a change. -/
def changeValue (names : List UInt8 × List UInt8) : Json :=
  .object [] [(member "product_id", .string names.1), (member "device_name", .string names.2),
    (member "result", .number (signedNumber 0))]

theorem changeValue_text (names : List UInt8 × List UInt8) :
    (changeValue names).text = changeItem names := by
  have hproduct : ascii "\x7b\"product_id\":\"" =
      openBrace :: quote :: (ascii "product_id" ++ [quote, colon, quote]) := by decide
  have hname : ascii "\",\"device_name\":\"" =
      quote :: comma :: quote :: (ascii "device_name" ++ [quote, colon, quote]) := by decide
  have hresult : ascii "\",\"result\":" =
      quote :: comma :: quote :: (ascii "result" ++ [quote, colon]) := by decide
  unfold changeItem
  rw [hproduct, hname, hresult, show ascii "\x7d" = [closeBrace] by decide]
  simp [changeValue, Json.text, membersText, Layout.front, member, signedNumber_text]

theorem changeValue_wellFormed {names : List UInt8 × List UInt8} (h : Spelled names) :
    (changeValue names).wellFormed = true := by
  have hzero : (signedNumber 0).wellFormed = true := signedNumber_wellFormed 0
  have hproduct : (member "product_id").wellFormed = true := by decide +kernel
  have hname : (member "device_name").wellFormed = true := by decide +kernel
  have hresult : (member "result").wellFormed = true := by decide +kernel
  simp [changeValue, Json.wellFormed, membersWellFormed, h.1, h.2, hzero, hproduct, hname, hresult]

/-- The reply to a change, without its last brackets. -/
theorem change_isJson (status : Int32) {items : List (List UInt8 × List UInt8)}
    (h : ∀ names ∈ items, Spelled names) :
    IsJson (changePrefix status ++ (itemsBody true (items.map changeItem) ++ listEnd)) := by
  refine isJson_text
    (.object [] [(member "type", .string (ascii "change")), (spacedMember "payload", .object []
    [(member "status", .number (signedNumber status.toInt)),
      (spacedMember "devices", .array [] (tight (items.map changeValue)))])]) ?_ ?_
  · have hitems : itemsWellFormed (tight (items.map changeValue)) = true := by
      apply tight_wellFormed
      intro value hvalue
      obtain ⟨names, hnames, rfl⟩ := List.mem_map.mp hvalue
      exact changeValue_wellFormed (h names hnames)
    have hstatus := signedNumber_wellFormed status.toInt
    have htype : (member "type").wellFormed = true ∧
        rawString (ascii "change") = true := by decide +kernel
    have hmembers : (spacedMember "payload").wellFormed = true ∧
        (member "status").wellFormed = true ∧
      (spacedMember "devices").wellFormed = true := by decide +kernel
    simp [Json.wellFormed, membersWellFormed, hitems, hstatus, htype, hmembers]
  · have hfront : ascii "\x7b\"type\":\"change\", \"payload\":\x7b\"status\":" =
        openBrace :: quote :: (ascii "type" ++ (quote :: colon :: quote :: (ascii "change" ++
          (quote :: comma :: space :: quote :: (ascii "payload" ++ (quote :: colon :: openBrace ::
            quote :: (ascii "status" ++ [quote, colon]))))))) := by decide
    have hdevices : ascii ", \"devices\":[" =
        comma :: space :: quote :: (ascii "devices" ++ [quote, colon, openBracket]) := by decide
    have hitems : itemsText (tight (items.map changeValue)) =
        itemsBody true (items.map changeItem) := by
      rw [itemsText_tight, List.map_map]
      congr 2
      exact funext changeValue_text
    rw [changePrefix, hfront, hdevices,
      show listEnd = [closeBracket, closeBrace, closeBrace] by decide]
    simp [Json.text, membersText, Layout.front, member, spacedMember, signedNumber_text, hitems]

/-- What is printed for a sub-device in the reply to a question. -/
def describeValue (device : Device) : Json :=
  .object [] [(member "product_id", .string device.productId),
    (member "device_name", .string device.deviceName)]

theorem describeValue_text (device : Device) :
    (describeValue device).text = describeItem device := by
  have hproduct : ascii "\x7b\"product_id\":\"" =
      openBrace :: quote :: (ascii "product_id" ++ [quote, colon, quote]) := by decide
  have hname : ascii "\",\"device_name\":\"" =
      quote :: comma :: quote :: (ascii "device_name" ++ [quote, colon, quote]) := by decide
  unfold describeItem
  rw [hproduct, hname, show ascii "\"\x7d" = [quote, closeBrace] by decide]
  simp [describeValue, Json.text, membersText, Layout.front, member]

theorem describe_isJson {devices : List Device}
    (h : ∀ device ∈ devices, Spelled (device.productId, device.deviceName)) :
    IsJson (describePrefix ++ (itemsBody true (devices.map describeItem) ++ listEnd)) := by
  refine isJson_text
    (.object [] [(member "type", .string (ascii "change")), (spacedMember "payload", .object []
    [(member "devices", .array [] (tight (devices.map describeValue)))])]) ?_ ?_
  · have hitems : itemsWellFormed (tight (devices.map describeValue)) = true := by
      apply tight_wellFormed
      intro value hvalue
      obtain ⟨device, hdevice, rfl⟩ := List.mem_map.mp hvalue
      have hspelled := h device hdevice
      have hmembers : (member "product_id").wellFormed = true ∧
        (member "device_name").wellFormed = true := by decide +kernel
      simp [describeValue, Json.wellFormed, membersWellFormed, hspelled.1, hspelled.2, hmembers]
    have htype : (member "type").wellFormed = true ∧
        rawString (ascii "change") = true := by decide +kernel
    have hmembers : (spacedMember "payload").wellFormed = true ∧
      (member "devices").wellFormed = true := by decide +kernel
    simp [Json.wellFormed, membersWellFormed, hitems, htype, hmembers]
  · have hfront : describePrefix =
        openBrace :: quote :: (ascii "type" ++ (quote :: colon :: quote :: (ascii "change" ++
          (quote :: comma :: space :: quote :: (ascii "payload" ++ (quote :: colon :: openBrace ::
            quote :: (ascii "devices" ++ [quote, colon, openBracket]))))))) := by decide
    have hitems : itemsText (tight (devices.map describeValue)) =
        itemsBody true (devices.map describeItem) := by
      rw [itemsText_tight, List.map_map]
      congr 2
      exact funext describeValue_text
    rw [hfront, show listEnd = [closeBracket, closeBrace, closeBrace] by decide]
    simp [Json.text, membersText, Layout.front, member, spacedMember, hitems]

def sceneValue (scene : Scene) : Json :=
  .object [] [(member "InnerSceneId", .string scene.innerSceneId),
    (spacedMember "InnerSceneName", .string scene.innerSceneName)]

theorem sceneValue_text (scene : Scene) : (sceneValue scene).text = sceneItem scene := by
  have hid : ascii "\x7b\"InnerSceneId\":\"" =
      openBrace :: quote :: (ascii "InnerSceneId" ++ [quote, colon, quote]) := by decide
  have hname : ascii "\", \"InnerSceneName\":\"" =
      quote :: comma :: space :: quote :: (ascii "InnerSceneName" ++ [quote, colon, quote]) := by
    decide
  unfold sceneItem
  rw [hid, hname, show ascii "\"\x7d" = [quote, closeBrace] by decide]
  simp [sceneValue, Json.text, membersText, Layout.front, member, spacedMember]

theorem scene_isJson {report : SceneReport} (hproduct : rawString report.productId = true)
    {scenes : List Scene}
    (h : ∀ scene ∈ scenes, Spelled (scene.innerSceneId, scene.innerSceneName)) :
    IsJson (scenePrefix report ++ (itemsBody true (scenes.map sceneItem) ++ listEnd)) := by
  refine isJson_text (.object [] [(member "method", .string sceneMethod),
    (member "clientToken", .string report.clientToken),
    (spacedMember "timestamp", .number (signedNumber report.seconds.toInt)),
    (member "params", .object []
      [(member "InnerSceneList", .array [] (tight (scenes.map sceneValue)))])]) ?_ ?_
  · have hitems : itemsWellFormed (tight (scenes.map sceneValue)) = true := by
      apply tight_wellFormed
      intro value hvalue
      obtain ⟨scene, hscene, rfl⟩ := List.mem_map.mp hvalue
      have hspelled := h scene hscene
      have hmembers : (member "InnerSceneId").wellFormed = true ∧
        (spacedMember "InnerSceneName").wellFormed = true := by decide +kernel
      simp [sceneValue, Json.wellFormed, membersWellFormed, hspelled.1, hspelled.2, hmembers]
    have hmethod : rawString sceneMethod = true ∧ rawString (ascii "-") = true := by decide +kernel
    have htoken : rawString report.clientToken = true := by
      refine rawString_append hmethod.1 (rawString_append hmethod.2 (rawString_append hproduct
        (rawString_append hmethod.2 (rawString_of_plain ?_))))
      exact EventObjects.plain_signedText report.index.toInt
    have hseconds := signedNumber_wellFormed report.seconds.toInt
    have hmembers : (member "method").wellFormed = true ∧ (member "clientToken").wellFormed = true ∧
      (spacedMember "timestamp").wellFormed = true ∧ (member "params").wellFormed = true ∧
      (member "InnerSceneList").wellFormed = true := by decide +kernel
    simp [Json.wellFormed, membersWellFormed, hitems, hmethod, htoken, hseconds, hmembers]
  · have hmethod : ascii "\x7b\"method\":\"" =
        openBrace :: quote :: (ascii "method" ++ [quote, colon, quote]) := by decide
    have htoken : ascii "\",\"clientToken\":\"" =
        quote :: comma :: quote :: (ascii "clientToken" ++ [quote, colon, quote]) := by decide
    have htime : ascii "\", \"timestamp\":" =
        quote :: comma :: space :: quote :: (ascii "timestamp" ++ [quote, colon]) := by decide
    have hparams : ascii ",\"params\":\x7b\"InnerSceneList\":[" =
        comma :: quote :: (ascii "params" ++ (quote :: colon :: openBrace :: quote ::
          (ascii "InnerSceneList" ++ [quote, colon, openBracket]))) := by decide
    have hitems : itemsText (tight (scenes.map sceneValue)) =
        itemsBody true (scenes.map sceneItem) := by
      rw [itemsText_tight, List.map_map]
      congr 2
      exact funext sceneValue_text
    rw [scenePrefix, hmethod, htoken, htime, hparams,
      show listEnd = [closeBracket, closeBrace, closeBrace] by decide]
    simp [Json.text, membersText, Layout.front, member, spacedMember, signedNumber_text, hitems]

end Texts

end IotExplorer.GatewayMessages
