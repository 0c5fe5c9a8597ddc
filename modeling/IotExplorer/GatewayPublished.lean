import IotExplorer.ArrayFormat
import IotExplorer.GatewayMessages

/-!
What the gateway publishes of its lists. A message is right exactly if the whole of it
fits into its buffer, and, where sub-devices of a message are looked through, none of them
lacks a name next to others; a report of scenes needs a scene, and as much room again as
it writes behind its last character without asking, unless the scenes did not fit at all.
-/
namespace IotExplorer.GatewayPublished

open Basis.JsonScan hiding step_mark
open Basis.JsonText Basis.Decimals Basis.JsonMarks JsonParser JsonLookup TemplateJson DeviceProperty
open GatewayClient GatewayBindList GatewayReplies ReportArray GatewayMessages

section Ends
variable {front back : List UInt8} {n : ℕ}

/-- A text that is cut in the brackets at its end is no value. -/
theorem not_isJson_cut (h : IsJson (front ++ back))
    (hback : ∀ c ∈ back, c = closeBrace ∨ c = closeBracket) (hfront : front.length ≤ n)
    (hcut : n < (front ++ back).length) : ¬ IsJson ((front ++ back).take n) := by
  have hsplit : (front ++ back).take n ++ (front ++ back).drop n = front ++ back :=
    List.take_append_drop n _
  refine IsJson.cut (hsplit.symm ▸ h) ?_ ?_
  · rw [Ne, List.drop_eq_nil_iff]
    omega
  · intro c hc
    rw [List.drop_append, List.drop_eq_nil_of_le hfront, List.nil_append] at hc
    exact hback c (List.mem_of_mem_drop hc)

/-- The end of the items, if there are any. -/
theorem itemsBody_end {items : List (List UInt8)} (hne : items ≠ [])
    (hitems : ∀ item ∈ items, ∃ rest, item = rest ++ [closeBrace]) (isFirst : Bool) :
    ∃ rest, itemsBody isFirst items = rest ++ [closeBrace] := by
  induction items generalizing isFirst with
  | nil => exact absurd rfl hne
  | cons item items ih =>
    rw [itemsBody]
    cases items with
    | nil =>
      obtain ⟨rest, rfl⟩ := hitems item (List.mem_cons_self ..)
      exact ⟨(if isFirst then [] else [comma]) ++ rest, by simp [itemsBody]⟩
    | cons next items =>
      obtain ⟨rest, hrest⟩ := ih (List.cons_ne_nil _ _)
        (fun other hmem => hitems other (List.mem_cons_of_mem item hmem)) false
      exact ⟨(if isFirst then [] else [comma]) ++ (item ++ rest), by simp [hrest]⟩

/-- A whole message: what is in front of its items, the items, and the brackets behind them. -/
def wholeText (front : List UInt8) (items : List (List UInt8)) : List UInt8 :=
  front ++ (itemsBody true items ++ listEnd)

/-- What is printed of a message whose items end with a brace is a value exactly if all of it is. -/
theorem wholeText_isJson_iff {size : ℤ} {front : List UInt8} {items : List (List UInt8)}
    (h : IsJson (wholeText front items))
    (hitems : ∀ item ∈ items, ∃ rest, item = rest ++ [closeBrace])
    (hfront : (front.length : ℤ) + 3 < size) :
    ((front ++ itemsBody true items).length : ℤ) ≤ size ∧
        IsJson ((front ++ itemsBody true items ++ listEnd).take (size - 1).toNat) ↔
      ((wholeText front items).length : ℤ) < size := by
  have hend : listEnd = [closeBracket, closeBrace, closeBrace] := by decide
  have hthree : listEnd.length = 3 := by decide
  have hwhole : front ++ itemsBody true items ++ listEnd = wholeText front items :=
    List.append_assoc ..
  have hlength : (wholeText front items).length = (front ++ itemsBody true items).length + 3 := by
    rw [← hwhole, List.length_append, hthree]
  rw [hwhole]
  by_cases hfits : ((wholeText front items).length : ℤ) < size
  · refine iff_of_true ⟨by omega, ?_⟩ hfits
    rwa [List.take_of_length_le (by omega)]
  · refine iff_of_false ?_ hfits
    rintro ⟨hle, hjson⟩
    have hne : items ≠ [] := by
      rintro rfl
      rw [itemsBody, List.append_nil] at hlength
      omega
    obtain ⟨rest, hrest⟩ := itemsBody_end hne hitems true
    have hsplit : wholeText front items =
        (front ++ rest) ++ [closeBrace, closeBracket, closeBrace, closeBrace] := by
      rw [wholeText, hrest, hend]
      simp
    have hcount : (wholeText front items).length = (front ++ rest).length + 4 := by
      rw [hsplit, List.length_append]
      rfl
    rw [hsplit] at h hjson
    refine not_isJson_cut h ?_ ?_ ?_ hjson
    · simp
    · omega
    · rw [← hsplit]
      omega

/-- What makes a message right whose items are printed behind its front: all of it fits, or, where
something does not stay in the string that it is printed into, what fits happens to be JSON. -/
def ListFits (size : ℤ) (spelled : Prop) (front : List UInt8) (items : List (List UInt8)) : Prop :=
  (spelled ∧ ((wholeText front items).length : ℤ) < size) ∨
    (¬ spelled ∧ ((front ++ itemsBody true items).length : ℤ) ≤ size ∧
      IsJson ((wholeText front items).take (size - 1).toNat))

theorem listFits_iff {size : ℤ} {spelled : Prop} {front : List UInt8} {items : List (List UInt8)}
    (h : spelled → IsJson (wholeText front items))
    (hitems : ∀ item ∈ items, ∃ rest, item = rest ++ [closeBrace])
    (hfront : (front.length : ℤ) + 3 < size) :
    ((front ++ itemsBody true items).length : ℤ) ≤ size ∧
        IsJson ((front ++ itemsBody true items ++ listEnd).take (size - 1).toNat) ↔
      ListFits size spelled front items := by
  have hwhole : front ++ itemsBody true items ++ listEnd = wholeText front items :=
    List.append_assoc ..
  unfold ListFits
  by_cases hspelled : spelled
  · rw [wholeText_isJson_iff (h hspelled) hitems hfront]
    simp only [hspelled, not_true_eq_false, false_and, or_false, true_and]
  · rw [hwhole]
    simp only [hspelled, not_false_eq_true, false_and, false_or, true_and]

end Ends

section Describe
variable {devices : List Device} {writer : Writer} {text : List UInt8}

theorem describeItem_length (device : Device) : (describeItem device).length ≤ 120 := by
  have hfits := device.fits
  unfold Fits at hfits
  have hone : (ascii "\x7b\"product_id\":\"").length = 15 := by decide
  have htwo : (ascii "\",\"device_name\":\"").length = 17 := by decide
  have hthree : (ascii "\"\x7d").length = 2 := by decide
  rw [describeItem, List.length_append, List.length_append, List.length_append, List.length_append,
    hone, htwo, hthree]
  omega

theorem describeItem_ne (device : Device) : describeItem device ≠ [] := by
  intro hnil
  have hlength := congrArg List.length hnil
  have hone : (ascii "\x7b\"product_id\":\"").length = 15 := by decide
  rw [describeItem, List.length_append, hone, List.length_nil] at hlength
  omega

theorem describeLoop_wrote (h : Wrote 2047 text writer) (devices : List Device) :
    Wrote 2047 (text ++ itemsBody true (devices.map describeItem))
      (describeLoop devices writer) := by
  induction devices generalizing text writer with
  | nil =>
    rw [List.map_nil, itemsBody, List.append_nil]
    exact h
  | cons device devices ih =>
    have hlength := describeItem_length device
    have hitem := h.put (by norm_num) (by omega) (describeItem_ne device)
    cases devices with
    | nil =>
      rw [describeLoop]
      simpa [itemsBody] using hitem
    | cons next devices =>
      have hcomma := hitem.put (by norm_num) (show [comma].length < 2 ^ 31 by decide)
        (List.cons_ne_nil _ _)
      have hrest := ih hcomma
      rw [describeLoop]
      · simpa [itemsBody] using hrest
      · exact List.cons_ne_nil _ _

theorem describePrefix_length : describePrefix.length = 40 := by decide

theorem describeItem_end (device : Device) :
    ∃ rest, describeItem device = rest ++ [closeBrace] := by
  have hend : ascii "\"\x7d" = [quote, closeBrace] := by decide
  refine ⟨ascii "\x7b\"product_id\":\"" ++ (device.productId ++ (ascii "\",\"device_name\":\"" ++
    (device.deviceName ++ [quote]))), ?_⟩
  rw [describeItem, hend]
  simp

/-- Each name of a list of sub-devices stays in the string that it is printed into. -/
def AllSpelled (devices : List Device) : Prop :=
  ∀ device ∈ devices, Spelled (device.productId, device.deviceName)

/-- The reply to a question for the sub-devices is right exactly if the whole of it fits, or, where
a name does not stay in its string, if what of it fits happens to be JSON. -/
theorem ackTopoDescribe_right (devices : List Device) :
    BuiltRight 2048 (gatewayAckTopoDescribe devices) ↔
      ListFits 2047 (AllSpelled devices) describePrefix (devices.map describeItem) := by
  have hlength := describePrefix_length
  have hbegin := (wrote_begin 2047).put (by norm_num) (by rw [hlength]; norm_num)
    (List.ne_nil_of_length_eq_add_one hlength)
  have hprinted := ((wrote_begin 2047).good (by simp)).print (by simp) (by norm_num)
    (show describePrefix.length < 2 ^ 31 by rw [hlength]; norm_num)
  have hbuilt : gatewayAckTopoDescribe devices =
      finishList 2047 (describeLoop devices ((Writer.begin 2047).put 2047 describePrefix)) := by
    unfold gatewayAckTopoDescribe
    dsimp only
    rw [if_neg (by rw [hprinted.1]; omega)]
  have hitems : ∀ item ∈ devices.map describeItem, ∃ rest, item = rest ++ [closeBrace] := by
    intro item hitem
    obtain ⟨device, -, rfl⟩ := List.mem_map.mp hitem
    exact describeItem_end device
  rw [hbuilt]
  refine (finishList_right (describeLoop_wrote hbegin devices) (by norm_num)).trans ?_
  exact listFits_iff (fun h => describe_isJson h) hitems
    (by rw [List.nil_append, hlength]; norm_num)

end Describe

section Scenes
variable {report : SceneReport} {reportLen : ℤ} {scenes : List Scene} {writer : Writer}
  {text : List UInt8}

/-- All that is printed of a report: its beginning, and each scene with a comma behind it. -/
def sceneText (report : SceneReport) (scenes : List Scene) : List UInt8 :=
  scenePrefix report ++ scenes.flatMap fun scene => sceneItem scene ++ [comma]

/-- What is published of it: its end is put over the last character. -/
def patchedText (report : SceneReport) (scenes : List Scene) : List UInt8 :=
  (sceneText report scenes).dropLast ++ listEnd

theorem sceneItem_length (scene : Scene) : (sceneItem scene ++ [comma]).length ≤ 200 := by
  have hshort := scene.short
  have hone : (ascii "\x7b\"InnerSceneId\":\"").length = 17 := by decide
  have htwo : (ascii "\", \"InnerSceneName\":\"").length = 21 := by decide
  have hthree : (ascii "\"\x7d").length = 2 := by decide
  simp only [sceneItem, List.length_append, hone, htwo, hthree, List.length_singleton]
  omega

theorem scenePrefix_length (report : SceneReport) : (scenePrefix report).length ≤ 300 := by
  have hshort := report.short
  have hmethod : sceneMethod.length = 31 := by decide
  have hindex := ArrayFormat.signedText_length report.index
  have hseconds : (signedText report.seconds.toInt).length ≤ 21 := by
    have hlow := Int64.le_toInt report.seconds
    have hhigh := Int64.toInt_lt report.seconds
    have hdigits : (decimal report.seconds.toInt.natAbs).length ≤ 20 := by
      rw [decimal_length_le_iff _ _ (by decide)]
      omega
    have hsign : (sign (decide (report.seconds.toInt < 0))).length ≤ 1 := by
      unfold sign
      split_ifs <;> simp
    rw [signedText, List.length_append]
    omega
  have hone : (ascii "\x7b\"method\":\"").length = 11 := by decide
  have htwo : (ascii "\",\"clientToken\":\"").length = 17 := by decide
  have hthree : (ascii "\", \"timestamp\":").length = 15 := by decide
  have hfour : (ascii ",\"params\":\x7b\"InnerSceneList\":[").length = 29 := by decide
  have hdash : (ascii "-").length = 1 := by decide
  simp only [scenePrefix, SceneReport.clientToken, List.length_append, hmethod, hone, htwo, hthree,
    hfour, hdash]
  omega

/-- The loop gives up exactly if there are scenes and what is printed of them fills the buffer;
nothing goes wrong in it. -/
theorem sceneLoop_spec (h : Good reportLen text writer) (hle : (text.length : ℤ) ≤ reportLen)
    (hint : reportLen < 2 ^ 31) (scenes : List Scene) :
    let whole := text ++ scenes.flatMap fun scene => sceneItem scene ++ [comma]
    let looped := sceneLoop reportLen scenes writer
    if scenes ≠ [] ∧ reportLen ≤ whole.length then
      looped.2 = false ∧ 0 ≤ looped.1.lowest ∧ (looped.1.buffer.reach : ℤ) ≤ reportLen
    else looped.2 = true ∧ Good reportLen whole looped.1 := by
  induction scenes generalizing text writer with
  | nil => simpa [sceneLoop] using h
  | cons scene scenes ih =>
    have hitem := sceneItem_length scene
    have hne : sceneItem scene ++ [comma] ≠ [] := by simp
    have hout : (sceneItem scene ++ [comma]).length < 2 ^ 31 := by omega
    obtain ⟨-, -, hreach⟩ := h.print hle hint hout
    have hroom := h.left
    have hleft := h.put_left hle hint hout
    dsimp only
    rw [sceneLoop, List.flatMap_cons, ← List.append_assoc text]
    by_cases hfull : (writer.put reportLen (sceneItem scene ++ [comma])).left ≤ 0
    · have hlong : reportLen ≤ ((text ++ (sceneItem scene ++ [comma])).length : ℤ) := by omega
      rw [if_pos hfull, if_pos]
      · exact ⟨rfl, le_min h.lowest (by omega), hreach⟩
      · refine ⟨List.cons_ne_nil _ _, ?_⟩
        rw [@List.length_append _ (text ++ _)]
        push_cast
        omega
    · have hshort : ((text ++ (sceneItem scene ++ [comma])).length : ℤ) ≤ reportLen := by omega
      have hgood : Good reportLen (text ++ (sceneItem scene ++ [comma]))
          (writer.put reportLen (sceneItem scene ++ [comma])) :=
        (Wrote.put ⟨fun _ => h, fun hover => absurd hle (Int.not_le.mpr hover)⟩ hint (by omega)
          hne).good hshort
      have hrest := ih hgood hshort
      dsimp only at hrest ⊢
      rw [if_neg hfull]
      by_cases hscenes : scenes = []
      · subst hscenes
        rw [if_neg (by simp)] at hrest
        rw [if_neg]
        · exact hrest
        · rintro ⟨-, hlong⟩
          rw [List.flatMap_nil, List.append_nil] at hlong
          omega
      · simp only [ne_eq, hscenes, not_false_eq_true, true_and, reduceCtorEq] at hrest ⊢
        exact hrest

theorem patchedText_cons (hne : scenes ≠ []) :
    patchedText report scenes = wholeText (scenePrefix report) (scenes.map sceneItem) := by
  have hbody := flatMap_comma (mt List.map_eq_nil_iff.mp hne : scenes.map sceneItem ≠ []) true
  rw [if_pos rfl, List.nil_append, List.flatMap_map] at hbody
  rw [patchedText, sceneText, hbody, ← List.append_assoc, List.dropLast_concat, wholeText,
    List.append_assoc]

/-- The beginning of a report opens the list. -/
theorem scenePrefix_end (report : SceneReport) :
    ∃ front, scenePrefix report = front ++ [openBracket] := by
  have hparams : ascii ",\"params\":\x7b\"InnerSceneList\":[" =
      ascii ",\"params\":\x7b\"InnerSceneList\":" ++ [openBracket] := by decide
  rw [scenePrefix, hparams]
  exact ⟨ascii "\x7b\"method\":\"" ++ (sceneMethod ++ (ascii "\",\"clientToken\":\"" ++
    (report.clientToken ++ (ascii "\", \"timestamp\":" ++ (signedText report.seconds.toInt ++
      ascii ",\"params\":\x7b\"InnerSceneList\":"))))), by simp⟩

/-- Without scenes the bracket is overwritten that was opened for them. -/
theorem not_isJson_patched (hproduct : rawString report.productId = true) :
    ¬ IsJson (patchedText report []) := by
  obtain ⟨front, hfront⟩ := scenePrefix_end report
  have hpatched : patchedText report [] = front ++ listEnd := by
    rw [patchedText, sceneText, List.flatMap_nil, List.append_nil, hfront, List.dropLast_concat]
  have hclosers : ∀ c ∈ listEnd, c = closeBrace ∨ c = closeBracket := by
    rw [show listEnd = [closeBracket, closeBrace, closeBrace] by decide]
    simp
  -- with the bracket the text would be JSON, so without it more is closed than was opened
  obtain ⟨last, hjson⟩ := (@scene_isJson report hproduct [] (by simp)).marks_eq
  have hwhole : scenePrefix report ++ (itemsBody true (List.map sceneItem []) ++ listEnd) =
      front ++ [openBracket] ++ listEnd := by
    rw [hfront]
    rfl
  rw [hwhole] at hjson
  obtain ⟨hmode, hdepth⟩ := depth_of_closers hclosers (by rw [hjson])
  rw [hjson, marks_append] at hdepth
  rw [marks_append] at hmode
  rw [hpatched]
  intro hother
  obtain ⟨last', hother⟩ := hother.marks_eq
  obtain ⟨hmode', hdepth'⟩ := depth_of_closers hclosers (by rw [hother])
  rw [hother] at hdepth'
  generalize marks start front = s at hmode hdepth hmode' hdepth'
  obtain ⟨mode, last, depth, bad⟩ := s
  dsimp only at hmode' hdepth'
  subst hmode'
  have hstep : (marks ⟨.outside, last, depth, bad⟩ [openBracket]).depth = depth + 1 :=
    congrArg Marks.depth (step_open (.inr rfl))
  dsimp only at hdepth
  omega

/-- Each text of a report stays in the string that it is printed into. -/
def SceneSpelled (report : SceneReport) (scenes : List Scene) : Prop :=
  rawString report.productId = true ∧
    ∀ scene ∈ scenes, Spelled (scene.innerSceneId, scene.innerSceneName)

/-- What makes a report of scenes right: its beginning fits, and either there are scenes and they
fill the buffer, or the three characters of the end fit behind them, and something has been written
for the first of these to be put over. -/
def ReportFits (report : SceneReport) (reportLen : ℤ) (scenes : List Scene) : Prop :=
  ((scenePrefix report).length : ℤ) ≤ reportLen ∧
    (scenes ≠ [] ∧ reportLen ≤ (sceneText report scenes).length ∨
      ((sceneText report scenes).length : ℤ) + 3 ≤ reportLen ∧
        (SceneSpelled report scenes ∧ scenes ≠ [] ∨
          ¬ SceneSpelled report scenes ∧ IsJson (patchedText report scenes)))

/-- The end is put over the last character of what was printed, which a NUL may have taken the place
of. -/
theorem patchEnd_good (h : Good reportLen text writer) (hne : text ≠ []) :
    patchEnd (reportLen - writer.left - 1).toNat writer.buffer =
      ⟨text.dropLast ++ listEnd, max writer.buffer.reach (text.length + 3)⟩ := by
  have hpos : 0 < text.length := List.length_pos_iff.mpr hne
  have hroom := h.left
  have htext := h.text
  have hplace : (reportLen - writer.left - 1).toNat = text.length - 1 := by omega
  have htake : text.length - 1 ≤ writer.buffer.text.length ∧
      writer.buffer.text.take (text.length - 1) = text.dropLast := by
    rw [htext]
    split_ifs
    · exact ⟨Nat.sub_le .., (List.dropLast_eq_take ..).symm⟩
    · rw [List.length_dropLast]
      refine ⟨le_rfl, List.take_of_length_le ?_⟩
      rw [List.length_dropLast]
  rw [hplace, patchEnd, if_pos htake.1, htake.2]
  congr 2
  omega

/-- Nothing that is printed makes up for a print beyond the end. -/
theorem sceneLoop_lowest (scenes : List Scene) (writer : Writer) :
    (sceneLoop reportLen scenes writer).1.lowest ≤ writer.lowest ∧
      (scenes ≠ [] → (sceneLoop reportLen scenes writer).1.lowest ≤ writer.left) := by
  induction scenes generalizing writer with
  | nil => exact ⟨le_rfl, fun h => absurd rfl h⟩
  | cons scene scenes ih =>
    have hput : (writer.put reportLen (sceneItem scene ++ [comma])).lowest =
        min writer.lowest writer.left := rfl
    have hlow : (sceneLoop reportLen (scene :: scenes) writer).1.lowest ≤
        min writer.lowest writer.left := by
      rw [sceneLoop, ← hput]
      split_ifs
      · exact le_rfl
      · exact (ih _).1
    exact ⟨hlow.trans (min_le_left ..), fun _ => hlow.trans (min_le_right ..)⟩

theorem patchedText_isJson_iff : IsJson (patchedText report scenes) ↔
    (SceneSpelled report scenes ∧ scenes ≠ [] ∨
      ¬ SceneSpelled report scenes ∧ IsJson (patchedText report scenes)) := by
  by_cases hspelled : SceneSpelled report scenes
  · simp only [hspelled, true_and, not_true_eq_false, false_and, or_false]
    constructor
    · rintro hjson rfl
      exact not_isJson_patched hspelled.1 hjson
    · intro hne
      rw [patchedText_cons hne]
      exact scene_isJson hspelled.1 hspelled.2
  · simp only [hspelled, false_and, not_false_eq_true, true_and, false_or]

/-- A report of scenes is right exactly under this condition. -/
theorem sceneReport_right (report : SceneReport) (reportLen : Int32) (scenes : List Scene) :
    BuiltRight reportLen.toInt (sceneReportInnerList report reportLen scenes) ↔
      ReportFits report reportLen.toInt scenes := by
  have hint : reportLen.toInt < 2 ^ 31 := Int32.toInt_lt reportLen
  have hprefix := scenePrefix_length report
  have hwhole : (scenePrefix report).length ≤ (sceneText report scenes).length := by
    rw [sceneText, List.length_append]
    omega
  obtain ⟨front, hfront⟩ := scenePrefix_end report
  have hne : scenePrefix report ≠ [] := by
    rw [hfront]
    simp
  have hbegin := (wrote_begin reportLen.toInt).put hint
    (show (scenePrefix report).length < 2 ^ 31 by omega) hne
  unfold sceneReportInnerList
  dsimp only
  generalize reportLen.toInt = len at *
  rw [List.nil_append] at hbegin
  by_cases hle : ((scenePrefix report).length : ℤ) ≤ len
  · have hspec := sceneLoop_spec (hbegin.good hle) hle hint scenes
    dsimp only at hspec
    rw [← sceneText] at hspec
    by_cases hfull : scenes ≠ [] ∧ len ≤ (sceneText report scenes).length
    · rw [if_pos hfull] at hspec
      rw [if_pos hspec.1]
      exact iff_of_true ⟨hspec.2.2, hspec.2.1, by simp⟩ ⟨hle, .inl hfull⟩
    · rw [if_neg hfull] at hspec
      rw [if_neg (by rw [hspec.1]; decide)]
      have hfits : ((sceneText report scenes).length : ℤ) ≤ len := by
        by_cases hscenes : scenes = []
        · rwa [hscenes, sceneText, List.flatMap_nil, List.append_nil]
        · exact (not_le.mp fun hlong => hfull ⟨hscenes, hlong⟩).le
      have htext : sceneText report scenes ≠ [] := by
        rw [sceneText]
        exact List.append_ne_nil_of_left_ne_nil hne _
      rw [patchEnd_good hspec.2 htext]
      have hreach := hspec.2.reach
      constructor
      · intro hright
        have hinside := hright.inside
        have hjson : IsJson (patchedText report scenes) := hright.json _ rfl
        dsimp only at hinside
        exact ⟨hle, .inr ⟨by omega, patchedText_isJson_iff.mp hjson⟩⟩
      · rintro ⟨-, hfull' | ⟨hroom, hjson⟩⟩
        · exact absurd hfull' hfull
        · refine ⟨?_, hspec.2.lowest, ?_⟩
          · dsimp only
            omega
          · intro published hpublished
            obtain rfl : patchedText report scenes = published := Option.some.inj hpublished
            exact patchedText_isJson_iff.mpr hjson
  · refine iff_of_false ?_ fun hfits => hle hfits.1
    intro hright
    have hlowest := @sceneLoop_lowest len scenes ((Writer.begin len).put len (scenePrefix report))
    have hput : ((Writer.begin len).put len (scenePrefix report)).lowest = len := min_self len
    by_cases hscenes : scenes = []
    · subst hscenes
      have hnonneg := hright.nonnegative
      have hinside := hright.inside
      simp only [sceneLoop, Bool.true_eq_false, if_false, patchEnd, hput] at hnonneg hinside
      have hreturn := (((wrote_begin len).good (by simpa using hnonneg)).print
        (by simpa using hnonneg) hint (show (scenePrefix report).length < 2 ^ 31 by omega)).1
      have hleft : ((Writer.begin len).put len (scenePrefix report)).left =
          len - (scenePrefix report).length := by
        change len - ((Writer.begin len).print len (scenePrefix report)).1 = _
        rw [hreturn]
      rw [hleft] at hinside
      omega
    · have hruined := hbegin.beyond (not_le.mp hle)
      have hlow := hlowest.2 hscenes
      have hlow' := hlowest.1
      have hnonneg : 0 ≤ (sceneLoop len scenes
          ((Writer.begin len).put len (scenePrefix report))).1.lowest := by
        have hbuilt := hright.nonnegative
        split at hbuilt <;> exact hbuilt
      unfold Ruined at hruined
      omega

end Scenes

section Lookups

theorem followNames_length {src value : Ptr} {len : ℕ} (names : List (List UInt8))
    (h : followNames names src = .ok (some (value, len))) : value.length ≤ src.length := by
  induction names generalizing src with
  | nil => cases h
  | cons name names ih =>
    rw [followNames] at h
    cases hstep : stepInto src name with
    | error e =>
      rw [hstep] at h
      cases h
    | ok found =>
      rw [hstep] at h
      cases found with
      | none => cases h
      | some found =>
        have hdrop : (src.drop found.start).length ≤ src.length := by
          rw [List.length_drop]
          exact Nat.sub_le ..
        dsimp only at h
        split_ifs at h with hlast
        · injection h with h
          injection h with h
          injection h with hvalue
          rwa [← hvalue]
        · exact (ih h).trans hdrop

/-- The copy of a value is no longer than the text that it is found in. -/
theorem liteJsonValueOf_length {key src value : List UInt8}
    (h : liteJsonValueOf key src = .ok (some value)) : value.length ≤ src.length := by
  rw [liteJsonValueOf] at h
  split at h
  · cases h
  · cases h
  · next text len hfollow =>
    split at h
    · cases h
    · injection h with h
      injection h with h
      rw [← h]
      exact (List.length_take_le' ..).trans (followNames_length _ hfollow)

theorem entryNames_length {entry : Entry} {names : List UInt8 × List UInt8}
    (h : entryNames entry = .ok (some names)) :
    names.1.length ≤ entry.val.length ∧ names.2.length ≤ entry.val.length := by
  have hentry : (entryText entry).length = entry.val.length := List.length_set
  unfold entryNames at h
  cases hproduct : getJsonProductId (entryText entry) with
  | error e =>
    rw [hproduct] at h
    cases h
  | ok productId =>
    rw [hproduct] at h
    cases productId with
    | none => cases h
    | some productId =>
      dsimp only at h
      cases hname : getJsonDeviceName (entryText entry) with
      | error e =>
        rw [hname] at h
        cases h
      | ok deviceName =>
        rw [hname] at h
        cases deviceName with
        | none => cases h
        | some deviceName =>
          obtain rfl : (productId, deviceName) = names := by
            injection h with h
            exact Option.some.inj h
          rw [← hentry]
          exact ⟨liteJsonValueOf_length hproduct, liteJsonValueOf_length hname⟩

/-- An entry of a loop is in the text that is looped over. -/
theorem forEach_val_length {type : JsonType} {p : Ptr} (h : InText p) {entry : Entry}
    (hentry : entry ∈ (forEach type p).entries) : entry.val.length ≤ p.length := by
  unfold forEach at hentry
  rcases jsonGetObject_inText type h with hnone | ⟨start, hsome, hsuffix, hne⟩
  · rw [hnone] at hentry
    exact absurd hentry List.not_mem_nil
  · rw [hsome] at hentry
    have hlength := hsuffix.length_le
    obtain ⟨-, -, hslices⟩ := walk_inText type (p.length + 1) (h.suffix hsuffix hne) (by omega)
    exact (hslices entry hentry).1.length_le.trans hlength

end Lookups

section Change
variable {ending : Ending} {entries : List Entry} {text : List UInt8} {writer : Writer}
  {isFirst : Bool} {left : ℤ} {items : List (Option (List UInt8 × List UInt8))}

/-- The array of sub-devices in a message that fits into the buffer for it. -/
structure DevicesText where
  text : List UInt8
  noNul : (0 : UInt8) ∉ text
  short : text.length ≤ 1023

def entryItem (names : Option (List UInt8 × List UInt8)) : List UInt8 := names.elim [] changeItem

/-- What the entries are found to name, up to the one for which too little is left. -/
def namesLooked (ending : Ending) :
    List Entry → Bool → ℤ → Except Overrun (List (Option (List UInt8 × List UInt8)))
  | [], _, _ => if ending = .finished then .ok [] else .error .overrun
  | entry :: entries, isFirst, left =>
      if left < 128 then .ok []
      else
        match entryNames entry with
        | .error e => .error e
        | .ok names =>
            (namesLooked ending entries false
              (left - (if isFirst then 0 else 1) - (entryItem names).length)).map (names :: ·)

theorem changeItem_length {names : List UInt8 × List UInt8} (h : names.1.length ≤ 1024)
    (h' : names.2.length ≤ 1024) : (changeItem names).length ≤ 2100 := by
  have hone : (ascii "\x7b\"product_id\":\"").length = 15 := by decide
  have htwo : (ascii "\",\"device_name\":\"").length = 17 := by decide
  have hthree : (ascii "\",\"result\":").length = 11 := by decide
  have hfour : (signedText 0 ++ ascii "\x7d").length = 2 := by decide
  simp only [changeItem, List.length_append] at hfour ⊢
  rw [hone, htwo, hthree]
  omega

theorem changeItem_ne (names : List UInt8 × List UInt8) : changeItem names ≠ [] := by
  have hone : ascii "\x7b\"product_id\":\"" ≠ [] := by decide
  exact List.append_ne_nil_of_left_ne_nil hone _

/-- A text that is not empty is printed behind one that fits. -/
theorem wrote_next {out : List UInt8} (h : Wrote 1023 text writer)
    (hleft : writer.left = 1023 - text.length) (hle : (text.length : ℤ) ≤ 1023)
    (hout : out.length < 2 ^ 31) (hne : out ≠ []) :
    0 < (writer.print 1023 out).1 ∧ Wrote 1023 (text ++ out) (writer.put 1023 out) ∧
      (writer.put 1023 out).left = 1023 - (text ++ out).length ∧
      (writer.put 1023 out).left = writer.left - out.length := by
  obtain ⟨hprinted, -, -⟩ := (h.good hle).print hle (by norm_num) hout
  have hput := (h.good hle).put_left hle (by norm_num) hout
  have hpos := List.length_pos_iff.mpr hne
  refine ⟨by rw [hprinted]; omega, h.put (by norm_num) hout hne, hput, ?_⟩
  rw [hput, hleft, List.length_append]
  push_cast
  omega

/-- The comma in front of each entry but the first. -/
theorem wrote_comma (isFirst : Bool) (h : Wrote 1023 text writer)
    (hleft : writer.left = 1023 - text.length) (hle : (text.length : ℤ) ≤ 1023) :
    Wrote 1023 (text ++ if isFirst then [] else [comma])
        (if isFirst then writer else writer.put 1023 [comma]) ∧
      (if isFirst then writer else writer.put 1023 [comma]).left =
        1023 - (text ++ if isFirst then [] else [comma]).length ∧
      (if isFirst then writer else writer.put 1023 [comma]).left =
        writer.left - (if isFirst then 0 else 1) := by
  cases isFirst with
  | true =>
    rw [if_pos rfl, if_pos rfl, if_pos rfl, List.append_nil]
    exact ⟨h, hleft, by simp⟩
  | false =>
    rw [if_neg Bool.false_ne_true, if_neg Bool.false_ne_true, if_neg Bool.false_ne_true]
    exact (wrote_next h hleft hle (by decide) (List.cons_ne_nil _ _)).2

/-- A loop prints what is found, behind a text; where nothing is found, it does not end. -/
def Follows (found : Except Overrun (List (Option (List UInt8 × List UInt8)))) (text : List UInt8)
    (isFirst : Bool) (loop : Except Overrun Writer) : Prop :=
  match found with
  | .error _ => ∀ written, loop ≠ .ok written
  | .ok items => ∃ written, loop = .ok written ∧
      Wrote 1023 (text ++ itemsBody isFirst (items.map entryItem)) written

theorem Follows.cons {found : Except Overrun (List (Option (List UInt8 × List UInt8)))}
    {loop : Except Overrun Writer} {names : Option (List UInt8 × List UInt8)}
    (h : Follows found ((text ++ if isFirst then [] else [comma]) ++ entryItem names) false loop) :
    Follows (found.map (names :: ·)) text isFirst loop := by
  cases found with
  | error e => exact h
  | ok items =>
    obtain ⟨written, hwritten, hwrote⟩ := h
    refine ⟨written, hwritten, ?_⟩
    rw [List.append_assoc, List.append_assoc] at hwrote
    exact hwrote

/-- What the loop prints is what the entries name, with a comma in front of each but the first, also
of one that names nothing. -/
theorem changeLoop_looked (h : Wrote 1023 text writer) (hleft : writer.left = 1023 - text.length)
    (hentries : ∀ entry ∈ entries, entry.val.length ≤ 1024) :
    Follows (namesLooked ending entries isFirst writer.left) text isFirst
      (changeLoop ending entries isFirst writer) := by
  induction entries generalizing text writer isFirst with
  | nil =>
    rw [namesLooked, changeLoop]
    by_cases hend : ending = .finished
    · rw [if_pos hend, if_pos hend]
      exact ⟨writer, rfl, by simpa [itemsBody] using h⟩
    · rw [if_neg hend, if_neg hend]
      exact fun written hwritten => by cases hwritten
  | cons entry entries ih =>
    rw [namesLooked, changeLoop]
    by_cases hsmall : writer.left < 128
    · rw [if_pos hsmall, if_pos hsmall]
      exact ⟨writer, rfl, by simpa [itemsBody] using h⟩
    have hrest : ∀ other ∈ entries, other.val.length ≤ 1024 := fun other hmem =>
      hentries other (List.mem_cons_of_mem entry hmem)
    have hle : (text.length : ℤ) ≤ 1023 := by omega
    have hprinted : ¬ (isFirst = false ∧ (writer.print 1023 [comma]).1 < 0) := by
      have hpos := (wrote_next h hleft hle (by decide) (List.cons_ne_nil comma [])).1
      omega
    obtain ⟨hwrote', hleft', hroom⟩ := wrote_comma isFirst h hleft hle
    have hshort : ((text ++ if isFirst then [] else [comma]).length : ℤ) ≤ 1023 := by
      have hone : (if isFirst then (0 : ℤ) else 1) ≤ 1 := by split_ifs <;> omega
      omega
    rw [if_neg hsmall, if_neg hsmall, if_neg hprinted]
    dsimp only
    rw [← hroom]
    generalize (if isFirst then writer else writer.put 1023 [comma]) = writer' at *
    cases hnames : entryNames entry with
    | error e => exact fun written hwritten => by cases hwritten
    | ok names =>
      refine Follows.cons ?_
      cases names with
      | none =>
        have hnext := @ih _ writer' false hwrote' hleft' hrest
        simpa [entryItem] using hnext
      | some names =>
        obtain ⟨hproduct, hname⟩ := entryNames_length hnames
        have hentry := hentries entry (List.mem_cons_self ..)
        have hitem := changeItem_length (hproduct.trans hentry) (hname.trans hentry)
        obtain ⟨hpos, hwrote'', hleft'', hroom''⟩ := wrote_next hwrote' hleft' hshort
          (Nat.lt_of_le_of_lt hitem (by decide)) (changeItem_ne names)
        have hnext := @ih _ _ false hwrote'' hleft'' hrest
        rw [hroom''] at hnext
        dsimp only
        rw [if_neg hpos.not_ge]
        exact hnext

theorem marks_changePrefix (status : Int32) :
    marks start (changePrefix status) = ⟨.outside, openBracket, 3, false⟩ := by
  have hfront : marks start (ascii "\x7b\"type\":\"change\", \"payload\":\x7b\"status\":") =
      ⟨.outside, colon, 2, false⟩ := by decide +kernel
  have hsplit : ascii ", \"devices\":[" = comma :: ascii " \"devices\":[" := by decide
  have hback : marks ⟨.outside, comma, 2, false⟩ (ascii " \"devices\":[") =
      ⟨.outside, openBracket, 3, false⟩ := by decide +kernel
  obtain ⟨last, hended, hnumber⟩ :=
    @marks_number colon 2 false _ (signedNumber_wellFormed status.toInt)
  rw [signedNumber_text] at hnumber
  rw [changePrefix, marks_append, marks_append, hfront, hnumber, hsplit, marks_cons,
    step_comma hended, hback]

theorem marks_changeItem {names : List UInt8 × List UInt8} (h : Spelled names) (last : UInt8)
    (depth : ℤ) (bad : Bool) : ∃ last', ended last' = true ∧
      marks ⟨.outside, last, depth, bad⟩ (changeItem names) = ⟨.outside, last', depth, bad⟩ := by
  rw [← changeValue_text]
  exact marks_value _ (changeValue_wellFormed h) last depth bad

/-- The next entry is looked at if enough is left. -/
theorem namesLooked_cons {entry : Entry}
    (h : namesLooked ending (entry :: entries) isFirst left = .ok items) :
    items = [] ∨ ∃ names rest, 128 ≤ left ∧ items = names :: rest ∧
      namesLooked ending entries false
        (left - (if isFirst then 0 else 1) - (entryItem names).length) = .ok rest := by
  rw [namesLooked] at h
  by_cases hsmall : left < 128
  · rw [if_pos hsmall] at h
    injection h with h
    exact .inl h.symm
  · rw [if_neg hsmall] at h
    cases hnames : entryNames entry with
    | error e =>
      rw [hnames] at h
      cases h
    | ok names =>
      rw [hnames] at h
      dsimp only at h
      cases hrest : namesLooked ending entries false
          (left - (if isFirst then 0 else 1) - (entryItem names).length) with
      | error e =>
        rw [hrest] at h
        cases h
      | ok rest =>
        rw [hrest] at h
        injection h with h
        exact .inr ⟨names, rest, not_lt.mp hsmall, h.symm, hrest⟩

/-- A comma clashes with a comma, and with the bracket of the array. -/
theorem marks_clash {last c : UInt8} {depth : ℤ} {bad : Bool}
    (hmarks : marks start text = ⟨.outside, last, depth, bad⟩) (hquote : c ≠ quote)
    (hblank : isBlank c = false) (hclash : clash last c = true) :
    (marks start (text ++ [c])).bad = true := by
  rw [marks_append, hmarks, marks_cons, step_mark hquote hblank, hclash, marks_nil]
  exact Bool.or_true bad

/-- Where an entry names nothing, two marks clash in what is printed, unless it is the only one. It
is looked at while enough is left for both of them. -/
theorem namesLooked_bad {last : UInt8} {depth : ℤ} {bad : Bool}
    (hlooked : namesLooked ending entries isFirst left = .ok items)
    (hleft : left = 1023 - text.length)
    (hmarks : marks start text = ⟨.outside, last, depth, bad⟩)
    (hlast : if isFirst then last = openBracket else ended last = true)
    (hspelled : ∀ names, some names ∈ items → Spelled names) (hnone : none ∈ items)
    (hother : ¬ (isFirst = true ∧ items = [none])) :
    ∃ front, front <+: text ++ (itemsBody isFirst (items.map entryItem) ++ listEnd) ∧
      front.length ≤ 1022 ∧ (marks start front).bad = true := by
  induction entries generalizing text left isFirst items last with
  | nil =>
    rw [namesLooked] at hlooked
    split_ifs at hlooked
    injection hlooked with hlooked
    rw [← hlooked] at hnone
    exact absurd hnone List.not_mem_nil
  | cons entry entries ih =>
    rcases namesLooked_cons hlooked with rfl | ⟨names, rest, hroom, rfl, hrest⟩
    · exact absurd hnone List.not_mem_nil
    -- the text with the comma in front of the entry
    obtain ⟨comma', hcomma'⟩ : ∃ comma' : List UInt8, comma' = if isFirst then [] else [comma] :=
      ⟨_, rfl⟩
    have hlength : comma'.length ≤ 1 ∧ (comma'.length : ℤ) = if isFirst then 0 else 1 := by
      rw [hcomma']
      split_ifs <;> simp
    have hmarks' : marks start (text ++ comma') =
        ⟨.outside, if isFirst then openBracket else comma, depth, bad⟩ := by
      rw [marks_append, hmarks, hcomma']
      cases isFirst with
      | true => simpa using hlast
      | false => exact step_comma hlast
    have hbody : text ++ (itemsBody isFirst ((names :: rest).map entryItem) ++ listEnd) =
        (text ++ comma') ++
          (entryItem names ++ (itemsBody false (rest.map entryItem) ++ listEnd)) := by
      rw [List.map_cons, itemsBody, ← hcomma']
      simp
    rw [hbody]
    cases names with
    | none =>
      have hend : listEnd = [closeBracket] ++ [closeBrace, closeBrace] := by decide
      dsimp only [entryItem, Option.elim_none]
      rw [List.nil_append]
      cases rest with
      | nil =>
        have hfirst : isFirst = false := Bool.eq_false_iff.mpr fun hfirst => hother ⟨hfirst, rfl⟩
        rw [hfirst, if_neg Bool.false_ne_true] at hmarks'
        refine ⟨text ++ comma' ++ [closeBracket], ?_, ?_,
          marks_clash hmarks' (by decide) (by decide) (by decide)⟩
        · exact ⟨[closeBrace, closeBrace], by simp [itemsBody, hend]⟩
        · simp only [List.length_append, List.length_singleton]
          omega
      | cons next rest =>
        refine ⟨text ++ comma' ++ [comma], ?_, ?_,
          marks_clash hmarks' (by decide) (by decide) ?_⟩
        · exact ⟨entryItem next ++
            (itemsBody false (rest.map entryItem) ++ listEnd), by simp [itemsBody]⟩
        · simp only [List.length_append, List.length_singleton]
          omega
        · split_ifs <;> decide
    | some names =>
      obtain ⟨last', hended, hitem⟩ := marks_changeItem (hspelled names (List.mem_cons_self ..))
        (if isFirst then openBracket else comma) depth bad
      rw [← hlength.2] at hrest
      rw [← List.append_assoc]
      refine ih hrest ?_ ?_ hended
        (fun other hmem => hspelled other (List.mem_cons_of_mem _ hmem)) ?_ ?_
      · simp only [List.length_append, entryItem, Option.elim_some]
        push_cast
        omega
      · rw [marks_append, hmarks', entryItem, Option.elim_some, hitem]
      · simpa using hnone
      · exact fun hboth => absurd hboth.1 Bool.false_ne_true

theorem changePrefix_length (status : Int32) :
    0 < (changePrefix status).length ∧ (changePrefix status).length ≤ 70 := by
  have hfront : (ascii "\x7b\"type\":\"change\", \"payload\":\x7b\"status\":").length = 38 := by
    decide
  have hback : (ascii ", \"devices\":[").length = 13 := by decide
  have hnumber := ArrayFormat.signedText_length status
  simp only [changePrefix, List.length_append, hfront, hback]
  omega

/-- What is right about the reply to a change: all of it is read in the message, and the reply is
right. -/
def ChangeRight (devices : List UInt8) (status : Int32) : Prop :=
  ∃ built, gatewayAckChange devices status = .ok built ∧ BuiltRight 1024 built

/-- Each name that is printed stays in its string. -/
def NamesSpelled (items : List (Option (List UInt8 × List UInt8))) : Prop :=
  ∀ names, some names ∈ items → Spelled names

/-- The reply to a change, in terms of what the entries name that are looked at. -/
def ChangeFits (devices : List UInt8) (status : Int32) : Prop :=
  ∃ items, namesLooked (forEach .array (devices ++ [0])).ending
    (forEach .array (devices ++ [0])).entries
      true (1023 - (changePrefix status).length) = .ok items ∧
    ListFits 1023 (NamesSpelled items) (changePrefix status) (items.map entryItem) ∧
    (NamesSpelled items → none ∉ items ∨ items = [none])

theorem changeItem_end (names : List UInt8 × List UInt8) :
    ∃ rest, changeItem names = rest ++ [closeBrace] := by
  have hend : ascii "\x7d" = [closeBrace] := by decide
  refine ⟨ascii "\x7b\"product_id\":\"" ++ (names.1 ++ (ascii "\",\"device_name\":\"" ++
    (names.2 ++ (ascii "\",\"result\":" ++ signedText 0)))), ?_⟩
  rw [changeItem, hend]
  simp

/-- Where every entry names a sub-device, or a single one names none, the reply is JSON if it
fits. -/
theorem change_listFits {items : List (Option (List UInt8 × List UInt8))} (status : Int32)
    (hnone : none ∉ items ∨ items = [none]) :
    ((changePrefix status ++ itemsBody true (items.map entryItem)).length : ℤ) ≤ 1023 ∧
        IsJson ((changePrefix status ++ itemsBody true (items.map entryItem) ++ listEnd).take
          (1023 - 1 : ℤ).toNat) ↔
      ListFits 1023 (NamesSpelled items) (changePrefix status) (items.map entryItem) := by
  have hlength := changePrefix_length status
  rcases hnone with hnone | rfl
  · have hitems : items.map entryItem = (items.filterMap id).map changeItem := by
      clear hlength
      induction items with
      | nil => rfl
      | cons names items ih =>
        rw [List.mem_cons, not_or] at hnone
        cases names with
        | none => exact absurd rfl hnone.1
        | some names => simp [entryItem, ih hnone.2]
    rw [hitems]
    refine listFits_iff (fun hspelled => change_isJson status ?_) ?_ (by omega)
    · intro names hnames
      obtain ⟨found, hfound, rfl⟩ := List.mem_filterMap.mp hnames
      exact hspelled names hfound
    · intro item hitem
      obtain ⟨names, -, rfl⟩ := List.mem_map.mp hitem
      exact changeItem_end names
  · have hspelled : NamesSpelled [none] := by
      intro names hnames
      simp at hnames
    have hjson := @change_isJson status [] (by simp)
    have hwhole : wholeText (changePrefix status) ([none].map entryItem) =
        wholeText (changePrefix status) [] := rfl
    have hbody : itemsBody true ([none].map entryItem) = itemsBody true [] := rfl
    unfold ListFits
    rw [hwhole, hbody]
    exact listFits_iff (fun _ => hjson) (by simp) (by omega)

/-- The reply to a change is right exactly under this condition. -/
theorem ackChange_right (devices : DevicesText) (status : Int32) :
    ChangeRight devices.text status ↔ ChangeFits devices.text status := by
  have hlength := changePrefix_length status
  have hbegin := (wrote_begin 1023).put (by norm_num)
    (show (changePrefix status).length < 2 ^ 31 by omega) (List.length_pos_iff.mp hlength.1)
  have hgood := (wrote_begin 1023).good (by simp)
  have hreturn := (hgood.print (by simp) (by norm_num)
    (show (changePrefix status).length < 2 ^ 31 by omega)).1
  have hleft := hgood.put_left (by simp) (by norm_num)
    (show (changePrefix status).length < 2 ^ 31 by omega)
  rw [List.nil_append] at hbegin hleft
  have hentries : ∀ entry ∈ (forEach .array (devices.text ++ [0])).entries,
      entry.val.length ≤ 1024 := by
    intro entry hentry
    have hshort := devices.short
    have hval := forEach_val_length ⟨devices.text, rfl, devices.noNul⟩ hentry
    rw [List.length_append, List.length_singleton] at hval
    omega
  have hlooked :=
    @changeLoop_looked (forEach .array (devices.text ++ [0])).ending _ _ _ true hbegin hleft
    hentries
  unfold ChangeRight ChangeFits gatewayAckChange
  dsimp only
  rw [if_neg (by rw [hreturn]; omega), ← hleft]
  cases hitems : namesLooked (forEach .array (devices.text ++ [0])).ending
      (forEach .array (devices.text ++ [0])).entries true
      ((Writer.begin 1023).put 1023 (changePrefix status)).left with
  | error e =>
    rw [hitems] at hlooked
    refine iff_of_false ?_ ?_
    · rintro ⟨built, hbuilt, -⟩
      cases hloop : changeLoop (forEach .array (devices.text ++ [0])).ending
          (forEach .array (devices.text ++ [0])).entries true
          ((Writer.begin 1023).put 1023 (changePrefix status)) with
      | error e' =>
        rw [hloop] at hbuilt
        cases hbuilt
      | ok written => exact hlooked written hloop
    · rintro ⟨items, hok, -⟩
      cases hok
  | ok items =>
    rw [hitems] at hlooked
    obtain ⟨written, hwritten, hwrote⟩ := hlooked
    have hbuilt : (∃ built, (changeLoop (forEach .array (devices.text ++ [0])).ending
        (forEach .array (devices.text ++ [0])).entries true
        ((Writer.begin 1023).put 1023 (changePrefix status))).map (finishList 1023) = .ok built ∧
          BuiltRight 1024 built) ↔ BuiltRight (1023 + 1) (finishList 1023 written) := by
      rw [hwritten]
      constructor
      · rintro ⟨built, hbuilt, hright⟩
        injection hbuilt with hbuilt
        rwa [hbuilt]
      · exact fun hright => ⟨_, rfl, hright⟩
    rw [hbuilt, finishList_right hwrote (by norm_num)]
    have hchosen : ∀ P : List (Option (List UInt8 × List UInt8)) → Prop,
        (∃ items', (Except.ok items : Except Overrun _) = .ok items' ∧ P items') ↔ P items := by
      intro P
      constructor
      · rintro ⟨items', heq, hP⟩
        injection heq with heq
        rwa [heq]
      · exact fun hP => ⟨items, rfl, hP⟩
    rw [hchosen]
    by_cases hnone : none ∉ items ∨ items = [none]
    · rw [change_listFits status hnone]
      exact ⟨fun hfits => ⟨hfits, fun _ => hnone⟩, fun hfits => hfits.1⟩
    · by_cases hspelled : NamesSpelled items
      · refine iff_of_false ?_ fun hfits => hnone (hfits.2 hspelled)
        rintro ⟨-, hjson⟩
        rw [not_or, not_not] at hnone
        obtain ⟨front, ⟨back, hfront⟩, hshort, hbad⟩ := namesLooked_bad hitems hleft
          (marks_changePrefix status) rfl hspelled hnone.1 fun hboth => hnone.2 hboth.2
        rw [List.append_assoc, ← hfront, List.take_append,
          List.take_of_length_le (show front.length ≤ (1023 - 1 : ℤ).toNat by simpa using hshort)]
            at hjson
        exact not_isJson_of_bad hbad hjson
      · unfold ListFits
        rw [List.append_assoc, wholeText]
        simp only [hspelled, false_and, not_false_eq_true, true_and, false_or,
          false_imp_iff, and_true]

end Change

section Messages

/-- When the messages that the gateway builds stay in their buffers and are JSON. -/
theorem messages_right_iff (devices : DevicesText) (status : Int32) (bound : List Device)
    (report : SceneReport) (reportLen : Int32) (scenes : List Scene) :
    (ChangeRight devices.text status ↔ ChangeFits devices.text status) ∧
      (BuiltRight 2048 (gatewayAckTopoDescribe bound) ↔
        ListFits 2047 (AllSpelled bound) describePrefix (bound.map describeItem)) ∧
      (BuiltRight reportLen.toInt (sceneReportInnerList report reportLen scenes) ↔
        ReportFits report reportLen.toInt scenes) :=
  ⟨ackChange_right devices status, ackTopoDescribe_right bound,
    sceneReport_right report reportLen scenes⟩

/-- The gateway of the product `GATEWAY001`. -/
def gatewayReport : SceneReport := ⟨ascii "GATEWAY001", 0, 1700000000, by decide⟩

def longDevice : Device := ⟨List.replicate 10 0x41, List.replicate 48 0x41, by decide +kernel⟩

/-- A report of no scenes in a large buffer, and a reply for thirty sub-devices. -/
theorem messages_wrong :
    ¬ BuiltRight (512 : Int32).toInt (sceneReportInnerList gatewayReport 512 []) ∧
      ¬ BuiltRight 2048 (gatewayAckTopoDescribe (List.replicate 30 longDevice)) := by
  constructor
  · have hspelled : SceneSpelled gatewayReport [] := ⟨by decide +kernel, by simp⟩
    rw [sceneReport_right]
    rintro ⟨-, ⟨hne, -⟩ | ⟨-, ⟨-, hne⟩ | ⟨hbroken, -⟩⟩⟩
    · exact hne rfl
    · exact hne rfl
    · exact hbroken hspelled
  · have hspelled : AllSpelled (List.replicate 30 longDevice) := by
      intro device hdevice
      rw [List.eq_of_mem_replicate hdevice]
      constructor <;> decide +kernel
    have hlong :
        ¬ (wholeText describePrefix ((List.replicate 30 longDevice).map describeItem)).length <
        2047 := by decide +kernel
    rw [ackTopoDescribe_right]
    rintro (⟨-, hfits⟩ | ⟨hbroken, -⟩)
    · exact hlong (Int.ofNat_lt.mp hfits)
    · exact hbroken hspelled

end Messages

end IotExplorer.GatewayPublished
