import IotExplorer.FileManageClient
import IotExplorer.PrintedTexts
import Mathlib.Algebra.Module.NatInt
import Mathlib.Algebra.Order.BigOperators.Group.List

/-!
The message that reports the versions of the files. Its buffer is as long as an estimate for each
file, a file that does not fit is cut off, and the brackets at the end are printed over the last
byte of what has been printed.
-/
namespace IotExplorer.FileVersions

open Basis.JsonText TemplateJson DeviceProperty ReportArray GatewayMessages PrintedTexts
open FileManageClient (Handle)

section Report

structure FileInfo where
  fileName : Option Plain
  fileVer : Option Plain
  fileType : Option Plain

/-- The files that are reported, with their number: an array of pointers, or no array. -/
structure ResList where
  resNum : UInt16
  infos : Option (List (Option FileInfo))
  counted : ∀ list ∈ infos, list.length = resNum.toNat

def ResList.entries (list : ResList) : List (Option FileInfo) := list.infos.getD []

/-- `FILE_MANAGE_INFO_LEN_MAX`: a version, a name, what is printed around them, and a type. -/
def fileManageInfoLenMax : ℤ := 32 + 64 + 53 + 10

def buffLen (resNum : UInt16) : ℤ := resNum.toNat * fileManageInfoLenMax + 128

def versionsPrefix : List UInt8 :=
  ascii "\x7b\"method\":\"report_version\",\"report\":\x7b\"resource_list\":["

/-- What is printed for a file, up to the comma. -/
def fileItem (info : FileInfo) : List UInt8 :=
  ascii "\x7b\"resource_name\":\"" ++ (shownText info.fileName ++ (ascii "\",\"version\":\"" ++
    (shownText info.fileVer ++
      (ascii "\",\"resource_type\":\"" ++ (shownText info.fileType ++ ascii "\"\x7d")))))

def addFiles (bufLen : ℤ) : List (Option FileInfo) → Buffer → Bool × Buffer
  | [], buffer => (true, buffer)
  | none :: _, buffer => (false, buffer)
  | some info :: infos, buffer =>
      let printed :=
        printAt buffer buffer.text.length (bufLen - buffer.text.length) (fileItem info ++ [comma])
      if printed.1 < 0 then (false, printed.2) else addFiles bufLen infos printed.2

/-- `_gen_file_manage_ver_info`. The return of the last print is not looked at. -/
def genFileManageVerInfo (bufLen : ℤ) (resList : List (Option FileInfo)) : ℤ × Buffer :=
  let begun := printAt ⟨[], 0⟩ 0 bufLen versionsPrefix
  if begun.1 < 0 then (-1001, begun.2)
  else
    let added := addFiles bufLen resList begun.2
    if added.1 then
      let pos := if 0 < resList.length then 1 else 0
      (0, (printAt added.2 (added.2.text.length - pos) (bufLen - added.2.text.length) listEnd).2)
    else (-1001, added.2)

/-- How a report ends: the handle, what is returned, and the text that is handed to be published. -/
structure Reported where
  handle : Option Handle
  ret : ℤ
  posted : Option (List UInt8)

/-- `IOT_FileManage_ReportVersion`. The memory and what becomes of the publish are taken by
their outcomes. -/
def reportVersion (memory : Bool) (published : ℤ) (list : ResList) : Option Handle → Reported
  | none => ⟨none, -1002, none⟩
  | some handle =>
      if list.resNum ≠ 0 ∧ list.infos.isNone then ⟨some handle, -1002, none⟩
      else
        let reset := some (FileManageClient.reportVersion handle).1
        if handle.state = .uninitted then ⟨reset, -1001, none⟩
        else if memory then
          let generated := genFileManageVerInfo (buffLen list.resNum) list.entries
          if generated.1 ≠ 0 then ⟨reset, -1001, none⟩
          else ⟨reset, if published < 0 then -1001 else published, some generated.2.text⟩
        else ⟨reset, -1004, none⟩

end Report

section Right

def fileValue (info : FileInfo) : Json :=
  .object [] [textMember "resource_name" (shownText info.fileName),
    textMember "version" (shownText info.fileVer),
    textMember "resource_type" (shownText info.fileType)]

def versionsMessage (files : List FileInfo) : Json :=
  .object [] [textMember "method" (ascii "report_version"),
    (member "report", .object []
      [(member "resource_list", .array [] (tight (files.map fileValue)))])]

/-- Behind a success the buffer holds the message with each of the files, which is JSON; and where
the message does not fit with its NUL, the report fails and nothing is published. -/
structure VersionsRight (list : ResList) (generated : ℤ × Buffer) (reported : Reported) : Prop where
  complete : generated.1 = 0 → ∃ files, list.entries = files.map some ∧
    generated.2.text = (versionsMessage files).text ∧ (versionsMessage files).wellFormed = true
  refused : ∀ files, list.entries = files.map some →
    buffLen list.resNum < (versionsMessage files).text.length + 1 →
      reported.ret < 0 ∧ reported.posted = none

/-- What is printed of a message, with a comma behind each file. -/
def printedFiles (files : List FileInfo) : List UInt8 :=
  versionsPrefix ++ files.flatMap fun info => fileItem info ++ [comma]

/-- A print returns the length of each file. -/
def Printable (files : List FileInfo) : Prop :=
  ∀ info ∈ files, (fileItem info ++ [comma]).length < 2 ^ 31

/-- Unless a file is missing or too long for a print, what is printed leaves four bytes of the
buffer. -/
def VersionsFit (list : ResList) : Prop :=
  ∀ files, list.entries = files.map some → Printable files →
    ((printedFiles files).length : ℤ) + 4 ≤ buffLen list.resNum

end Right

section Prints
variable {len : ℤ} {text : List UInt8} {buffer : Buffer} {files : List FileInfo}

/-- Each file is printed behind those in front of it. -/
theorem addFiles_spec (h : Printed len text buffer) (hpos : 0 < len) (hint : len < 2 ^ 31)
    (hprint : Printable files) :
    (addFiles len (files.map some) buffer).1 = true ∧
      Printed len (text ++ files.flatMap fun info => fileItem info ++ [comma])
        (addFiles len (files.map some) buffer).2 := by
  induction files generalizing text buffer with
  | nil => exact ⟨rfl, by simpa [addFiles] using h⟩
  | cons info files ih =>
    have hshort := hprint info (List.mem_cons_self ..)
    have hnext := ih (h.print hpos hint (fileItem info ++ [comma]))
      fun other hmem => hprint other (List.mem_cons_of_mem info hmem)
    rw [List.map_cons, addFiles, if_neg (fun hfails => (h.print_fails hpos hint).mp hfails hshort),
      List.flatMap_cons, ← List.append_assoc text]
    exact hnext

/-- If all files are printed, they are there, and none of them is too long. -/
theorem printable_of_addFiles {infos : List (Option FileInfo)} (h : Printed len text buffer)
    (hpos : 0 < len)
    (hint : len < 2 ^ 31) (hadded : (addFiles len infos buffer).1 = true) :
    ∃ files, infos = files.map some ∧ Printable files := by
  induction infos generalizing text buffer with
  | nil => exact ⟨[], rfl, fun _ hmem => absurd hmem (List.not_mem_nil)⟩
  | cons info infos ih =>
    cases info with
    | none => exact absurd hadded Bool.false_ne_true
    | some info =>
      rw [addFiles] at hadded
      by_cases hshort : (fileItem info ++ [comma]).length < 2 ^ 31
      · rw [if_neg (fun hfails => (h.print_fails hpos hint).mp hfails hshort)] at hadded
        obtain ⟨files, rfl, hprint⟩ := ih (h.print hpos hint (fileItem info ++ [comma])) hadded
        refine ⟨info :: files, rfl, fun other hmem => ?_⟩
        rcases List.mem_cons.mp hmem with rfl | hrest
        · exact hshort
        · exact hprint other hrest
      · rw [if_pos ((h.print_fails hpos hint).mpr hshort)] at hadded
        exact absurd hadded Bool.false_ne_true

theorem versionsPrefix_length : versionsPrefix.length = 54 := by decide

def lastComma (files : List FileInfo) : ℕ := if 0 < files.length then 1 else 0

/-- What is in the buffer behind a success. -/
theorem genFileManageVerInfo_text (hlen : 128 ≤ len) (hint : len < 2 ^ 31)
    (hprint : Printable files) :
    (genFileManageVerInfo len (files.map some)).1 = 0 ∧
      (genFileManageVerInfo len (files.map some)).2.text =
        (printedFiles files).take
          (min (len - 1).toNat (printedFiles files).length - lastComma files) ++
          listEnd.take ((len - (printedFiles files).length).toNat - 1) := by
  have hempty : Printed len [] ⟨[], 0⟩ := printed_nil (by omega)
  have hbegun : Printed len versionsPrefix (printAt ⟨[], 0⟩ 0 len versionsPrefix).2 := by
    simpa using hempty.print (by omega) hint versionsPrefix
  have hreturned : ¬(printAt ⟨[], 0⟩ 0 len versionsPrefix).1 < 0 := by
    have hfails : (printAt ⟨[], 0⟩ 0 (len - (0 : ℕ)) versionsPrefix).1 < 0 ↔
        ¬ versionsPrefix.length < 2 ^ 31 := hempty.print_fails (by omega) hint
    rw [Nat.cast_zero, Int.sub_zero, versionsPrefix_length] at hfails
    exact fun hnegative => hfails.mp hnegative (by decide)
  obtain ⟨hadded, hprinted⟩ := addFiles_spec hbegun (by omega) hint hprint
  have hleft := hprinted.left (by omega)
  have htext := hprinted.text
  unfold genFileManageVerInfo
  dsimp only
  rw [if_neg hreturned, if_pos hadded, List.length_map]
  refine ⟨rfl, ?_⟩
  generalize addFiles len (files.map some) (printAt ⟨[], 0⟩ 0 len versionsPrefix).2 =
      added at htext hleft ⊢
  change added.2.text = (printedFiles files).take (len - 1).toNat at htext
  change len - added.2.text.length = max 1 (len - (printedFiles files).length) at hleft
  rw [printAt_room (Nat.sub_le _ _) (by omega) (by omega)]
  have hroom : (len - added.2.text.length).toNat - 1 =
      (len - (printedFiles files).length).toNat - 1 := by
    omega
  dsimp only
  rw [hroom, htext, List.length_take, List.take_take]
  congr 2
  unfold lastComma
  omega

theorem fileValue_text (info : FileInfo) : (fileValue info).text = fileItem info := by
  have hname : ascii "\x7b\"resource_name\":\"" =
      openBrace :: quote :: (ascii "resource_name" ++ [quote, colon, quote]) := by decide
  have hversion : ascii "\",\"version\":\"" =
      quote :: comma :: quote :: (ascii "version" ++ [quote, colon, quote]) := by decide
  have htype : ascii "\",\"resource_type\":\"" =
      quote :: comma :: quote :: (ascii "resource_type" ++ [quote, colon, quote]) := by decide
  unfold fileItem
  rw [hname, hversion, htype, show ascii "\"\x7d" = [quote, closeBrace] by decide]
  simp [fileValue, textMember, member, Layout.front, Json.text, membersText]

/-- The message is what is printed of it without the last comma, and the brackets. -/
theorem versionsMessage_text (files : List FileInfo) : (versionsMessage files).text =
    (printedFiles files).take ((printedFiles files).length - lastComma files) ++ listEnd := by
  have hfront : versionsPrefix = openBrace :: quote ::
      (ascii "method" ++ (quote :: colon :: quote ::
      (ascii "report_version" ++
        (quote :: comma :: quote :: (ascii "report" ++ (quote :: colon :: openBrace ::
        quote :: (ascii "resource_list" ++ [quote, colon, openBracket]))))))) := by decide
  have hitems : (versionsMessage files).text =
      versionsPrefix ++ (itemsBody true (files.map fileItem) ++ listEnd) := by
    have htexts : (files.map fileValue).map Json.text = files.map fileItem := by
      rw [List.map_map]
      exact List.map_congr_left fun info _ => fileValue_text info
    rw [hfront, show listEnd = [closeBracket, closeBrace, closeBrace] by decide, ← htexts,
      ← itemsText_tight]
    simp [versionsMessage, textMember, member, Layout.front, Json.text, membersText]
  have hprinted : (printedFiles files).take ((printedFiles files).length - lastComma files) =
      versionsPrefix ++ itemsBody true (files.map fileItem) := by
    cases files with
    | nil =>
      rw [printedFiles, List.flatMap_nil, List.append_nil]
      simp [lastComma, itemsBody]
    | cons info files =>
      have hcomma : (info :: files).flatMap (fun info => fileItem info ++ [comma]) =
          itemsBody true ((info :: files).map fileItem) ++ [comma] := by
        simpa [List.flatMap_map] using @flatMap_comma ((info :: files).map fileItem)
          (List.cons_ne_nil _ _) true
      rw [printedFiles, hcomma, ← List.append_assoc, show lastComma (info :: files) = 1 from rfl,
        ← List.dropLast_eq_take, List.dropLast_concat]
  rw [hitems, hprinted, List.append_assoc]

end Prints

section Results
variable {files : List FileInfo}

/-- The names in the message. -/
theorem names_raw :
    ∀ name ∈ ["method", "report", "resource_list", "resource_name", "version", "resource_type"],
    rawString (ascii name) = true := by
  have hall : ["method", "report", "resource_list", "resource_name", "version", "resource_type"].all
      (fun name => rawString (ascii name)) = true := by decide +kernel
  exact List.all_eq_true.mp hall

theorem fileValue_wellFormed (info : FileInfo) : (fileValue info).wellFormed = true := by
  have htype := membersWellFormed_text (names_raw "resource_type" (by simp))
    (shownText_raw info.fileType)
    membersWellFormed_nil
  have hversion := membersWellFormed_text (names_raw "version" (by simp))
    (shownText_raw info.fileVer) htype
  exact object_wellFormed
    (membersWellFormed_text (names_raw "resource_name" (by simp))
      (shownText_raw info.fileName) hversion)

theorem versionsMessage_wellFormed (files : List FileInfo) :
    (versionsMessage files).wellFormed = true := by
  have hitems : itemsWellFormed (tight (files.map fileValue)) = true := by
    refine tight_wellFormed fun value hmem => ?_
    obtain ⟨info, -, rfl⟩ := List.mem_map.mp hmem
    exact fileValue_wellFormed info
  have harray : (Json.array [] (tight (files.map fileValue))).wellFormed = true := by
    rw [Json.wellFormed, hitems]
    rfl
  have hlist :=
    membersWellFormed_member (names_raw "resource_list" (by simp)) harray membersWellFormed_nil
  have hreport := membersWellFormed_member (names_raw "report" (by simp)) (object_wellFormed hlist)
    membersWellFormed_nil
  have hmethod : rawString (ascii "report_version") = true := by decide +kernel
  exact object_wellFormed (membersWellFormed_text (names_raw "method" (by simp)) hmethod hreport)

theorem buffLen_bounds (resNum : UInt16) : 128 ≤ buffLen resNum ∧ buffLen resNum < 2 ^ 31 := by
  have hshort := resNum.toNat_lt
  unfold buffLen fileManageInfoLenMax
  omega

theorem lastComma_lt (files : List FileInfo) :
    lastComma files ≤ 1 ∧ 54 ≤ (printedFiles files).length := by
  refine ⟨?_, ?_⟩
  · unfold lastComma
    split_ifs <;> decide
  · rw [printedFiles, List.length_append, versionsPrefix_length]
    exact Nat.le_add_right ..

theorem versionsMessage_length (files : List FileInfo) : (versionsMessage files).text.length =
    (printedFiles files).length - lastComma files + 3 := by
  rw [versionsMessage_text, List.length_append, List.length_take, min_eq_left (Nat.sub_le _ _)]
  rfl

/-- Behind a success the buffer holds the message exactly if what was printed leaves four bytes. -/
theorem genFileManageVerInfo_message_iff {len : ℤ} (hlen : 128 ≤ len) (hint : len < 2 ^ 31)
    (hprint : Printable files) :
    (genFileManageVerInfo len (files.map some)).2.text = (versionsMessage files).text ↔
      ((printedFiles files).length : ℤ) + 4 ≤ len := by
  have htext := (genFileManageVerInfo_text hlen hint hprint).2
  constructor
  · intro hwhole
    have hcomma := lastComma_lt files
    have hlengths := congrArg List.length (htext.symm.trans hwhole)
    rw [versionsMessage_length, List.length_append, List.length_take, List.length_take,
      show listEnd.length = 3 from rfl] at hlengths
    omega
  · intro hfits
    have hend : listEnd.length ≤ (len - (printedFiles files).length).toNat - 1 := by
      rw [show listEnd.length = 3 from rfl]
      omega
    rw [htext, versionsMessage_text, min_eq_right (by omega), List.take_of_length_le hend]

theorem fileItem_length (info : FileInfo) : (fileItem info ++ [comma]).length = 53 +
    (shownText info.fileName).length + (shownText info.fileVer).length +
    (shownText info.fileType).length := by
  have hname : (ascii "\x7b\"resource_name\":\"").length = 18 := by decide
  have hversion : (ascii "\",\"version\":\"").length = 13 := by decide
  have htype : (ascii "\",\"resource_type\":\"").length = 19 := by decide
  simp only [fileItem, List.length_append, hname, hversion, htype,
    show (ascii "\"\x7d").length = 2 from rfl, List.length_singleton]
  omega

/-- A file of which nothing is longer than the estimate takes it to be. -/
def Estimated (info : FileInfo) : Prop :=
  (shownText info.fileName).length ≤ 64 ∧ (shownText info.fileVer).length ≤ 32 ∧
    (shownText info.fileType).length ≤ 10

/-- The buffer is long enough for such files. -/
theorem versionsFit_of_estimated {list : ResList}
    (h : ∀ info, some info ∈ list.entries → Estimated info) :
    VersionsFit list := by
  intro files hentries _
  have hitem : ∀ info ∈ files, (fileItem info ++ [comma]).length ≤ 159 := by
    intro info hmem
    have hlength := fileItem_length info
    obtain ⟨hname, hversion, htype⟩ := h info (hentries ▸ List.mem_map_of_mem hmem)
    omega
  have hitems : (files.map fun info => (fileItem info ++ [comma]).length).sum ≤
      files.length * 159 := by
    have hsum :=
      List.sum_le_card_nsmul (files.map fun info => (fileItem info ++ [comma]).length) 159
    rw [List.length_map, smul_eq_mul] at hsum
    refine hsum fun n hn => ?_
    obtain ⟨info, hmem, rfl⟩ := List.mem_map.mp hn
    exact hitem info hmem
  have hcount : files.length ≤ list.resNum.toNat := by
    have hlength := congrArg List.length hentries
    rw [List.length_map, ResList.entries] at hlength
    cases hinfos : list.infos with
    | none =>
      rw [hinfos] at hlength
      rw [← hlength]
      exact Nat.zero_le _
    | some infos =>
      rw [hinfos] at hlength
      rw [← hlength, ← list.counted infos hinfos]
      exact Nat.le_refl _
  rw [printedFiles, List.length_append, versionsPrefix_length, List.length_flatMap]
  unfold buffLen fileManageInfoLenMax
  omega

/-- Behind a success there is every file, and none is too long to be printed. -/
theorem files_of_gen {len : ℤ} {entries : List (Option FileInfo)} (hlen : 128 ≤ len)
    (hint : len < 2 ^ 31)
    (hok : (genFileManageVerInfo len entries).1 = 0) :
    ∃ files, entries = files.map some ∧ Printable files := by
  have hbegun : Printed len versionsPrefix (printAt ⟨[], 0⟩ 0 len versionsPrefix).2 := by
    have hempty : Printed len [] ⟨[], 0⟩ := printed_nil (by omega)
    simpa using hempty.print (by omega) hint versionsPrefix
  have hfailed : (-1001 : ℤ) ≠ 0 := by decide
  unfold genFileManageVerInfo at hok
  dsimp only at hok
  refine printable_of_addFiles hbegun (by omega) hint ?_
  by_contra hadded
  rw [if_neg hadded] at hok
  split_ifs at hok
  · exact hfailed hok
  · exact hfailed hok

/-- A report fails if its message is not generated. -/
theorem reportVersion_fails {list : ResList} (memory : Bool) (published : ℤ)
    (handle : Option Handle)
    (hfails : (genFileManageVerInfo (buffLen list.resNum) list.entries).1 ≠ 0) :
    (reportVersion memory published list handle).ret < 0 ∧
      (reportVersion memory published list handle).posted = none := by
  cases handle with
  | none => exact ⟨Int.negSucc_lt_zero 1001, rfl⟩
  | some handle =>
    rw [reportVersion]
    dsimp only
    rw [if_pos hfails]
    split_ifs with hlist hstate hmemory
    · exact ⟨Int.negSucc_lt_zero 1001, rfl⟩
    · exact ⟨Int.negSucc_lt_zero 1000, rfl⟩
    · exact ⟨Int.negSucc_lt_zero 1000, rfl⟩
    · exact ⟨Int.negSucc_lt_zero 1003, rfl⟩

/-- When a report of the versions is right. -/
theorem versions_right_iff (list : ResList) (memory : Bool) (published : ℤ)
    (handle : Option Handle) :
    VersionsRight list (genFileManageVerInfo (buffLen list.resNum) list.entries)
      (reportVersion memory published list handle) ↔ VersionsFit list := by
  obtain ⟨hlen, hint⟩ := buffLen_bounds list.resNum
  constructor
  · intro hright files hentries hprint
    have hok := (genFileManageVerInfo_text hlen hint hprint).1
    rw [hentries] at hright
    obtain ⟨others, hothers, htext, -⟩ := hright.complete hok
    have hsame : files = others :=
      List.map_injective_iff.mpr (Option.some_injective _) (hentries.symm.trans hothers)
    rw [← hsame] at htext
    exact (genFileManageVerInfo_message_iff hlen hint hprint).mp htext
  · intro hfits
    refine ⟨fun hok => ?_, fun files hentries hlong => ?_⟩
    · obtain ⟨files, hentries, hprint⟩ := files_of_gen hlen hint hok
      refine ⟨files, hentries, ?_, versionsMessage_wellFormed files⟩
      rw [hentries]
      exact (genFileManageVerInfo_message_iff hlen hint hprint).mpr (hfits files hentries hprint)
    · refine reportVersion_fails memory published handle fun hok => ?_
      obtain ⟨others, hothers, hprint⟩ := files_of_gen hlen hint hok
      have hroom := hfits others hothers hprint
      have hsame : files = others :=
        List.map_injective_iff.mpr (Option.some_injective _) (hentries.symm.trans hothers)
      rw [versionsMessage_length, hsame] at hlong
      omega

def longFile : FileInfo where
  fileName := some ⟨List.replicate 200 0x61, by decide +kernel⟩
  fileVer := some ⟨ascii "1", by decide⟩
  fileType := some ⟨ascii "FILE", by decide⟩

/-- The report of the file is cut off, and published. -/
theorem versions_wrong : ¬VersionsRight ⟨1, some [some longFile], by simp⟩
    (genFileManageVerInfo (buffLen 1) [some longFile])
    (reportVersion true 1 ⟨1, some [some longFile], by simp⟩ (some FileManageClient.init)) := by
  intro hright
  have hlong : buffLen 1 < (versionsMessage [longFile]).text.length + 1 := by decide +kernel
  exact absurd (hright.refused [longFile] rfl hlong).2 (by decide +kernel)

end Results

end IotExplorer.FileVersions
