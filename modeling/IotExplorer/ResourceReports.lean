import IotExplorer.PrintedTexts
import IotExplorer.ResourceClient
import Mathlib.Tactic.IntervalCases

/-!
The reports of progress and of results of the resource service. The length for the prints is a
sum of lengths of formats, in which the conversions stand for the texts that are put in their
place; the longest report needs every byte of it.
-/
namespace IotExplorer.ResourceReports

open Basis.JsonText Basis.Decimals TemplateJson DeviceProperty ReportArray GatewayMessages
open PrintedTexts
open ResourceClient (ResourceState)

section Reports

/-- `QCLOUD_RESOURCE_REPORT_E`. -/
inductive Report
  | uploading
  | downloading
  | success
  | failed
  deriving DecidableEq, Repr

/-- `sg_report_str`. -/
def reportStr : Report → List UInt8
  | .uploading => ascii "uploading"
  | .downloading => ascii "downloading"
  | .success => ascii "done"
  | .failed => ascii "fail"

/-- `sg_result_code_str`. -/
def resultCodeStr : List (List UInt8) :=
  [ascii "", ascii "time_out", ascii "file_not_exist", ascii "sign invalid",
    ascii "md5sum not matched"]

/-- A percentage is reported while a resource is on its way. -/
def Report.Running (state : Report) : Prop := state = .downloading ∨ state = .uploading

instance (state : Report) : Decidable state.Running := inferInstanceAs (Decidable (_ ∨ _))

/-- `sizeof` of a string literal. -/
def sizeofLiteral (literal : String) : ℤ := (ascii literal).length + 1

def reportType (download : Bool) : List UInt8 :=
  if download then ascii "report_download_progress" else ascii "report_upload_progress"

def payloadLen (name : List UInt8) : ℤ :=
  sizeofLiteral "\x7b\"type\" :\"%s\",\"name\":\"%s\",\"progress\":\x7b" +
    sizeofLiteral ",\"percent\":%d" +
    sizeofLiteral "\"state\":\"%s\",\"result_code\":%d,\"result_msg\":\"%s\"\x7d\x7d" +
    name.length + (sizeofLiteral "report_download_progress" - 1)

def headText (download : Bool) (name : List UInt8) : List UInt8 :=
  ascii "\x7b\"type\":\"" ++ (reportType download ++ (ascii "\",\"name\":\"" ++ (name ++
    ascii "\",\"progress\":\x7b")))

def percentText (percent : ℤ) : List UInt8 :=
  ascii "\"percent\":" ++ (signedText percent ++ ascii ",")

def tailText (state : Report) (resultCode : ℤ) : List UInt8 :=
  ascii "\"state\":\"" ++
    (reportStr state ++ (ascii "\",\"result_code\":" ++ (signedText resultCode ++
    (ascii ",\"result_msg\":\"" ++
      (resultCodeStr.getD (-resultCode).toNat [] ++ ascii "\"\x7d\x7d")))))

/-- `QCLOUD_RESOURCE_MQTT_T`, as far as it is printed. -/
structure Mqtt where
  productId : List UInt8
  deviceName : List UInt8

structure Posted where
  payloadLen : ℤ
  payload : Buffer
  topic : Buffer
  qos : ℕ

def printEnd (len : ℤ) (out : List UInt8) (buffer : Buffer) : Buffer :=
  (printAt buffer buffer.text.length (len - buffer.text.length) out).2

/-- `qcloud_resource_mqtt_report_progress`. -/
def mqttReportProgress (mqtt : Mqtt) (state : Report) (resultCode percent : ℤ) (name : List UInt8)
    (download : Bool) : Option Posted :=
  if resultCode ≤ -5 ∨ 0 < resultCode then none
  else
    let len := payloadLen name
    let begun := printEnd len (headText download name) ⟨[], 0⟩
    let counted := if state.Running then printEnd len (percentText percent) begun else begun
    let payload := printEnd len (tailText state resultCode) counted
    let topic := printEnd len
      (ascii "$resource/up/service/" ++ (mqtt.productId ++ (ascii "/" ++ mqtt.deviceName))) ⟨[], 0⟩
    some ⟨len, payload, topic, if state.Running then 0 else 1⟩

/-- `_qcloud_iot_resource_report_download_progress` and its sibling for uploads. -/
def reportProgress (report : Report) (download : Bool) (mqtt : Mqtt) (state : ResourceState)
    (progress : ℤ)
    (name : List UInt8) : Option Posted :=
  if state = .uninited then none
  else if ¬(0 ≤ progress ∧ progress ≤ 100) then none
  else mqttReportProgress mqtt report 0 progress name download

/-- `_qcloud_iot_resource_report_download_result` and its sibling for uploads. -/
def reportResult (download : Bool) (mqtt : Mqtt) (state : ResourceState) (name : List UInt8)
    (resultCode : ℤ) : Option Posted :=
  if state = .uninited then none
  else if name.length < 1 ∨ 64 < name.length then none
  else mqttReportProgress mqtt (if resultCode ≠ 0 then .failed else .success) resultCode 0
    name download

end Reports

section Calls

inductive Call
  | downloadProgress (progress : ℤ)
  | downloadResult (resultCode : ℤ)
  | uploadProgress (progress : ℤ)
  | uploadResult (resultCode : ℤ)

def Call.post (mqtt : Mqtt) (state : ResourceState) (name : List UInt8) : Call → Option Posted
  | .downloadProgress progress => reportProgress .downloading true mqtt state progress name
  | .downloadResult resultCode => reportResult true mqtt state name resultCode
  | .uploadProgress progress => reportProgress .uploading false mqtt state progress name
  | .uploadResult resultCode => reportResult false mqtt state name resultCode

def reportText (state : Report) (resultCode percent : ℤ) (name : List UInt8) (download : Bool) :
    List UInt8 :=
  headText download name ++ (if state.Running then percentText percent else []) ++ tailText state
    resultCode

/-- The complete text of the report that a call makes. -/
def Call.text (name : List UInt8) : Call → List UInt8
  | .downloadProgress progress => reportText .downloading 0 progress name true
  | .downloadResult resultCode =>
      reportText (if resultCode ≠ 0 then .failed else .success) resultCode 0 name true
  | .uploadProgress progress => reportText .uploading 0 progress name false
  | .uploadResult resultCode =>
      reportText (if resultCode ≠ 0 then .failed else .success) resultCode 0 name false

/-- The length for the prints is within the array and enough for the text with its NUL, the text is
published as a whole, and no print leaves the array. -/
structure PostedRight (text : List UInt8) (posted : Posted) : Prop where
  inArray : posted.payloadLen ≤ 256
  enough : (text.length : ℤ) + 1 ≤ posted.payloadLen
  whole : posted.payload.text = text
  inside : (posted.payload.reach : ℤ) ≤ 256

abbrev ResourceName := {name : CString // name.val.length ≤ 64}

end Calls

section Lengths

theorem payloadLen_eq (name : List UInt8) : payloadLen name = name.length + 127 := by
  have hhead : sizeofLiteral "\x7b\"type\" :\"%s\",\"name\":\"%s\",\"progress\":\x7b" =
      39 := by decide +kernel
  have hpercent : sizeofLiteral ",\"percent\":%d" = 14 := by decide +kernel
  have htail : sizeofLiteral "\"state\":\"%s\",\"result_code\":%d,\"result_msg\":\"%s\"\x7d\x7d" =
      50 := by
    decide +kernel
  have htype : sizeofLiteral "report_download_progress" = 25 := by decide +kernel
  rw [payloadLen, hhead, hpercent, htail, htype]
  omega

theorem headText_length (download : Bool) (name : List UInt8) :
    (headText download name).length ≤ 57 + name.length := by
  have htype : (reportType download).length ≤ 24 := by cases download <;> decide
  have hfirst : (ascii "\x7b\"type\":\"").length = 9 := by decide
  have hname : (ascii "\",\"name\":\"").length = 10 := by decide
  have hprogress : (ascii "\",\"progress\":\x7b").length = 14 := by decide
  simp only [headText, List.length_append, hfirst, hname, hprogress]
  omega

theorem percentText_length {percent : ℤ} (h : 0 ≤ percent ∧ percent ≤ 100) :
    (percentText percent).length ≤ 14 := by
  obtain ⟨n, rfl⟩ := Int.eq_ofNat_of_zero_le h.1
  have hdigits : (decimal n).length ≤ 3 := (decimal_length_le_iff n 3 (by decide)).mpr (by omega)
  have hsign : signedText (n : ℤ) = decimal n := rfl
  have hname : (ascii "\"percent\":").length = 10 := by decide
  rw [percentText, List.length_append, List.length_append, hname, hsign,
    show (ascii ",").length = 1 from rfl]
  omega

theorem tailText_running {state : Report} (h : state.Running) : (tailText state 0).length ≤ 55 := by
  rcases h with rfl | rfl <;> decide

theorem tailText_length (state : Report) {resultCode : ℤ} (h : ¬(resultCode ≤ -5 ∨ 0 < resultCode))
    (hdone : ¬state.Running) : (tailText state resultCode).length ≤ 69 := by
  have hlow : -4 ≤ resultCode := by omega
  have hhigh : resultCode ≤ 0 := by omega
  cases state with
  | uploading => exact absurd (.inr rfl) hdone
  | downloading => exact absurd (.inl rfl) hdone
  | success => interval_cases resultCode <;> decide +kernel
  | failed => interval_cases resultCode <;> decide +kernel

end Lengths

section Results
variable {len : ℤ} {text out : List UInt8} {buffer : Buffer} {mqtt : Mqtt} {name : List UInt8}
  {download : Bool}

theorem printed_printEnd (h : Printed len text buffer) (hpos : 0 < len) (hint : len < 2 ^ 31) :
    Printed len (text ++ out) (printEnd len out buffer) := h.print hpos hint out

/-- What has been printed of a text that fits is all of it. -/
theorem printed_whole (h : Printed len text buffer) (hfits : (text.length : ℤ) + 1 ≤ len) :
    buffer.text = text := by
  rw [h.text]
  exact List.take_of_length_le (by omega)

/-- A report that is made while a resource is on its way says a percentage and no error; the others
say no percentage. All of them are published as a whole. -/
theorem mqttReportProgress_right {state : Report} {resultCode percent : ℤ}
    (hname : name.length ≤ 64)
    (hrunning : state.Running → resultCode = 0 ∧ 0 ≤ percent ∧ percent ≤ 100) :
    ∀ posted ∈ mqttReportProgress mqtt state resultCode percent name download,
      PostedRight (reportText state resultCode percent name download) posted := by
  intro posted hposted
  have hlen := payloadLen_eq name
  have hhead := headText_length download name
  have hempty : Printed (payloadLen name) [] ⟨[], 0⟩ := printed_nil (by omega)
  have hbegun : Printed (payloadLen name) ([] ++ headText download name)
      (printEnd (payloadLen name) (headText download name) ⟨[], 0⟩) :=
    printed_printEnd hempty (by omega) (by omega)
  have harray : payloadLen name ≤ 256 := by omega
  rw [Option.mem_def, mqttReportProgress] at hposted
  by_cases hcode : resultCode ≤ -5 ∨ 0 < resultCode
  · rw [if_pos hcode] at hposted
    cases hposted
  rw [if_neg hcode] at hposted
  cases hposted
  have hfits : ((reportText state resultCode percent name download).length : ℤ) + 1 ≤
      payloadLen name := by
    unfold reportText
    rw [List.length_append, List.length_append]
    split_ifs with hstate
    · obtain ⟨rfl, hpercent⟩ := hrunning hstate
      have htail := tailText_running hstate
      have hcount := percentText_length hpercent
      omega
    · have htail := tailText_length state hcode hstate
      rw [List.length_nil]
      omega
  have hprinted : Printed (payloadLen name) (reportText state resultCode percent name download)
      (printEnd (payloadLen name) (tailText state resultCode)
        (if state.Running then printEnd (payloadLen name) (percentText percent)
            (printEnd (payloadLen name) (headText download name) ⟨[], 0⟩)
          else printEnd (payloadLen name) (headText download name) ⟨[], 0⟩)) := by
    refine printed_printEnd ?_ (by omega) (by omega)
    split_ifs with hstate
    · exact printed_printEnd hbegun (by omega) (by omega)
    · rw [List.append_nil]
      exact hbegun
  exact ⟨harray, hfits, printed_whole hprinted hfits, hprinted.inside.trans harray⟩

theorem reportProgress_right {report : Report} {state : ResourceState} {progress : ℤ}
    (hname : name.length ≤ 64) :
    ∀ posted ∈ reportProgress report download mqtt state progress name,
      PostedRight (reportText report 0 progress name download) posted := by
  intro posted hposted
  rw [Option.mem_def, reportProgress] at hposted
  split_ifs at hposted with huninited hprogress
  exact mqttReportProgress_right hname (fun _ => ⟨rfl, hprogress⟩) posted hposted

theorem reportResult_right {state : ResourceState} {resultCode : ℤ} (hname : name.length ≤ 64) :
    ∀ posted ∈ reportResult download mqtt state name resultCode,
      PostedRight (reportText (if resultCode ≠ 0 then .failed else .success) resultCode 0
        name download)
        posted := by
  intro posted hposted
  have hdone : ¬(if resultCode ≠ 0 then Report.failed else Report.success).Running := by
    split_ifs <;> decide
  have hwhole := @mqttReportProgress_right mqtt name download
    (if resultCode ≠ 0 then .failed else .success) resultCode 0 hname fun hrunning =>
      absurd hrunning hdone
  rw [Option.mem_def, reportResult] at hposted
  by_cases huninited : state = .uninited
  · rw [if_pos huninited] at hposted
    cases hposted
  rw [if_neg huninited] at hposted
  by_cases hlength : name.length < 1 ∨ 64 < name.length
  · rw [if_pos hlength] at hposted
    cases hposted
  rw [if_neg hlength] at hposted
  exact hwhole posted hposted

/-- Every report of the client is published as a whole, from inside of its array. -/
theorem reports_right (mqtt : Mqtt) (state : ResourceState) (call : Call) (name : ResourceName) :
    ∀ posted ∈ call.post mqtt state name.val.val, PostedRight (call.text name.val.val) posted := by
  cases call with
  | downloadProgress progress => exact reportProgress_right name.2
  | downloadResult resultCode => exact reportResult_right name.2
  | uploadProgress progress => exact reportProgress_right name.2
  | uploadResult resultCode => exact reportResult_right name.2

/-- A download that has reached its end. -/
theorem reports_right_hundred : PostedRight ((Call.downloadProgress 100).text (ascii "map.bin"))
    (((Call.downloadProgress 100).post ⟨ascii "PRODUCT", ascii "dev"⟩ .start (ascii "map.bin")).get
      (by decide +kernel)) :=
  reports_right ⟨ascii "PRODUCT", ascii "dev"⟩ .start (.downloadProgress 100)
    ⟨⟨ascii "map.bin", by decide⟩, by decide⟩ _ (Option.get_mem _)

example : (((Call.downloadProgress 100).text (ascii "map.bin")).length : ℤ) + 1 =
    payloadLen (ascii "map.bin") := by
  decide +kernel

end Results

end IotExplorer.ResourceReports
