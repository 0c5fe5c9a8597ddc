import IotExplorer.PrintedTexts

/-!
The logs of the Wi-Fi configuration. An item is printed in three steps into an array: where the code
stands, the message in what is left, and the end of the line. The items are put one behind another
into a buffer that is counted before they are taken from the queue.
-/
namespace IotExplorer.DevLogs

open Basis.JsonText Basis.Decimals TemplateJson DeviceProperty ReportArray GatewayMessages
open PrintedTexts

section Items

/-- An item of the queue: `LOG_ITEM_SIZE` bytes, of which one is the NUL. -/
abbrev Item := {text : List UInt8 // text.length < 128}

def lineEnd : List UInt8 := ascii "\r\n"

/-- `%u|%s(%d): ` in front of a message. -/
def prefixText (time : UInt32) (func : List UInt8) (line : Int32) : List UInt8 :=
  decimal time.toNat ++
    (ascii "|" ++ (func ++ (ascii "(" ++ (signedText line.toInt ++ ascii "): "))))

/-- `HAL_Vsnprintf` at a place of the array. A length below zero is a `size_t` that cuts nothing,
with a `vsnprintf` that does not refuse it. -/
def vsnprintf (buffer : Buffer) (place len : ℤ) (out : List UInt8) : Option Buffer :=
  if len < 0 then
    if 0 ≤ place ∧ place + out.length < 128 then
      some ⟨buffer.text.take place.toNat ++ out, max buffer.reach (place.toNat + out.length + 1)⟩
    else none
  else (printBound buffer place len out).map Prod.snd

def strcat (size : ℕ) (out text : List UInt8) : Option (List UInt8) :=
  if text.length + out.length < size then some (text ++ out) else none

/-- `log_buf` when it is pushed, and how far it was written. -/
def logBuf (time : UInt32) (func : List UInt8) (line : Int32) (message : List UInt8) :
    Option Buffer := do
  let (printed, buffer) := printAt ⟨[], 0⟩ 0 128 (prefixText time func line)
  let buffer ← vsnprintf buffer printed (128 - 3 - buffer.text.length) message
  let text ← strcat 128 lineEnd buffer.text
  return ⟨text, max buffer.reach (text.length + 1)⟩

/-- What `push_dev_log` leaves: its return, the queue, and how far it wrote into `log_buf`. -/
structure Pushed where
  rc : ℤ
  queue : Option (List Item)
  reach : ℕ

/-- `push_dev_log`; it may not be possible to push. -/
def pushDevLog (queue : Option (List Item)) (pushes : Bool) (time : UInt32) (func : List UInt8)
    (line : Int32)
    (message : List UInt8) : Option Pushed :=
  match queue with
  | none => some ⟨5, none, 0⟩
  | some items =>
      if 10 < items.length then some ⟨5, some items, 0⟩
      else
        -- the oldest item makes room
        let items := if items.length = 10 then items.tail else items
        (logBuf time func line message).bind fun buffer =>
          if h : buffer.text.length < 128 then
            if pushes then some ⟨0, some (items ++ [⟨buffer.text, h⟩]), buffer.reach⟩
            else some ⟨5, some items, buffer.reach⟩
          else none

/-- How `app_send_dev_log` ends. -/
inductive Sent
  | failed (rc : ℤ)
  | replied (text : List UInt8)
  deriving DecidableEq

/-- `app_send_dev_log`, for the items that it counts and those that it gets until the queue is
empty. -/
def appSendDevLog (memory : Bool) (logCnt : ℕ) (items : List Item) : Option Sent :=
  if logCnt = 0 ∨ 10 < logCnt then some (.failed 5)
  else if !memory then some (.failed (-1))
  else (items.foldlM (fun text item => strcat (logCnt * 128 + 32) item.val text) []).map .replied

end Items

section Right

/-- An item is printed inside its array, and ends with the end of the line when it is queued. -/
def PushRight (queue : Option (List Item)) (pushes : Bool) (time : UInt32) (func : List UInt8)
    (line : Int32)
    (message : List UInt8) : Prop :=
  ∃ pushed, pushDevLog queue pushes time func line message = some pushed ∧ pushed.reach ≤ 128 ∧
    (pushed.rc = 0 → ∃ items item, pushed.queue = some (items ++ [item]) ∧ lineEnd <:+ item.val)

/-- Nothing is printed, or the prefix leaves room for the end of the line. -/
def PushFits (queue : Option (List Item)) (time : UInt32) (func : List UInt8) (line : Int32) :
    Prop :=
  (∀ items ∈ queue, 10 < items.length) ∨ (prefixText time func line).length ≤ 125

/-- The items stay inside the buffer, if there is one. -/
def SendFits (memory : Bool) (logCnt : ℕ) (items : List Item) : Prop :=
  logCnt = 0 ∨ 10 < logCnt ∨ memory = false ∨
    (items.map fun item => item.val.length).sum < logCnt * 128 + 32

end Right

section Pushes
variable {time : UInt32} {func message : List UInt8} {line : Int32}

/-- A print into no room writes nothing, however long it is. -/
theorem printAt_nothing (buffer : Buffer) (place : ℕ) (out : List UInt8) :
    (printAt buffer place 0 out).2 = buffer := by
  have hprinted : (halSnprintf buffer place 0 out).2 = buffer := rfl
  unfold printAt
  rw [if_neg (by decide), show Int.toNat 0 = 0 from rfl]
  dsimp only
  rw [hprinted]
  split_ifs <;> rfl

/-- A message behind a prefix that leaves room for the end of the line. -/
theorem vsnprintf_room {buffer : Buffer} (hroom : buffer.text.length ≤ 125)
    (hreach : buffer.reach ≤ 128)
    (out : List UInt8) : ∃ buffer',
      vsnprintf buffer buffer.text.length (128 - 3 - buffer.text.length) out = some buffer' ∧
        buffer'.text.length ≤ 125 ∧ buffer'.reach ≤ 128 := by
  unfold vsnprintf printBound
  rw [if_neg (by omega), if_neg (by omega), Int.toNat_natCast]
  refine ⟨_, rfl, ?_⟩
  by_cases hfull : buffer.text.length = 125
  · have hzero : (128 : ℤ) - 3 - buffer.text.length = 0 := by omega
    rw [hzero, printAt_nothing]
    exact ⟨hroom, hreach⟩
  · have hcut : (out.take (((128 : ℤ) - 3 - buffer.text.length).toNat - 1)).length ≤
        ((128 : ℤ) - 3 - buffer.text.length).toNat - 1 := List.length_take_le ..
    rw [printAt_room (Nat.le_refl _) (by omega) (by omega)]
    dsimp only
    rw [List.length_append, List.take_length]
    omega

/-- A message behind a longer prefix leaves no room for the end of the line. -/
theorem vsnprintf_full {buffer buffer' : Buffer} {place : ℤ} {out : List UInt8}
    (hlong : 126 ≤ buffer.text.length)
    (hplace : buffer.text.length ≤ place ∨ place < 0)
    (hprinted : vsnprintf buffer place (128 - 3 - buffer.text.length) out = some buffer') :
    126 ≤ buffer'.text.length := by
  unfold vsnprintf at hprinted
  rw [if_pos (by omega)] at hprinted
  split_ifs at hprinted with hinside
  cases hprinted
  rw [List.length_append, List.take_of_length_le (by omega)]
  omega

/-- An item is printed if the prefix leaves room. -/
theorem logBuf_cases (time : UInt32) (func : List UInt8) (line : Int32) (message : List UInt8) :
    ((prefixText time func line).length ≤ 125 ∧ ∃ buffer,
      logBuf time func line message = some buffer ∧
        buffer.reach ≤ 128 ∧ buffer.text.length < 128 ∧ lineEnd <:+ buffer.text) ∨
      (125 < (prefixText time func line).length ∧ logBuf time func line message = none) := by
  have hend : lineEnd.length = 2 := by decide
  unfold logBuf
  generalize prefixText time func line = front
  rw [printAt_room (Nat.zero_le _) (by decide) (by decide)]
  dsimp only
  rw [List.take_zero, List.nil_append, show (128 : ℤ).toNat - 1 = 127 from rfl, Nat.zero_add]
  have hkept : (front.take 127).length = min 127 front.length := List.length_take
  by_cases hroom : front.length ≤ 125
  · left
    have hwhole : front.take 127 = front := List.take_of_length_le (by omega)
    rw [if_pos (by omega), hwhole]
    obtain ⟨buffer, hprinted, htext, hreach⟩ :=
      @vsnprintf_room ⟨front, max 0 (front.length + 1)⟩ hroom (by dsimp only; omega) message
    refine ⟨hroom, ⟨buffer.text ++ lineEnd, max buffer.reach ((buffer.text ++ lineEnd).length + 1)⟩,
      ?_, ?_, ?_, ?_⟩
    · rw [hprinted, Option.bind_eq_bind, Option.bind_some, strcat, if_pos (by omega)]
      rfl
    · dsimp only
      rw [List.length_append]
      omega
    · dsimp only
      rw [List.length_append]
      omega
    · exact List.suffix_append _ _
  · right
    refine ⟨by omega, ?_⟩
    rw [Option.bind_eq_bind, Option.bind_eq_none_iff]
    intro buffer hprinted
    have hfull :=
      vsnprintf_full (by dsimp only; omega) (by dsimp only; split_ifs <;> omega) hprinted
    rw [Option.bind_eq_bind, strcat, if_neg (by omega)]
    rfl

theorem push_right_iff (queue : Option (List Item)) (pushes : Bool) (time : UInt32)
    (func : List UInt8)
    (line : Int32) (message : List UInt8) :
    PushRight queue pushes time func line message ↔ PushFits queue time func line := by
  unfold PushRight PushFits pushDevLog
  cases queue with
  | none =>
    refine iff_of_true ⟨_, rfl, Nat.zero_le _, ?_⟩ (.inl ?_)
    · rintro ⟨⟩
    · rintro _ ⟨⟩
  | some items =>
    simp only [Option.mem_some_iff, forall_eq']
    by_cases hcount : 10 < items.length
    · rw [if_pos hcount]
      refine iff_of_true ⟨_, rfl, Nat.zero_le _, ?_⟩ (.inl hcount)
      rintro ⟨⟩
    · rw [if_neg hcount, or_iff_right hcount]
      rcases logBuf_cases time func line message with ⟨hroom, buffer, hprinted, hreach, htext, hend⟩
        | ⟨hlong, hprinted⟩
      · rw [hprinted, Option.bind_some, dif_pos htext]
        refine iff_of_true ?_ hroom
        cases pushes with
        | false =>
          refine ⟨_, rfl, hreach, ?_⟩
          rintro ⟨⟩
        | true => exact ⟨_, rfl, hreach, fun _ => ⟨_, _, rfl, hend⟩⟩
      · rw [hprinted, Option.bind_none]
        refine iff_of_false ?_ (by omega)
        rintro ⟨_, ⟨⟩, -⟩

end Pushes

section Sends

/-- Texts are put one behind another as long as their lengths stay below the size. -/
theorem foldlM_strcat {size : ℕ} (items : List Item) (text : List UInt8)
    (htext : text.length < size) :
    items.foldlM (fun text item => strcat size item.val text) text =
      if text.length + (items.map fun item => item.val.length).sum < size then
        some (text ++ items.flatMap Subtype.val) else none := by
  induction items generalizing text with
  | nil =>
    rw [List.map_nil, List.sum_nil, Nat.add_zero, if_pos htext, List.flatMap_nil, List.append_nil]
    rfl
  | cons item items ih =>
    rw [List.foldlM_cons, List.map_cons, List.sum_cons, List.flatMap_cons, ← Nat.add_assoc,
      ← List.append_assoc]
    unfold strcat
    by_cases hfits : text.length + item.val.length < size
    · have hrest := ih (text ++ item.val) (by rw [List.length_append]; exact hfits)
      rw [List.length_append] at hrest
      rw [if_pos hfits]
      exact hrest
    · rw [if_neg hfits, if_neg (by omega)]
      rfl

theorem send_right_iff (memory : Bool) (logCnt : ℕ) (items : List Item) :
    (appSendDevLog memory logCnt items).isSome = true ↔ SendFits memory logCnt items := by
  unfold appSendDevLog SendFits
  by_cases hcount : logCnt = 0 ∨ 10 < logCnt
  · rw [if_pos hcount]
    exact iff_of_true rfl (by tauto)
  · rw [if_neg hcount]
    obtain ⟨hsome, hfew⟩ := not_or.mp hcount
    rw [or_iff_right hsome, or_iff_right hfew]
    cases memory with
    | false => exact iff_of_true rfl (.inl rfl)
    | true =>
      rw [if_neg (by decide), Option.isSome_map, or_iff_right (by decide),
        foldlM_strcat items [] (by rw [List.length_nil]; omega), List.length_nil, Nat.zero_add]
      split_ifs with hfits
      · exact iff_of_true rfl hfits
      · exact iff_of_false (by decide) hfits

/-- The items of a queue that nothing is added to are shorter than the buffer that is counted for
them. -/
theorem items_sum (items : List Item) :
    (items.map fun item => item.val.length).sum ≤ items.length * 127 := by
  induction items with
  | nil => exact Nat.le_refl _
  | cons item items ih =>
    have hitem := item.property
    rw [List.map_cons, List.sum_cons, List.length_cons]
    omega

/-- A function name of 128 letters leaves no room in the array. -/
theorem logs_wrong : ¬ PushRight (some []) true 0 (List.replicate 128 0x66) 1 (ascii "up") := by
  rw [push_right_iff]
  have hlength : 125 < (prefixText 0 (List.replicate 128 0x66) 1).length := by
    simp only [prefixText, List.length_append, List.length_replicate]
    omega
  rintro (hcount | hshort)
  · exact absurd (hcount [] rfl) (by decide)
  · omega

/-- An item is right exactly if its prefix leaves room for the end of the line, and what is sent
stays in its buffer exactly if the items are shorter than it, as those are that were counted. -/
theorem logs_right_iff (queue : Option (List Item)) (pushes : Bool) (time : UInt32)
    (func : List UInt8) (line : Int32) (message : List UInt8) (memory : Bool) (logCnt : ℕ)
    (items : List Item) :
    (PushRight queue pushes time func line message ↔ PushFits queue time func line) ∧
    ((appSendDevLog memory logCnt items).isSome = true ↔ SendFits memory logCnt items) ∧
    SendFits memory items.length items := by
  refine ⟨push_right_iff queue pushes time func line message,
    send_right_iff memory logCnt items, ?_⟩
  have hsum := items_sum items
  exact .inr (.inr (.inr (by omega)))

end Sends

end IotExplorer.DevLogs
