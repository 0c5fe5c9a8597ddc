import IotExplorer.DataTemplate
import IotExplorer.ReportArray

/-!
The documents of events and of the replies to actions, built with `template_put_json_node`.
The items are put into the text one after the other, in a buffer whose size is taken to be
what was left of it in front of them. The rest of the buffer is not computed anew between
two events, so that the head of the next event can be written beyond the end.
-/
namespace IotExplorer.EventDocuments

open Basis.JsonText Basis.Decimals TemplateJson DeviceProperty ReportArray DataTemplate

section Data

/-- What the data of a `DeviceProperty` points to when it is put with `template_put_json_node`:
NULL, a value, the text of an object, or something of an unknown type. -/
inductive ItemData where
  | null
  | scalar (data : Scalar)
  | object (text : CString)
  | unknown

/-- A `DeviceProperty` of an event or an output. -/
structure Item where
  key : Option CString
  data : ItemData

/-- `sEvent`; the data are `none` when the pointer is NULL and their number is not zero. -/
structure PostedEvent where
  eventName : Option CString
  type : Option CString
  timestamp : UInt32
  eventData : Option (List Item)

/-- What `_iot_construct_event_json` is given, and what the environment decides during it: the
allocations of the entry and of its node, the serial of the node and the time. The array is `none`
when its pointer is NULL. -/
structure EventCall where
  jsonBuffer : Bool
  sizeOfBuffer : ℕ
  pEventArry : Option (List (Option PostedEvent))
  replyCb : Option ℕ
  replyTimeoutMs : ℕ
  replyOk : Bool
  nodeOk : Bool
  serial : ℕ
  now : ℕ

/-- What a post reads and changes of the template. -/
structure EventClient where
  template : ReportArray.Template
  eventList : List EventReply

/-- What `_iot_construct_action_json` is given: the output of the action is `none` when its
pointer is NULL. -/
structure ActionReply where
  jsonBuffer : Bool
  sizeOfBuffer : ℕ
  clientToken : Option CString
  action : Option (Option (List Item))
  code : Int32
  statusMsg : CString

inductive EventCode where
  | json (code : JsonCode)
  | failure
  deriving DecidableEq

end Data

section Construction

/-- What is printed for a text; `STRING_PTR_PRINT_SANITY_CHECK` stands in for NULL. -/
def shown (text : Option CString) : List UInt8 := text.elim (ascii "null") Subtype.val

/-- What `template_put_json_node` prints behind the key, in front of the comma. -/
def ItemData.text : ItemData → Option (List UInt8)
  | .null => some (ascii "null")
  | .scalar (.boolean value) => some (if value then ascii "1" else ascii "0")
  | .scalar (.array text _) => some (quote :: (text ++ [quote]))
  | .scalar data => some data.text
  | .object text => some text
  | .unknown => none

/-- `template_put_json_node`; for an unknown type the return of the last print stays -1. -/
def templatePutJsonNode (size : ℕ) (item : Item) (buffer : Buffer) : JsonCode × Buffer :=
  let current := buffer.text.length + (keyText item.key).length
  andThen (putKey 0 size buffer.text.length item.key buffer) fun buffer =>
    match item.data.text with
    | some text => print buffer (0 + current) (size - current) (text ++ [comma])
    | none => (checkSnprintfReturn (-1) (size - current), buffer)

def putItems (size : ℕ) : List Item → Buffer → JsonCode × Buffer
  | [], buffer => (.success, buffer)
  | item :: rest, buffer =>
      if item.key = none then (.inval, buffer)
      else andThen (templatePutJsonNode size item buffer) (putItems size rest)

/-- The items at a pointer that may be NULL. -/
def putData (size : ℕ) (items : Option (List Item)) (buffer : Buffer) : JsonCode × Buffer :=
  match items with
  | none => (.inval, buffer)
  | some items => putItems size items buffer

def initText (method token : List UInt8) : List UInt8 :=
  ascii "\x7b\"method\":\"" ++ method ++ ascii "\", \"clientToken\":\"" ++ token ++ ascii "\", "

/-- `POST_EVENT` and `POST_EVENTS`. -/
def eventMethod (count : ℕ) : List UInt8 :=
  if 1 < count then ascii "events_post" else ascii "event_post"

def eventHead (event : PostedEvent) : List UInt8 :=
  ascii "\"eventId\":\"" ++ shown event.eventName ++ ascii "\", \"type\":\"" ++ shown event.type ++
    ascii "\", \"timestamp\":" ++ decimal (event.timestamp.toNat * 1000) ++
      ascii ", \"params\":\x7b"

def endBraces (count : ℕ) (last : Bool) : List UInt8 :=
  if 1 < count ∧ last then ascii "\x7d\x7d"
  else if count = 1 then ascii "\x7d"
  else ascii "\x7d\x7d,\x7b"

/-- The loop over the events; `remain` is what was left of the buffer when it was last computed. -/
def putEvents (size count : ℕ) : ℕ → List (Option PostedEvent) → Buffer → JsonCode × Buffer
  | _, [], buffer => (.success, buffer)
  | _, none :: _, buffer => (.inval, buffer)
  | remain, some event :: rest, buffer =>
      andThen (print buffer buffer.text.length remain (eventHead event)) fun buffer =>
        if size ≤ buffer.text.length + 1 then (.bufferTooSmall, buffer)
        else
          andThen (putData (size - buffer.text.length) event.eventData buffer) fun buffer =>
            if size ≤ buffer.text.length + 1 then (.bufferTooSmall, buffer)
            else
              andThen
                (print buffer (buffer.text.length - 1) (size - buffer.text.length)
                  (endBraces count rest.isEmpty))
                (putEvents size count (size - buffer.text.length) rest)

def openEvents (size count : ℕ) (buffer : Buffer) : JsonCode × Buffer :=
  if 1 < count then
    andThen (print buffer buffer.text.length (size - buffer.text.length) (ascii "\"events\":[\x7b"))
      fun buffer =>
        if size ≤ buffer.text.length + 1 then (.bufferTooSmall, buffer) else (.success, buffer)
  else (.success, buffer)

/-- The end of the array of several events, which replaces the last brace. -/
def closeEvents (size count : ℕ) (buffer : Buffer) : JsonCode × Buffer :=
  if 1 < count then
    if size ≤ buffer.text.length + 1 then (.bufferTooSmall, buffer)
    else print buffer (buffer.text.length - 1) (size - buffer.text.length) (ascii "\x7d]")
  else (.success, buffer)

def finishJson (size : ℕ) (buffer : Buffer) : JsonCode × Buffer :=
  if size ≤ buffer.text.length then (.bufferTooSmall, buffer)
  else print buffer buffer.text.length (size - buffer.text.length) (ascii "\x7d")

/-- What `_iot_construct_event_json` writes when it has a client token. -/
def eventDocument (size : ℕ) (token : List UInt8) (events : List (Option PostedEvent)) :
    JsonCode × Buffer :=
  andThen (print ⟨[], size⟩ 0 size (initText (eventMethod events.length) token)) fun buffer =>
    if size ≤ buffer.text.length + 1 then (.bufferTooSmall, buffer)
    else
      andThen (openEvents size events.length buffer) fun buffer =>
        andThen (putEvents size events.length (size - buffer.text.length) events buffer)
          fun buffer =>
          andThen (closeEvents size events.length buffer) (finishJson size)

def maxEventWaitReply : ℕ := 10

/-- `_create_event_add_to_list`; the token number is used up once the entry is allocated. The
field of the token has room for every token. -/
def createEventAddToList (call : EventCall) (client : EventClient) :
    Option EventReply × EventClient :=
  if maxEventWaitReply ≤ client.eventList.length then (none, client)
  else if !call.replyOk then (none, client)
  else
    let reply : EventReply :=
      { serial := call.serial
        clientToken := client.template.clientToken
        timer := call.now + call.replyTimeoutMs / 1000 * 1000
        callback := call.replyCb }
    let template := { client.template with tokenNum := client.template.tokenNum + 1 }
    if !call.nodeOk then (none, { client with template := template })
    else (some reply, ⟨template, client.eventList ++ [reply]⟩)

/-- `_iot_construct_event_json` with a handle that is given. -/
def iotConstructEventJson (call : EventCall) (client : EventClient) :
    EventCode × Buffer × EventClient :=
  if !call.jsonBuffer then (.json .inval, ⟨[], 0⟩, client)
  else
    match call.pEventArry with
    | none => (.json .inval, ⟨[], 0⟩, client)
    | some events =>
        match createEventAddToList call client with
        | (none, client) => (.failure, ⟨[], 0⟩, client)
        | (some reply, client) =>
            let document := eventDocument call.sizeOfBuffer reply.clientToken events
            (.json document.1, document.2, client)

def replyHead (code : Int32) (statusMsg : CString) : List UInt8 :=
  ascii "\"code\":" ++ signedText code.toInt ++ ascii ", \"status\":\"" ++ statusMsg ++
    ascii "\", \"response\":\x7b"

/-- What `_iot_construct_action_json` writes when its pointers are given. -/
def replyDocument (size : ℕ) (token : List UInt8) (code : Int32) (statusMsg : CString)
    (output : Option (List Item)) : JsonCode × Buffer :=
  andThen (print ⟨[], size⟩ 0 size (initText (ascii "action_reply") token)) fun buffer =>
    if size ≤ buffer.text.length + 1 then (.bufferTooSmall, buffer)
    else
      andThen
        (print buffer buffer.text.length (size - buffer.text.length) (replyHead code statusMsg))
        fun buffer =>
          if size ≤ buffer.text.length + 1 then (.bufferTooSmall, buffer)
          else
            andThen (putData (size - buffer.text.length) output buffer) fun buffer =>
              if size ≤ buffer.text.length + 1 then (.bufferTooSmall, buffer)
              else
                andThen
                  (print buffer (buffer.text.length - 1) (size - buffer.text.length) (ascii "\x7d"))
                  (finishJson size)

/-- `_iot_construct_action_json` with a handle and a reply that are given. -/
def iotConstructActionJson (reply : ActionReply) : JsonCode × Buffer :=
  if !reply.jsonBuffer then (.inval, ⟨[], 0⟩)
  else
    match reply.clientToken, reply.action with
    | some token, some output =>
        replyDocument reply.sizeOfBuffer token reply.code reply.statusMsg output
    | _, _ => (.inval, ⟨[], 0⟩)

end Construction

section Texts

def itemsOf (items : Option (List Item)) : List Item := items.getD []

def itemText (item : Item) : List UInt8 :=
  keyText item.key ++ (item.data.text.getD [] ++ [comma])

/-- An item with a key, of a type that is known. -/
def Item.writable (item : Item) : Bool := item.key.isSome && item.data.text.isSome

/-- There is room for the items behind a text of this length, in a buffer that is taken to be of
this size. -/
def itemsFit (size length : ℕ) : List Item → Bool
  | [] => true
  | item :: rest =>
      item.writable && decide (length + (itemText item).length < size) &&
        itemsFit size (length + (itemText item).length) rest

def itemTexts (items : List Item) : List UInt8 := items.flatMap itemText

/-- The last character in front of the braces, a comma if there are items, is replaced. -/
def eventText (count : ℕ) (event : PostedEvent) (last : Bool) : List UInt8 :=
  (eventHead event ++ itemTexts (itemsOf event.eventData)).dropLast ++ endBraces count last

def eventFits (size count length : ℕ) (event : PostedEvent) (last : Bool) : Bool :=
  let front := length + (eventHead event).length
  decide (front + 1 < size) && event.eventData.isSome &&
    itemsFit (size - front) front (itemsOf event.eventData) &&
    decide (front + (itemTexts (itemsOf event.eventData)).length +
      (endBraces count last).length < size)

def eventsText (count : ℕ) : List (Option PostedEvent) → List UInt8
  | [] => []
  | none :: _ => []
  | some event :: rest => eventText count event rest.isEmpty ++ eventsText count rest

def eventsFit (size count : ℕ) : ℕ → List (Option PostedEvent) → Bool
  | _, [] => true
  | _, none :: _ => false
  | length, some event :: rest =>
      eventFits size count length event rest.isEmpty &&
        eventsFit size count (length + (eventText count event rest.isEmpty).length) rest

/-- An event behind the first is come to, and there is no room for its head. -/
def overruns (size count : ℕ) : Bool → ℕ → List (Option PostedEvent) → Bool
  | _, _, [] => false
  | _, _, none :: _ => false
  | later, length, some event :: rest =>
      (later && decide (size ≤ length + (eventHead event).length)) ||
        (eventFits size count length event rest.isEmpty &&
          overruns size count true (length + (eventText count event rest.isEmpty).length) rest)

def openText (token : List UInt8) (count : ℕ) : List UInt8 :=
  initText (eventMethod count) token ++ if 1 < count then ascii "\"events\":[\x7b" else []

/-- What the document of the events is when it is said to be a success. -/
def documentText (token : List UInt8) (events : List (Option PostedEvent)) : List UInt8 :=
  let text := openText token events.length ++ eventsText events.length events
  (if 1 < events.length then text.dropLast ++ ascii "\x7d]" else text) ++ ascii "\x7d"

def documentFits (size : ℕ) (token : List UInt8) (events : List (Option PostedEvent)) : Bool :=
  eventsFit size events.length (openText token events.length).length events &&
    decide ((documentText token events).length < size)

/-- The head of an event is written beyond the end. -/
def documentOverruns (size : ℕ) (token : List UInt8) (events : List (Option PostedEvent)) : Bool :=
  decide ((openText token events.length).length + 1 < size) &&
    overruns size events.length false (openText token events.length).length events

def replyOpen (token : List UInt8) (code : Int32) (statusMsg : CString) : List UInt8 :=
  initText (ascii "action_reply") token ++ replyHead code statusMsg

/-- What the reply to an action is when it is said to be a success. -/
def replyText (token : List UInt8) (code : Int32) (statusMsg : CString) (output : List Item) :
    List UInt8 :=
  (replyOpen token code statusMsg ++ itemTexts output).dropLast ++ ascii "\x7d\x7d"

def replyFits (size : ℕ) (token : List UInt8) (code : Int32) (statusMsg : CString)
    (output : List Item) : Bool :=
  let front := (replyOpen token code statusMsg).length
  decide (front + 1 < size) && itemsFit (size - front) front output &&
    decide ((replyText token code statusMsg output).length < size)

end Texts

section Writes
variable {size count remain len place : ℕ} {buffer : Buffer} {out : List UInt8}

theorem append_puts (out : List UInt8) (hroom : buffer.text.length < size) (hsize : size < 2 ^ 31) :
    Puts size buffer (buffer.text.length + out.length < size) (buffer.text ++ out)
      (print buffer buffer.text.length (size - buffer.text.length) out) := by
  have hplace : 0 + buffer.text.length = buffer.text.length := Nat.zero_add _
  have hputs := print_end out hplace hroom hsize
  rw [hplace, Nat.zero_add] at hputs
  exact hputs

/-- A write that replaces the last character. -/
theorem replaceLast_puts (out : List UInt8) (hpos : 0 < buffer.text.length)
    (hroom : buffer.text.length < size) (hsize : size < 2 ^ 31) :
    Puts size buffer (buffer.text.length + out.length < size) (buffer.text.dropLast ++ out)
      (print buffer (buffer.text.length - 1) (size - buffer.text.length) out) := by
  have hlen : 0 < size - buffer.text.length := by omega
  have hint : size - buffer.text.length < 2 ^ 31 := by omega
  have hputs := print_puts buffer (buffer.text.length - 1) out hlen hint
  rw [← List.dropLast_eq_take] at hputs
  exact (hputs.mono (by omega)).congr (by omega)

/-- How far a write comes. -/
theorem print_reach (hlen : 0 < len) (hint : len < 2 ^ 31) :
    (print buffer place len out).2.reach =
      max buffer.reach (place + min (len - 1) out.length + 1) := by
  rw [print, halSnprintf_eq hlen hint]
  dsimp only
  rw [List.length_take]

theorem templatePutJsonNode_puts (item : Item) (hkey : item.key ≠ none) (hsize : size < 2 ^ 31) :
    Puts size buffer (item.writable = true ∧ buffer.text.length + (itemText item).length < size)
      (buffer.text ++ itemText item) (templatePutJsonNode size item buffer) := by
  have hsome : item.key.isSome = true := Option.isSome_iff_ne_none.mpr hkey
  have hplace : 0 + buffer.text.length = buffer.text.length := Nat.zero_add _
  rw [templatePutJsonNode, itemText, Item.writable, hsome, Bool.true_and]
  cases hdata : item.data.text with
  | some text =>
    have hputs := putKey_print item.key (text ++ [comma]) (by simp) hplace hsize
    rw [Nat.zero_add] at hputs
    exact hputs.congr (by simp)
  | none =>
    have hkeyPuts := putKey_puts item.key hplace hsize
    have hputs : Puts (0 + size) buffer
        (buffer.text.length + (keyText item.key).length + 1 < size ∧ False)
        (buffer.text ++ (keyText item.key ++ [comma]))
        (andThen (putKey 0 size buffer.text.length item.key buffer) fun buffer' =>
          (checkSnprintfReturn (-1) (size - (buffer.text.length + (keyText item.key).length)),
            buffer')) := by
      apply hkeyPuts.andThen
      intro buffer' _ _
      refine ⟨le_max_left _ _, False.elim, fun _ => ?_⟩
      have hmod : ((-1 : ℤ) % 2 ^ 64).toNat = 2 ^ 64 - 1 := rfl
      rw [checkSnprintfReturn, hmod, if_pos (by omega)]
      exact JsonCode.noConfusion
    rw [Nat.zero_add] at hputs
    exact hputs.congr (by simp)

theorem putItems_puts (items : List Item) (hsize : size < 2 ^ 31) (buffer : Buffer) :
    Puts size buffer (itemsFit size buffer.text.length items = true)
      (buffer.text ++ itemTexts items) (putItems size items buffer) := by
  induction items generalizing buffer with
  | nil =>
    rw [itemTexts, List.flatMap_nil, List.append_nil]
    exact ⟨le_max_left _ _, fun _ => ⟨rfl, rfl⟩, fun h => absurd rfl h⟩
  | cons item rest ih =>
    rw [itemsFit, putItems]
    by_cases hkey : item.key = none
    · rw [if_pos hkey, Item.writable, hkey]
      exact ⟨le_max_left _ _, fun h => absurd h Bool.false_ne_true, fun _ => JsonCode.noConfusion⟩
    · rw [if_neg hkey]
      have hputs : Puts size buffer
          ((item.writable = true ∧ buffer.text.length + (itemText item).length < size) ∧
            itemsFit size (buffer.text.length + (itemText item).length) rest = true)
          (buffer.text ++ itemText item ++ itemTexts rest)
          (andThen (templatePutJsonNode size item buffer) (putItems size rest)) := by
        apply (templatePutJsonNode_puts item hkey hsize).andThen
        intro buffer' htext _
        have hrest := ih buffer'
        rw [htext, List.length_append] at hrest
        exact hrest
      rw [List.append_assoc] at hputs
      rw [itemTexts, List.flatMap_cons]
      apply hputs.congr
      rw [Bool.and_eq_true, Bool.and_eq_true, decide_eq_true_eq]

theorem putData_puts (items : Option (List Item)) (hsize : size < 2 ^ 31) (buffer : Buffer) :
    Puts size buffer (items.isSome = true ∧ itemsFit size buffer.text.length (itemsOf items) = true)
      (buffer.text ++ itemTexts (itemsOf items)) (putData size items buffer) := by
  cases items with
  | none =>
    exact ⟨le_max_left _ _, fun h => absurd h.1 Bool.false_ne_true, fun _ => JsonCode.noConfusion⟩
  | some items => exact (putItems_puts items hsize buffer).congr (by simp [itemsOf])

end Writes

section Loop
variable {size count remain : ℕ} {buffer : Buffer} {event : PostedEvent} {last later : Bool}

theorem endBraces_pos (count : ℕ) (last : Bool) : 0 < (endBraces count last).length := by
  rw [endBraces]
  split_ifs <;> decide

theorem eventHead_pos (event : PostedEvent) : 0 < (eventHead event).length := by
  have hend : (ascii ", \"params\":\x7b").length = 12 := by decide
  rw [eventHead, List.length_append, hend]
  omega

/-- What the text comes to when an event is put behind it. -/
theorem eventText_append (text : List UInt8) (count : ℕ) (event : PostedEvent) (last : Bool) :
    (text ++ eventHead event ++ itemTexts (itemsOf event.eventData)).dropLast ++
      endBraces count last =
      text ++ eventText count event last := by
  have hne : eventHead event ++ itemTexts (itemsOf event.eventData) ≠ [] := by
    intro h
    have hpos := eventHead_pos event
    rw [(List.append_eq_nil_iff.mp h).1] at hpos
    exact absurd hpos (Nat.lt_irrefl 0)
  rw [eventText, List.append_assoc text, List.dropLast_append_of_ne_nil hne, List.append_assoc text]

theorem eventText_length (count : ℕ) (event : PostedEvent) (last : Bool) :
    (eventText count event last).length + 1 =
      (eventHead event).length + (itemTexts (itemsOf event.eventData)).length +
        (endBraces count last).length := by
  have hpos := eventHead_pos event
  rw [eventText, List.length_append, List.length_dropLast, List.length_append]
  omega

/-- The head of an event, when the rest of the buffer may be less than what was left. -/
theorem putHead_puts (out : List UInt8) (hroom : buffer.text.length < size) (hsize : size < 2 ^ 31)
    (hremain : size - buffer.text.length ≤ remain) (hle : remain ≤ size)
    (hhead : remain = size - buffer.text.length ∨ buffer.text.length + out.length < size) :
    Puts size buffer (out.length < remain) (buffer.text ++ out)
      (print buffer buffer.text.length remain out) := by
  have hpos : 0 < remain := by omega
  have hint : remain < 2 ^ 31 := by omega
  have hputs := print_puts buffer buffer.text.length out hpos hint
  rw [List.take_length] at hputs
  refine ⟨?_, hputs.done, hputs.full⟩
  rw [print_reach hpos hint]
  omega

/-- The loop puts the events into the text when there is room for them, and fails otherwise; it does
not leave its buffer unless it overruns it. -/
theorem putEvents_puts (hsize : size < 2 ^ 31) (events : List (Option PostedEvent))
    (buffer : Buffer)
    (hroom : buffer.text.length < size) (hremain : size - buffer.text.length ≤ remain)
    (hle : remain ≤ size) (hfirst : later = false → remain = size - buffer.text.length)
    (hover : overruns size count later buffer.text.length events = false) :
    Puts size buffer (eventsFit size count buffer.text.length events = true)
      (buffer.text ++ eventsText count events) (putEvents size count remain events buffer) := by
  induction events generalizing buffer remain later with
  | nil =>
    rw [eventsText, List.append_nil]
    exact ⟨le_max_left _ _, fun _ => ⟨rfl, rfl⟩, fun h => absurd rfl h⟩
  | cons event rest ih =>
    cases event with
    | none =>
      exact ⟨le_max_left _ _, fun h => absurd h Bool.false_ne_true, fun _ => JsonCode.noConfusion⟩
    | some event =>
      rw [overruns, Bool.or_eq_false_iff, Bool.and_eq_false_iff, Bool.and_eq_false_iff] at hover
      have hhead : remain = size - buffer.text.length ∨
          buffer.text.length + (eventHead event).length < size := by
        rcases hover.1 with hlater | hlength
        · exact .inl (hfirst hlater)
        · exact .inr (Nat.not_le.mp (of_decide_eq_false hlength))
      have hbraces := endBraces_pos count rest.isEmpty
      have htextLength := eventText_length count event rest.isEmpty
      have hheadPos := eventHead_pos event
      have hputs : Puts size buffer
          ((eventHead event).length < remain ∧
            buffer.text.length + (eventHead event).length + 1 < size ∧
            (event.eventData.isSome = true ∧
              itemsFit (size - (buffer.text.length + (eventHead event).length))
                (buffer.text.length + (eventHead event).length) (itemsOf event.eventData) = true) ∧
            buffer.text.length + (eventHead event).length +
              (itemTexts (itemsOf event.eventData)).length + 1 < size ∧
            buffer.text.length + (eventHead event).length +
              (itemTexts (itemsOf event.eventData)).length +
                (endBraces count rest.isEmpty).length < size ∧
            eventsFit size count (buffer.text.length + (eventText count event rest.isEmpty).length)
              rest = true)
          (buffer.text ++ eventText count event rest.isEmpty ++ eventsText count rest)
          (putEvents size count remain (some event :: rest) buffer) := by
        apply (putHead_puts _ hroom hsize hremain hle hhead).andThen
        intro buffer₁ htext₁ _
        rw [← List.length_append, ← htext₁]
        apply Puts.guard
        intro hroom₁
        have hdata := putData_puts event.eventData
          (show size - buffer₁.text.length < 2 ^ 31 by omega) buffer₁
        apply (hdata.mono (Nat.sub_le _ _)).andThen
        intro buffer₂ htext₂ hfit
        rw [← List.length_append, ← htext₂]
        apply Puts.guard
        intro hroom₂
        have hpos : 0 < buffer₂.text.length := by
          rw [htext₂, htext₁, List.length_append, List.length_append]
          omega
        apply (replaceLast_puts _ hpos (by omega) hsize).andThen
        intro buffer₃ htext₃ hroom₃
        have htext : buffer₃.text = buffer.text ++ eventText count event rest.isEmpty := by
          rw [htext₃, htext₂, htext₁, eventText_append]
        have hlength₂ : buffer₂.text.length = buffer.text.length + (eventHead event).length +
            (itemTexts (itemsOf event.eventData)).length := by
          rw [htext₂, htext₁, List.length_append, List.length_append]
        have hlength₃ : buffer₃.text.length =
            buffer.text.length + (eventText count event rest.isEmpty).length := by
          rw [htext, List.length_append]
        have hlength₁ : buffer₁.text.length = buffer.text.length + (eventHead event).length := by
          rw [htext₁, List.length_append]
        have hfits : eventFits size count buffer.text.length event rest.isEmpty = true := by
          rw [eventFits, hfit.1, ← hlength₁, hfit.2, decide_eq_true hroom₁, hlength₁, ← hlength₂,
            decide_eq_true hroom₃]
          rfl
        rw [hfits] at hover
        have hnext := hover.2.resolve_left (fun h => Bool.false_ne_true h.symm)
        rw [← hlength₃] at hnext
        have hleft : size - buffer₃.text.length ≤ size - buffer₂.text.length := by omega
        have hrest := ih buffer₃ (by omega) hleft (Nat.sub_le _ _)
          (fun h => absurd h.symm Bool.false_ne_true) hnext
        rw [htext, List.length_append] at hrest
        exact hrest
      rw [List.append_assoc] at hputs
      rw [eventsText]
      apply hputs.congr
      rw [eventsFit, eventFits]
      simp only [Bool.and_eq_true, decide_eq_true_eq]
      constructor
      · rintro ⟨⟨⟨⟨hroom₁, hsome⟩, hitems⟩, hend⟩, hrest⟩
        exact ⟨by omega, hroom₁, ⟨hsome, hitems⟩, by omega, hend, hrest⟩
      · rintro ⟨-, hroom₁, ⟨hsome, hitems⟩, -, hend, hrest⟩
        exact ⟨⟨⟨⟨hroom₁, hsome⟩, hitems⟩, hend⟩, hrest⟩

end Loop

section Overruns
variable {size count remain : ℕ} {buffer : Buffer} {result : JsonCode × Buffer}
  {next : Buffer → JsonCode × Buffer} {later : Bool}

theorem andThen_success (h : result.1 = .success) : andThen result next = next result.2 := by
  unfold ReportArray.andThen
  rw [if_pos h]

/-- It failed, and wrote beyond the end. -/
structure Overran (size : ℕ) (result : JsonCode × Buffer) : Prop where
  failed : result.1 ≠ .success
  beyond : size < result.2.reach

theorem overran_small {buffer : Buffer} (h : size < buffer.reach) :
    Overran size (.bufferTooSmall, buffer) :=
  ⟨JsonCode.noConfusion, h⟩

theorem Overran.andThen (h : Overran size result) :
    Overran size (ReportArray.andThen result next) := by
  unfold ReportArray.andThen
  rw [if_neg h.failed]
  exact h

/-- An event that there is room for is put, and the loop goes on with what was left in front of its
braces. -/
theorem putEvents_fits {event : PostedEvent} {rest : List (Option PostedEvent)}
    (hsize : size < 2 ^ 31)
    (hremain : size - buffer.text.length ≤ remain) (hle : remain ≤ size)
    (hfits : eventFits size count buffer.text.length event rest.isEmpty = true) :
    ∃ buffer' : Buffer, buffer'.text = buffer.text ++ eventText count event rest.isEmpty ∧
      putEvents size count remain (some event :: rest) buffer =
        putEvents size count
          (size + (endBraces count rest.isEmpty).length - (buffer'.text.length + 1)) rest
            buffer' := by
  rw [eventFits] at hfits
  simp only [Bool.and_eq_true, decide_eq_true_eq] at hfits
  obtain ⟨⟨⟨hroom₁, hsome⟩, hitems⟩, hroom₃⟩ := hfits
  have hbraces := endBraces_pos count rest.isEmpty
  have hpos := eventHead_pos event
  have hhead := (putHead_puts (eventHead event) (by omega) hsize hremain hle
    (.inr (by omega))).done (by omega)
  obtain ⟨hcode₁, htext₁⟩ := hhead
  rw [putEvents, andThen_success hcode₁]
  generalize (print buffer buffer.text.length remain (eventHead event)).2 = buffer₁ at htext₁ ⊢
  have hlength₁ : buffer₁.text.length = buffer.text.length + (eventHead event).length := by
    rw [htext₁, List.length_append]
  rw [← hlength₁] at hroom₁ hitems hroom₃
  have hsize₁ : size - buffer₁.text.length < 2 ^ 31 := by omega
  obtain ⟨hcode₂, htext₂⟩ := (putData_puts event.eventData hsize₁ buffer₁).done ⟨hsome, hitems⟩
  rw [if_neg (by omega), andThen_success hcode₂]
  generalize (putData (size - buffer₁.text.length) event.eventData buffer₁).2 = buffer₂ at htext₂ ⊢
  have hlength₂ : buffer₂.text.length =
      buffer₁.text.length + (itemTexts (itemsOf event.eventData)).length := by
    rw [htext₂, List.length_append]
  rw [← hlength₂] at hroom₃
  obtain ⟨hcode₃, htext₃⟩ := (replaceLast_puts (endBraces count rest.isEmpty)
    (show 0 < buffer₂.text.length by omega) (by omega) hsize).done hroom₃
  rw [if_neg (by omega), andThen_success hcode₃]
  generalize (print buffer₂ (buffer₂.text.length - 1) (size - buffer₂.text.length)
    (endBraces count rest.isEmpty)).2 = buffer₃ at htext₃ ⊢
  have hlength₃ : buffer₃.text.length + 1 =
      buffer₂.text.length + (endBraces count rest.isEmpty).length := by
    rw [htext₃, List.length_append, List.length_dropLast]
    omega
  refine ⟨buffer₃, by rw [htext₃, htext₂, htext₁, eventText_append], ?_⟩
  rw [hlength₃, Nat.add_sub_add_right]

/-- An overrun goes beyond the end, and is noticed behind it. -/
theorem putEvents_overruns (hsize : size < 2 ^ 31) (events : List (Option PostedEvent))
    (buffer : Buffer) (hroom : buffer.text.length < size)
    (hremain : size - buffer.text.length ≤ remain) (hle : remain ≤ size)
    (hstale : later = true → size - buffer.text.length < remain)
    (hcount : events.length ≤ 1 ∨ 1 < count)
    (hover : overruns size count later buffer.text.length events = true) :
    Overran size (putEvents size count remain events buffer) := by
  induction events generalizing buffer remain later with
  | nil => exact absurd hover Bool.false_ne_true
  | cons event rest ih =>
    cases event with
    | none => exact absurd hover Bool.false_ne_true
    | some event =>
      rw [overruns, Bool.or_eq_true, Bool.and_eq_true, Bool.and_eq_true, decide_eq_true_eq] at hover
      rcases hover with ⟨hlater, hlong⟩ | ⟨hfits, hnext⟩
      · have hless := hstale hlater
        have hreach : (print buffer buffer.text.length remain (eventHead event)).2.reach =
            max buffer.reach (buffer.text.length + min (remain - 1) (eventHead event).length + 1) :=
          print_reach (by omega) (by omega)
        have hputs := print_puts buffer buffer.text.length (eventHead event)
          (show 0 < remain by omega) (show remain < 2 ^ 31 by omega)
        rw [List.take_length] at hputs
        rw [putEvents]
        generalize print buffer buffer.text.length remain (eventHead event) = head at hreach hputs ⊢
        have hbeyond : size < head.2.reach := by omega
        by_cases hroom' : (eventHead event).length < remain
        · obtain ⟨hcode, htext⟩ := hputs.done hroom'
          have hlength : head.2.text.length =
              buffer.text.length + (eventHead event).length := by
            rw [htext, List.length_append]
          rw [andThen_success hcode, if_pos (by omega)]
          exact overran_small hbeyond
        · exact Overran.andThen ⟨hputs.full hroom', hbeyond⟩
      · obtain ⟨buffer', htext, heq⟩ := putEvents_fits hsize hremain hle hfits
        rw [heq]
        have hlength : buffer'.text.length =
            buffer.text.length + (eventText count event rest.isEmpty).length := by
          rw [htext, List.length_append]
        have htextLength := eventText_length count event rest.isEmpty
        rw [eventFits] at hfits
        simp only [Bool.and_eq_true, decide_eq_true_eq] at hfits
        rw [← hlength] at hnext
        cases rest with
        | nil => exact absurd hnext Bool.false_ne_true
        | cons next rest =>
          have hmany : 1 < count := by
            rcases hcount with hone | hmany
            · simp at hone
            · exact hmany
          have hbraces : (endBraces count (next :: rest).isEmpty).length = 4 := by
            rw [endBraces, if_neg (by simp), if_neg (by omega)]
            decide
          rw [hbraces] at hfits htextLength ⊢
          exact ih buffer' (by omega) (by omega) (by omega) (fun _ => by omega) (.inr hmany) hnext

end Overruns

section Documents
variable {size count : ℕ} {buffer : Buffer} {token : List UInt8}
  {events : List (Option PostedEvent)}

theorem finishJson_puts (buffer : Buffer) (hsize : size < 2 ^ 31) :
    Puts size buffer (buffer.text.length + 1 < size) (buffer.text ++ ascii "\x7d")
      (finishJson size buffer) := by
  have hclose : (ascii "\x7d").length = 1 := by decide
  have hputs : Puts size buffer
      (buffer.text.length < size ∧ buffer.text.length + (ascii "\x7d").length < size)
      (buffer.text ++ ascii "\x7d") (finishJson size buffer) := by
    apply Puts.guard
    intro hroom
    exact append_puts _ hroom hsize
  exact hputs.congr (by rw [hclose]; omega)

/-- The start of a document, in a buffer that is cleared. -/
theorem init_puts (method token : List UInt8) (hsize : size < 2 ^ 31) :
    Puts size ⟨[], size⟩ ((initText method token).length < size) (initText method token)
      (print ⟨[], size⟩ 0 size (initText method token)) := by
  by_cases hpos : 0 < size
  · have hputs := print_puts ⟨[], size⟩ 0 (initText method token) hpos hsize
    rw [Nat.zero_add] at hputs
    exact hputs
  · obtain rfl : size = 0 := by omega
    have hnothing : ∀ returned : ℤ, checkSnprintfReturn returned 0 = .bufferTruncated :=
      fun returned => if_pos (Nat.zero_le _)
    have hzero : ((0 : ℕ) : ℤ).bmod (2 ^ 32) = 0 := Int.zero_bmod
    have hsame : (halSnprintf ⟨[], 0⟩ 0 0 (initText method token)).2 = ⟨[], 0⟩ := by
      unfold halSnprintf
      rw [hzero]
      generalize (if (initText method token).length < 2 ^ 31 then
        ((initText method token).length : ℤ) else -1) = returned
      rfl
    have hprint : print ⟨[], 0⟩ 0 0 (initText method token) =
        (checkSnprintfReturn (halSnprintf ⟨[], 0⟩ 0 0 (initText method token)).1 0,
          (halSnprintf ⟨[], 0⟩ 0 0 (initText method token)).2) := rfl
    rw [hprint, hnothing, hsame]
    exact ⟨le_max_left _ _, fun h => absurd h (Nat.not_lt_zero _), fun _ => JsonCode.noConfusion⟩

theorem openEvents_puts (count : ℕ) (hroom : buffer.text.length + 1 < size)
    (hsize : size < 2 ^ 31) :
    let opening := if 1 < count then ascii "\"events\":[\x7b" else []
    Puts size buffer (buffer.text.length + opening.length + 1 < size) (buffer.text ++ opening)
      (openEvents size count buffer) := by
  intro opening
  rw [openEvents]
  by_cases hcount : 1 < count
  · have hopening : opening = ascii "\"events\":[\x7b" := if_pos hcount
    rw [if_pos hcount, hopening]
    have hputs : Puts size buffer
        (buffer.text.length + (ascii "\"events\":[\x7b").length < size ∧
          buffer.text.length + (ascii "\"events\":[\x7b").length + 1 < size ∧ True)
        (buffer.text ++ ascii "\"events\":[\x7b")
        (andThen (print buffer buffer.text.length (size - buffer.text.length)
          (ascii "\"events\":[\x7b")) fun buffer =>
            if size ≤ buffer.text.length + 1 then (.bufferTooSmall, buffer)
              else (.success, buffer)) := by
      apply (append_puts _ (by omega) hsize).andThen
      intro buffer' htext _
      rw [← List.length_append, ← htext]
      apply Puts.guard
      intro _
      exact ⟨le_max_left _ _, fun _ => ⟨rfl, rfl⟩, fun h => absurd trivial h⟩
    exact hputs.congr (by rw [and_true]; omega)
  · have hopening : opening = [] := if_neg hcount
    rw [if_neg hcount, hopening, List.append_nil]
    exact ⟨le_max_left _ _, fun _ => ⟨rfl, rfl⟩, fun h => absurd hroom h⟩

def closeText (count : ℕ) (text : List UInt8) : List UInt8 :=
  (if 1 < count then text.dropLast ++ ascii "\x7d]" else text) ++ ascii "\x7d"

theorem documentText_eq (token : List UInt8) (events : List (Option PostedEvent)) :
    documentText token events =
      closeText events.length (openText token events.length ++ eventsText events.length events) :=
        rfl

theorem closeText_length {text : List UInt8} (hpos : 0 < text.length) :
    (closeText count text).length = text.length + if 1 < count then 2 else 1 := by
  have hclose : (ascii "\x7d").length = 1 := by decide
  have hbracket : (ascii "\x7d]").length = 2 := by decide
  rw [closeText]
  split_ifs
  · rw [List.length_append, List.length_append, List.length_dropLast, hbracket, hclose]
    omega
  · rw [List.length_append, hclose]

theorem closeEvents_puts (hpos : 0 < buffer.text.length) (hroom : buffer.text.length < size)
    (hsize : size < 2 ^ 31) :
    Puts size buffer ((closeText count buffer.text).length < size) (closeText count buffer.text)
      (andThen (closeEvents size count buffer) (finishJson size)) := by
  have hclose : (ascii "\x7d").length = 1 := by decide
  have hbracket : (ascii "\x7d]").length = 2 := by decide
  rw [closeText, closeEvents]
  by_cases hcount : 1 < count
  · rw [if_pos hcount, if_pos hcount]
    have hputs : Puts size buffer
        ((buffer.text.length + 1 < size ∧ buffer.text.length + (ascii "\x7d]").length < size) ∧
          buffer.text.length + 2 < size)
        (buffer.text.dropLast ++ ascii "\x7d]" ++ ascii "\x7d")
        (andThen (if size ≤ buffer.text.length + 1 then (.bufferTooSmall, buffer)
          else print buffer (buffer.text.length - 1) (size - buffer.text.length) (ascii "\x7d]"))
          (finishJson size)) := by
      have hguard := Puts.guard fun _ : buffer.text.length + 1 < size =>
        replaceLast_puts (ascii "\x7d]") hpos hroom hsize
      apply hguard.andThen
      intro buffer' htext _
      have hfinish := finishJson_puts buffer' hsize
      rw [htext] at hfinish
      apply hfinish.congr
      rw [List.length_append, List.length_dropLast, hbracket]
      omega
    apply hputs.congr
    rw [List.length_append, List.length_append, List.length_dropLast, hbracket, hclose]
    omega
  · rw [if_neg hcount, if_neg hcount]
    have hfinish := finishJson_puts buffer hsize
    apply hfinish.congr
    rw [List.length_append, hclose]

theorem openText_pos (token : List UInt8) (count : ℕ) : 0 < (openText token count).length := by
  have hend : (ascii "\", ").length = 3 := by decide
  rw [openText, List.length_append, initText, List.length_append, hend]
  omega

/-- Events that there is room for end in front of the end of the buffer. -/
theorem eventsFit_length {length : ℕ} (hroom : length < size)
    (h : eventsFit size count length events = true) :
    length + (eventsText count events).length < size := by
  induction events generalizing length with
  | nil => exact hroom
  | cons event rest ih =>
    cases event with
    | none => exact absurd h Bool.false_ne_true
    | some event =>
      rw [eventsFit, Bool.and_eq_true] at h
      have hbraces := endBraces_pos count rest.isEmpty
      have htext := eventText_length count event rest.isEmpty
      have hend : length + (eventText count event rest.isEmpty).length < size := by
        have hfits := h.1
        rw [eventFits] at hfits
        simp only [Bool.and_eq_true, decide_eq_true_eq] at hfits
        omega
      have hrest := ih hend h.2
      rw [eventsText, List.length_append]
      omega

/-- The document is put into the buffer when there is room for it, and otherwise it fails; it does
not leave the buffer unless it overruns it. -/
theorem eventDocument_puts (hsize : size < 2 ^ 31)
    (hover : documentOverruns size token events = false) :
    Puts size ⟨[], size⟩ (documentFits size token events = true) (documentText token events)
      (eventDocument size token events) := by
  have hopenPos := openText_pos token events.length
  rw [documentOverruns, Bool.and_eq_false_iff] at hover
  have hputs : Puts size ⟨[], size⟩
      ((initText (eventMethod events.length) token).length < size ∧
        (initText (eventMethod events.length) token).length + 1 < size ∧
        (openText token events.length).length + 1 < size ∧
        eventsFit size events.length (openText token events.length).length events = true ∧
        (documentText token events).length < size)
      (documentText token events) (eventDocument size token events) := by
    apply (init_puts _ _ hsize).andThen
    intro buffer₁ htext₁ _
    rw [← htext₁]
    apply Puts.guard
    intro hroom₁
    have hopen := openEvents_puts events.length hroom₁ hsize
    dsimp only at hopen
    rw [← List.length_append, htext₁, ← openText] at hopen
    apply hopen.andThen
    intro buffer₂ htext₂ hroom₂
    rw [← htext₂] at hover hroom₂ hopenPos ⊢
    have hsmall := hover.resolve_left (by simpa using hroom₂)
    apply (putEvents_puts hsize events buffer₂ (by omega) (Nat.le_refl _) (Nat.sub_le _ _)
      (fun _ => rfl) hsmall).andThen
    intro buffer₃ htext₃ hfits
    have hlength₃ : buffer₂.text.length ≤ buffer₃.text.length := by
      rw [htext₃, List.length_append]
      omega
    have hroom₃ := eventsFit_length (show buffer₂.text.length < size by omega) hfits
    rw [← List.length_append, ← htext₃] at hroom₃
    rw [documentText_eq, ← htext₂, ← htext₃]
    exact closeEvents_puts (by omega) hroom₃ hsize
  apply hputs.congr
  have hlength : (openText token events.length).length + 1 ≤
      (documentText token events).length := by
    rw [documentText_eq, closeText_length (by rw [List.length_append]; omega), List.length_append]
    split_ifs <;> omega
  have hinit : (initText (eventMethod events.length) token).length ≤
      (openText token events.length).length := by
    rw [openText, List.length_append]
    exact Nat.le_add_right _ _
  rw [documentFits, Bool.and_eq_true, decide_eq_true_eq]
  constructor
  · rintro ⟨hfits, hroom⟩
    exact ⟨by omega, by omega, by omega, hfits, hroom⟩
  · rintro ⟨-, -, -, hfits, hroom⟩
    exact ⟨hfits, hroom⟩

/-- A document that overruns the buffer fails. -/
theorem eventDocument_overruns (hsize : size < 2 ^ 31)
    (hover : documentOverruns size token events = true) :
    Overran size (eventDocument size token events) := by
  rw [documentOverruns, Bool.and_eq_true, decide_eq_true_eq] at hover
  obtain ⟨hroom, hover⟩ := hover
  have hinit : (openText token events.length).length =
      (initText (eventMethod events.length) token).length +
        (if 1 < events.length then ascii "\"events\":[\x7b" else []).length := by
    rw [openText, List.length_append]
  obtain ⟨hcode₁, htext₁⟩ := (init_puts (eventMethod events.length) token hsize).done (by omega)
  rw [eventDocument, andThen_success hcode₁]
  generalize (print ⟨[], size⟩ 0 size (initText (eventMethod events.length) token)).2 = buffer₁
    at htext₁ ⊢
  have hroom₁ : buffer₁.text.length + 1 < size := by
    rw [htext₁]
    omega
  have hopen := openEvents_puts events.length hroom₁ hsize
  dsimp only at hopen
  rw [htext₁, ← hinit, ← openText] at hopen
  obtain ⟨hcode₂, htext₂⟩ := hopen.done hroom
  rw [if_neg (by omega), andThen_success hcode₂]
  generalize (openEvents size events.length buffer₁).2 = buffer₂ at htext₂ ⊢
  rw [← htext₂] at hover hroom
  apply Overran.andThen
  exact putEvents_overruns hsize events buffer₂ (by omega) (Nat.le_refl _) (Nat.sub_le _ _)
    (fun h => absurd h Bool.false_ne_true) (by omega) hover

/-- The reply is put into the buffer when there is room for it, and otherwise it fails. -/
theorem replyDocument_puts (code : Int32) (statusMsg : CString) (output : Option (List Item))
    (hsize : size < 2 ^ 31) :
    Puts size ⟨[], size⟩
      (output.isSome = true ∧ replyFits size token code statusMsg (itemsOf output) = true)
      (replyText token code statusMsg (itemsOf output))
      (replyDocument size token code statusMsg output) := by
  have hclose : (ascii "\x7d").length = 1 := by decide
  have hsplit : ascii "\x7d\x7d" = ascii "\x7d" ++ ascii "\x7d" := by decide
  have hend : (ascii "\", \"response\":\x7b").length = 15 := by decide
  have hpos : 0 < (replyOpen token code statusMsg).length := by
    rw [replyOpen, List.length_append, replyHead, List.length_append, hend]
    omega
  have hlength : (replyText token code statusMsg (itemsOf output)).length =
      (replyOpen token code statusMsg).length + (itemTexts (itemsOf output)).length + 1 := by
    rw [replyText, hsplit, List.length_append, List.length_append, List.length_dropLast,
      List.length_append, hclose]
    omega
  have hputs : Puts size ⟨[], size⟩
      ((initText (ascii "action_reply") token).length < size ∧
        (initText (ascii "action_reply") token).length + 1 < size ∧
        (replyOpen token code statusMsg).length < size ∧
        (replyOpen token code statusMsg).length + 1 < size ∧
        (output.isSome = true ∧ itemsFit (size - (replyOpen token code statusMsg).length)
          (replyOpen token code statusMsg).length (itemsOf output) = true) ∧
        (replyOpen token code statusMsg).length + (itemTexts (itemsOf output)).length + 1 < size ∧
        (replyOpen token code statusMsg).length + (itemTexts (itemsOf output)).length + 1 < size ∧
        (replyText token code statusMsg (itemsOf output)).length < size)
      (replyText token code statusMsg (itemsOf output))
      (replyDocument size token code statusMsg output) := by
    apply (init_puts _ _ hsize).andThen
    intro buffer₁ htext₁ _
    rw [← htext₁]
    apply Puts.guard
    intro hroom₁
    have hhead := append_puts (replyHead code statusMsg)
      (show buffer₁.text.length < size by omega) hsize
    have hopen : buffer₁.text ++ replyHead code statusMsg = replyOpen token code statusMsg := by
      rw [htext₁, replyOpen]
    rw [← List.length_append, hopen] at hhead
    apply hhead.andThen
    intro buffer₂ htext₂ _
    rw [← htext₂] at hpos hlength ⊢
    apply Puts.guard
    intro hroom₂
    have hdata := putData_puts output (show size - buffer₂.text.length < 2 ^ 31 by omega) buffer₂
    apply (hdata.mono (Nat.sub_le _ _)).andThen
    intro buffer₃ htext₃ _
    rw [← List.length_append, ← htext₃]
    apply Puts.guard
    intro hroom₃
    have hlength₃ : buffer₂.text.length ≤ buffer₃.text.length := by
      rw [htext₃, List.length_append]
      omega
    have hlast := replaceLast_puts (ascii "\x7d") (show 0 < buffer₃.text.length by omega)
      (by omega) hsize
    rw [hclose] at hlast
    apply hlast.andThen
    intro buffer₄ htext₄ _
    have hfinish := finishJson_puts buffer₄ hsize
    have htext : buffer₄.text ++ ascii "\x7d" = replyText token code statusMsg
        (itemsOf output) := by
      rw [htext₄, htext₃, htext₂, replyText, hsplit, List.append_assoc]
    rw [htext] at hfinish
    apply hfinish.congr
    rw [← htext, List.length_append, hclose]
  apply hputs.congr
  have hinit : (initText (ascii "action_reply") token).length ≤
      (replyOpen token code statusMsg).length := by
    rw [replyOpen, List.length_append]
    exact Nat.le_add_right _ _
  rw [replyFits]
  simp only [Bool.and_eq_true, decide_eq_true_eq]
  constructor
  · rintro ⟨hsome, ⟨hroom, hfits⟩, hend⟩
    exact ⟨by omega, by omega, by omega, hroom, ⟨hsome, hfits⟩, by omega, by omega, hend⟩
  · rintro ⟨-, -, -, hroom, ⟨hsome, hfits⟩, -, -, hend⟩
    exact ⟨hsome, ⟨hroom, hfits⟩, hend⟩

/-- A size that is negative as an int is taken for no room. -/
theorem init_large (hlarge : 2 ^ 31 ≤ size) (hsize : size < 2 ^ 32) (out : List UInt8) :
    print ⟨[], size⟩ 0 size out = (.bufferTruncated, ⟨[], size⟩) := by
  have hbmod : (size : ℤ).bmod (2 ^ 32) < 0 := by
    have hshift : (size : ℤ).bmod (2 ^ 32) = (size : ℤ) - (2 ^ 32 : ℕ) := by
      rw [Int.bmod_def, Int.emod_eq_of_lt (by omega) (by omega), if_neg (by omega)]
    omega
  have hreturn : halSnprintf ⟨[], size⟩ 0 size out = (-1, ⟨[], size⟩) := by
    unfold halSnprintf
    exact if_pos hbmod
  have hmod : ((-1 : ℤ) % 2 ^ 64).toNat = 2 ^ 64 - 1 := rfl
  rw [print, hreturn]
  dsimp only
  rw [checkSnprintfReturn, hmod, if_pos (by omega)]

theorem eventDocument_large (hlarge : 2 ^ 31 ≤ size) (hsize : size < 2 ^ 32) :
    eventDocument size token events = (.bufferTruncated, ⟨[], size⟩) := by
  rw [eventDocument, init_large hlarge hsize]
  rfl

theorem replyDocument_large {code : Int32} {statusMsg : CString} {output : Option (List Item)}
    (hlarge : 2 ^ 31 ≤ size) (hsize : size < 2 ^ 32) :
    replyDocument size token code statusMsg output = (.bufferTruncated, ⟨[], size⟩) := by
  rw [replyDocument, init_large hlarge hsize]
  rfl

end Documents

end IotExplorer.EventDocuments
