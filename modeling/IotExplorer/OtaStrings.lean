import IotExplorer.Basis.Ownership
import IotExplorer.OtaRuns

/-!
The strings of the OTA handle on the heap. A lookup of a message puts its value in a
fresh block and its address straight into the handle, over what was there; the md5sum is
copied over an older one. Without the addresses, the handle is that of the OTA client.
-/
namespace IotExplorer.OtaStrings

open Basis.Runs Basis.Ownership JsonParser JsonLookup TemplateJson DeviceProperty HttpClient
open OtaClient OtaRuns

section Blocks

structure Block where
  address : ℕ
  text : List UInt8
  deriving DecidableEq, Repr

/-- `HAL_Free` behind the test of a pointer. -/
def release (pointer : Option Block) (heap : Heap) : Heap :=
  match pointer with
  | none => heap
  | some block => heap.free block.address

/-- What a handle keeps of an update message. -/
structure Fields where
  purl : Option Block
  version : Option Block
  md5sum : List UInt8
  sizeFile : ℕ
  usrDefinedInfo : Option Block
  deriving DecidableEq, Repr

def Fields.params (fields : Fields) : Params where
  purl := fields.purl.map Block.text
  version := fields.version.map Block.text
  md5sum := fields.md5sum
  sizeFile := fields.sizeFile
  usrDefinedInfo := fields.usrDefinedInfo.map Block.text

def addresses (pointer : Option Block) : List ℕ := (pointer.map Block.address).toList

def Fields.owners (fields : Fields) : List ℕ :=
  addresses fields.purl ++ (addresses fields.version ++ addresses fields.usrDefinedInfo)

/-- What the lookups of a message work on: the pointer to the type, the fields of the handle, and
the heap. -/
structure Call where
  jsonType : Option Block
  fields : Fields
  heap : Heap

def Call.owners (call : Call) : List ℕ := addresses call.jsonType ++ call.fields.owners

end Blocks

section Lookups
variable (alloc : List UInt8 → Bool) (doc : Ptr)

/-- `_qcloud_otalib_get_firmware_varlen_para`: what the pointer holds afterwards, and the heap. -/
def getVarlen (key : List UInt8) (dest : Option Block) (heap : Heap) :
    Except Overrun (Bool × Option Block × Heap) :=
  if alloc key then
    (liteJsonValueOf key doc).map fun value =>
      match value with
      | none => (false, none, heap)
      | some text => (true, some ⟨heap.next, text⟩, heap.alloc)
  else .ok (false, dest, heap)

def getType (call : Call) : Except Overrun (Bool × Call) :=
  (getVarlen alloc doc (ascii "type") call.jsonType call.heap).map fun found =>
    (found.1, { call with jsonType := found.2.1, heap := found.2.2 })

def getVersion (call : Call) : Except Overrun (Bool × Call) :=
  (getVarlen alloc doc (ascii "version") call.fields.version call.heap).map fun found =>
    (found.1, { call with fields.version := found.2.1, heap := found.2.2 })

def getUrl (call : Call) : Except Overrun (Bool × Call) :=
  (getVarlen alloc doc (ascii "url") call.fields.purl call.heap).map fun found =>
    (found.1, { call with fields.purl := found.2.1, heap := found.2.2 })

def getMd5 (call : Call) : Except Overrun (Bool × Call) :=
  (getFirmwareFixlenPara alloc doc (ascii "md5sum") call.fields.md5sum 32).map fun found =>
    (found.1, { call with fields.md5sum := found.2 })

def getSize (call : Call) : Except Overrun (Bool × Call) :=
  (getFirmwareFixlenPara alloc doc (ascii "file_size") [] 16).map fun found =>
    (found.1,
      if found.1 then { call with fields.sizeFile := (atoi found.2 % 2 ^ 32).toNat } else call)

def getUser (call : Call) : Except Overrun (Bool × Call) :=
  (getVarlen alloc doc (ascii "user_defined") call.fields.usrDefinedInfo call.heap).map fun found =>
    (found.1, { call with fields.usrDefinedInfo := found.2.1, heap := found.2.2 })

end Lookups

/-- Lookups one after another, up to the first that fails. -/
def inOrder {S : Type*} :
    List (S → Except Overrun (Bool × S)) → S → Except Overrun (Bool × S)
  | [], s => .ok (true, s)
  | f :: fs, s =>
      match f s with
      | .error e => .error e
      | .ok (false, s) => .ok (false, s)
      | .ok (true, s) => inOrder fs s

/-- `qcloud_otalib_get_params`. -/
def getParams (alloc : List UInt8 → Bool) (doc : Ptr) : Call → Except Overrun (Bool × Call) :=
  inOrder [getType alloc doc, getVersion alloc doc, getUrl alloc doc, getMd5 alloc doc,
    getSize alloc doc, getUser alloc doc]

section Holders

/-- `OTA_Struct_t` with its strings on the heap. -/
structure Holder where
  state : OtaState
  sizeFetched : ℕ
  fields : Fields
  md5 : Option (List UInt8)
  chFetch : Bool
  heap : Heap

def Holder.handle (holder : Holder) : Handle :=
  ⟨holder.state, holder.sizeFetched, holder.fields.params, holder.md5, holder.chFetch⟩

/-- `IOT_OTA_Init`. -/
def init : Holder :=
  ⟨.inited, 0, ⟨none, none, List.replicate 33 0, 0, none⟩, some [], false, Heap.empty⟩

def otaCallback (msgLen : ℕ) (alloc : List UInt8 → Bool) (text : CString) (holder : Holder) :
    Holder :=
  let doc := text.val ++ [0]
  if holder.state = .fetching ∨ holder.state = .fetched ∨ holder.state = .disconnected then holder
  else if msgLen = 0 then holder
  else
    match getVarlen alloc doc (ascii "type") none holder.heap with
    | .error _ => holder
    | .ok (_, none, _) => holder
    | .ok (_, some jsonType, heap) =>
        if jsonType.text = ascii "report_version_rsp" then
          match getReportVersionResult alloc doc with
          | .error _ => holder
          | .ok right =>
              { holder with
                state := if right then holder.state else .fetched
                heap := release (some jsonType) heap }
        else if jsonType.text ≠ ascii "update_firmware" then
          { holder with heap := release (some jsonType) heap }
        else
          match getParams alloc doc ⟨none, holder.fields, release (some jsonType) heap⟩ with
          | .error _ => holder
          | .ok (found, call) =>
              { holder with
                state := if found then .fetching else holder.state
                fields := call.fields
                heap := release call.jsonType call.heap }

/-- `IOT_OTA_ResetStatus` on the strings. -/
def resetStrings (holder : Holder) : Holder :=
  { holder with
    fields.purl := none
    fields.version := none
    heap := release holder.fields.version (release holder.fields.purl holder.heap) }

/-- A step of a handle. Of the calls of the application only a reset touches the strings. -/
def step (md5 : Md5) (s : Step) (holder : Holder) : Holder × List Event :=
  let next := OtaClient.step md5 s holder.handle
  match s with
  | .message msgLen alloc text => (otaCallback msgLen alloc text holder, next.2)
  | _ =>
      let holder := if Event.reset ∈ next.2 then resetStrings holder else holder
      ({ holder with
        state := next.1.state
        sizeFetched := next.1.sizeFetched
        md5 := next.1.md5
        chFetch := next.1.chFetch }, next.2)

end Holders

section Refinement
variable {alloc : List UInt8 → Bool} {doc : Ptr}

theorem inOrder_cons_ok {S : Type*} {f : S → Except Overrun (Bool × S)}
    {fs : List (S → Except Overrun (Bool × S))} {s s' : S} {b : Bool} :
    inOrder (f :: fs) s = .ok (b, s') ↔
      (f s = .ok (false, s') ∧ b = false) ∨
        ∃ t, f s = .ok (true, t) ∧ inOrder fs t = .ok (b, s') := by
  rw [inOrder]
  cases f s with
  | error e => simp
  | ok result =>
    obtain ⟨_ | _, t⟩ := result
    · simp [and_comm, eq_comm]
    · simp

/-- Lookups that agree one by one agree in order. -/
theorem inOrder_map {fs : List (Call → Except Overrun (Bool × Call))}
    {gs : List (Params → Except Overrun (Bool × Params))}
    (h : List.Forall₂ (fun f g => ∀ call,
      (f call).map (fun found => (found.1, found.2.fields.params)) =
      g call.fields.params) fs gs) (call : Call) :
    (inOrder fs call).map (fun found => (found.1, found.2.fields.params)) =
      getFields gs call.fields.params := by
  induction h generalizing call with
  | nil => rfl
  | @cons f g fs gs hfg _ ih =>
    rw [inOrder, getFields, ← hfg call]
    cases f call with
    | error e => rfl
    | ok found =>
      obtain ⟨_ | _, after⟩ := found
      · rfl
      · exact ih after

theorem getVarlen_texts (key : List UInt8) (dest : Option Block) (heap : Heap) :
    (getVarlen alloc doc key dest heap).map (fun found => (found.1, found.2.1.map Block.text)) =
      getFirmwareVarlenPara alloc doc key (dest.map Block.text) := by
  unfold getVarlen getFirmwareVarlenPara
  split
  · rcases liteJsonValueOf key doc with _ | _ | value <;> rfl
  · rfl

/-- The texts are those of `OtaClient.getParams`. -/
theorem getParams_texts (alloc : List UInt8 → Bool) (doc : Ptr) (call : Call) :
    (getParams alloc doc call).map (fun found => (found.1, found.2.fields.params)) =
      OtaClient.getParams alloc doc call.fields.params := by
  refine inOrder_map (.cons ?_ (.cons ?_ (.cons ?_ (.cons ?_ (.cons ?_ (.cons ?_ .nil)))))) call
  · intro call
    unfold getType typeField getVarlen getFirmwareVarlenPara
    split
    · rcases liteJsonValueOf (ascii "type") doc with _ | _ | value <;> rfl
    · rfl
  · intro call
    unfold getVersion versionField
    rw [show call.fields.params.version = call.fields.version.map Block.text from rfl,
      ← getVarlen_texts _ _ call.heap]
    cases getVarlen alloc doc (ascii "version") call.fields.version call.heap <;> rfl
  · intro call
    unfold getUrl urlField
    rw [show call.fields.params.purl = call.fields.purl.map Block.text from rfl,
      ← getVarlen_texts _ _ call.heap]
    cases getVarlen alloc doc (ascii "url") call.fields.purl call.heap <;> rfl
  · intro call
    unfold getMd5 md5Field
    rw [show call.fields.params.md5sum = call.fields.md5sum from rfl]
    cases getFirmwareFixlenPara alloc doc (ascii "md5sum") call.fields.md5sum 32 <;> rfl
  · intro call
    unfold getSize sizeField
    rcases getFirmwareFixlenPara alloc doc (ascii "file_size") [] 16 with _ | ⟨_ | _, size⟩ <;> rfl
  · intro call
    unfold getUser userField
    rw [show call.fields.params.usrDefinedInfo = call.fields.usrDefinedInfo.map Block.text from rfl,
      ← getVarlen_texts _ _ call.heap]
    cases getVarlen alloc doc (ascii "user_defined") call.fields.usrDefinedInfo call.heap <;> rfl

/-- What a handle does with a message, without the addresses. -/
theorem otaCallback_handle (msgLen : ℕ) (alloc : List UInt8 → Bool) (text : CString)
    (holder : Holder) : (otaCallback msgLen alloc text holder).handle =
      (OtaClient.otaCallback msgLen alloc text holder.handle).1 := by
  unfold otaCallback OtaClient.otaCallback
  dsimp only
  rw [show holder.handle.state = holder.state from rfl]
  split_ifs with hbusy hlen
  · rfl
  · rfl
  · rw [show (none : Option (List UInt8)) = (none : Option Block).map Block.text from rfl,
      ← getVarlen_texts (ascii "type") none holder.heap]
    rcases getVarlen alloc (text.val ++ [0]) (ascii "type") none holder.heap with
      e | ⟨b, _ | jsonType, heap⟩
    · rfl
    · rfl
    · dsimp only [Except.map, Option.map_some]
      split_ifs
      · rcases getReportVersionResult alloc (text.val ++ [0]) with e | _ | _ <;> rfl
      · rfl
      · rw [show holder.handle.params = (Call.mk none holder.fields
          (release (some jsonType) heap)).fields.params from rfl, ← getParams_texts]
        rcases getParams alloc (text.val ++ [0]) ⟨none, holder.fields, release (some jsonType) heap⟩
          with e | ⟨_ | _, call⟩ <;> rfl

/-- A call of the application changes the parameters only by a reset. -/
theorem step_params {md5 : Md5} {s : Step} {handle : Handle}
    (hs : ∀ msgLen alloc text, s ≠ .message msgLen alloc text) :
    (OtaClient.step md5 s handle).1.params =
      if Event.reset ∈ (OtaClient.step md5 s handle).2 then
        { handle.params with purl := none, version := none } else handle.params := by
  cases s with
  | message msgLen alloc text => exact absurd rfl (hs msgLen alloc text)
  | reportVersion version =>
    rw [OtaClient.step]
    rcases reportVersion_cases version handle with h | h <;> rw [h]
    · rfl
    · rfl
  | reportUpgradeResult version reportType sent =>
    rw [OtaClient.step]
    rcases reportUpgradeResult_cases version reportType sent handle with h | h <;> rw [h]
    · rfl
    · rfl
  | startDownload stored alloc opened =>
    rw [OtaClient.step, if_neg List.not_mem_nil]
    unfold startDownload
    split_ifs <;> rfl
  | resetClientMd5 alloc => rfl
  | updateClientMd5 bytes =>
    rw [OtaClient.step]
    unfold md5Update
    cases handle.md5 <;> rfl
  | fetchYield result =>
    rw [OtaClient.step]
    rcases fetchYield_cases result handle with ⟨_, h⟩ | ⟨bytes, -, -, -, ⟨_, h⟩ |
      ⟨_, md5, events, -, rfl | rfl, h⟩⟩ <;> rw [h]
    · rfl
    · rfl
    · rfl
    · rfl
  | checkFirmware wellPlaced sent =>
    rw [OtaClient.step]
    rcases checkFirmware_cases md5 wellPlaced sent handle with ⟨_, h⟩ | ⟨-, -, ⟨_, h⟩ |
      ⟨fed, -, ⟨_, h⟩ | ⟨_, h | h⟩⟩⟩ <;> rw [h]
    · rfl
    · rfl
    · rfl
    · rfl
    · rfl

/-- A call of the application. -/
theorem step_call {md5 : Md5} {s : Step} {holder : Holder}
    (hs : ∀ msgLen alloc text, s ≠ .message msgLen alloc text) :
    (step md5 s holder).1.fields = (if Event.reset ∈ (OtaClient.step md5 s holder.handle).2 then
        resetStrings holder else holder).fields ∧
      (step md5 s holder).1.heap = (if Event.reset ∈ (OtaClient.step md5 s holder.handle).2 then
        resetStrings holder else holder).heap ∧
      (step md5 s holder).1.handle = { (OtaClient.step md5 s holder.handle).1 with
        params := (step md5 s holder).1.fields.params } ∧
      (step md5 s holder).2 = (OtaClient.step md5 s holder.handle).2 := by
  cases s with
  | message msgLen alloc text => exact absurd rfl (hs msgLen alloc text)
  | _ => exact ⟨rfl, rfl, rfl, rfl⟩

/-- A step of a handle is one of the client without addresses. -/
theorem step_handle (md5 : Md5) (s : Step) (holder : Holder) :
    ((step md5 s holder).1.handle, (step md5 s holder).2) = OtaClient.step md5 s holder.handle := by
  by_cases hs : ∃ msgLen alloc text, s = .message msgLen alloc text
  · obtain ⟨msgLen, alloc, text, rfl⟩ := hs
    exact Prod.ext (otaCallback_handle msgLen alloc text holder) rfl
  · have hs : ∀ msgLen alloc text, s ≠ .message msgLen alloc text :=
      fun msgLen alloc text h => hs ⟨msgLen, alloc, text, h⟩
    obtain ⟨hfields, -, hhandle, hevents⟩ := @step_call md5 s holder hs
    have hparams : (step md5 s holder).1.fields.params =
        (OtaClient.step md5 s holder.handle).1.params := by
      rw [hfields, step_params hs]
      split_ifs <;> rfl
    refine Prod.ext ?_ hevents
    rw [hhandle, hparams]

end Refinement

section Heaps

def Carries (alloc : List UInt8 → Bool) (doc : Ptr) (key value : List UInt8) : Prop :=
  alloc key = true ∧ liteJsonValueOf key doc = .ok (some value)

variable {alloc : List UInt8 → Bool} {doc : Ptr} {call after : Call} {found : Bool}

/-- What a lookup can do to a pointer. -/
theorem getVarlen_cases {key : List UInt8} {dest dest' : Option Block} {heap heap' : Heap}
    (h : getVarlen alloc doc key dest heap = .ok (found, dest', heap')) :
    (found = false ∧ alloc key = false ∧ dest' = dest ∧ heap' = heap) ∨
      (found = false ∧ liteJsonValueOf key doc = .ok none ∧ dest' = none ∧ heap' = heap) ∨
      ∃ text, found = true ∧ Carries alloc doc key text ∧ dest' = some ⟨heap.next, text⟩ ∧
        heap' = heap.alloc := by
  unfold getVarlen at h
  cases halloc : alloc key with
  | false =>
    rw [halloc, if_neg Bool.false_ne_true] at h
    cases h
    exact .inl ⟨rfl, rfl, rfl, rfl⟩
  | true =>
    rw [halloc, if_pos rfl] at h
    right
    cases hvalue : liteJsonValueOf key doc with
    | error e =>
      rw [hvalue] at h
      cases h
    | ok value =>
      rw [hvalue] at h
      cases value with
      | none =>
        cases h
        exact .inl ⟨rfl, rfl, rfl, rfl⟩
      | some text =>
        cases h
        exact .inr ⟨text, rfl, ⟨halloc, hvalue⟩, rfl, rfl⟩

/-- A value that is carried is put on the heap. -/
theorem getVarlen_carries {key text : List UInt8} (h : Carries alloc doc key text)
    (dest : Option Block) (heap : Heap) :
    getVarlen alloc doc key dest heap = .ok (true, some ⟨heap.next, text⟩, heap.alloc) := by
  unfold getVarlen
  rw [h.1, h.2, if_pos rfl]
  rfl

/-- What a lookup can do to a buffer. -/
theorem getFixlen_cases {key dest dest' : List UInt8} {n : ℕ}
    (h : getFirmwareFixlenPara alloc doc key dest n = .ok (found, dest')) :
    (found = false ∧ dest' = dest) ∨ ∃ value, found = true ∧ Carries alloc doc key value ∧
      value.length ≤ n ∧ dest' = value ++ dest.drop value.length := by
  unfold getFirmwareFixlenPara at h
  cases halloc : alloc key with
  | false =>
    rw [halloc, if_neg Bool.false_ne_true] at h
    cases h
    exact .inl ⟨rfl, rfl⟩
  | true =>
    rw [halloc, if_pos rfl] at h
    cases hvalue : liteJsonValueOf key doc with
    | error e =>
      rw [hvalue] at h
      cases h
    | ok value =>
      rw [hvalue] at h
      cases value with
      | none =>
        cases h
        exact .inl ⟨rfl, rfl⟩
      | some value =>
        simp only [Except.map] at h
        split_ifs at h with hlong
        · cases h
          exact .inl ⟨rfl, rfl⟩
        · cases h
          exact .inr ⟨value, rfl, ⟨halloc, hvalue⟩, Nat.le_of_not_lt hlong, rfl⟩

theorem getFixlen_carries {key value : List UInt8} {n : ℕ} (h : Carries alloc doc key value)
    (hlen : value.length ≤ n) (dest : List UInt8) :
    getFirmwareFixlenPara alloc doc key dest n = .ok (true, value ++ dest.drop value.length) := by
  unfold getFirmwareFixlenPara
  rw [h.1, h.2, if_pos rfl]
  simp only [Except.map]
  rw [if_neg (Nat.not_lt.mpr hlen)]

theorem keepsVersion_url (h : getUrl alloc doc call = .ok (found, after)) :
    after.fields.version = call.fields.version := by
  obtain ⟨_, -, heq⟩ := map_ok h
  injection heq with _ heq
  rw [← heq]

theorem keepsVersion_md5 (h : getMd5 alloc doc call = .ok (found, after)) :
    after.fields.version = call.fields.version := by
  obtain ⟨_, -, heq⟩ := map_ok h
  injection heq with _ heq
  rw [← heq]

theorem keepsVersion_size (h : getSize alloc doc call = .ok (found, after)) :
    after.fields.version = call.fields.version := by
  obtain ⟨_, -, heq⟩ := map_ok h
  injection heq with _ heq
  rw [← heq]
  split_ifs <;> rfl

theorem keepsVersion_user (h : getUser alloc doc call = .ok (found, after)) :
    after.fields.version = call.fields.version := by
  obtain ⟨_, -, heq⟩ := map_ok h
  injection heq with _ heq
  rw [← heq]

/-- The lookups behind that of the version keep it, if one of them fails. -/
theorem version_kept (h : inOrder [getUrl alloc doc, getMd5 alloc doc, getSize alloc doc,
    getUser alloc doc] call = .ok (found, after)) : after.fields.version = call.fields.version := by
  rcases inOrder_cons_ok.mp h with ⟨hurl, -⟩ | ⟨call1, hurl, h⟩
  · exact keepsVersion_url hurl
  rcases inOrder_cons_ok.mp h with ⟨hmd5, -⟩ | ⟨call2, hmd5, h⟩
  · exact (keepsVersion_md5 hmd5).trans (keepsVersion_url hurl)
  rcases inOrder_cons_ok.mp h with ⟨hsize, -⟩ | ⟨call3, hsize, h⟩
  · exact (keepsVersion_size hsize).trans ((keepsVersion_md5 hmd5).trans (keepsVersion_url hurl))
  rcases inOrder_cons_ok.mp h with ⟨huser, -⟩ | ⟨call4, huser, h⟩
  all_goals
    have hkept := (keepsVersion_user huser).trans ((keepsVersion_size hsize).trans
      ((keepsVersion_md5 hmd5).trans (keepsVersion_url hurl)))
  · exact hkept
  · cases h
    exact hkept

theorem carries_of_varlen {key : List UInt8} {dest dest' : Option Block} {heap heap' : Heap}
    (h : getVarlen alloc doc key dest heap = .ok (true, dest', heap')) :
    ∃ text, Carries alloc doc key text := by
  rcases getVarlen_cases h with ⟨hfalse, -⟩ | ⟨hfalse, -⟩ | ⟨text, -, htext, -⟩
  · cases hfalse
  · cases hfalse
  · exact ⟨text, htext⟩

theorem carries_of_fixlen {key dest dest' : List UInt8} {n : ℕ}
    (h : getFirmwareFixlenPara alloc doc key dest n = .ok (true, dest')) :
    ∃ value, Carries alloc doc key value ∧ value.length ≤ n := by
  rcases getFixlen_cases h with ⟨hfalse, -⟩ | ⟨value, -, hvalue, hlen, -⟩
  · cases hfalse
  · exact ⟨value, hvalue, hlen⟩

theorem carries_of_url (h : getUrl alloc doc call = .ok (true, after)) :
    ∃ text, Carries alloc doc (ascii "url") text := by
  obtain ⟨⟨_, _, _⟩, hget, heq⟩ := map_ok h
  cases heq
  exact carries_of_varlen hget

theorem carries_of_md5 (h : getMd5 alloc doc call = .ok (true, after)) :
    ∃ text, Carries alloc doc (ascii "md5sum") text ∧ text.length ≤ 32 := by
  obtain ⟨⟨_, _⟩, hget, heq⟩ := map_ok h
  cases heq
  exact carries_of_fixlen hget

theorem carries_of_size (h : getSize alloc doc call = .ok (true, after)) :
    ∃ text, Carries alloc doc (ascii "file_size") text ∧ text.length ≤ 16 := by
  obtain ⟨⟨_, _⟩, hget, heq⟩ := map_ok h
  cases heq
  exact carries_of_fixlen hget

theorem carries_of_user (h : getUser alloc doc call = .ok (true, after)) :
    ∃ text, Carries alloc doc (ascii "user_defined") text := by
  obtain ⟨⟨_, _, _⟩, hget, heq⟩ := map_ok h
  cases heq
  exact carries_of_varlen hget

structure Values where
  type : List UInt8
  version : List UInt8
  url : List UInt8
  md5 : List UInt8
  size : List UInt8
  user : List UInt8

structure CarriesAll (alloc : List UInt8 → Bool) (doc : Ptr) (values : Values) : Prop where
  type : Carries alloc doc (ascii "type") values.type
  version : Carries alloc doc (ascii "version") values.version
  url : Carries alloc doc (ascii "url") values.url
  md5 : Carries alloc doc (ascii "md5sum") values.md5
  size : Carries alloc doc (ascii "file_size") values.size
  user : Carries alloc doc (ascii "user_defined") values.user
  md5Fits : values.md5.length ≤ 32
  sizeFits : values.size.length ≤ 16

/-- What a complete message makes of a call. -/
def taken (values : Values) (call : Call) : Call where
  jsonType := some ⟨call.heap.next, values.type⟩
  fields :=
    { purl := some ⟨call.heap.next + 2, values.url⟩
      version := some ⟨call.heap.next + 1, values.version⟩
      md5sum := values.md5 ++ call.fields.md5sum.drop values.md5.length
      sizeFile := (atoi values.size % 2 ^ 32).toNat
      usrDefinedInfo := some ⟨call.heap.next + 3, values.user⟩ }
  heap := call.heap.alloc.alloc.alloc.alloc

theorem getParams_all {values : Values} (h : CarriesAll alloc doc values) (call : Call) :
    getParams alloc doc call = .ok (true, taken values call) := by
  unfold getParams
  refine inOrder_cons_ok.mpr (.inr ⟨_, by
    rw [getType, getVarlen_carries h.type]; rfl, ?_⟩)
  refine inOrder_cons_ok.mpr (.inr ⟨_, by
    rw [getVersion, getVarlen_carries h.version]; rfl, ?_⟩)
  refine inOrder_cons_ok.mpr (.inr ⟨_, by
    rw [getUrl, getVarlen_carries h.url]; rfl, ?_⟩)
  refine inOrder_cons_ok.mpr (.inr ⟨_, by
    rw [getMd5, getFixlen_carries h.md5 h.md5Fits]; rfl, ?_⟩)
  refine inOrder_cons_ok.mpr (.inr ⟨_, by
    rw [getSize, getFixlen_carries h.size h.sizeFits]; rfl, ?_⟩)
  refine inOrder_cons_ok.mpr (.inr ⟨_, by
    rw [getUser, getVarlen_carries h.user]; rfl, ?_⟩)
  rw [List.drop_nil, List.append_nil]
  rfl

/-- What the lookups of an update message can do. -/
theorem getParams_cases {type : List UInt8} (htype : Carries alloc doc (ascii "type") type)
    (h : getParams alloc doc call = .ok (found, after)) :
    (found = false ∧ alloc (ascii "version") = false ∧ after = { call with
        jsonType := some ⟨call.heap.next, type⟩, heap := call.heap.alloc }) ∨
      (found = false ∧ liteJsonValueOf (ascii "version") doc = .ok none ∧ after = { call with
        jsonType := some ⟨call.heap.next, type⟩
        fields.version := none
        heap := call.heap.alloc }) ∨
      (found = false ∧ ∃ version, after.fields.version = some ⟨call.heap.next + 1, version⟩) ∨
      (found = true ∧ ∃ values, CarriesAll alloc doc values ∧ after = taken values call) := by
  have hcall := h
  rcases inOrder_cons_ok.mp h with ⟨hget, -⟩ | ⟨call1, hget, h⟩
  · rw [getType, getVarlen_carries htype] at hget
    cases hget
  rw [getType, getVarlen_carries htype] at hget
  cases hget
  rcases inOrder_cons_ok.mp h with ⟨hget, hfound⟩ | ⟨call2, hget, h⟩
  · obtain ⟨⟨_, version, heap⟩, hversion, heq⟩ := map_ok hget
    cases heq
    rcases getVarlen_cases hversion with ⟨-, halloc, rfl, rfl⟩ | ⟨-, hnone, rfl, rfl⟩ |
      ⟨_, hfalse, -⟩
    · exact .inl ⟨hfound, halloc, rfl⟩
    · exact .inr (.inl ⟨hfound, hnone, rfl⟩)
    · cases hfalse
  obtain ⟨⟨_, version, heap⟩, hversion, heq⟩ := map_ok hget
  cases heq
  rcases getVarlen_cases hversion with ⟨hfalse, -⟩ | ⟨hfalse, -⟩ | ⟨text, -, hcarries, rfl, rfl⟩
  · cases hfalse
  · cases hfalse
  have hkept := version_kept h
  cases found with
  | false => exact .inr (.inr (.inl ⟨rfl, text, hkept⟩))
  | true =>
    rcases inOrder_cons_ok.mp h with ⟨-, hfalse⟩ | ⟨call3, hget, h⟩
    · cases hfalse
    obtain ⟨url, hurl⟩ := carries_of_url hget
    rcases inOrder_cons_ok.mp h with ⟨-, hfalse⟩ | ⟨call4, hget, h⟩
    · cases hfalse
    obtain ⟨md5, hmd5, hmd5Fits⟩ := carries_of_md5 hget
    rcases inOrder_cons_ok.mp h with ⟨-, hfalse⟩ | ⟨call5, hget, h⟩
    · cases hfalse
    obtain ⟨size, hsize, hsizeFits⟩ := carries_of_size hget
    rcases inOrder_cons_ok.mp h with ⟨-, hfalse⟩ | ⟨call6, hget, -⟩
    · cases hfalse
    obtain ⟨user, huser⟩ := carries_of_user hget
    have hall : CarriesAll alloc doc ⟨type, text, url, md5, size, user⟩ :=
      ⟨htype, hcarries, hurl, hmd5, hsize, huser, hmd5Fits, hsizeFits⟩
    rw [getParams_all hall] at hcall
    cases hcall
    exact .inr (.inr (.inr ⟨rfl, _, hall, rfl⟩))

end Heaps

end IotExplorer.OtaStrings
