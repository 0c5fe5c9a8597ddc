import IotExplorer.OtaStrings

/-!
What an update message does to the strings of the OTA handle. It leaves the handle as
it was, or brings its own md5sum and drops no string, exactly if it brings no version
to a handle without one, or is complete and finds the slots that it writes to empty.
-/
namespace IotExplorer.OtaUpdates

open Basis.Runs Basis.Ownership JsonParser JsonLookup TemplateJson DeviceProperty
open HttpClient (cstr)
open OtaClient hiding init step otaCallback getParams
open OtaRuns OtaStrings

section Updates

def Takes (holder : Holder) (msgLen : ℕ) (alloc : List UInt8 → Bool) (text : CString) : Prop :=
  Listens holder.handle msgLen ∧ ∃ b, getFirmwareVarlenPara alloc (text.val ++ [0]) (ascii "type")
    none = .ok (b, some (ascii "update_firmware"))

/-- What is asked of a message: when its parameters cannot be taken, the fields are as before;
when they can, the md5sum is that of the message; and a string that the handle owned is still its
own or freed. -/
def Right (holder : Holder) : Step → Prop
  | .message msgLen alloc text => Takes holder msgLen alloc text → ∃ found params,
      OtaClient.getParams alloc (text.val ++ [0]) holder.handle.params = .ok (found, params) ∧
      (found = false → (otaCallback msgLen alloc text holder).fields = holder.fields) ∧
      (found = true → liteJsonValueOf (ascii "md5sum") (text.val ++ [0]) =
        .ok (some (cstr (otaCallback msgLen alloc text holder).fields.md5sum))) ∧
      ∀ a ∈ holder.fields.owners, a ∈ (otaCallback msgLen alloc text holder).fields.owners ∨
        a ∉ (otaCallback msgLen alloc text holder).heap.live
  | _ => True

/-- A message with all parameters, for a handle without strings and with no longer md5sum. -/
def Fresh (fields : Fields) (alloc : List UInt8 → Bool) (doc : Ptr) : Prop :=
  (fields.version = none ∧ fields.purl = none ∧ fields.usrDefinedInfo = none) ∧
  ∃ version url md5 size user, Carries alloc doc (ascii "version") version ∧
    Carries alloc doc (ascii "url") url ∧ Carries alloc doc (ascii "md5sum") md5 ∧
    Carries alloc doc (ascii "file_size") size ∧ Carries alloc doc (ascii "user_defined") user ∧
    (cstr fields.md5sum).length ≤ md5.length ∧ md5.length ≤ 32 ∧ size.length ≤ 16

/-- A message that the handle takes brings no version, and the handle has none, or the lookup of
the version is out of memory, or the message is complete and finds the handle without strings. -/
def Safe (holder : Holder) : Step → Prop
  | .message msgLen alloc text => Takes holder msgLen alloc text →
      alloc (ascii "version") = false ∨
      (liteJsonValueOf (ascii "version") (text.val ++ [0]) = .ok none ∧
        holder.fields.version = none) ∨
      Fresh holder.fields alloc (text.val ++ [0])
  | _ => True

end Updates

section Invariant
variable {alloc : List UInt8 → Bool} {text : CString} {msgLen : ℕ} {holder : Holder}

/-- Every string on the heap has one owner: the listed ones, or one that was lost. -/
def Held (heap : Heap) (owners : List ℕ) : Prop := ∃ lost, Owned heap (owners ++ lost)

variable {heap heap' : Heap} {others front : List ℕ} {dest dest' : Option Block}

theorem Held.live (h : Held heap others) {a : ℕ} (ha : a ∈ others) : a ∈ heap.live := by
  obtain ⟨lost, howned⟩ := h
  exact howned.mem (List.mem_append_left _ ha)

theorem Held.below (h : Held heap others) {a : ℕ} (ha : a ∈ others) : a < heap.next :=
  heap.below a (h.live ha)

theorem Held.perm (h : Held heap others) {others' : List ℕ} (hp : others'.Perm others) :
    Held heap others' := by
  obtain ⟨lost, howned⟩ := h
  exact ⟨lost, howned.perm (hp.append_right lost)⟩

/-- An owner that is forgotten leaves a lost string. -/
theorem Held.lose (h : Held heap (front ++ others)) : Held heap others := by
  obtain ⟨lost, howned⟩ := h
  refine ⟨front ++ lost, howned.perm ?_⟩
  rw [← List.append_assoc]
  exact List.perm_append_comm.append_right lost

theorem Held.fresh (h : Held heap others) : Held heap.alloc (heap.next :: others) := by
  obtain ⟨lost, howned⟩ := h
  exact ⟨lost, howned.alloc⟩

theorem Held.release {pointer : Option Block} (h : Held heap (addresses pointer ++ others)) :
    Held (release pointer heap) others := by
  cases pointer with
  | none => exact h
  | some block =>
    obtain ⟨lost, howned⟩ := h
    exact ⟨lost, Owned.free howned⟩

/-- A lookup puts another string in the place of a pointer. -/
theorem Held.getVarlen {doc : Ptr} {key : List UInt8} {found : Bool}
    (h : Held heap (addresses dest ++ others))
    (hget : getVarlen alloc doc key dest heap = .ok (found, dest', heap')) :
    Held heap' (addresses dest' ++ others) := by
  rcases getVarlen_cases hget with ⟨-, -, rfl, rfl⟩ | ⟨-, -, rfl, rfl⟩ | ⟨text, -, -, rfl, rfl⟩
  · exact h
  · exact h.lose
  · exact h.lose.fresh

variable {doc : Ptr} {call after : Call} {found : Bool}

theorem Held.getType (h : Held call.heap call.owners)
    (hget : getType alloc doc call = .ok (found, after)) : Held after.heap after.owners := by
  obtain ⟨⟨_, pointer, heap⟩, hvarlen, heq⟩ := map_ok hget
  cases heq
  exact h.getVarlen hvarlen

theorem perm_version (type purl version user : List ℕ) :
    (type ++ (purl ++ (version ++ user))).Perm (version ++ (type ++ (purl ++ user))) := by
  simp only [List.perm_iff_count, List.count_append]
  omega

theorem perm_purl (type purl version user : List ℕ) :
    (type ++ (purl ++ (version ++ user))).Perm (purl ++ (type ++ (version ++ user))) := by
  simp only [List.perm_iff_count, List.count_append]
  omega

theorem perm_user (type purl version user : List ℕ) :
    (type ++ (purl ++ (version ++ user))).Perm (user ++ (type ++ (purl ++ version))) := by
  simp only [List.perm_iff_count, List.count_append]
  omega

theorem Held.getVersion (h : Held call.heap call.owners)
    (hget : getVersion alloc doc call = .ok (found, after)) : Held after.heap after.owners := by
  obtain ⟨⟨_, pointer, heap⟩, hvarlen, heq⟩ := map_ok hget
  cases heq
  exact ((h.perm (perm_version ..).symm).getVarlen hvarlen).perm (perm_version ..)

theorem Held.getUrl (h : Held call.heap call.owners)
    (hget : getUrl alloc doc call = .ok (found, after)) : Held after.heap after.owners := by
  obtain ⟨⟨_, pointer, heap⟩, hvarlen, heq⟩ := map_ok hget
  cases heq
  exact ((h.perm (perm_purl ..).symm).getVarlen hvarlen).perm (perm_purl ..)

theorem Held.getUser (h : Held call.heap call.owners)
    (hget : getUser alloc doc call = .ok (found, after)) : Held after.heap after.owners := by
  obtain ⟨⟨_, pointer, heap⟩, hvarlen, heq⟩ := map_ok hget
  cases heq
  exact ((h.perm (perm_user ..).symm).getVarlen hvarlen).perm (perm_user ..)

theorem Held.getMd5 (h : Held call.heap call.owners)
    (hget : getMd5 alloc doc call = .ok (found, after)) : Held after.heap after.owners := by
  obtain ⟨_, -, heq⟩ := map_ok hget
  cases heq
  exact h

theorem Held.getSize (h : Held call.heap call.owners)
    (hget : getSize alloc doc call = .ok (found, after)) : Held after.heap after.owners := by
  obtain ⟨⟨_ | _, _⟩, -, heq⟩ := map_ok hget
  · cases heq
    exact h
  · cases heq
    exact h

/-- What lookups keep one by one, they keep in order. -/
theorem inOrder_keeps {S : Type*} {inv : S → Prop} {fs : List (S → Except Overrun (Bool × S))}
    (hstep : ∀ f ∈ fs, ∀ s s' b, inv s → f s = .ok (b, s') → inv s') {s s' : S} {b : Bool}
    (hinit : inv s) (h : inOrder fs s = .ok (b, s')) : inv s' := by
  induction fs generalizing s with
  | nil =>
    cases h
    exact hinit
  | cons f fs ih =>
    have hf := hstep f (List.mem_cons_self ..)
    rcases inOrder_cons_ok.mp h with ⟨hfail, -⟩ | ⟨t, hpass, hrest⟩
    · exact hf s s' false hinit hfail
    · exact ih (fun g hg => hstep g (List.mem_cons_of_mem f hg)) (hf s t true hinit hpass) hrest

theorem Held.getParams (h : Held call.heap call.owners)
    (hget : getParams alloc doc call = .ok (found, after)) : Held after.heap after.owners := by
  refine @inOrder_keeps Call (fun call => Held call.heap call.owners) _ ?_ _ _ _ h hget
  simp only [List.forall_mem_cons, List.not_mem_nil, false_imp_iff, implies_true, and_true]
  exact ⟨fun _ _ _ h hf => h.getType hf, fun _ _ _ h hf => h.getVersion hf,
    fun _ _ _ h hf => h.getUrl hf, fun _ _ _ h hf => h.getMd5 hf, fun _ _ _ h hf => h.getSize hf,
    fun _ _ _ h hf => h.getUser hf⟩

/-- The heap on which the parameters of an update message are looked up: the type has been read and
freed once. -/
def opened (heap : Heap) : Heap := release (some ⟨heap.next, ascii "update_firmware"⟩) heap.alloc

theorem opened_live (heap : Heap) : (opened heap).live = heap.live := List.erase_cons_head ..

/-- A string that is freed right after it has been allocated. -/
theorem Held.passing (h : Held heap others) (text : List UInt8) :
    Held (OtaStrings.release (some ⟨heap.next, text⟩) heap.alloc) others :=
  @Held.release _ _ (some ⟨heap.next, text⟩) h.fresh

/-- What a message does to the fields and the heap. -/
theorem otaCallback_strings (msgLen : ℕ) (alloc : List UInt8 → Bool) (text : CString)
    (holder : Holder) :
    ((otaCallback msgLen alloc text holder).fields = holder.fields ∧
      ((otaCallback msgLen alloc text holder).heap = holder.heap ∨
        ∃ type, (otaCallback msgLen alloc text holder).heap =
          release (some ⟨holder.heap.next, type⟩) holder.heap.alloc)) ∨
    ∃ found call, getParams alloc (text.val ++ [0]) ⟨none, holder.fields, opened holder.heap⟩ =
        .ok (found, call) ∧
      (otaCallback msgLen alloc text holder).fields = call.fields ∧
      (otaCallback msgLen alloc text holder).heap = release call.jsonType call.heap := by
  unfold otaCallback
  dsimp only
  by_cases hbusy : holder.state = .fetching ∨ holder.state = .fetched ∨ holder.state = .disconnected
  · rw [if_pos hbusy]
    exact .inl ⟨rfl, .inl rfl⟩
  rw [if_neg hbusy]
  by_cases hlen : msgLen = 0
  · rw [if_pos hlen]
    exact .inl ⟨rfl, .inl rfl⟩
  rw [if_neg hlen]
  cases htype : getVarlen alloc (text.val ++ [0]) (ascii "type") none holder.heap with
  | error e => exact .inl ⟨rfl, .inl rfl⟩
  | ok result =>
    obtain ⟨found, pointer, heap⟩ := result
    rcases getVarlen_cases htype with ⟨-, -, rfl, rfl⟩ | ⟨-, -, rfl, rfl⟩ | ⟨type, -, -, rfl, rfl⟩
    · exact .inl ⟨rfl, .inl rfl⟩
    · exact .inl ⟨rfl, .inl rfl⟩
    · dsimp only
      by_cases hversion : type = ascii "report_version_rsp"
      · rw [if_pos hversion]
        cases getReportVersionResult alloc (text.val ++ [0]) with
        | error e => exact .inl ⟨rfl, .inl rfl⟩
        | ok right => exact .inl ⟨rfl, .inr ⟨type, rfl⟩⟩
      rw [if_neg hversion]
      by_cases hupdate : type = ascii "update_firmware"
      · rw [if_neg (not_not.mpr hupdate), hupdate]
        rw [show release (some ⟨holder.heap.next, ascii "update_firmware"⟩) holder.heap.alloc =
          opened holder.heap from rfl]
        cases getParams alloc (text.val ++ [0]) ⟨none, holder.fields, opened holder.heap⟩ with
        | error e => exact .inl ⟨rfl, .inl rfl⟩
        | ok result => exact .inr ⟨result.1, result.2, rfl, rfl, rfl⟩
      · rw [if_pos hupdate]
        exact .inl ⟨rfl, .inr ⟨type, rfl⟩⟩

/-- An update message that is taken is looked through. -/
theorem otaCallback_takes (h : Takes holder msgLen alloc text) :
    Carries alloc (text.val ++ [0]) (ascii "type") (ascii "update_firmware") ∧
    ∀ found call, getParams alloc (text.val ++ [0]) ⟨none, holder.fields, opened holder.heap⟩ =
        .ok (found, call) →
      (otaCallback msgLen alloc text holder).fields = call.fields ∧
      (otaCallback msgLen alloc text holder).heap = release call.jsonType call.heap := by
  obtain ⟨⟨hstate, hlen⟩, b, htype⟩ := h
  have hcarries : Carries alloc (text.val ++ [0]) (ascii "type") (ascii "update_firmware") := by
    unfold getFirmwareVarlenPara at htype
    split_ifs at htype with halloc
    · obtain ⟨value, hvalue, heq⟩ := map_ok htype
      cases heq
      exact ⟨halloc, hvalue⟩
    · cases htype
  refine ⟨hcarries, ?_⟩
  intro found call hget
  have hidle : ¬ (holder.state = .fetching ∨ holder.state = .fetched ∨
      holder.state = .disconnected) := by
    have hstate : holder.state = .uninited ∨ holder.state = .inited := hstate
    rcases hstate with h | h <;> simp [h]
  unfold otaCallback
  dsimp only
  rw [if_neg hidle, if_neg hlen, getVarlen_carries hcarries]
  dsimp only
  rw [if_neg (by decide), if_neg (not_not.mpr rfl), show release (some ⟨holder.heap.next,
    ascii "update_firmware"⟩) holder.heap.alloc = opened holder.heap from rfl, hget]
  exact ⟨rfl, rfl⟩

/-- What runs keep: every string on the heap has one owner, and the md5sum is padded with zeros. -/
structure Sound (holder : Holder) : Prop where
  held : Held holder.heap holder.fields.owners
  padded : Padded holder.fields.md5sum

theorem sound_init : Sound init :=
  ⟨⟨[], owned_empty⟩, ⟨[], 32, rfl, List.not_mem_nil, rfl⟩⟩

theorem padded_message (msgLen : ℕ) (alloc : List UInt8 → Bool) (text : CString) {handle : Handle}
    (h : Padded handle.params.md5sum) :
    Padded (OtaClient.otaCallback msgLen alloc text handle).1.params.md5sum := by
  rcases otaCallback_cases msgLen alloc text handle with ⟨heq, -⟩ | ⟨-, -, heq⟩ |
    ⟨-, params, hparams, heq⟩ | ⟨-, params, ⟨-, hparams⟩, heq⟩
  · rwa [heq]
  · rwa [heq]
  · rw [heq]
    rcases getParams_md5sum hparams with ⟨-, hmd5⟩ | hcopies
    · exact (show Padded params.md5sum from hmd5 ▸ h)
    · exact (hcopies.padded h).1
  · rw [heq]
    rcases getParams_md5sum hparams with ⟨hfalse, -⟩ | hcopies
    · cases hfalse
    · exact (hcopies.padded h).1

theorem Sound.message (h : Sound holder) (msgLen : ℕ) (alloc : List UInt8 → Bool) (text : CString) :
    Sound (otaCallback msgLen alloc text holder) := by
  constructor
  · rcases otaCallback_strings msgLen alloc text holder with ⟨hfields, hheap | ⟨type, hheap⟩⟩ |
      ⟨found, call, hget, hfields, hheap⟩
    · rw [hfields, hheap]
      exact h.held
    · rw [hfields, hheap]
      exact h.held.passing type
    · rw [hfields, hheap]
      exact Held.release (Held.getParams (h.held.passing (ascii "update_firmware")) hget)
  · have hhandle := congrArg (fun handle => handle.params.md5sum)
      (otaCallback_handle msgLen alloc text holder)
    rw [show (otaCallback msgLen alloc text holder).fields.md5sum = _ from hhandle]
    exact padded_message msgLen alloc text h.padded

theorem Sound.reset (h : Sound holder) : Sound (resetStrings holder) := by
  refine ⟨?_, h.padded⟩
  exact Held.release (Held.release h.held)

theorem sound_step (md5 : Md5) (s : Step) (h : Sound holder) : Sound (step md5 s holder).1 := by
  by_cases hs : ∃ msgLen alloc text, s = .message msgLen alloc text
  · obtain ⟨msgLen, alloc, text, rfl⟩ := hs
    exact h.message msgLen alloc text
  · have hs : ∀ msgLen alloc text, s ≠ .message msgLen alloc text :=
      fun msgLen alloc text h => hs ⟨msgLen, alloc, text, h⟩
    obtain ⟨hfields, hheap, -⟩ := @step_call md5 s holder hs
    have hnext : Sound (if Event.reset ∈ (OtaClient.step md5 s holder.handle).2 then
        resetStrings holder else holder) := by
      split_ifs
      · exact h.reset
      · exact h
    exact ⟨hfields ▸ hheap ▸ hnext.held, hfields ▸ hnext.padded⟩

end Invariant

section Messages
variable {alloc : List UInt8 → Bool} {text : CString} {msgLen : ℕ} {holder : Holder}

/-- A value copied over a padded text is the whole text exactly if that was not longer. -/
theorem copied_iff {value before : List UInt8} (hvalue : (0 : UInt8) ∉ value)
    (hlen : value.length ≤ 32) (h : Padded before) :
    cstr (value ++ before.drop value.length) = value ↔ (cstr before).length ≤ value.length := by
  obtain ⟨old, n, rfl, hnul, htotal⟩ := h
  rw [cstr_padded hnul]
  by_cases hlong : value.length < old.length
  · have hdrop : (old ++ List.replicate (n + 1) 0).drop value.length =
        old.drop value.length ++ List.replicate (n + 1) 0 :=
      List.drop_append_of_le_length hlong.le
    have hrest : (0 : UInt8) ∉ value ++ old.drop value.length := by
      rw [List.mem_append, not_or]
      exact ⟨hvalue, fun hmem => hnul (List.mem_of_mem_drop hmem)⟩
    rw [hdrop, ← List.append_assoc, cstr_padded hrest]
    constructor
    · intro heq
      have htail := congrArg List.length heq
      rw [List.length_append, List.length_drop] at htail
      omega
    · intro hle
      omega
  · have hdrop : (old ++ List.replicate (n + 1) (0 : UInt8)).drop value.length =
        List.replicate (32 - value.length + 1) 0 := by
      rw [List.drop_append, List.drop_eq_nil_of_le (by omega), List.nil_append, List.drop_replicate]
      congr 1
      omega
    rw [hdrop, cstr_padded hvalue]
    exact iff_of_true rfl (Nat.not_lt.mp hlong)

/-- The addresses of what a complete message stores are new. -/
theorem taken_new {values : Values} {call : Call} {a : ℕ}
    (h : a ∈ (taken values call).fields.owners) :
    call.heap.next < a := by
  have hmem : a = call.heap.next + 2 ∨ a = call.heap.next + 1 ∨ a = call.heap.next + 3 := by
    simpa [Fields.owners, addresses, taken] using h
  omega

/-- Without strings, there are no owners. -/
theorem owners_empty {fields : Fields} : fields.owners = [] ↔
    fields.version = none ∧ fields.purl = none ∧ fields.usrDefinedInfo = none := by
  have haddresses : ∀ pointer : Option Block, addresses pointer = [] ↔ pointer = none := by
    intro pointer
    cases pointer <;> simp [addresses]
  rw [Fields.owners, List.append_eq_nil_iff, List.append_eq_nil_iff, haddresses, haddresses,
    haddresses]
  tauto

/-- A string of the handle is on the heap after a complete message too. -/
theorem taken_live (h : Sound holder) {values : Values} {a : ℕ} (ha : a ∈ holder.fields.owners) :
    a ∈ (release (taken values ⟨none, holder.fields, opened holder.heap⟩).jsonType
      (taken values ⟨none, holder.fields, opened holder.heap⟩).heap).live := by
  have hlive : a ∈ (opened holder.heap).live := opened_live holder.heap ▸ h.held.live ha
  have hne : a ≠ (opened holder.heap).next := Nat.ne_of_lt ((opened holder.heap).below a hlive)
  refine (List.mem_erase_of_ne hne).mpr ?_
  exact List.mem_cons_of_mem _ (List.mem_cons_of_mem _ (List.mem_cons_of_mem _
    (List.mem_cons_of_mem _ hlive)))

/-- The parameters of a message as `OtaClient` looks them up. -/
theorem params_of_call {found : Bool} {call : Call} (hget : getParams alloc (text.val ++ [0])
    ⟨none, holder.fields, opened holder.heap⟩ = .ok (found, call)) :
    OtaClient.getParams alloc (text.val ++ [0]) holder.handle.params =
      .ok (found, call.fields.params) := by
  have htexts := getParams_texts alloc (text.val ++ [0]) ⟨none, holder.fields, opened holder.heap⟩
  rw [hget] at htexts
  exact htexts.symm

/-- A call for parameters that `OtaClient` looks up. -/
theorem call_of_params {found : Bool} {params : Params}
    (hget : OtaClient.getParams alloc (text.val ++ [0]) holder.handle.params =
      .ok (found, params)) :
    ∃ call, getParams alloc (text.val ++ [0]) ⟨none, holder.fields, opened holder.heap⟩ =
      .ok (found, call) := by
  have htexts := getParams_texts alloc (text.val ++ [0]) ⟨none, holder.fields, opened holder.heap⟩
  obtain ⟨⟨found', call⟩, hcall, heq⟩ := map_ok (htexts.trans hget)
  cases heq
  exact ⟨call, hcall⟩

theorem safe_of_right (h : Sound holder) (htakes : Takes holder msgLen alloc text)
    (hright : Right holder (.message msgLen alloc text)) :
    alloc (ascii "version") = false ∨
      (liteJsonValueOf (ascii "version") (text.val ++ [0]) = .ok none ∧
        holder.fields.version = none) ∨ Fresh holder.fields alloc (text.val ++ [0]) := by
  obtain ⟨found, params, hparams, hfails, hpasses, howned⟩ := hright htakes
  obtain ⟨htype, hafter⟩ := otaCallback_takes htakes
  obtain ⟨call, hget⟩ := call_of_params hparams
  obtain ⟨hfields, hheap⟩ := hafter found call hget
  rw [hfields] at hfails hpasses howned
  rcases getParams_cases htype hget with ⟨-, halloc, -⟩ | ⟨hfound, hnone, rfl⟩ |
    ⟨hfound, version, hversion⟩ | ⟨hfound, values, hall, rfl⟩
  · exact .inl halloc
  · exact .inr (.inl ⟨hnone, (congrArg Fields.version (hfails hfound)).symm⟩)
  · -- the version of the message is in a block that the handle cannot have owned
    rw [hfails hfound] at hversion
    have hmem : (opened holder.heap).next + 1 ∈ holder.fields.owners := by
      simp [Fields.owners, addresses, hversion]
    have hlt := (opened holder.heap).below _ (opened_live holder.heap ▸ h.held.live hmem)
    omega
  · right
    right
    have hempty : holder.fields.owners = [] := by
      refine List.eq_nil_iff_forall_not_mem.mpr fun a ha => ?_
      rcases howned a ha with hmem | hdead
      · have hlt := (opened holder.heap).below _ (opened_live holder.heap ▸ h.held.live ha)
        exact Nat.lt_asymm hlt (taken_new hmem)
      · rw [hheap] at hdead
        exact hdead (taken_live h ha)
    have hmd5 := (hall.md5.2.symm.trans (hpasses hfound))
    injection hmd5 with hmd5
    injection hmd5 with hmd5
    have hshort :=
      (copied_iff (liteJsonValueOf_noNul hall.md5.2) hall.md5Fits h.padded).mp hmd5.symm
    exact ⟨owners_empty.mp hempty, values.version, values.url, values.md5, values.size, values.user,
      hall.version, hall.url, hall.md5, hall.size, hall.user, hshort, hall.md5Fits, hall.sizeFits⟩

/-- Without a version in the message, a handle without one is left as it is. -/
theorem getParams_noVersion {doc : Ptr} {type : List UInt8} {call : Call}
    (htype : Carries alloc doc (ascii "type") type)
    (h : alloc (ascii "version") = false ∨
      (liteJsonValueOf (ascii "version") doc = .ok none ∧ call.fields.version = none)) :
    ∃ after, getParams alloc doc call = .ok (false, after) ∧ after.fields = call.fields := by
  have hget : getVarlen alloc doc (ascii "version") call.fields.version call.heap.alloc =
      .ok (false, call.fields.version, call.heap.alloc) := by
    unfold getVarlen
    cases halloc : alloc (ascii "version") with
    | false => rfl
    | true =>
      rcases h with hfalse | ⟨hnone, hversion⟩
      · rw [halloc] at hfalse
        cases hfalse
      · rw [hnone, hversion]
        rfl
  refine ⟨{ call with
    jsonType := some ⟨call.heap.next, type⟩, heap := call.heap.alloc }, ?_, rfl⟩
  refine inOrder_cons_ok.mpr (.inr ⟨_, by rw [getType, getVarlen_carries htype]; rfl, ?_⟩)
  refine inOrder_cons_ok.mpr (.inl ⟨?_, rfl⟩)
  rw [getVersion, hget]
  rfl

theorem right_of_safe (h : Sound holder) (hsafe : Safe holder (.message msgLen alloc text)) :
    Right holder (.message msgLen alloc text) := by
  intro htakes
  obtain ⟨htype, hafter⟩ := otaCallback_takes htakes
  rcases or_assoc.mpr (hsafe htakes) with hmissing | ⟨hempty, version, url, md5, size, user,
    hversion, hurl, hmd5, hsize, huser, hshort, hmd5Fits, hsizeFits⟩
  · obtain ⟨call, hget, hsame⟩ := @getParams_noVersion alloc (text.val ++ [0]) _
      ⟨none, holder.fields, opened holder.heap⟩ htype hmissing
    obtain ⟨hfields, -⟩ := hafter _ _ hget
    refine ⟨false, _, params_of_call hget, fun _ => hfields.trans hsame,
      fun hfalse => Bool.noConfusion hfalse, ?_⟩
    intro a ha
    rw [hfields, hsame]
    exact .inl ha
  · have hall : CarriesAll alloc (text.val ++ [0])
        ⟨ascii "update_firmware", version, url, md5, size, user⟩ :=
      ⟨htype, hversion, hurl, hmd5, hsize, huser, hmd5Fits, hsizeFits⟩
    have hget := getParams_all hall ⟨none, holder.fields, opened holder.heap⟩
    obtain ⟨hfields, -⟩ := hafter _ _ hget
    refine ⟨true, _, params_of_call hget, fun hfalse => Bool.noConfusion hfalse, fun _ => ?_, ?_⟩
    · rw [hfields, hmd5.2]
      exact congrArg (fun value => Except.ok (some value))
        ((copied_iff (liteJsonValueOf_noNul hmd5.2) hmd5Fits h.padded).mpr hshort).symm
    · intro a ha
      rw [owners_empty.mpr hempty] at ha
      exact absurd ha List.not_mem_nil

theorem right_iff_safe (h : Sound holder) (s : Step) : Right holder s ↔ Safe holder s := by
  cases s with
  | message msgLen alloc text =>
    exact ⟨fun hright htakes => safe_of_right h htakes hright, right_of_safe h⟩
  | _ => exact Iff.rfl

end Messages

/-- In every run, every update message leaves the fields as they were or brings its own md5sum,
and drops no string, exactly if every message meets the handle as it must. -/
theorem updates_right_iff (md5 : Md5) (steps : List Step) :
    Along (step md5) Right steps init ↔ Along (step md5) Safe steps init := by
  constructor
  · intro h
    exact h.of_invariant (fun s o hs _ => sound_step md5 o hs)
      (fun s o hs hright => (right_iff_safe hs o).mp hright) sound_init
  · intro h
    exact h.of_invariant (fun s o hs _ => sound_step md5 o hs)
      (fun s o hs hsafe => (right_iff_safe hs o).mpr hsafe) sound_init

def versionText : CString :=
  ⟨ascii "\x7b\"type\":\"update_firmware\",\"version\":\"2\"\x7d", by decide⟩

/-- The lookups fail at the url, and the version has been stored. -/
theorem updates_right_wrong :
    ¬ ∀ (md5 : Md5) (steps : List Step), Along (step md5) Right steps init := by
  intro h
  have hright := (h zeroMd5 [.message 1 (fun _ => true) versionText]).1
  have htakes : Takes init 1 (fun _ => true) versionText :=
    ⟨⟨.inr rfl, Nat.one_ne_zero⟩, true, by decide +kernel⟩
  obtain ⟨found, params, hparams, hfails, -, -⟩ := hright htakes
  have hfound : (OtaClient.getParams (fun _ => true) (versionText.val ++ [0])
      init.handle.params).map Prod.fst = .ok false := by
    decide +kernel
  rw [hparams] at hfound
  injection hfound with hfound
  have hversion := congrArg Fields.version (hfails hfound)
  have hstored : (otaCallback 1 (fun _ => true) versionText init).fields.version =
      some ⟨3, ascii "2"⟩ := by
    decide
  rw [hstored] at hversion
  cases hversion

end IotExplorer.OtaUpdates
