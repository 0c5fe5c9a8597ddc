import IotExplorer.GatewayClient

/-!
The list of the bound sub-devices over runs of messages. The loop over the entries of a
notification is compared with a loop over the devices that they name, on which the
invariants of the list are shown; the strings of the entries are counted in the loop
itself, where a pointer may still hold the string of the entry before.
-/
namespace IotExplorer.GatewayBindList

open Basis.Runs Basis.JsonText JsonParser JsonLookup TemplateJson GatewayClient

section Devices
variable {op : DeviceOp} {alloc : ℕ → Bool} {gateway : Gateway}

/-- The text of an entry while its names are looked up. -/
def entryText (entry : Entry) : Ptr := entry.val.set entry.valLen 0

/-- The names in the entries that have both, up to one whose text is left. -/
def namedDevices : List Entry → List (List UInt8 × List UInt8)
  | [] => []
  | entry :: entries =>
      match getJsonProductId (entryText entry) with
      | .error _ => []
      | .ok none => namedDevices entries
      | .ok (some productId) =>
          match getJsonDeviceName (entryText entry) with
          | .error _ => []
          | .ok none => namedDevices entries
          | .ok (some deviceName) => (productId, deviceName) :: namedDevices entries

/-- What is done with devices one after another, up to one with which it fails. -/
def applyDevices (op : DeviceOp) (alloc : ℕ → Bool) :
    ℕ → List (List UInt8 × List UInt8) → Gateway → Gateway
  | _, [], gateway => gateway
  | k, device :: devices, gateway =>
      match procDevice op (alloc k) device.1 device.2 gateway with
      | none => gateway
      | some gateway => applyDevices op alloc (k + 1) devices gateway

/-- Entries without one of the names change nothing. -/
theorem procEntries_gateway (ending : Ending) (entries : List Entry) (loop : Devlist) :
    (procEntries op alloc ending entries loop).1 =
      applyDevices op alloc loop.devices (namedDevices entries) loop.gateway := by
  induction entries generalizing loop with
  | nil => rfl
  | cons entry entries ih =>
    rw [procEntries, procEntry, namedDevices]
    dsimp only [entryText]
    cases getJsonProductId (entry.val.set entry.valLen 0) with
    | error e => rfl
    | ok productId =>
      cases productId with
      | none => exact ih _
      | some productId =>
        dsimp only
        cases getJsonDeviceName (entry.val.set entry.valLen 0) with
        | error e => rfl
        | ok deviceName =>
          cases deviceName with
          | none => exact ih _
          | some deviceName =>
            dsimp only
            rw [applyDevices]
            cases hdevice : procDevice op (alloc loop.devices) productId deviceName
              loop.gateway with
            | none => rfl
            | some gateway => exact ih _

/-- The number of the devices is counted, and no device is bound twice. -/
structure Counted (gateway : Gateway) : Prop where
  num : gateway.bindNum = gateway.bindList.length
  apart : gateway.bindList.Nodup

/-- No device is bound that is bound already. -/
def BindsNew (op : DeviceOp) (alloc : ℕ → Bool) :
    ℕ → List (List UInt8 × List UInt8) → Gateway → Prop
  | _, [], _ => True
  | k, device :: devices, gateway =>
      match procDevice op (alloc k) device.1 device.2 gateway with
      | none => True
      | some gateway' => (op ≠ .unbind → bindInfo device.1 device.2 ∉ gateway.bindList) ∧
          BindsNew op alloc (k + 1) devices gateway'

theorem procDevice_counted {alloc : Bool} {productId deviceName : List UInt8} {gateway' : Gateway}
    (h : procDevice op alloc productId deviceName gateway = some gateway')
    (hcounted : Counted gateway)
    (hnew : op ≠ .unbind → bindInfo productId deviceName ∉ gateway.bindList) :
    Counted gateway' := by
  have hadd : subdevAddBindinfo alloc productId deviceName gateway = some gateway' →
      bindInfo productId deviceName ∉ gateway.bindList → Counted gateway' := by
    intro h hnew
    rw [subdevAddBindinfo] at h
    split_ifs at h
    injection h with h
    subst h
    refine ⟨?_, List.nodup_cons.mpr ⟨hnew, hcounted.apart⟩⟩
    dsimp only
    rw [hcounted.num, List.length_cons]
    rfl
  cases op with
  | describe => exact hadd h (hnew (by decide))
  | bind => exact hadd h (hnew (by decide))
  | unbind =>
    rw [procDevice, subdevUnbindDevice] at h
    split_ifs at h with hany
    injection h with h
    subst h
    obtain ⟨info, hmem, hmatches⟩ := List.any_eq_true.mp hany
    have hlength := List.length_eraseP_of_mem hmem hmatches
    have hpos := List.length_pos_of_mem hmem
    refine ⟨?_, hcounted.apart.sublist List.eraseP_sublist⟩
    dsimp only
    rw [hcounted.num, hlength]
    omega

theorem applyDevices_counted (k : ℕ) (devices : List (List UInt8 × List UInt8))
    (hcounted : Counted gateway)
    (hnew : BindsNew op alloc k devices gateway) :
    Counted (applyDevices op alloc k devices gateway) := by
  induction devices generalizing k gateway with
  | nil => exact hcounted
  | cons device devices ih =>
    rw [applyDevices]
    rw [BindsNew] at hnew
    cases hdevice : procDevice op (alloc k) device.1 device.2 gateway with
    | none => exact hcounted
    | some gateway' =>
      rw [hdevice] at hnew
      exact ih (k + 1) (procDevice_counted hdevice hcounted hnew.1) hnew.2

end Devices

section Strings
variable {op : DeviceOp} {alloc : ℕ → Bool}

/-- So often a string is copied out of a message. -/
def copies (s : Str) (events : List Event) : ℕ := events.count (.extracted s)

def releases (s : Str) (events : List Event) : ℕ := events.count (.released s)

/-- Every string that is copied out of a message is released exactly once, and no other is. -/
def ReleasedOnce (events : List Event) : Prop :=
  ∀ s, copies s events ≤ 1 ∧ releases s events = copies s events

def LacksProduct (entry : Entry) : Prop := getJsonProductId (entryText entry) = .ok none

/-- No entry without a product comes directly behind one with both names. -/
def Unmixed (op : DeviceOp) (alloc : ℕ → Bool) : ℕ → List Entry → Gateway → Prop
  | _, [], _ => True
  | k, entry :: entries, gateway =>
      match getJsonProductId (entryText entry) with
      | .error _ => True
      | .ok none => Unmixed op alloc k entries gateway
      | .ok (some productId) =>
          match getJsonDeviceName (entryText entry) with
          | .error _ => True
          | .ok none => Unmixed op alloc k entries gateway
          | .ok (some deviceName) =>
              match procDevice op (alloc k) productId deviceName gateway with
              | none => True
              | some gateway => (∀ next ∈ entries.head?, ¬ LacksProduct next) ∧
                  Unmixed op alloc (k + 1) entries gateway

@[simp] theorem copies_nil (s : Str) : copies s [] = 0 := rfl

@[simp] theorem releases_nil (s : Str) : releases s [] = 0 := rfl

@[simp] theorem copies_append (s : Str) (events events' : List Event) :
    copies s (events ++ events') = copies s events + copies s events' := List.count_append ..

@[simp] theorem releases_append (s : Str) (events events' : List Event) :
    releases s (events ++ events') = releases s events + releases s events' := List.count_append ..

@[simp] theorem copies_extracted (s t : Str) (events : List Event) :
    copies s (.extracted t :: events) = copies s events + if t = s then 1 else 0 := by
  rw [copies, List.count_cons]
  simp [copies]

@[simp] theorem copies_released (s t : Str) (events : List Event) :
    copies s (.released t :: events) = copies s events := by
  rw [copies, List.count_cons]
  simp [copies]

@[simp] theorem copies_replied (s : Str) (reply : Reply) (events : List Event) :
    copies s (.replied reply :: events) = copies s events := by
  rw [copies, List.count_cons]
  simp [copies]

@[simp] theorem copies_overrun (s : Str) (events : List Event) :
    copies s (.overrun :: events) = copies s events := by
  rw [copies, List.count_cons]
  simp [copies]

@[simp] theorem releases_released (s t : Str) (events : List Event) :
    releases s (.released t :: events) = releases s events + if t = s then 1 else 0 := by
  rw [releases, List.count_cons]
  simp [releases]

@[simp] theorem releases_extracted (s t : Str) (events : List Event) :
    releases s (.extracted t :: events) = releases s events := by
  rw [releases, List.count_cons]
  simp [releases]

@[simp] theorem releases_replied (s : Str) (reply : Reply) (events : List Event) :
    releases s (.replied reply :: events) = releases s events := by
  rw [releases, List.count_cons]
  simp [releases]

@[simp] theorem releases_overrun (s : Str) (events : List Event) :
    releases s (.overrun :: events) = releases s events := by
  rw [releases, List.count_cons]
  simp [releases]

/-- The strings of entries from a number on are released once. -/
structure FromOn (n : ℕ) (s : Str) (events : List Event) : Prop where
  released : releases s events = copies s events
  once : copies s events ≤ 1
  entry : copies s events ≠ 0 → ∃ k, s = .entry k ∧ n ≤ k

/-- Strings with the next numbers in front. -/
theorem FromOn.behind {n m : ℕ} {s : Str} {events front : List Event} (h : FromOn m s events)
    (hreleased : releases s front = copies s front) (honce : copies s front ≤ 1) (hnm : n ≤ m)
    (hentry : copies s front ≠ 0 → ∃ k, s = .entry k ∧ n ≤ k ∧ k < m) :
    FromOn n s (front ++ events) := by
  have hsep : copies s front = 0 ∨ copies s events = 0 := by
    by_contra hboth
    rw [not_or] at hboth
    obtain ⟨k, hk, -, hlt⟩ := hentry hboth.1
    obtain ⟨k', hk', hle⟩ := h.entry hboth.2
    rw [hk] at hk'
    injection hk' with hk'
    omega
  have hreleased' := h.released
  have honce' := h.once
  refine ⟨?_, ?_, ?_⟩
  · rw [copies_append, releases_append]
    omega
  · rw [copies_append]
    omega
  · intro hne
    rw [copies_append] at hne
    by_cases hfront : copies s front = 0
    · obtain ⟨k, hk, hle⟩ := h.entry (by omega)
      exact ⟨k, hk, by omega⟩
    · obtain ⟨k, hk, hle, -⟩ := hentry hfront
      exact ⟨k, hk, hle⟩

/-- An entry without a name releases its product id. -/
theorem FromOn.behind_product {n : ℕ} {s : Str} {events : List Event}
    (h : FromOn (n + 1) s events) :
    FromOn n s ((.extracted (.entry n) :: (halFree (some n) ++ halFree none)) ++ events) := by
  refine h.behind ?_ ?_ (Nat.le_succ n) ?_
  · simp [halFree]
  · simp [halFree]
    split_ifs <;> omega
  · simp only [halFree, copies_extracted, copies_released, copies_nil, List.append_nil]
    intro hne
    split_ifs at hne with heq
    · exact ⟨_, heq.symm, Nat.le_refl _, Nat.lt_succ_self _⟩
    · exact absurd rfl hne

/-- An entry that names a device releases its two strings. -/
theorem FromOn.behind_pair {n : ℕ} {s : Str} {events : List Event} (h : FromOn (n + 2) s events) :
    FromOn n s ((.extracted (.entry n) :: .extracted (.entry (n + 1)) ::
      (halFree (some n) ++ halFree (some (n + 1)))) ++ events) := by
  have hnext : Str.entry (n + 1) = s → Str.entry n ≠ s := by
    intro hsecond hfirst
    rw [← hfirst] at hsecond
    injection hsecond with hsecond
    omega
  refine h.behind ?_ ?_ (by omega) ?_
  · simp [halFree]
  · simp only [halFree, List.singleton_append, copies_extracted, copies_released, copies_nil]
    split_ifs with hsecond hfirst
    · exact absurd hfirst (hnext hsecond)
    · omega
    · omega
    · omega
  · simp only [halFree, List.singleton_append, copies_extracted, copies_released, copies_nil]
    intro hne
    split_ifs at hne with heq heq' heq'
    · exact ⟨_, heq.symm, by omega, by omega⟩
    · exact ⟨_, heq.symm, by omega, by omega⟩
    · exact ⟨_, heq'.symm, by omega, by omega⟩
    · exact absurd rfl hne

theorem fromOn_nil (n : ℕ) (s : Str) : FromOn n s [] :=
  ⟨rfl, Nat.zero_le _, fun h => absurd rfl h⟩

/-- The strings of the entries, when the pointer to a name does not hold one of before. -/
theorem procEntries_strings (ending : Ending) (entries : List Entry) (loop : Devlist) (s : Str)
    (hpointer : loop.deviceName = none ∨ ∀ next ∈ entries.head?, ¬ LacksProduct next)
    (hunmixed : Unmixed op alloc loop.devices entries loop.gateway) :
    FromOn loop.extractions s (procEntries op alloc ending entries loop).2 := by
  induction entries generalizing loop with
  | nil =>
    rw [procEntries]
    dsimp only
    split_ifs <;> exact ⟨rfl, Nat.zero_le _, fun h => absurd rfl h⟩
  | cons entry entries ih =>
    rw [procEntries, procEntry]
    rw [Unmixed] at hunmixed
    dsimp only [entryText] at hunmixed ⊢
    cases hproduct : getJsonProductId (entry.val.set entry.valLen 0) with
    | error e => exact ⟨rfl, Nat.zero_le _, fun h => absurd rfl h⟩
    | ok productId =>
      rw [hproduct] at hunmixed
      cases productId with
      | none =>
        -- the pointer to a name is released as it is
        have hnull : loop.deviceName = none := by
          rcases hpointer with hnull | hnext
          · exact hnull
          · exact absurd hproduct (hnext entry rfl)
        have hfree : halFree loop.deviceName = [] := by
          rw [hnull]
          rfl
        dsimp only
        rw [hfree]
        exact ih { loop with productId := none } (.inl hnull) hunmixed
      | some productId =>
        dsimp only at hunmixed ⊢
        cases hname : getJsonDeviceName (entry.val.set entry.valLen 0) with
        | error e => exact ⟨rfl, Nat.zero_le _, fun h => absurd rfl h⟩
        | ok deviceName =>
          rw [hname] at hunmixed
          cases deviceName with
          | none =>
            exact (ih { loop with
              productId := some loop.extractions
              deviceName := none
              extractions := loop.extractions + 1 } (.inl rfl) hunmixed).behind_product
          | some deviceName =>
            dsimp only at hunmixed ⊢
            cases hdevice : procDevice op (alloc loop.devices) productId deviceName
              loop.gateway with
            | none =>
              have hend := (fromOn_nil (loop.extractions + 2) s).behind_pair
              rw [List.append_nil] at hend
              exact hend
            | some gateway =>
              rw [hdevice] at hunmixed
              exact (ih { loop with
                gateway := gateway
                productId := some loop.extractions
                deviceName := some (loop.extractions + 1)
                extractions := loop.extractions + 2
                devices := loop.devices + 1 } (.inr hunmixed.1) hunmixed.2).behind_pair

end Strings

section Notices
variable {received : Received} {gateway : Gateway} {type : List UInt8}

def noticed (received : Received) : Option (List UInt8 × ℤ) :=
  (messageType received).bind fun type =>
    if (ascii "change").isPrefixOf type then
      (getJsonDevices received.text).toOption.join.bind fun devices =>
        (getJsonPayloadStatus received.text).toOption.join.map fun status => (devices, status)
    else none

def noticeOp (status : ℤ) : DeviceOp := if status ≠ 0 then .bind else .unbind

def entriesOf (devices : List UInt8) : List Entry := (forEach .array (devices ++ [0])).entries

/-- The gateway behind a notification, by the devices that its entries name. -/
def boundAfter (received : Received) (gateway : Gateway) : Gateway :=
  match noticed received with
  | none => gateway
  | some notice =>
      applyDevices (noticeOp notice.2) received.alloc 0 (namedDevices (entriesOf notice.1)) gateway

/-- A notification is about other devices than those that are bound, and an entry without a product
is not directly behind one with both names. -/
def Tidy (gateway : Gateway) (received : Received) : Prop :=
  ∀ devices status, noticed received = some (devices, status) →
    BindsNew (noticeOp status) received.alloc 0 (namedDevices (entriesOf devices)) gateway ∧
      Unmixed (noticeOp status) received.alloc 0 (entriesOf devices) gateway

/-- The list of the bound sub-devices is that of another gateway. -/
def SameBound (gateway gateway' : Gateway) : Prop :=
  gateway.bindList = gateway'.bindList ∧ gateway.bindNum = gateway'.bindNum

/-- The strings in some events are released once, and some strings are not among them. -/
def Balanced (outer : List Str) (events : List Event) : Prop :=
  ∀ s, releases s events = copies s events ∧ copies s events ≤ 1 ∧ (s ∈ outer → copies s events = 0)

theorem Balanced.around {t : Str} {outer : List Str} {events : List Event}
    (h : Balanced (t :: outer) events) (ht : t ∉ outer) :
    Balanced outer (.extracted t :: (events ++ [.released t])) := by
  intro s
  obtain ⟨hreleased, honce, houter⟩ := h s
  simp only [copies_extracted, copies_append, copies_released, copies_nil, releases_extracted,
    releases_append, releases_released, releases_nil]
  by_cases heq : t = s
  · have hnone := houter (heq ▸ List.mem_cons_self ..)
    rw [if_pos heq]
    refine ⟨by omega, by omega, fun hmem => absurd (heq ▸ hmem) ht⟩
  · rw [if_neg heq]
    refine ⟨by omega, by omega, fun hmem => ?_⟩
    have hnone := houter (List.mem_cons_of_mem t hmem)
    omega

theorem balanced_replies {outer : List Str} {events : List Event}
    (h : ∀ s, copies s events = 0 ∧ releases s events = 0) : Balanced outer events := by
  intro s
  obtain ⟨hcopies, hreleases⟩ := h s
  exact ⟨hreleases.trans hcopies.symm, by omega, fun _ => hcopies⟩

theorem handleResult_bound (type client : List UInt8) (result : ℤ) (gateway : Gateway) :
    SameBound (handleResult type client result gateway) gateway := by
  rw [handleResult]
  split_ifs <;> exact ⟨rfl, rfl⟩

theorem handleDevice_bound (type text : List UInt8) (gateway : Gateway) :
    SameBound (handleDevice type text gateway).1 gateway ∧
      Balanced [.devices, .type] (handleDevice type text gateway).2 := by
  have hnone : Balanced [.devices, .type] [] := balanced_replies fun s => ⟨rfl, rfl⟩
  have hoverrun : Balanced [.devices, .type] [.overrun] := by
    apply balanced_replies
    simp
  rw [handleDevice]
  cases getJsonResult (text ++ [0]) with
  | error e => exact ⟨⟨rfl, rfl⟩, hoverrun⟩
  | ok result =>
    cases result with
    | none => exact ⟨⟨rfl, rfl⟩, hnone⟩
    | some result =>
      dsimp only
      cases getJsonProductId (text ++ [0]) with
      | error e => exact ⟨⟨rfl, rfl⟩, hoverrun⟩
      | ok productId =>
        cases productId with
        | none => exact ⟨⟨rfl, rfl⟩, hnone⟩
        | some productId =>
          dsimp only
          cases getJsonDeviceName (text ++ [0]) with
          | error e => exact ⟨⟨rfl, rfl⟩, hoverrun⟩
          | ok deviceName =>
            cases deviceName with
            | none =>
              refine ⟨⟨rfl, rfl⟩, fun s => ?_⟩
              cases s <;> simp
            | some deviceName =>
              refine ⟨?_, fun s => ?_⟩
              · dsimp only
                split_ifs
                · exact ⟨rfl, rfl⟩
                · exact handleResult_bound ..
              · cases s <;> simp

/-- What a message does to the list of the bound sub-devices, and its strings. -/
structure Handles (received : Received) (gateway : Gateway) (outer : List Str)
    (handled : Gateway × List Event) : Prop where
  bound : SameBound handled.1 (boundAfter received gateway)
  strings : Tidy gateway received → Balanced outer handled.2

/-- A message that is no notification. -/
theorem handles_other {outer : List Str} {handled : Gateway × List Event}
    (hnone : noticed received = none)
    (hbound : SameBound handled.1 gateway) (hstrings : Balanced outer handled.2) :
    Handles received gateway outer handled := by
  refine ⟨?_, fun _ => hstrings⟩
  rw [boundAfter, hnone]
  exact hbound

theorem noticed_change (htype : messageType received = some type)
    (hchange : (ascii "change").isPrefixOf type = true) {devices : List UInt8}
    (hdevices : getJsonDevices received.text = .ok (some devices)) :
    noticed received =
      (getJsonPayloadStatus received.text).toOption.join.map fun status => (devices, status) := by
  rw [noticed, htype, Option.bind_some, if_pos hchange, hdevices]
  rfl

theorem noticed_other (htype : messageType received = some type)
    (hchange : ¬ (ascii "change").isPrefixOf type = true) : noticed received = none := by
  rw [noticed, htype, Option.bind_some, if_neg hchange]

theorem handleDevices_handles (htype : messageType received = some type) {devices : List UInt8}
    (hdevices : getJsonDevices received.text = .ok (some devices)) (gateway : Gateway) :
    Handles received gateway [.devices, .type] (handleDevices type devices received gateway) := by
  rw [handleDevices]
  by_cases hchange : (ascii "change").isPrefixOf type = true
  · have hnoticed := noticed_change htype hchange hdevices
    rw [if_pos hchange]
    cases hstatus : getJsonPayloadStatus received.text with
    | error e =>
      refine handles_other (by rw [hnoticed, hstatus]; rfl) ⟨rfl, rfl⟩
        (balanced_replies fun s => ?_)
      simp
    | ok status =>
      cases status with
      | none =>
        refine handles_other (by rw [hnoticed, hstatus]; rfl) ⟨rfl, rfl⟩
          (balanced_replies fun s => ?_)
        simp
      | some status =>
        have hnotice : noticed received = some (devices, status) := by
          rw [hnoticed, hstatus]
          rfl
        dsimp only
        refine ⟨?_, fun htidy s => ?_⟩
        · rw [boundAfter, hnotice]
          dsimp only
          rw [subdevProcDevlist, procEntries_gateway]
          exact ⟨rfl, rfl⟩
        · have hstrings := procEntries_strings (forEach .array (devices ++ [0])).ending
            (entriesOf devices) ⟨gateway, none, none, 0, 0⟩ s (.inl rfl)
              (htidy devices status hnotice).2
          have hreleased := hstrings.released
          have honce := hstrings.once
          have hentry := hstrings.entry
          rw [noticeOp, entriesOf] at hreleased honce hentry
          simp only [subdevProcDevlist, copies_append, releases_append, copies_replied,
            releases_replied, copies_nil, releases_nil]
          refine ⟨by omega, by omega, fun hmem => ?_⟩
          by_contra hne
          obtain ⟨k, rfl, -⟩ := hentry (by omega)
          simp at hmem
  · obtain ⟨hbound, hstrings⟩ := handleDevice_bound type
      (if devices.head? = some openBracket then devices.tail else devices) gateway
    rw [if_neg hchange]
    exact handles_other (noticed_other htype hchange) hbound hstrings

theorem handleType_handles (htype : messageType received = some type) (gateway : Gateway) :
    Handles received gateway [.type] (handleType type received gateway) := by
  have hreplied : ∀ reply : Reply, Balanced [.type] [.replied reply] := by
    intro reply
    apply balanced_replies
    simp
  have hoverrun : Balanced [.type] [.overrun] := by
    apply balanced_replies
    simp
  have hnone : Balanced [.type] [] := balanced_replies fun s => ⟨rfl, rfl⟩
  rw [handleType]
  by_cases hunbind : (ascii "unbind_all").isPrefixOf type = true
  · have hother : (ascii "change").isPrefixOf type = false := isPrefixOf_other (by decide) hunbind
    rw [if_pos hunbind]
    exact handles_other (noticed_other htype (by rw [hother]; decide)) ⟨rfl, rfl⟩ (hreplied _)
  rw [if_neg hunbind]
  by_cases hsearch : (ascii "search_devices").isPrefixOf type = true
  · have hother : (ascii "change").isPrefixOf type = false := isPrefixOf_other (by decide) hsearch
    have hnoticed := noticed_other htype (by rw [hother]; decide)
    rw [if_pos hsearch]
    split
    · exact handles_other hnoticed ⟨rfl, rfl⟩ hoverrun
    · exact handles_other hnoticed ⟨rfl, rfl⟩ hnone
    · exact handles_other hnoticed ⟨rfl, rfl⟩ (hreplied _)
  rw [if_neg hsearch]
  by_cases hdescribe : (ascii "describe_sub_devices").isPrefixOf type = true
  · have hother : (ascii "change").isPrefixOf type = false := isPrefixOf_other (by decide) hdescribe
    rw [if_pos hdescribe]
    exact handles_other (noticed_other htype (by rw [hother]; decide)) ⟨rfl, rfl⟩ (hreplied _)
  rw [if_neg hdescribe]
  have hmissing : (getJsonDevices received.text).toOption.join = none →
      noticed received = none := by
    intro hmissing
    rw [noticed, htype, Option.bind_some, hmissing]
    split_ifs <;> rfl
  cases hdevices : getJsonDevices received.text with
  | error e => exact handles_other (hmissing (by rw [hdevices]; rfl)) ⟨rfl, rfl⟩ hoverrun
  | ok devices =>
    cases devices with
    | none => exact handles_other (hmissing (by rw [hdevices]; rfl)) ⟨rfl, rfl⟩ hnone
    | some devices =>
      obtain ⟨hbound, hstrings⟩ := handleDevices_handles htype hdevices gateway
      exact ⟨hbound, fun htidy => (hstrings htidy).around (by simp)⟩

/-- What a message does to the list of the bound sub-devices, and its strings. -/
theorem handler_handles (received : Received) (gateway : Gateway) :
    Handles received gateway [] (gatewayMessageHandler received gateway) := by
  have hidle : messageType received = none → noticed received = none := by
    intro hnone
    rw [noticed, hnone]
    rfl
  rw [gatewayMessageHandler]
  by_cases hrefused : received.topicLen = 0 ∨ 1024 < received.payload.length
  · rw [if_pos hrefused]
    exact handles_other (hidle (by rw [messageType, if_pos hrefused])) ⟨rfl, rfl⟩
      (balanced_replies fun s => ⟨rfl, rfl⟩)
  rw [if_neg hrefused]
  cases htype : getJsonType received.text with
  | error e =>
    refine handles_other (hidle (by rw [messageType, if_neg hrefused, htype]; rfl)) ⟨rfl, rfl⟩
      (balanced_replies fun s => ?_)
    simp
  | ok type =>
    cases type with
    | none =>
      exact handles_other (hidle (by rw [messageType, if_neg hrefused, htype]; rfl)) ⟨rfl, rfl⟩
        (balanced_replies fun s => ⟨rfl, rfl⟩)
    | some type =>
      have hmessage : messageType received = some type := by
        rw [messageType, if_neg hrefused, htype]
        rfl
      obtain ⟨hbound, hstrings⟩ := handleType_handles hmessage gateway
      exact ⟨hbound, fun htidy => (hstrings htidy).around List.not_mem_nil⟩

/-- A message keeps the list counted. -/
theorem handler_counted (gateway : Gateway) (received : Received) (hcounted : Counted gateway)
    (htidy : Tidy gateway received) : Counted (gatewayMessageHandler received gateway).1 := by
  obtain ⟨hlist, hnum⟩ := (handler_handles received gateway).bound
  have hafter : Counted (boundAfter received gateway) := by
    rw [boundAfter]
    cases hnotice : noticed received with
    | none => exact hcounted
    | some notice => exact applyDevices_counted 0 _ hcounted (htidy notice.1 notice.2 hnotice).1
  refine ⟨?_, ?_⟩
  · rw [hlist, hnum]
    exact hafter.num
  · rw [hlist]
    exact hafter.apart

/-- In a run of tidy messages the devices are counted and bound once; the entries that name no
device change nothing, and every string of a message is released exactly once. -/
theorem run_bindList (messages : List Received)
    (htidy : Along gatewayMessageHandler Tidy messages construct) :
    Counted (run gatewayMessageHandler messages construct).1 ∧
      Along gatewayMessageHandler (fun gateway received =>
        SameBound (gatewayMessageHandler received gateway).1 (boundAfter received gateway) ∧
          ReleasedOnce (gatewayMessageHandler received gateway).2) messages construct := by
  constructor
  · exact run_invariant handler_counted ⟨rfl, List.nodup_nil⟩ htidy
  · apply htidy.mono
    intro gateway received htidy
    obtain ⟨hbound, hstrings⟩ := handler_handles received gateway
    exact ⟨hbound, fun s => ⟨(hstrings htidy s).2.1, (hstrings htidy s).1⟩⟩

def bindText : List UInt8 :=
  ascii "\x7b\"type\":\"change\"," ++ ascii "\"payload\":\x7b\"status\":1," ++
    ascii "\"devices\":" ++
    ascii "[\x7b\"product_id\":" ++ ascii "\"P\",\"device_name\":" ++ ascii "\"d\"\x7d]\x7d\x7d"

theorem unmixed_single (op : DeviceOp) (alloc : ℕ → Bool) (k : ℕ) (entry : Entry)
    (gateway : Gateway) :
    Unmixed op alloc k [entry] gateway := by
  rw [Unmixed]
  split
  · trivial
  · trivial
  · split
    · trivial
    · trivial
    · split
      · trivial
      · refine ⟨?_, trivial⟩
        intro next hmem
        cases hmem

/-- The same device is taken away. -/
def unbindText : List UInt8 :=
  ascii "\x7b\"type\":\"change\"," ++ ascii "\"payload\":\x7b\"status\":0," ++
    ascii "\"devices\":" ++
    ascii "[\x7b\"product_id\":" ++ ascii "\"P\",\"device_name\":" ++ ascii "\"d\"\x7d]\x7d\x7d"

/-- A notification about this device is tidy where it is not bound. -/
theorem tidy_notice {text : List UInt8} {status : ℤ} {gateway : Gateway}
    (hnoticed : noticed ⟨1, text, fun _ => true⟩ = some (ascii "[\x7b\"product_id\":" ++
      ascii "\"P\",\"device_name\":" ++ ascii "\"d\"\x7d]", status))
    (hnew : noticeOp status ≠ .unbind → bindInfo (ascii "P") (ascii "d") ∉ gateway.bindList) :
    Tidy gateway ⟨1, text, fun _ => true⟩ := by
  intro devices status' hnotice
  rw [hnoticed] at hnotice
  injection hnotice with hnotice
  injection hnotice with hdevices hstatus
  subst hdevices hstatus
  have hnamed : namedDevices (entriesOf (ascii "[\x7b\"product_id\":" ++
      ascii "\"P\",\"device_name\":" ++ ascii "\"d\"\x7d]")) =
        [(ascii "P", ascii "d")] := by decide +kernel
  have hone : (entriesOf (ascii "[\x7b\"product_id\":" ++
      ascii "\"P\",\"device_name\":" ++ ascii "\"d\"\x7d]")).length = 1 := by decide +kernel
  obtain ⟨entry, hentry⟩ := List.length_eq_one_iff.mp hone
  rw [hnamed, hentry]
  refine ⟨?_, unmixed_single ..⟩
  rw [BindsNew]
  split
  · trivial
  · exact ⟨hnew, trivial⟩

/-- A device is bound, and taken away again. -/
theorem run_bindList_again :
    Counted (run gatewayMessageHandler
        [⟨1, bindText, fun _ => true⟩, ⟨1, unbindText, fun _ => true⟩] construct).1 ∧
      Along gatewayMessageHandler (fun gateway received =>
        SameBound (gatewayMessageHandler received gateway).1 (boundAfter received gateway) ∧
          ReleasedOnce (gatewayMessageHandler received gateway).2)
        [⟨1, bindText, fun _ => true⟩, ⟨1, unbindText, fun _ => true⟩] construct := by
  have hbind : noticed ⟨1, bindText, fun _ => true⟩ = some (ascii "[\x7b\"product_id\":" ++
      ascii "\"P\",\"device_name\":" ++ ascii "\"d\"\x7d]", 1) := by decide +kernel
  have hunbind : noticed ⟨1, unbindText, fun _ => true⟩ = some (ascii "[\x7b\"product_id\":" ++
      ascii "\"P\",\"device_name\":" ++ ascii "\"d\"\x7d]", 0) := by decide +kernel
  exact run_bindList [⟨1, bindText, fun _ => true⟩, ⟨1, unbindText, fun _ => true⟩]
    ⟨tidy_notice hbind fun _ => List.not_mem_nil,
      tidy_notice hunbind fun hbinds => absurd rfl hbinds, trivial⟩

/-- A device is bound again. -/
theorem run_bindList_twice : ¬ ∀ messages : List Received,
    Counted (run gatewayMessageHandler messages construct).1 ∧
      Along gatewayMessageHandler (fun gateway received =>
        SameBound (gatewayMessageHandler received gateway).1 (boundAfter received gateway) ∧
          ReleasedOnce (gatewayMessageHandler received gateway).2) messages construct := by
  intro hall
  have happly := (hall [⟨1, bindText, fun _ => true⟩, ⟨1, bindText, fun _ => true⟩]).1.apart
  have htwice : ¬ (run gatewayMessageHandler [⟨1, bindText, fun _ => true⟩,
      ⟨1, bindText, fun _ => true⟩] construct).1.bindList.Nodup := by
    decide +kernel
  exact htwice happly

end Notices

end IotExplorer.GatewayBindList
