import IotExplorer.Basis.Runs
import Mathlib.Data.Fintype.Basic
import Mathlib.Data.List.FinRange

/-!
The table of the AT sockets. A connect takes a slot under the lock, asks the device
without it, and then settles the slot; connects of other threads and closes by the peer
come in between. A slot counts as being connected as long as a thread holds it.
-/
namespace IotExplorer.AtSocket

open Basis.Runs

section Table

/-- `eSocketState`. -/
inductive SocketState
  | alloced
  | connected
  | closed
  deriving DecidableEq, Repr

/-- `at_socket_ctx_t`, as far as a connection is concerned; of the lock and the list, whether they
are there. -/
structure Slot where
  fd : ℤ
  state : SocketState
  devOp : Option Bool
  recvLock : Bool
  recvpktList : Bool
  deriving DecidableEq, Repr

/-- The table with the device driver that is registered, which can connect or not, and the slots
that are held by threads in the middle of a connect. -/
structure Table where
  slots : Fin 5 → Slot
  deviceOps : Option Bool
  connecting : List (Fin 5)

/-- `at_socket_init`. -/
def init (deviceOps : Option Bool) : Table :=
  ⟨fun _ => ⟨-1, .closed, none, false, false⟩, deviceOps, []⟩

def atSocketCtxFree (slot : Slot) : Slot :=
  { slot with fd := -1, recvLock := false, recvpktList := false }

/-- The first slot that can be used. -/
def reusable (table : Table) : Option (Fin 5) :=
  (List.finRange 5).find? fun i => (table.slots i).state = .closed

def atSocketFind (fd : ℤ) (table : Table) : Option (Fin 5) :=
  (List.finRange 5).find? fun i => (table.slots i).fd = fd

def Table.set (i : Fin 5) (slot : Slot) (table : Table) : Table :=
  { table with slots := Function.update table.slots i slot }

/-- What is seen of a connect: there is no slot, it fails, or what it returns. -/
inductive Event
  | lacksSlot
  | failed
  | returned (fd : ℤ)
  deriving DecidableEq, Repr

/-- `_at_socket_ctx_alloc`, and the check of the driver in `at_socket_connect`; the lock and the
list of the slot can be created or not. -/
def atSocketCtxAlloc (lock list : Bool) (table : Table) : Table × List Event :=
  match reusable table with
  | none => (table, [.lacksSlot])
  | some i =>
      let slot := { table.slots i with devOp := table.deviceOps, recvLock := lock }
      if !lock then (table.set i (atSocketCtxFree slot), [.failed])
      else if !list then (table.set i (atSocketCtxFree { slot with recvpktList := false }),
        [.failed])
      else
        let alloced := table.set i { slot with recvpktList := true, state := .alloced }
        if table.deviceOps = some true
          then ({ alloced with connecting := i :: table.connecting }, [])
        else (alloced, [.failed])

/-- `at_socket_connect` behind the answer of the device. -/
def atSocketSettle (i : Fin 5) (fd : ℤ) (table : Table) : Table × List Event :=
  let slot := table.slots i
  let settled :=
    if fd < 0 then atSocketCtxFree slot else { slot with fd := fd + 5, state := .connected }
  ({ table.set i settled with connecting := table.connecting.erase i }, [.returned settled.fd])

def atSocketClosedCb (fd : ℤ) (table : Table) : Table :=
  match atSocketFind (fd + 5) table with
  | none => table
  | some i => table.set i (atSocketCtxFree { table.slots i with state := .closed })

def atDeviceOpRegister (connects : Bool) (table : Table) : Table :=
  if table.deviceOps = none then { table with deviceOps := some connects } else table

end Table

section Steps

/-- What happens to the table: a thread takes a slot for a connect, the device answers to one that
holds a slot, the peer closes a connection, or a driver is registered. -/
inductive Step
  | alloc (lock list : Bool)
  | settle (i : Fin 5) (fd : ℤ)
  | closed (fd : ℤ)
  | register (connects : Bool)

def step : Step → Table → Table × List Event
  | .alloc lock list, table => atSocketCtxAlloc lock list table
  | .settle i fd, table =>
      if i ∈ table.connecting then atSocketSettle i fd table else (table, [])
  | .closed fd, table => (atSocketClosedCb fd table, [])
  | .register connects, table => (atDeviceOpRegister connects table, [])

end Steps

section Slots
variable {table : Table}

/-- A slot that no thread holds is reusable exactly when it has no connection, and no two open slots
have the same one. -/
structure SlotsRight (table : Table) : Prop where
  reusable : ∀ i, i ∉ table.connecting →
    ((table.slots i).state = .closed ↔ (table.slots i).fd = -1)
  apart : ∀ i j, (table.slots i).fd ≠ -1 → (table.slots i).fd = (table.slots j).fd → i = j

/-- A step leaves the slots right, and there is no slot for a connect only when all are open or
held. -/
def StepRight (table : Table) (s : Step) : Prop :=
  SlotsRight (step s table).1 ∧ (Event.lacksSlot ∈ (step s table).2 →
    ∀ i, i ∈ table.connecting ∨ (table.slots i).fd ≠ -1)

/-- A slot is taken only with a driver that can connect; the device connects, with a descriptor that
no slot has; and no descriptor is closed that stands for none while a slot is held. -/
def Meets (table : Table) : Step → Prop
  | .alloc lock list => (∃ i, (table.slots i).state = .closed) → lock = true → list = true →
      table.deviceOps = some true
  | .settle i fd => i ∈ table.connecting → 0 ≤ fd ∧ ∀ j, (table.slots j).fd ≠ fd + 5
  | .closed fd => fd + 5 = -1 → table.connecting = []
  | .register _ => True

structure Inv (table : Table) : Prop where
  right : SlotsRight table
  held : ∀ i ∈ table.connecting, (table.slots i).state = .alloced ∧ (table.slots i).fd = -1
  once : table.connecting.Nodup

theorem inv_init (deviceOps : Option Bool) : Inv (init deviceOps) := by
  refine ⟨⟨fun i _ => ⟨fun _ => rfl, fun _ => rfl⟩, fun i j hopen => absurd rfl hopen⟩, ?_,
    List.nodup_nil⟩
  intro i hmem
  exact absurd hmem List.not_mem_nil

theorem set_same (i : Fin 5) (slot : Slot) (table : Table) : (table.set i slot).slots i = slot :=
  Function.update_self ..

theorem set_other {i j : Fin 5} (h : j ≠ i) (slot : Slot) (table : Table) :
    (table.set i slot).slots j = table.slots j :=
  Function.update_of_ne h ..

/-- A slot loses its connection, or has none. -/
theorem inv_free {i : Fin 5} {slot : Slot} (h : Inv table) (hi : i ∉ table.connecting)
    (hfd : slot.fd = -1) (hstate : slot.state = .closed) : Inv (table.set i slot) := by
  refine ⟨⟨?_, ?_⟩, ?_, h.once⟩
  · intro j hj
    by_cases heq : j = i
    · rw [heq, set_same, hfd, hstate]
      exact ⟨fun _ => rfl, fun _ => rfl⟩
    · rw [set_other heq]
      exact h.right.reusable j hj
  · intro j k hopen hsame
    by_cases hj : j = i
    · rw [hj, set_same, hfd] at hopen
      exact absurd rfl hopen
    · rw [set_other hj] at hopen hsame
      by_cases hk : k = i
      · rw [hk, set_same, hfd] at hsame
        exact absurd hsame hopen
      · rw [set_other hk] at hsame
        exact h.right.apart j k hopen hsame
  · intro j hj
    have heq : j ≠ i := fun heq => hi (heq ▸ hj)
    rw [set_other heq]
    exact h.held j hj

theorem reusable_some {i : Fin 5} (hreusable : reusable table = some i) :
    (table.slots i).state = .closed := by
  have hfound := List.find?_some hreusable
  simpa using hfound

theorem inv_alloc {lock list : Bool} (h : Inv table) (hmeets : Meets table (.alloc lock list)) :
    Inv (atSocketCtxAlloc lock list table).1 := by
  rw [atSocketCtxAlloc]
  cases hreusable : reusable table with
  | none => exact h
  | some i =>
    have hclosed := reusable_some hreusable
    have hi : i ∉ table.connecting := by
      intro hmem
      rw [(h.held i hmem).1] at hclosed
      cases hclosed
    have hfd := (h.right.reusable i hi).mp hclosed
    dsimp only
    split_ifs with hlock hlist hdevice
    · exact inv_free h hi rfl hclosed
    · exact inv_free h hi rfl hclosed
    · -- the slot is held from now on
      refine ⟨⟨?_, ?_⟩, ?_, List.nodup_cons.mpr ⟨hi, h.once⟩⟩
      · intro j hj
        have heq : j ≠ i := fun heq => hj (heq ▸ List.mem_cons_self ..)
        dsimp only
        rw [set_other heq]
        exact h.right.reusable j fun hmem => hj (List.mem_cons_of_mem i hmem)
      · intro j k hopen hsame
        dsimp only at hopen hsame
        by_cases hj : j = i
        · rw [hj, set_same] at hopen
          exact absurd hfd hopen
        · rw [set_other hj] at hopen hsame
          by_cases hk : k = i
          · rw [hk, set_same] at hsame
            exact absurd (hsame.trans hfd) hopen
          · rw [set_other hk] at hsame
            exact h.right.apart j k hopen hsame
      · intro j hj
        dsimp only
        by_cases heq : j = i
        · rw [heq, set_same]
          exact ⟨rfl, hfd⟩
        · rw [set_other heq]
          exact h.held j ((List.mem_cons.mp hj).resolve_left heq)
    · exact absurd (hmeets ⟨i, hclosed⟩ (by simpa using hlock) (by simpa using hlist)) hdevice

theorem inv_settle {i : Fin 5} {fd : ℤ} (h : Inv table) (hi : i ∈ table.connecting)
    (hmeets : Meets table (.settle i fd)) : Inv (atSocketSettle i fd table).1 := by
  obtain ⟨hfd, hnew⟩ := hmeets hi
  rw [atSocketSettle, if_neg (Int.not_lt.mpr hfd)]
  refine ⟨⟨?_, ?_⟩, ?_, h.once.erase i⟩
  · intro j hj
    dsimp only at hj ⊢
    by_cases heq : j = i
    · rw [heq, set_same]
      constructor
      · intro hs
        cases hs
      · intro hs
        dsimp only at hs
        omega
    · rw [set_other heq]
      exact h.right.reusable j fun hmem => hj ((List.mem_erase_of_ne heq).mpr hmem)
  · intro j k hopen hsame
    dsimp only at hopen hsame
    by_cases hj : j = i
    · by_cases hk : k = i
      · rw [hj, hk]
      · rw [hj, set_same, set_other hk] at hsame
        exact absurd hsame.symm (hnew k)
    · rw [set_other hj] at hopen hsame
      by_cases hk : k = i
      · rw [hk, set_same] at hsame
        exact absurd hsame (hnew j)
      · rw [set_other hk] at hsame
        exact h.right.apart j k hopen hsame
  · intro j hj
    dsimp only at hj ⊢
    have heq : j ≠ i := by
      rintro rfl
      exact h.once.not_mem_erase hj
    rw [set_other heq]
    exact h.held j (List.mem_of_mem_erase hj)

theorem inv_closed {fd : ℤ} (h : Inv table) (hmeets : Meets table (.closed fd)) :
    Inv (atSocketClosedCb fd table) := by
  rw [atSocketClosedCb]
  cases hfind : atSocketFind (fd + 5) table with
  | none => exact h
  | some i =>
    have hfd : (table.slots i).fd = fd + 5 := by
      have hfound := List.find?_some hfind
      simpa using hfound
    have hi : i ∉ table.connecting := by
      intro hmem
      have hnone := hmeets (hfd.symm.trans (h.held i hmem).2)
      rw [hnone] at hmem
      exact absurd hmem List.not_mem_nil
    exact inv_free h hi rfl rfl

/-- A step keeps what is promised. -/
theorem inv_step (table : Table) (s : Step) (h : Inv table) (hmeets : Meets table s) :
    Inv (step s table).1 := by
  cases s with
  | alloc lock list => exact inv_alloc h hmeets
  | settle i fd =>
    rw [step]
    split_ifs with hi
    · exact inv_settle h hi hmeets
    · exact h
  | closed fd => exact inv_closed h hmeets
  | register connects =>
    rw [step, atDeviceOpRegister]
    split_ifs
    · exact ⟨⟨h.right.reusable, h.right.apart⟩, h.held, h.once⟩
    · exact h

/-- Without a reusable slot all are open or held. -/
theorem lacksSlot_step (table : Table) (s : Step) (h : Inv table)
    (hlacks : Event.lacksSlot ∈ (step s table).2) (i : Fin 5) :
    i ∈ table.connecting ∨ (table.slots i).fd ≠ -1 := by
  cases s with
  | alloc lock list =>
    rw [step, atSocketCtxAlloc] at hlacks
    cases hreusable : reusable table with
    | none =>
      rw [or_iff_not_imp_left]
      intro hi hfd
      have hclosed := List.find?_eq_none.mp hreusable i (List.mem_finRange i)
      exact absurd (decide_eq_true ((h.right.reusable i hi).mpr hfd)) hclosed
    | some j =>
      rw [hreusable] at hlacks
      dsimp only at hlacks
      split_ifs at hlacks <;> simp at hlacks
  | settle j fd =>
    rw [step] at hlacks
    split_ifs at hlacks
    · rw [atSocketSettle] at hlacks
      simp at hlacks
    · exact absurd hlacks List.not_mem_nil
  | closed fd => exact absurd hlacks List.not_mem_nil
  | register connects => exact absurd hlacks List.not_mem_nil

/-- In a run in which the device connects, the slots stay right. -/
theorem run_stepRight (deviceOps : Option Bool) (steps : List Step)
    (hmeets : Along step Meets steps (init deviceOps)) :
    Along step StepRight steps (init deviceOps) :=
  hmeets.of_invariant inv_step
    (fun table s h hmeets => ⟨(inv_step table s h hmeets).right, lacksSlot_step table s h⟩)
    (inv_init deviceOps)

theorem run_stepRight_closed :
    Along step StepRight [.alloc true true, .settle 0 0, .closed 0] (init (some true)) := by
  apply run_stepRight
  refine ⟨fun _ _ _ => rfl, fun _ => ⟨by decide, by decide⟩, fun h => absurd h (by decide), trivial⟩

/-- A slot for which the device fails is neither open nor reusable. -/
theorem run_stepRight_failed : ¬ ∀ (deviceOps : Option Bool) (steps : List Step),
    Along step StepRight steps (init deviceOps) := by
  intro hall
  have hright := (hall (some true) [.alloc true true, .settle 0 (-1)]).2.1.1.reusable 0
  exact absurd (hright (by decide)) (by decide)

end Slots

end IotExplorer.AtSocket
