import Mathlib.Data.List.Nodup

/-!
A ring that remembers the last n elements put into it. Unused slots hold a
filler. `Remembers` relates the slots and the write index to the list of all
elements put in so far, newest first: going backwards from the write index one
meets that list, cut at n and padded with the filler. Apart from the filler,
what is in the ring is what is among the n newest.
-/
namespace IotExplorer.Basis.RecentRing

variable {α : Type*} {n index : ℕ} {filler x : α} {slots recent : List α}

/-- The slot written `j + 1` steps before the write index comes to `index`. -/
def slotBack (n index j : ℕ) : ℕ := if j < index then index - 1 - j else index + n - 1 - j

/-- The write index after one more element. -/
def nextIndex (n index : ℕ) : ℕ := if index + 1 ≥ n then (index + 1) % n else index + 1

structure Remembers (n : ℕ) (filler : α) (slots : List α) (index : ℕ) (recent : List α) : Prop where
  length : slots.length = n
  inside : index < n
  back : ∀ j < n, slots[slotBack n index j]? = some (recent.getD j filler)

theorem slotBack_lt (hindex : index < n) {j : ℕ} (hj : j < n) : slotBack n index j < n := by
  unfold slotBack
  split <;> omega

/-- Going back reaches every slot. -/
theorem exists_slotBack (hindex : index < n) {i : ℕ} (hi : i < n) :
    ∃ j < n, slotBack n index j = i := by
  by_cases hlt : i < index
  · refine ⟨index - 1 - i, by omega, ?_⟩
    rw [slotBack, if_pos (by omega)]
    omega
  · refine ⟨index + n - 1 - i, by omega, ?_⟩
    rw [slotBack, if_neg (by omega)]
    omega

theorem nextIndex_cases (hindex : index < n) :
    (index + 1 = n ∧ nextIndex n index = 0) ∨ (index + 1 < n ∧ nextIndex n index = index + 1) := by
  unfold nextIndex
  by_cases hlast : index + 1 = n
  · left
    rw [if_pos (by omega), hlast, Nat.mod_self]
    exact ⟨rfl, rfl⟩
  · right
    rw [if_neg (by omega)]
    exact ⟨by omega, rfl⟩

theorem remembers_empty (hn : 0 < n) : Remembers n filler (List.replicate n filler) 0 [] where
  length := List.length_replicate
  inside := hn
  back := fun j hj => by
    rw [List.getElem?_replicate, if_pos (slotBack_lt hn hj)]
    rfl

/-- Putting an element in makes it the newest. -/
theorem Remembers.insert (h : Remembers n filler slots index recent) (x : α) :
    Remembers n filler (slots.set index x) (nextIndex n index) (x :: recent) where
  length := List.length_set.trans h.length
  inside := by
    have hinside := h.inside
    rcases nextIndex_cases h.inside with ⟨-, hnext⟩ | ⟨hlt, hnext⟩ <;> omega
  back := by
    have hinside := h.inside
    intro j hj
    cases j with
    | zero =>
      have hnewest : slotBack n (nextIndex n index) 0 = index := by
        unfold slotBack
        rcases nextIndex_cases h.inside with ⟨hlast, hnext⟩ | ⟨hlt, hnext⟩ <;> rw [hnext]
        · rw [if_neg (by omega)]
          omega
        · rw [if_pos (by omega)]
          omega
      rw [hnewest, List.getElem?_set_self (by rw [h.length]; exact hinside)]
      rfl
    | succ j =>
      have holder : slotBack n (nextIndex n index) (j + 1) = slotBack n index j := by
        unfold slotBack
        rcases nextIndex_cases h.inside with ⟨hlast, hnext⟩ | ⟨hlt, hnext⟩ <;> rw [hnext]
        · rw [if_neg (by omega)]
          split <;> omega
        · split <;> split <;> omega
      have hother : index ≠ slotBack n index j := by
        unfold slotBack
        split <;> omega
      rw [holder, List.getElem?_set_ne hother, h.back j (by omega)]
      rfl

/-- A slot that does not hold the filler holds one of the newest elements; once n
elements were put in, every slot does. -/
theorem Remembers.place (h : Remembers n filler slots index recent) {i : ℕ}
    (hx : x ≠ filler ∨ n ≤ recent.length) (hi : slots[i]? = some x) :
    ∃ j < n, slotBack n index j = i ∧ (recent.take n)[j]? = some x := by
  obtain ⟨hlt, -⟩ := List.getElem?_eq_some_iff.mp hi
  obtain ⟨j, hj, hback⟩ := exists_slotBack h.inside (h.length ▸ hlt)
  have hslot := h.back j hj
  rw [hback, hi, Option.some.injEq, List.getD_eq_getElem?_getD] at hslot
  refine ⟨j, hj, hback, ?_⟩
  rw [List.getElem?_take_of_lt hj]
  cases hget : recent[j]? with
  | none =>
    rw [hget] at hslot
    have hshort : recent.length ≤ j := List.getElem?_eq_none_iff.mp hget
    rcases hx with hx | hfull
    · exact absurd hslot hx
    · omega
  | some y =>
    rw [hget] at hslot
    exact congrArg some hslot.symm

theorem Remembers.mem_of_recent (h : Remembers n filler slots index recent)
    (hmem : x ∈ recent.take n) : x ∈ slots := by
  obtain ⟨j, hj⟩ := List.mem_iff_getElem?.mp hmem
  obtain ⟨hlt, -⟩ := List.getElem?_eq_some_iff.mp hj
  have hn : j < n := by
    rw [List.length_take] at hlt
    omega
  rw [List.getElem?_take_of_lt hn] at hj
  refine List.mem_iff_getElem?.mpr ⟨slotBack n index j, ?_⟩
  rw [h.back j hn, List.getD_eq_getElem?_getD, hj]
  rfl

/-- The ring holds exactly the newest elements, besides the filler. -/
theorem Remembers.mem_iff (h : Remembers n filler slots index recent)
    (hx : x ≠ filler ∨ n ≤ recent.length) : x ∈ slots ↔ x ∈ recent.take n := by
  refine ⟨fun hmem => ?_, h.mem_of_recent⟩
  obtain ⟨i, hi⟩ := List.mem_iff_getElem?.mp hmem
  obtain ⟨j, -, -, hget⟩ := h.place hx hi
  exact List.mem_iff_getElem?.mpr ⟨j, hget⟩

/-- A ring that has room left holds the filler. -/
theorem Remembers.filler_mem (h : Remembers n filler slots index recent)
    (hroom : recent.length < n) : filler ∈ slots := by
  refine List.mem_iff_getElem?.mpr ⟨slotBack n index recent.length, ?_⟩
  rw [h.back recent.length hroom, List.getD_eq_getElem?_getD, List.getElem?_eq_none (Nat.le_refl _)]
  rfl

/-- No element but the filler is in two slots when the newest ones are distinct. -/
theorem Remembers.slots_inj (h : Remembers n filler slots index recent)
    (hdistinct : (recent.take n).Nodup) {i i' : ℕ} (hx : x ≠ filler ∨ n ≤ recent.length)
    (hi : slots[i]? = some x) (hi' : slots[i']? = some x) : i = i' := by
  obtain ⟨j, -, rfl, hget⟩ := h.place hx hi
  obtain ⟨j', -, rfl, hget'⟩ := h.place hx hi'
  obtain ⟨hlt, hget⟩ := List.getElem?_eq_some_iff.mp hget
  obtain ⟨hlt', hget'⟩ := List.getElem?_eq_some_iff.mp hget'
  rw [(List.Nodup.getElem_inj_iff hdistinct).mp (hget.trans hget'.symm)]

/-- Putting in an element that is not among the newest keeps these distinct. -/
theorem nodup_take_cons (hdistinct : (recent.take n).Nodup) (hx : x ∉ recent.take n) :
    ((x :: recent).take n).Nodup := by
  cases n with
  | zero => exact List.nodup_nil
  | succ n =>
    have hsub : (recent.take n).Sublist (recent.take (n + 1)) :=
      (List.take_prefix_take_left (Nat.le_succ n)).sublist
    exact List.nodup_cons.mpr ⟨fun hmem => hx (hsub.subset hmem), hsub.nodup hdistinct⟩

end IotExplorer.Basis.RecentRing
