import Mathlib.Data.Nat.ModEq

/-!
A counter that hands out the ids 1 to m in turn and starts over after m. The
id of the d-th draw depends on d modulo m only, so two draws collide exactly
when their numbers are congruent, and never within a window of m draws.
-/
namespace IotExplorer.Basis.CyclicIds

/-- The counter after `d` draws, when it stood at `start`. -/
def cyclicId (m start d : ℕ) : ℕ := (start + d + (m - 1)) % m + 1

def nextId (m n : ℕ) : ℕ := if m = n then 1 else n + 1

section Draws
variable {m start d d' : ℕ}

theorem cyclicId_pos : 0 < cyclicId m start d := Nat.succ_pos _

theorem cyclicId_le (hm : 0 < m) : cyclicId m start d ≤ m := Nat.mod_lt _ hm

/-- A start between 1 and `m` is the counter before the first draw. -/
theorem cyclicId_zero (hpos : 0 < start) (hle : start ≤ m) : cyclicId m start 0 = start := by
  obtain ⟨k, rfl⟩ : ∃ k, start = k + 1 := ⟨start - 1, by omega⟩
  have hsum : k + 1 + 0 + (m - 1) = k + m := by omega
  rw [cyclicId, hsum, Nat.add_mod_right, Nat.mod_eq_of_lt (by omega)]

/-- A counter that starts at 0 or at `m` draws 1 first. -/
theorem cyclicId_one_of_zero (hm : 0 < m) : cyclicId m 0 1 = 1 := by
  have hsum : 0 + 1 + (m - 1) = m := by omega
  rw [cyclicId, hsum, Nat.mod_self]

theorem cyclicId_succ (hm : 0 < m) :
    cyclicId m start (d + 1) = nextId m (cyclicId m start d) := by
  have hsum : start + (d + 1) + (m - 1) = start + d + (m - 1) + 1 := by omega
  have hlt := Nat.mod_lt (start + d + (m - 1)) hm
  rw [nextId, cyclicId, cyclicId, hsum, Nat.add_mod]
  by_cases hlast : m = (start + d + (m - 1)) % m + 1
  · rw [if_pos hlast]
    by_cases hone : m = 1
    · subst hone
      rw [Nat.mod_one]
    · rw [Nat.mod_eq_of_lt (show 1 < m by omega), ← hlast, Nat.mod_self]
  · rw [if_neg hlast, Nat.mod_eq_of_lt (show 1 < m by omega), Nat.mod_eq_of_lt (by omega)]

/-- Two draws give the same id exactly when their numbers are congruent. -/
theorem cyclicId_eq_iff : cyclicId m start d = cyclicId m start d' ↔ d ≡ d' [MOD m] := by
  have hsum : ∀ n, start + n + (m - 1) = (start + (m - 1)) + n := fun n => by omega
  unfold cyclicId
  rw [Nat.add_right_cancel_iff, hsum d, hsum d']
  exact ⟨Nat.ModEq.add_left_cancel' _, Nat.ModEq.add_left _⟩

/-- Within `m` consecutive draws no id comes twice. -/
theorem cyclicId_inj_window {low : ℕ} (hd : low < d ∧ d ≤ low + m) (hd' : low < d' ∧ d' ≤ low + m)
    (h : cyclicId m start d = cyclicId m start d') : d = d' := by
  refine (cyclicId_eq_iff.mp h).eq_of_abs_lt ?_
  rw [abs_lt]
  omega

end Draws

end IotExplorer.Basis.CyclicIds
