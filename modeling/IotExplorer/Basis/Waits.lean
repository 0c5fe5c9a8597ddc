import Mathlib.Data.Nat.Notation

/-!
Waiting for a condition at most so many steps. Where a condition stays once it holds, a wait is
successful exactly if it holds at the last step that may be waited for.
-/
namespace IotExplorer.Basis.Waits

variable (p : ℕ → Bool)

/-- The first position at which the condition holds, or the last one. -/
def waitUntil : ℕ → ℕ → ℕ
  | 0, n => n
  | limit + 1, n => if p n then n else waitUntil limit (n + 1)

variable {p}

/-- A condition that stays holds at the end of a wait if it holds at the last position. -/
theorem waitUntil_iff (hstays : ∀ n, p n = true → p (n + 1) = true) (limit n : ℕ) :
    p (waitUntil p limit n) = true ↔ p (n + limit) = true := by
  have hlater (k n : ℕ) (hn : p n = true) : p (n + k) = true := by
    induction k with
    | zero => exact hn
    | succ k ih => exact hstays _ ih
  induction limit generalizing n with
  | zero => rfl
  | succ limit ih =>
    rw [waitUntil]
    split
    next hnow => exact iff_of_true hnow (hlater _ _ hnow)
    next =>
      have hrest := ih (n + 1)
      rwa [Nat.add_assoc, Nat.add_comm 1] at hrest

end IotExplorer.Basis.Waits
