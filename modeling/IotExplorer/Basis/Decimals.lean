import IotExplorer.Basis.JsonText
import Mathlib.Data.Nat.Digits.Defs
import Mathlib.Tactic.IntervalCases

/-!
The decimal digits of a natural number as bytes.
-/
namespace IotExplorer.Basis.Decimals

open JsonText

def decimal (n : ℕ) : List UInt8 := (Nat.toDigits 10 n).map fun c => UInt8.ofNat c.toNat

def digitByte (digit : ℕ) : UInt8 := UInt8.ofNat (0x30 + digit)

theorem digitChar_eq {digit : ℕ} (h : digit < 10) :
    UInt8.ofNat (Nat.digitChar digit).toNat = digitByte digit := by
  interval_cases digit <;> rfl

theorem isDigit_digitByte {digit : ℕ} (h : digit < 10) : isDigit (digitByte digit) = true := by
  interval_cases digit <;> rfl

/-- The last digit of a number stands at its end. -/
theorem decimal_eq (n : ℕ) :
    decimal n = (if n < 10 then [] else decimal (n / 10)) ++ [digitByte (n % 10)] := by
  have hlast : n % 10 < 10 := Nat.mod_lt n (by decide)
  unfold decimal
  rw [Nat.toDigits_eq_if (by decide)]
  split
  · next h =>
    rw [List.map_singleton, List.nil_append, digitChar_eq h, Nat.mod_eq_of_lt h]
  · rw [List.map_append, List.map_singleton, digitChar_eq hlast]

theorem isDigit_of_mem_decimal (n : ℕ) : ∀ c ∈ decimal n, isDigit c = true := by
  induction n using Nat.strong_induction_on with
  | _ n ih =>
    intro c hmem
    rw [decimal_eq, List.mem_append, List.mem_singleton] at hmem
    rcases hmem with hmem | rfl
    · split at hmem
      · exact absurd hmem List.not_mem_nil
      · exact ih (n / 10) (by omega) c hmem
    · exact isDigit_digitByte (Nat.mod_lt n (by decide))

theorem decimal_ne_nil (n : ℕ) : decimal n ≠ [] := by
  rw [decimal_eq]
  simp

theorem digits_decimal (n : ℕ) : digits (decimal n) = true := by
  rw [digits, Bool.and_eq_true, List.all_eq_true]
  refine ⟨?_, isDigit_of_mem_decimal n⟩
  cases h : decimal n with
  | nil => exact absurd h (decimal_ne_nil n)
  | cons c rest => rfl

theorem decimal_length_le_iff (n k : ℕ) (hk : 0 < k) : (decimal n).length ≤ k ↔ n < 10 ^ k := by
  unfold decimal
  rw [List.length_map]
  exact Nat.length_toDigits_le_iff (by decide) hk

/-- The first digit is a zero for zero only. -/
theorem decimal_head (n : ℕ) (hn : n ≠ 0) : (decimal n).head? ≠ some 0x30 := by
  induction n using Nat.strong_induction_on with
  | _ n ih =>
    rw [decimal_eq]
    by_cases hsmall : n < 10
    · rw [if_pos hsmall, Nat.mod_eq_of_lt hsmall]
      interval_cases n <;> simp_all <;> decide
    · rw [if_neg hsmall]
      have hhead := ih (n / 10) (by omega) (by omega)
      cases h : decimal (n / 10) with
      | nil => exact absurd h (decimal_ne_nil _)
      | cons c rest =>
        rw [h] at hhead
        exact hhead

end IotExplorer.Basis.Decimals
