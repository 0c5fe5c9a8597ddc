import Mathlib.Tactic.Ring
import Mathlib.Tactic.Linarith

/-!
Little-endian digit strings with a continuation mark. A number is written in
base `b`, low digit first, and every digit but the last carries the mark `b`.
Both directions have a digit budget, so they run by structural recursion. The
main facts are the round trip, the exact budget a number needs, and that a
number which needs more digits than the reader allows is refused.
-/
namespace IotExplorer.Basis.VarLength

variable {b : ℕ}

/-- At most `k` digits of `n`; the last digit within the budget is unmarked. -/
def encode (b : ℕ) : ℕ → ℕ → List ℕ
  | 0, _ => []
  | k + 1, n => if n / b = 0 then [n % b] else (n % b + b) :: encode b k (n / b)

/-- Read at most `k` digits; the number and the digits that follow it. -/
def decode (b : ℕ) : ℕ → List ℕ → Option (ℕ × List ℕ)
  | 0, _ => none
  | _ + 1, [] => none
  | k + 1, d :: rest =>
      if d < b then some (d, rest)
      else (decode b k rest).map fun p => (d - b + b * p.1, p.2)

theorem encode_ne_nil (k n : ℕ) : encode b (k + 1) n ≠ [] := by
  unfold encode
  split <;> simp

/-- A number below `b ^ (k + 1)` needs at most `k + 1` digits, whatever the budget. -/
theorem encode_length_le_iff (hb : 1 < b) (k j n : ℕ) (hk : n < b ^ (k + 1)) :
    (encode b (k + 1) n).length ≤ j + 1 ↔ n < b ^ (j + 1) := by
  induction j generalizing k n with
  | zero =>
    unfold encode
    split
    next h => simp [Nat.div_eq_zero_iff] at h ⊢; omega
    next h =>
      have hle : b ≤ n := by
        by_contra hlt
        exact h (Nat.div_eq_of_lt (by omega))
      cases k with
      | zero => simp at hk; omega
      | succ k =>
        have hne := encode_ne_nil (b := b) k (n / b)
        have hpos := List.length_pos_iff.mpr hne
        simp only [List.length_cons, zero_add, pow_one]
        omega
  | succ j ih =>
    unfold encode
    split
    next h =>
      have hlt : n < b := by
        rcases Nat.div_eq_zero_iff.mp h with h | h <;> omega
      have hpow : b ^ 1 ≤ b ^ (j + 1 + 1) := Nat.pow_le_pow_right (by omega) (by omega)
      simp only [List.length_singleton, pow_one] at hpow ⊢
      omega
    next h =>
      cases k with
      | zero =>
        exact absurd (Nat.div_eq_of_lt (by simpa using hk)) h
      | succ k =>
        have hdiv : n / b < b ^ (k + 1) := by
          rw [Nat.div_lt_iff_lt_mul (by omega), ← pow_succ]
          exact hk
        have hstep := ih k (n / b) hdiv
        have hpow : n / b < b ^ (j + 1) ↔ n < b ^ (j + 1 + 1) := by
          rw [Nat.div_lt_iff_lt_mul (by omega), ← pow_succ]
        simp only [List.length_cons, Nat.add_le_add_iff_right]
        rw [hstep, hpow]

/-- The round trip: a reader with a sufficient budget gets the number back. -/
theorem decode_encode (hb : 1 < b) (k j n : ℕ) (rest : List ℕ)
    (hk : n < b ^ (k + 1)) (hj : n < b ^ (j + 1)) :
    decode b (j + 1) (encode b (k + 1) n ++ rest) = some (n, rest) := by
  induction k generalizing j n with
  | zero =>
    have hlt : n < b := by simpa using hk
    simp [encode, decode, Nat.div_eq_of_lt hlt, Nat.mod_eq_of_lt hlt, hlt]
  | succ k ih =>
    have hmod : n % b < b := Nat.mod_lt n (by omega)
    have hsplit : n % b + b * (n / b) = n := Nat.mod_add_div n b
    unfold encode
    split
    next h =>
      have hn : n % b = n := by simpa [h] using hsplit
      rw [List.singleton_append, decode, if_pos hmod, hn]
    next h =>
      cases j with
      | zero => exact absurd (Nat.div_eq_of_lt (by simpa using hj)) h
      | succ j =>
        have hdk : n / b < b ^ (k + 1) := by
          rw [Nat.div_lt_iff_lt_mul (by omega), ← pow_succ]
          exact hk
        have hdj : n / b < b ^ (j + 1) := by
          rw [Nat.div_lt_iff_lt_mul (by omega), ← pow_succ]
          exact hj
        have hmark : ¬ n % b + b < b := by omega
        rw [List.cons_append, decode, if_neg hmark, ih j (n / b) hdk hdj]
        simpa using hsplit

/-- A number that needs more digits than the reader's budget is refused. -/
theorem decode_encode_eq_none (hb : 1 < b) (k j n : ℕ) (rest : List ℕ)
    (hk : n < b ^ (k + 1)) (hj : b ^ j ≤ n) :
    decode b j (encode b (k + 1) n ++ rest) = none := by
  induction j generalizing k n with
  | zero => rfl
  | succ j ih =>
    have hbn : b ≤ n := by
      have hpow : b ^ 1 ≤ b ^ (j + 1) := Nat.pow_le_pow_right (by omega) (by omega)
      rw [pow_one] at hpow
      omega
    have hdiv : n / b ≠ 0 := by
      rw [Ne, Nat.div_eq_zero_iff]
      omega
    cases k with
    | zero => simp at hk; omega
    | succ k =>
      have hdk : n / b < b ^ (k + 1) := by
        rw [Nat.div_lt_iff_lt_mul (by omega), ← pow_succ]
        exact hk
      have hdj : b ^ j ≤ n / b := by
        rw [Nat.le_div_iff_mul_le (by omega), ← pow_succ]
        exact hj
      have hmark : ¬ n % b + b < b := by omega
      rw [encode, if_neg hdiv, List.cons_append, decode, if_neg hmark,
        ih k (n / b) hdk hdj]
      rfl

/-- What a successful read consumed, and the size of the number it returned. -/
theorem decode_eq_some {j n : ℕ} {digits rest : List ℕ}
    (h : decode b j digits = some (n, rest)) (hd : ∀ d ∈ digits, d < 2 * b) :
    ∃ used, digits = used ++ rest ∧ 0 < used.length ∧ used.length ≤ j ∧
      n < b ^ used.length := by
  induction j generalizing n digits with
  | zero => simp [decode] at h
  | succ j ih =>
    cases digits with
    | nil => simp [decode] at h
    | cons d tail =>
      have hd2 : d < 2 * b := hd d (List.mem_cons_self ..)
      by_cases hlt : d < b
      · simp only [decode, if_pos hlt, Option.some.injEq, Prod.mk.injEq] at h
        obtain ⟨rfl, rfl⟩ := h
        exact ⟨[d], rfl, by simp, by simp, by simpa using hlt⟩
      · simp only [decode, if_neg hlt, Option.map_eq_some_iff, Prod.mk.injEq] at h
        obtain ⟨⟨m, rest'⟩, hrec, rfl, rfl⟩ := h
        obtain ⟨used, rfl, hpos, hle, hm⟩ :=
          ih hrec (fun x hx => hd x (List.mem_cons_of_mem _ hx))
        refine ⟨d :: used, rfl, by simp, by simpa using hle, ?_⟩
        change d - b + b * m < b ^ (d :: used).length
        have hmul : b * (m + 1) ≤ b * b ^ used.length := Nat.mul_le_mul_left b hm
        rw [List.length_cons, pow_succ, Nat.mul_comm (b ^ used.length) b]
        rw [Nat.mul_add, Nat.mul_one] at hmul
        omega

end IotExplorer.Basis.VarLength
