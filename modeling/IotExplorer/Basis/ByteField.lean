import Mathlib.Data.UInt
import Mathlib.Data.List.Basic
import Mathlib.Dynamics.PeriodicPts.Defs
import Mathlib.Data.Finset.Card
import Mathlib.Data.Nat.Bitwise
import Mathlib.Data.Nat.Prime.Basic
import Mathlib.Tactic.NormNum.Prime
import Mathlib.Order.Interval.Finset.Nat

/-!
Bytes as polynomials over two elements modulo X^8 + X^4 + X^3 + X + 1, the lowest bit for the
constant. The sum is the exclusive or. What is additive is known from the bytes with one bit;
the powers of X + 1 are all bytes but zero.
-/
namespace IotExplorer.Basis.ByteField

def double (x : UInt8) : UInt8 := (x <<< 1) ^^^ (if x &&& 0x80 = 0 then 0 else 0x1B)

def triple (x : UInt8) : UInt8 := x ^^^ double x

/-- The bits of the first factor, the lowest first. -/
def mulBits : ℕ → UInt8 → UInt8 → UInt8
  | 0, _, _ => 0
  | n + 1, x, y => (if x &&& 1 = 0 then 0 else y) ^^^ mulBits n (x >>> 1) (double y)

def mul (x y : UInt8) : UInt8 := mulBits 8 x y

def power (n : ℕ) : UInt8 := triple^[n] 1

/-- Zero goes with zero, and another byte with the one whose product with it is one. -/
def IsInverse (x y : UInt8) : Prop := (x = 0 ∧ y = 0) ∨ mul x y = 1

def Additive (f : UInt8 → UInt8) : Prop := ∀ x y, f (x ^^^ y) = f x ^^^ f y

section Additive
variable {f g : UInt8 → UInt8}

theorem forall_byte {p : UInt8 → Prop} (h : ∀ n < 256, p (UInt8.ofNat n)) (x : UInt8) : p x := by
  have hx := h x.toNat x.toNat_lt
  rwa [UInt8.ofNat_toNat] at hx

/-- A byte has a bit or not. -/
theorem and_bit_cases (x : UInt8) {k : ℕ} (hk : k < 8) :
    x &&& UInt8.ofNat (2 ^ k) = 0 ∨ x &&& UInt8.ofNat (2 ^ k) = UInt8.ofNat (2 ^ k) := by
  have hlt : 2 ^ k < 2 ^ 8 := Nat.pow_lt_pow_right (by decide) hk
  have hbit : (UInt8.ofNat (2 ^ k)).toNat = 2 ^ k := UInt8.toNat_ofNat_of_lt' hlt
  simp only [← UInt8.toNat_inj, UInt8.toNat_and, hbit, Nat.and_two_pow]
  cases x.toNat.testBit k with
  | false => exact Or.inl (Nat.zero_mul _)
  | true => exact Or.inr (Nat.one_mul _)

theorem and_one_cases (x : UInt8) : x &&& 1 = 0 ∨ x &&& 1 = 1 :=
  and_bit_cases x (k := 0) (by decide)

theorem and_high_cases (x : UInt8) : x &&& 0x80 = 0 ∨ x &&& 0x80 = 0x80 :=
  and_bit_cases x (k := 7) (by decide)

theorem xor_and (x y z : UInt8) : (x ^^^ y) &&& z = (x &&& z) ^^^ (y &&& z) := by
  apply UInt8.toBitVec_inj.mp
  ext i
  simp [Bool.and_xor_distrib_right]

/-- A bit chooses a byte or zero. -/
theorem select_xor {bit x y : UInt8} (c : UInt8) (hbit : bit ≠ 0)
    (hx : x &&& bit = 0 ∨ x &&& bit = bit) (hy : y &&& bit = 0 ∨ y &&& bit = bit) :
    (if (x ^^^ y) &&& bit = 0 then 0 else c) =
      (if x &&& bit = 0 then 0 else c) ^^^ (if y &&& bit = 0 then 0 else c) := by
  rw [xor_and]
  rcases hx with hx | hx <;> rcases hy with hy | hy <;> simp [hx, hy, hbit]

theorem double_xor (x y : UInt8) : double (x ^^^ y) = double x ^^^ double y := by
  unfold double
  rw [select_xor 0x1B (by decide) (and_high_cases x) (and_high_cases y), UInt8.shiftLeft_xor]
  ac_rfl

theorem mulBits_xor_right (n : ℕ) (x y z : UInt8) :
    mulBits n x (y ^^^ z) = mulBits n x y ^^^ mulBits n x z := by
  induction n generalizing x y z with
  | zero => exact UInt8.xor_self.symm
  | succ n ih =>
    rw [mulBits, mulBits, mulBits, double_xor, ih]
    split_ifs
    · simp
    · ac_rfl

theorem mulBits_xor_left (n : ℕ) (x y z : UInt8) :
    mulBits n (x ^^^ y) z = mulBits n x z ^^^ mulBits n y z := by
  induction n generalizing x y z with
  | zero => exact UInt8.xor_self.symm
  | succ n ih =>
    rw [mulBits, mulBits, mulBits, select_xor z (by decide) (and_one_cases x) (and_one_cases y),
      UInt8.shiftRight_xor, ih]
    ac_rfl

theorem mul_xor (x y z : UInt8) : mul x (y ^^^ z) = mul x y ^^^ mul x z :=
  mulBits_xor_right 8 x y z

theorem xor_mul (x y z : UInt8) : mul (x ^^^ y) z = mul x z ^^^ mul y z :=
  mulBits_xor_left 8 x y z

theorem Additive.zero (h : Additive f) : f 0 = 0 := by
  have h0 := h 0 0
  rw [UInt8.xor_self, UInt8.xor_self] at h0
  exact h0

/-- A number with one bit more is the sum of the bit and the rest. -/
theorem ofNat_two_pow_add {k n : ℕ} (hn : n < 2 ^ k) :
    UInt8.ofNat (2 ^ k + n) = UInt8.ofNat (2 ^ k) ^^^ UInt8.ofNat n := by
  rw [← UInt8.ofNat_xor]
  congr 1
  refine Nat.eq_of_testBit_eq fun i => ?_
  rw [Nat.testBit_xor, Nat.testBit_two_pow]
  rcases Nat.lt_trichotomy i k with hi | rfl | hi
  · simp [Nat.testBit_two_pow_add_gt hi, hi.ne']
  · simp [Nat.testBit_two_pow_add_eq, Nat.testBit_lt_two_pow hn]
  · have hsmall : 2 ^ k + n < 2 ^ i := calc
      2 ^ k + n < 2 ^ k + 2 ^ k := Nat.add_lt_add_left hn _
      _ = 2 ^ (k + 1) := by rw [Nat.pow_succ, Nat.mul_two]
      _ ≤ 2 ^ i := Nat.pow_le_pow_right (by decide) hi
    simp [Nat.testBit_lt_two_pow hsmall, hi.ne,
      Nat.testBit_lt_two_pow (hn.trans (Nat.pow_lt_pow_right (by decide) hi))]

/-- What is additive is known from the bytes with one bit, by induction on the bits. -/
theorem Additive.eq (hf : Additive f) (hg : Additive g)
    (h : ∀ k < 8, f (UInt8.ofNat (2 ^ k)) = g (UInt8.ofNat (2 ^ k))) (x : UInt8) : f x = g x := by
  have hbelow (k : ℕ) (hk : k ≤ 8) : ∀ n < 2 ^ k, f (UInt8.ofNat n) = g (UInt8.ofNat n) := by
    induction k with
    | zero =>
      intro n hn
      obtain rfl : n = 0 := Nat.lt_one_iff.mp hn
      exact hf.zero.trans hg.zero.symm
    | succ k ih =>
      intro n hn
      by_cases hlow : n < 2 ^ k
      · exact ih (Nat.le_of_succ_le hk) n hlow
      · obtain ⟨m, rfl⟩ := Nat.exists_eq_add_of_le (Nat.le_of_not_lt hlow)
        rw [Nat.pow_succ, Nat.mul_two] at hn
        have hm := Nat.lt_of_add_lt_add_left hn
        rw [ofNat_two_pow_add hm, hf, hg, h k hk, ih (Nat.le_of_succ_le hk) m hm]
  exact forall_byte (p := fun x => f x = g x) (hbelow 8 le_rfl) x

end Additive

section Powers

theorem one_mul (x : UInt8) : mul 1 x = x :=
  Additive.eq (f := mul 1) (g := id) (mul_xor 1) (fun _ _ => rfl) (by decide) x

theorem mul_one (x : UInt8) : mul x 1 = x :=
  Additive.eq (f := fun x => mul x 1) (g := id) (fun x y => xor_mul x y 1) (fun _ _ => rfl)
    (by decide) x

theorem mul_zero (x : UInt8) : mul x 0 = 0 :=
  Additive.zero fun y z => mul_xor x y z

theorem zero_mul (x : UInt8) : mul 0 x = 0 :=
  Additive.zero (f := fun y => mul y x) fun y z => xor_mul y z x

theorem mulBits_double (n : ℕ) (x y : UInt8) :
    mulBits n x (double y) = double (mulBits n x y) := by
  induction n generalizing x y with
  | zero => exact (by decide : 0 = double 0)
  | succ n ih =>
    rw [mulBits, mulBits, ih, double_xor]
    split_ifs
    · rfl
    · rfl

theorem mul_iterate_double (k : ℕ) (x : UInt8) : mul x (double^[k] 1) = double^[k] x := by
  induction k with
  | zero => exact mul_one x
  | succ k ih => rw [Function.iterate_succ_apply', Function.iterate_succ_apply', mul,
      mulBits_double, ← mul, ih]

/-- The bytes with one bit are the first powers of X. -/
theorem double_mul (x y : UInt8) : mul (double x) y = double (mul x y) := by
  have hright : Additive fun y => double (mul x y) := by
    intro y y'
    dsimp only
    rw [mul_xor, double_xor]
  have hbit : ∀ k < 8, UInt8.ofNat (2 ^ k) = double^[k] 1 := by
    decide
  refine Additive.eq (mul_xor (double x)) hright (fun k hk => ?_) y
  rw [hbit k hk, mul_iterate_double, mul_iterate_double]
  have hfirst := Function.iterate_succ_apply double k x
  exact hfirst.symm.trans (Function.iterate_succ_apply' double k x)

theorem triple_mul (x y : UInt8) : mul (triple x) y = triple (mul x y) := by
  rw [triple, xor_mul, double_mul, triple]

theorem power_mul (n : ℕ) (x : UInt8) : mul (power n) x = triple^[n] x := by
  induction n with
  | zero => exact one_mul x
  | succ n ih => rw [power, Function.iterate_succ_apply', triple_mul, ← power, ih,
      Function.iterate_succ_apply']

/-- A product of powers is the power of the sum. -/
theorem power_mul_power (m n : ℕ) : mul (power m) (power n) = power (m + n) := by
  rw [power_mul, power, power, ← Function.iterate_add_apply]

/-- The powers at 51, 85 and 255 are products of this one. -/
theorem power_17 : power 17 = 0xE1 := by
  decide

theorem power_51 : power 51 = 0x0C := by
  rw [show 51 = 17 + (17 + 17) from rfl, ← power_mul_power, ← power_mul_power, power_17]
  decide

theorem power_85 : power 85 = 0xBD := by
  rw [show 85 = 17 + (17 + 51) from rfl, ← power_mul_power, ← power_mul_power, power_17, power_51]
  decide

theorem power_cycle : power 255 = 1 := by
  rw [show 255 = 85 + (85 + 85) from rfl, ← power_mul_power, ← power_mul_power, power_85]
  decide

theorem power_mod (n : ℕ) : power (n % 255) = power n := by
  have h : Function.IsPeriodicPt triple 255 1 := power_cycle
  exact h.iterate_mod_apply n

/-- A divisor of 255 = 3 * 5 * 17 that is not 255 divides one of the three quotients. -/
theorem eq_of_dvd {d : ℕ} (h : d ∣ 255) (h85 : ¬ d ∣ 85) (h51 : ¬ d ∣ 51) (h15 : ¬ d ∣ 15) :
    d = 255 := by
  obtain ⟨e, he⟩ := h
  by_cases hone : e = 1
  · rw [he, hone, Nat.mul_one]
  exfalso
  obtain ⟨p, hp, e, rfl⟩ := Nat.exists_prime_and_dvd hone
  have hquotient {q r : ℕ} (hq : q.Prime) (hqr : 255 = q * r) (h : p ∣ q) : d ∣ r := by
    obtain rfl := (Nat.prime_dvd_prime_iff_eq hp hq).mp h
    refine ⟨e, Nat.eq_of_mul_eq_mul_left hp.pos ?_⟩
    rw [← hqr, he, Nat.mul_left_comm]
  have hdvd : p ∣ 3 * (5 * 17) := ⟨d * e, he.trans (Nat.mul_left_comm d p e)⟩
  rcases hp.dvd_mul.mp hdvd with h | h
  · exact h85 (hquotient Nat.prime_three rfl h)
  rcases hp.dvd_mul.mp h with h | h
  · exact h51 (hquotient Nat.prime_five rfl h)
  · exact h15 (hquotient (by norm_num) rfl h)

theorem minimalPeriod_triple : Function.minimalPeriod triple 1 = 255 := by
  have h : Function.IsPeriodicPt triple 255 1 := power_cycle
  have hnot {n : ℕ} (h : power n ≠ 1) : ¬ Function.minimalPeriod triple 1 ∣ n := by
    rwa [← Function.isPeriodicPt_iff_minimalPeriod_dvd]
  refine eq_of_dvd h.minimalPeriod_dvd (hnot ?_) (hnot ?_) (hnot (by decide))
  · rw [power_85]
    decide
  · rw [power_51]
    decide

/-- The powers up to the cycle differ. -/
theorem power_injective {m n : ℕ} (hm : m < 255) (hn : n < 255) (h : power m = power n) :
    m = n := by
  have hinj := Function.iterate_injOn_Iio_minimalPeriod (f := triple) (x := 1)
  rw [minimalPeriod_triple] at hinj
  exact hinj hm hn h

theorem power_ne_zero (n : ℕ) : power n ≠ 0 := by
  intro h
  have hone : mul (power (255 - n % 255)) (power (n % 255)) = 1 := by
    rw [power_mul_power, Nat.sub_add_cancel (by omega), power_cycle]
  rw [power_mod, h, mul_zero] at hone
  exact absurd hone (by decide)

/-- Each byte but zero is a power. -/
theorem exists_power {x : UInt8} (hx : x ≠ 0) : ∃ n < 255, power n = x := by
  let image := (Finset.range 255).image fun n => (power n).toNat
  have hpos {y : UInt8} (hy : y ≠ 0) : 1 ≤ y.toNat ∧ y.toNat ≤ 255 := by
    have hlt := y.toNat_lt
    have hne : y.toNat ≠ 0 := fun h => hy (UInt8.toNat_inj.mp h)
    omega
  have hsub : image ⊆ Finset.Icc 1 255 := by
    intro k hk
    obtain ⟨n, -, rfl⟩ := Finset.mem_image.mp hk
    exact Finset.mem_Icc.mpr (hpos (power_ne_zero n))
  have hcard : image.card = 255 := by
    rw [Finset.card_image_of_injOn, Finset.card_range]
    intro m hm n hn h
    exact power_injective (Finset.mem_range.mp hm) (Finset.mem_range.mp hn) (UInt8.toNat_inj.mp h)
  have heq := Finset.eq_of_subset_of_card_le hsub (by rw [hcard, Nat.card_Icc])
  have hmem : x.toNat ∈ image := by
    rw [heq]
    exact Finset.mem_Icc.mpr (hpos hx)
  obtain ⟨n, hn, hpower⟩ := Finset.mem_image.mp hmem
  exact ⟨n, Finset.mem_range.mp hn, UInt8.toNat_inj.mp hpower⟩

theorem mul_assoc (x y z : UInt8) : mul (mul x y) z = mul x (mul y z) := by
  by_cases hx : x = 0
  · rw [hx, zero_mul, zero_mul, zero_mul]
  by_cases hy : y = 0
  · rw [hy, mul_zero, zero_mul, mul_zero]
  obtain ⟨m, -, rfl⟩ := exists_power hx
  obtain ⟨n, -, rfl⟩ := exists_power hy
  rw [power_mul_power, power_mul, power_mul, power_mul, Function.iterate_add_apply]

theorem triple_injective : Function.Injective triple := by
  refine Function.LeftInverse.injective (g := triple^[254]) fun x => ?_
  have h := power_mul 255 x
  rw [power_cycle, one_mul, Function.iterate_succ_apply] at h
  exact h.symm

theorem exists_isInverse (x : UInt8) : ∃ y, IsInverse x y := by
  by_cases hx : x = 0
  · exact ⟨0, Or.inl ⟨hx, rfl⟩⟩
  · obtain ⟨n, hn, rfl⟩ := exists_power hx
    refine ⟨power (255 - n), Or.inr ?_⟩
    rw [power_mul_power, Nat.add_sub_cancel' hn.le, power_cycle]

theorem IsInverse.right_unique {x y y' : UInt8} (h : IsInverse x y) (h' : IsInverse x y') :
    y = y' := by
  by_cases hx : x = 0
  · have hzero {y : UInt8} (h : IsInverse x y) : y = 0 := by
      rcases h with h | h
      · exact h.2
      · rw [hx, zero_mul] at h
        exact absurd h (by decide)
    rw [hzero h, hzero h']
  · have hone {y : UInt8} (h : IsInverse x y) : mul x y = 1 := h.resolve_left fun h => hx h.1
    obtain ⟨n, -, rfl⟩ := exists_power hx
    have heq := (hone h).trans (hone h').symm
    rw [power_mul, power_mul] at heq
    exact triple_injective.iterate n heq

theorem IsInverse.left_unique {x x' y : UInt8} (h : IsInverse x y) (h' : IsInverse x' y) :
    x = x' := by
  by_cases hy : y = 0
  · have hzero {x : UInt8} (h : IsInverse x y) : x = 0 := by
      rcases h with h | h
      · exact h.1
      · rw [hy, mul_zero] at h
        exact absurd h (by decide)
    rw [hzero h, hzero h']
  · have hone {x : UInt8} (h : IsInverse x y) : mul x y = 1 := h.resolve_left fun h => hy h.2
    have hne {x : UInt8} (h : mul x y = 1) : x ≠ 0 := by
      rintro rfl
      rw [zero_mul] at h
      exact absurd h (by decide)
    obtain ⟨n, -, rfl⟩ := exists_power hy
    obtain ⟨m, -, rfl⟩ := exists_power (hne (hone h))
    obtain ⟨m', -, rfl⟩ := exists_power (hne (hone h'))
    have heq := (hone h).trans (hone h').symm
    rw [power_mul_power, power_mul_power, Nat.add_comm m, Nat.add_comm m', power, power,
      Function.iterate_add_apply, Function.iterate_add_apply] at heq
    exact triple_injective.iterate n heq

end Powers

end IotExplorer.Basis.ByteField
