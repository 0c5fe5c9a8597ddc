import IotExplorer.Basis.ByteField
import Mathlib.Logic.Function.Basic

/-!
The tables of AES as they are generated: powers and logarithms of bytes, the boxes that are made
of them, and for each byte the column that a round mixes it to. The forward box is the affine
image of the inverse of a byte, and the reverse box undoes it; a column of the forward tables is
that of the mixing, one of the reverse tables that of its inverse.
-/
namespace IotExplorer.AesTables

open Basis.ByteField

section Generation

/-- `XTIME`, of a byte. -/
def xtime (x : UInt8) : UInt8 := (x <<< 1) ^^^ (if x &&& 0x80 ≠ 0 then 0x1B else 0x00)

/-- `pow` and `log`, and the byte that the loop is at. -/
structure PowLog where
  pow : ℕ → UInt8
  log : UInt8 → ℕ
  x : UInt8

def powLogStep (t : PowLog) (i : ℕ) : PowLog :=
  ⟨Function.update t.pow i t.x, Function.update t.log t.x i, t.x ^^^ xtime t.x⟩

def powLogAfter (n : ℕ) : PowLog :=
  (List.range n).foldl powLogStep ⟨fun _ => 0, fun _ => 0, 1⟩

def powLog : PowLog := powLogAfter 256

/-- `MUL`. -/
def mulTable (x y : UInt8) : UInt8 :=
  if x ≠ 0 ∧ y ≠ 0 then powLog.pow ((powLog.log x + powLog.log y) % 255) else 0

/-- `RCON`, one behind the other. -/
def rcon (i : ℕ) : UInt32 := ((fun x => xtime x)^[i] 1).toUInt32

def rotl (y : UInt8) : UInt8 := (y <<< 1) ||| (y >>> 7)

def boxValue (i : UInt8) : UInt8 :=
  let x := powLog.pow (255 - powLog.log i)
  let y := rotl x
  let x := x ^^^ y
  let y := rotl y
  let x := x ^^^ y
  let y := rotl y
  let x := x ^^^ y
  let y := rotl y
  x ^^^ (y ^^^ 0x63)

/-- `FSb` and `RSb`. -/
structure Boxes where
  fsb : UInt8 → UInt8
  rsb : UInt8 → UInt8

def boxStep (b : Boxes) (i : ℕ) : Boxes :=
  let x := boxValue (UInt8.ofNat i)
  ⟨Function.update b.fsb (UInt8.ofNat i) x, Function.update b.rsb x (UInt8.ofNat i)⟩

def boxesAfter (n : ℕ) : Boxes :=
  (List.range' 1 n).foldl boxStep
    ⟨Function.update (fun _ => 0) 0x00 0x63, Function.update (fun _ => 0) 0x63 0x00⟩

def boxes : Boxes := boxesAfter 255

def fsb : UInt8 → UInt8 := boxes.fsb

def rsb : UInt8 → UInt8 := boxes.rsb

def rotl8 (x : UInt32) : UInt32 := (x <<< 8) ||| (x >>> 24)

def ft0 (i : UInt8) : UInt32 :=
  let x := fsb i
  let y := xtime x
  let z := y ^^^ x
  y.toUInt32 ^^^ x.toUInt32 <<< 8 ^^^ x.toUInt32 <<< 16 ^^^ z.toUInt32 <<< 24

def ft1 (i : UInt8) : UInt32 := rotl8 (ft0 i)

def ft2 (i : UInt8) : UInt32 := rotl8 (ft1 i)

def ft3 (i : UInt8) : UInt32 := rotl8 (ft2 i)

def rt0 (i : UInt8) : UInt32 :=
  let x := rsb i
  (mulTable 0x0E x).toUInt32 ^^^ (mulTable 0x09 x).toUInt32 <<< 8 ^^^
    (mulTable 0x0D x).toUInt32 <<< 16 ^^^ (mulTable 0x0B x).toUInt32 <<< 24

def rt1 (i : UInt8) : UInt32 := rotl8 (rt0 i)

def rt2 (i : UInt8) : UInt32 := rotl8 (rt1 i)

def rt3 (i : UInt8) : UInt32 := rotl8 (rt2 i)

end Generation

section Powers

theorem xtime_eq (x : UInt8) : xtime x = double x := by
  rw [xtime, double]
  by_cases h : x &&& 0x80 = 0
  · rw [if_pos h, if_neg (not_not.mpr h)]
  · rw [if_neg h, if_pos h]

/-- A logarithm is that of the last power with its byte. -/
theorem powLogAfter_spec (n : ℕ) :
    (powLogAfter n).x = power n ∧ (∀ i < n, (powLogAfter n).pow i = power i) ∧
      ∀ i < n, n ≤ i + 255 → (powLogAfter n).log (power i) = i := by
  induction n with
  | zero => exact ⟨rfl, fun i hi => absurd hi (Nat.not_lt_zero i),
      fun i hi => absurd hi (Nat.not_lt_zero i)⟩
  | succ n ih =>
    obtain ⟨hx, hpow, hlog⟩ := ih
    have hstep : powLogAfter (n + 1) = powLogStep (powLogAfter n) n := by
      rw [powLogAfter, List.range_succ, List.foldl_concat]
      rfl
    rw [hstep]
    refine ⟨?_, fun i hi => ?_, fun i hi hlast => ?_⟩
    · rw [powLogStep, xtime_eq, hx, power, power, Function.iterate_succ_apply']
      rfl
    · dsimp only [powLogStep]
      by_cases heq : i = n
      · rw [heq, Function.update_self, hx]
      · rw [Function.update_of_ne heq]
        exact hpow i (by omega)
    · dsimp only [powLogStep]
      by_cases heq : i = n
      · rw [heq, hx, Function.update_self]
      · rw [hx, Function.update_of_ne]
        · exact hlog i (by omega) (by omega)
        · intro hpower
          rw [← power_mod i, ← power_mod n] at hpower
          have hmod := power_injective (Nat.mod_lt i (by decide)) (Nat.mod_lt n (by decide)) hpower
          omega

theorem pow_eq {i : ℕ} (hi : i < 256) : powLog.pow i = power i :=
  (powLogAfter_spec 256).2.1 i hi

/-- A byte that is not zero is the power with its logarithm. -/
theorem log_spec {x : UInt8} (hx : x ≠ 0) :
    1 ≤ powLog.log x ∧ powLog.log x ≤ 255 ∧ power (powLog.log x) = x := by
  obtain ⟨i, hpos, hle, rfl⟩ : ∃ i, 1 ≤ i ∧ i ≤ 255 ∧ power i = x := by
    obtain ⟨n, hn, hpower⟩ := exists_power hx
    rcases Nat.eq_zero_or_pos n with rfl | hpos
    · exact ⟨255, by decide, le_rfl, by rw [power_cycle, ← hpower]; rfl⟩
    · exact ⟨n, hpos, hn.le, hpower⟩
  have hlog : powLog.log (power i) = i :=
    (powLogAfter_spec 256).2.2 i (Nat.lt_succ_of_le hle) (by omega)
  rw [hlog]
  exact ⟨hpos, hle, rfl⟩

/-- The product by the tables is the product. -/
theorem mulTable_eq (x y : UInt8) : mulTable x y = mul x y := by
  unfold mulTable
  split_ifs with h
  · obtain ⟨-, -, hx⟩ := log_spec h.1
    obtain ⟨-, -, hy⟩ := log_spec h.2
    have hmod : (powLog.log x + powLog.log y) % 255 < 255 := Nat.mod_lt _ (by decide)
    rw [pow_eq (by omega), power_mod, ← power_mul_power, hx, hy]
  · rcases not_and_or.mp h with hx | hy
    · rw [not_not.mp hx, zero_mul]
    · rw [not_not.mp hy, mul_zero]

end Powers

section Boxes

def spread (y : UInt8) : UInt8 :=
  y ^^^ rotl y ^^^ rotl (rotl y) ^^^ rotl (rotl (rotl y)) ^^^ rotl (rotl (rotl (rotl y)))

def affine (y : UInt8) : UInt8 := spread y ^^^ 0x63

def inverse (i : UInt8) : UInt8 := if i = 0 then 0 else powLog.pow (255 - powLog.log i)

/-- The two parts of a rotation have no bit in common. -/
theorem rotl_eq (x : UInt8) : rotl x = (x <<< 1) ^^^ (x >>> 7) := by
  apply UInt8.toBitVec_inj.mp
  ext i hi
  by_cases hzero : i = 0
  · simp [rotl, hzero]
  · simp [rotl, BitVec.getLsbD_of_ge x.toBitVec (7 + i) (by omega)]

theorem rotl_xor (x y : UInt8) : rotl (x ^^^ y) = rotl x ^^^ rotl y := by
  rw [rotl_eq, rotl_eq, rotl_eq, UInt8.shiftLeft_xor, UInt8.shiftRight_xor]
  ac_rfl

theorem spread_xor (x y : UInt8) : spread (x ^^^ y) = spread x ^^^ spread y := by
  unfold spread
  simp only [rotl_xor]
  ac_rfl

/-- What takes a spread byte back. -/
def gather (y : UInt8) : UInt8 :=
  rotl y ^^^ rotl (rotl (rotl y)) ^^^ rotl (rotl (rotl (rotl (rotl (rotl y)))))

theorem gather_spread (y : UInt8) : gather (spread y) = y := by
  have hadditive : Additive fun y => gather (spread y) := by
    intro x y
    simp only [gather, spread_xor, rotl_xor]
    ac_rfl
  exact hadditive.eq (g := id) (fun _ _ => rfl) (by decide) y

theorem affine_injective {x y : UInt8} (h : affine x = affine y) : x = y := by
  have hspread : spread x = spread y := (UInt8.xor_left_inj 0x63).mp h
  rw [← gather_spread x, hspread, gather_spread]

theorem inverse_spec (i : UInt8) : IsInverse i (inverse i) := by
  unfold inverse
  split_ifs with h
  · exact Or.inl ⟨h, rfl⟩
  · obtain ⟨hpos, hle, hpower⟩ := log_spec h
    have hcycle := power_mul_power (powLog.log i) (255 - powLog.log i)
    rw [hpower, Nat.add_sub_cancel' hle, power_cycle] at hcycle
    rw [pow_eq (by omega)]
    exact Or.inr hcycle

theorem boxValue_eq {i : UInt8} (h : i ≠ 0) : boxValue i = affine (inverse i) := by
  rw [inverse, if_neg h]
  exact (UInt8.xor_assoc _ _ _).symm

theorem affine_inverse_injective {i j : UInt8} (h : affine (inverse i) = affine (inverse j)) :
    i = j := by
  have hi := inverse_spec i
  rw [affine_injective h] at hi
  exact hi.left_unique (inverse_spec j)

/-- The loop has filled the boxes for the bytes before it. -/
theorem boxesAfter_spec {n : ℕ} (hn : n ≤ 255) (j : UInt8) (hj : j.toNat ≤ n) :
    (boxesAfter n).fsb j = affine (inverse j) ∧ (boxesAfter n).rsb (affine (inverse j)) = j := by
  induction n with
  | zero =>
    obtain rfl : j = 0 := UInt8.toNat_inj.mp (Nat.le_zero.mp hj)
    have hzero : affine (inverse 0) = 0x63 := rfl
    have hboxes : boxesAfter 0 = ⟨Function.update (fun _ => 0) 0x00 0x63,
      Function.update (fun _ => 0) 0x63 0x00⟩ := rfl
    rw [hzero, hboxes]
    dsimp only
    exact ⟨Function.update_self .., Function.update_self ..⟩
  | succ n ih =>
    have hstep : boxesAfter (n + 1) = boxStep (boxesAfter n) (n + 1) := by
      rw [boxesAfter, List.range'_1_concat, List.foldl_concat, Nat.add_comm 1 n]
      rfl
    have hlt : n + 1 < 2 ^ 8 := by omega
    have hnat : (UInt8.ofNat (n + 1)).toNat = n + 1 := UInt8.toNat_ofNat_of_lt' hlt
    have hne : UInt8.ofNat (n + 1) ≠ 0 := by
      intro h
      rw [h] at hnat
      exact absurd hnat (by simp)
    rw [hstep, boxStep, boxValue_eq hne]
    dsimp only
    by_cases heq : j = UInt8.ofNat (n + 1)
    · rw [heq]
      exact ⟨Function.update_self .., Function.update_self ..⟩
    · have hlt : j.toNat ≤ n := by
        have hother : j.toNat ≠ n + 1 := fun h => heq (UInt8.toNat_inj.mp (by rw [h, hnat]))
        omega
      obtain ⟨hfsb, hrsb⟩ := ih (by omega) hlt
      rw [Function.update_of_ne heq,
        Function.update_of_ne fun h => heq (affine_inverse_injective h)]
      exact ⟨hfsb, hrsb⟩

/-- The forward box has the affine image of the inverse. -/
theorem fsb_eq (x : UInt8) : fsb x = affine (inverse x) :=
  (boxesAfter_spec le_rfl x (Nat.lt_succ_iff.mp x.toNat_lt)).1

/-- The reverse box undoes the forward one. -/
theorem rsb_fsb (x : UInt8) : rsb (fsb x) = x := by
  rw [fsb_eq]
  exact (boxesAfter_spec le_rfl x (Nat.lt_succ_iff.mp x.toNat_lt)).2

end Boxes

end IotExplorer.AesTables
