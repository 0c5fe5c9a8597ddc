import Mathlib.Data.Finset.Basic
import Mathlib.Data.Finset.Range
import Mathlib.Data.List.Find
import IotExplorer.Basis.Runs
import IotExplorer.QqMusicRuns

/-!
The bitmap of the utilities, as a set of indices. An index has 8 bits without a sign, the
counter of the two searches 8 bits with one, so that it goes on from 127 to -128, which as an
index is 128. An access outside of the bitmap makes a function fail, as does a search that
does not end with its fuel.
-/
namespace IotExplorer.UtilsBitmaps

open Basis.Bitmap Basis.Runs QqMusicClient

section Functions

/-- `utils_get_bitmap_onebit`; the index 128 passes its check. -/
def utilsGetBitmapOnebit (bitmap : UtilsBitmap) (index : UInt8) : Option ℤ :=
  if 128 < index then some (-1)
  else if h : index.toNat / 32 < 4 then
    some ((bitmap ⟨index.toNat / 32, h⟩ >>> (index.toNat % 32)) &&& 1).toNat
  else none

/-- The loop of the searches for a bit with this value. -/
def firstLoop (bitmap : UtilsBitmap) (value : ℤ) : ℕ → Int8 → Option Int8
  | 0, _ => none
  | fuel + 1, i =>
      if i.toInt < 128 then
        (utilsGetBitmapOnebit bitmap i.toUInt8).bind fun bit =>
        if bit = value then some i else firstLoop bitmap value fuel (i + 1)
      else some i

/-- The searches, with the test behind their loop. -/
def first (value : ℤ) (fuel : ℕ) (bitmap : UtilsBitmap) : Option ℤ :=
  (firstLoop bitmap value fuel 0).map fun i => if i.toInt = 128 then -1 else i.toInt

/-- `utils_get_bitmap_first_zero`. -/
def firstZero : ℕ → UtilsBitmap → Option ℤ := first 0

/-- `utils_get_bitmap_first_set`. -/
def firstSet : ℕ → UtilsBitmap → Option ℤ := first 1

/-- `utils_set_bitmap_onebit`, with what it returns. -/
def setOnebit (bitmap : UtilsBitmap) (index : UInt8) : Option (UtilsBitmap × ℤ) :=
  (utilsSetBitmapOnebit bitmap index.toNat).toOption.map fun bitmap =>
  (bitmap, if 128 < index then -1 else 0)

def utilsClearBitmapOnebit (bitmap : UtilsBitmap) (index : UInt8) : Option (UtilsBitmap × ℤ) :=
  if 128 < index then some (bitmap, -1)
  else (unmark bitmap index.toNat).map fun bitmap => (bitmap, 0)

def utilsInitBitmap (initState : UInt8) : UtilsBitmap × ℤ :=
  (fun _ => if initState ≠ 0 then 0xffffffff else 0, 0)

/-- The loop of `utils_check_bitmap_is_equal`, with so many indices to go. -/
def checkLoop (bitmap₀ bitmap₁ : UtilsBitmap) : ℕ → ℕ → Option ℕ
  | 0, i => some i
  | steps + 1, i =>
      (utilsGetBitmapOnebit bitmap₀ i.toUInt8).bind fun bit₀ =>
      (utilsGetBitmapOnebit bitmap₁ i.toUInt8).bind fun bit₁ =>
      if bit₀ ≠ bit₁ then some i else checkLoop bitmap₀ bitmap₁ steps (i + 1)

def utilsCheckBitmapIsEqual (bitmap₀ bitmap₁ : UtilsBitmap) : Option ℤ :=
  (checkLoop bitmap₀ bitmap₁ 128 0).map fun i => if i = 128 then -1 else 0

end Functions

section Sets
variable {bitmap bitmap' : UtilsBitmap} {index : UInt8} {i k : ℕ}

def setOf (bitmap : UtilsBitmap) : Finset ℕ :=
  (Finset.range 128).filter fun i => test bitmap i = some true

def bitOf (S : Finset ℕ) (i : ℕ) : ℤ := if i ∈ S then 1 else 0

theorem mem_setOf : i ∈ setOf bitmap ↔ i < 128 ∧ test bitmap i = some true := by
  rw [setOf, Finset.mem_filter, Finset.mem_range]

theorem lt_of_mem_setOf (h : i ∈ setOf bitmap) : i < 128 := (mem_setOf.mp h).1

/-- Shifted down and masked, a word is one of its bits. -/
theorem shifted_bit (word : BitVec 32) (k : ℕ) :
    ((word >>> k) &&& 1).toNat = (word.getLsbD k).toNat := by
  have hbit : word.getLsbD k = word.toNat.testBit k := rfl
  rw [BitVec.toNat_and, BitVec.toNat_ushiftRight, hbit, Nat.testBit]
  have hone : (1 : BitVec 32).toNat = 1 := rfl
  rw [hone, Nat.and_one_is_mod, Nat.one_and_eq_mod_two]
  rcases Nat.mod_two_eq_zero_or_one (word.toNat >>> k) with hmod | hmod <;> rw [hmod] <;> rfl

theorem behind_iff : 128 < index ↔ 128 < index.toNat := UInt8.lt_iff_toNat_lt

theorem get_inside (h : index.toNat < 128) :
    utilsGetBitmapOnebit bitmap index = some (bitOf (setOf bitmap) index.toNat) := by
  have hle : ¬ 128 < index := by
    rw [behind_iff]
    omega
  have hword : index.toNat / 32 < 4 := by omega
  rw [utilsGetBitmapOnebit, if_neg hle, dif_pos hword, shifted_bit]
  cases hbit : (bitmap ⟨index.toNat / 32, hword⟩).getLsbD (index.toNat % 32) <;>
    simp [bitOf, mem_setOf, h, test, hword, hbit]

theorem get_behind (h : 128 < index.toNat) : utilsGetBitmapOnebit bitmap index = some (-1) :=
  if_pos (behind_iff.mpr h)

theorem get_outside (h : index.toNat = 128) : utilsGetBitmapOnebit bitmap index = none := by
  have hle : ¬ 128 < index := by
    rw [behind_iff]
    omega
  rw [utilsGetBitmapOnebit, if_neg hle, dif_neg (by omega)]

def lowest (S : Finset ℕ) (value : ℤ) : Option ℕ :=
  (List.range 128).find? fun i => bitOf S i = value

/-- From an index on, a search finds the lowest bit with the value; behind 127 it leaves the
bitmap. -/
theorem firstLoop_eq (value : ℤ) {fuel : ℕ} (hk : k ≤ 128) (hfuel : 128 ≤ fuel + k) :
    firstLoop bitmap value fuel (Int8.ofNat k) =
      ((List.range' k (128 - k)).find? fun i => bitOf (setOf bitmap) i = value).map Int8.ofNat := by
  induction fuel generalizing k with
  | zero =>
    obtain rfl : k = 128 := by omega
    rfl
  | succ fuel ih =>
    have hindex : (Int8.ofNat k).toUInt8.toNat = k % 256 := rfl
    have hsmall : (Int8.ofNat k).toInt < 128 := Int8.toInt_lt _
    rw [firstLoop, if_pos hsmall]
    by_cases hlast : k = 128
    · subst hlast
      rw [get_outside hindex]
      rfl
    · have hinside : (Int8.ofNat k).toUInt8.toNat = k := by omega
      have hnext := ih (k := k + 1) (by omega) (by omega)
      have hrange : 128 - k = 128 - (k + 1) + 1 := by omega
      rw [get_inside (by omega), Option.bind_some, hinside, hrange, List.range'_succ,
        List.find?_cons]
      by_cases hbit : bitOf (setOf bitmap) k = value
      · rw [if_pos hbit, decide_eq_true hbit]
        rfl
      · rw [if_neg hbit, decide_eq_false hbit, ← hnext, Int8.ofNat_add]
        rfl

/-- A search returns the lowest index with the value, and has no result when there is none. -/
theorem first_eq (value : ℤ) {fuel : ℕ} (hfuel : 128 ≤ fuel) :
    first value fuel bitmap = (lowest (setOf bitmap) value).map Int.ofNat := by
  have hloop := @firstLoop_eq bitmap 0 value fuel (Nat.zero_le 128) hfuel
  have hzero : Int8.ofNat 0 = 0 := rfl
  rw [hzero, Nat.sub_zero, ← List.range_eq_range'] at hloop
  rw [first, hloop, lowest, Option.map_map]
  refine Option.map_congr fun i hi => ?_
  have hlt : i < 128 := List.mem_range.mp (List.mem_of_find?_eq_some hi)
  have hint : (Int8.ofNat i).toInt = i := Int8.toInt_ofNat_of_lt hlt
  rw [Function.comp_apply, hint, if_neg (by omega)]
  rfl

/-- The search for a zero is the one that the list of songs uses. -/
theorem firstZero_eq {fuel : ℕ} (hfuel : 128 ≤ fuel) :
    firstZero fuel bitmap = (utilsGetBitmapFirstZero bitmap).toOption.map Int.ofNat := by
  have hsame : lowest (setOf bitmap) 0 = firstClear bitmap 128 := by
    refine List.find?_congr fun i hi => ?_
    have hlt := List.mem_range.mp hi
    obtain ⟨b, hb⟩ : ∃ b, test bitmap i = some b := ⟨_, dif_pos (by omega)⟩
    cases b <;> simp [bitOf, mem_setOf, hlt, hb]
  rw [firstZero, first_eq 0 hfuel, hsame, utilsGetBitmapFirstZero]
  cases firstClear bitmap 128 <;> rfl

theorem lowest_eq_none {S : Finset ℕ} {value : ℤ} :
    lowest S value = none ↔ ∀ i < 128, bitOf S i ≠ value := by
  simp [lowest]

theorem bitOf_eq_bitOf {S T : Finset ℕ} : bitOf S i = bitOf T i ↔ (i ∈ S ↔ i ∈ T) := by
  by_cases hS : i ∈ S <;> by_cases hT : i ∈ T <;> simp [bitOf, hS, hT]

theorem setOf_eq_iff {bitmap₀ bitmap₁ : UtilsBitmap} :
    setOf bitmap₀ = setOf bitmap₁ ↔
      ∀ i < 128, bitOf (setOf bitmap₀) i = bitOf (setOf bitmap₁) i := by
  simp only [bitOf_eq_bitOf]
  refine ⟨fun heq i _ => by rw [heq], fun h => Finset.ext fun i => ?_⟩
  by_cases hi : i < 128
  · exact h i hi
  · exact iff_of_false (fun hmem => hi (lt_of_mem_setOf hmem)) fun hmem => hi (lt_of_mem_setOf hmem)

theorem checkLoop_eq (bitmap₀ bitmap₁ : UtilsBitmap) {steps i : ℕ} (h : i + steps = 128) :
    checkLoop bitmap₀ bitmap₁ steps i =
      some (((List.range' i steps).find? fun j =>
        bitOf (setOf bitmap₀) j ≠ bitOf (setOf bitmap₁) j).getD 128) := by
  induction steps generalizing i with
  | zero =>
    obtain rfl : i = 128 := h
    rfl
  | succ steps ih =>
    have hindex : i.toUInt8.toNat = i % 256 := rfl
    have hinside : i.toUInt8.toNat = i := by omega
    have hnext := ih (i := i + 1) (by omega)
    rw [checkLoop, get_inside (by omega), get_inside (by omega), Option.bind_some, Option.bind_some,
      hinside, List.range'_succ, List.find?_cons]
    by_cases hbit : bitOf (setOf bitmap₀) i = bitOf (setOf bitmap₁) i
    · rw [if_neg (not_not.mpr hbit), decide_eq_false (not_not.mpr hbit)]
      exact hnext
    · rw [if_pos hbit, decide_eq_true hbit]
      rfl

/-- Of equal bitmaps the check says that they differ, and of others that they do not. -/
theorem check_eq (bitmap₀ bitmap₁ : UtilsBitmap) :
    utilsCheckBitmapIsEqual bitmap₀ bitmap₁ =
      some (if setOf bitmap₀ = setOf bitmap₁ then -1 else 0) := by
  rw [utilsCheckBitmapIsEqual, checkLoop_eq bitmap₀ bitmap₁ (Nat.zero_add 128),
    ← List.range_eq_range', Option.map_some]
  congr 1
  cases hfind : (List.range 128).find? fun j =>
      bitOf (setOf bitmap₀) j ≠ bitOf (setOf bitmap₁) j with
  | none =>
    have hequal : setOf bitmap₀ = setOf bitmap₁ := setOf_eq_iff.mpr fun i hi => by
      have hnot := List.find?_eq_none.mp hfind i (List.mem_range.mpr hi)
      simpa using hnot
    rw [if_pos hequal]
    rfl
  | some j =>
    have hlt := List.mem_range.mp (List.mem_of_find?_eq_some hfind)
    have hdiffer : bitOf (setOf bitmap₀) j ≠ bitOf (setOf bitmap₁) j := by
      simpa using List.find?_some hfind
    rw [if_neg (fun heq => hdiffer (setOf_eq_iff.mp heq j hlt)), Option.getD_some,
      if_neg (Nat.ne_of_lt hlt)]

theorem setOf_insert (hi : i < 128)
    (h : ∀ j < 128, test bitmap' j = if j = i then some true else test bitmap j) :
    setOf bitmap' = insert i (setOf bitmap) := by
  ext j
  rw [Finset.mem_insert, mem_setOf, mem_setOf]
  by_cases hj : j < 128
  · rw [h j hj]
    split_ifs with heq
    · exact iff_of_true ⟨hj, rfl⟩ (.inl heq)
    · rw [or_iff_right heq]
  · refine iff_of_false (fun hmem => hj hmem.1) ?_
    rintro (rfl | hmem)
    · exact hj hi
    · exact hj hmem.1

theorem setOf_erase (h : ∀ j < 128, test bitmap' j = if j = i then some false else test bitmap j) :
    setOf bitmap' = (setOf bitmap).erase i := by
  ext j
  rw [Finset.mem_erase, mem_setOf, mem_setOf]
  by_cases hj : j < 128
  · rw [h j hj]
    split_ifs with heq <;> simp [heq, hj]
  · exact iff_of_false (fun hmem => hj hmem.1) fun hmem => hj hmem.2.1

end Sets

section Runs

/-- The operations; the first three are given an index. -/
inductive Op where
  | set (index : UInt8)
  | clear (index : UInt8)
  | get (index : UInt8)
  | firstZero
  | firstSet
  | isEqual (other : UtilsBitmap)
  | init (initState : UInt8)

/-- One operation of the code, with what it returns. -/
def attempt (fuel : ℕ) : Op → UtilsBitmap → Option (UtilsBitmap × List ℤ)
  | .set index, bitmap => (setOnebit bitmap index).map fun (bitmap, ret) => (bitmap, [ret])
  | .clear index, bitmap =>
      (utilsClearBitmapOnebit bitmap index).map fun (bitmap, ret) => (bitmap, [ret])
  | .get index, bitmap => (utilsGetBitmapOnebit bitmap index).map fun ret => (bitmap, [ret])
  | .firstZero, bitmap => (firstZero fuel bitmap).map fun ret => (bitmap, [ret])
  | .firstSet, bitmap => (firstSet fuel bitmap).map fun ret => (bitmap, [ret])
  | .isEqual other, bitmap => (utilsCheckBitmapIsEqual bitmap other).map fun ret => (bitmap, [ret])
  | .init initState, _ => some ((utilsInitBitmap initState).1, [(utilsInitBitmap initState).2])

/-- What an operation is for, on a set of indices below 128. -/
def act : Op → Finset ℕ → Finset ℕ × List ℤ
  | .set index, S => if index.toNat < 128 then (insert index.toNat S, [0]) else (S, [-1])
  | .clear index, S => if index.toNat < 128 then (S.erase index.toNat, [0]) else (S, [-1])
  | .get index, S => (S, [if index.toNat < 128 then bitOf S index.toNat else -1])
  | .firstZero, S => (S, [((lowest S 0).map Int.ofNat).getD (-1)])
  | .firstSet, S => (S, [((lowest S 1).map Int.ofNat).getD (-1)])
  | .isEqual other, S => (S, [if S = setOf other then 0 else -1])
  | .init initState, _ => (if initState ≠ 0 then Finset.range 128 else ∅, [0])

/-- No index is 128, a search for a zero meets a zero and one for a one meets a one, and bitmaps
are not compared. -/
def Fits (S : Finset ℕ) : Op → Prop
  | .set index | .clear index | .get index => index ≠ 128
  | .firstZero => ∃ i < 128, i ∉ S
  | .firstSet => ∃ i < 128, i ∈ S
  | .isEqual _ => False
  | .init _ => True

instance decidableFits (S : Finset ℕ) : (op : Op) → Decidable (Fits S op)
  | .set index | .clear index | .get index => inferInstanceAs (Decidable (index ≠ 128))
  | .firstZero => inferInstanceAs (Decidable (∃ i < 128, i ∉ S))
  | .firstSet => inferInstanceAs (Decidable (∃ i < 128, i ∈ S))
  | .isEqual _ => isFalse id
  | .init _ => isTrue trivial

variable {fuel : ℕ} {op : Op} {bitmap : UtilsBitmap}

/-- An operation either leaves the bitmap, or moves the set as it should and returns one value. -/
def Meets (fuel : ℕ) (op : Op) (bitmap : UtilsBitmap) : Prop :=
  attempt fuel op bitmap = none ∧ ¬ Fits (setOf bitmap) op ∨
  ∃ bitmap' ret, attempt fuel op bitmap = some (bitmap', [ret]) ∧
    setOf bitmap' = (act op (setOf bitmap)).1 ∧
    ([ret] = (act op (setOf bitmap)).2 ↔ Fits (setOf bitmap) op)

theorem index_cases (index : UInt8) :
    index.toNat < 128 ∧ index ≠ 128 ∨ index.toNat = 128 ∧ index = 128 ∨
      128 < index.toNat ∧ index ≠ 128 := by
  have heq : index = 128 ↔ index.toNat = 128 := UInt8.toNat_inj.symm
  rw [Ne, heq]
  omega

theorem set_meets (index : UInt8) : Meets fuel (.set index) bitmap := by
  have hmod : (index.toNat : ℤ) % 256 = index.toNat := by
    have hlt := index.toNat_lt
    omega
  have hcases := QqMusicRuns.utilsSetBitmapOnebit_cases bitmap index.toNat
  rw [hmod] at hcases
  rcases index_cases index with ⟨hin, hne⟩ | ⟨hout, heq⟩ | ⟨hbehind, hne⟩
  · obtain ⟨hout, -⟩ | ⟨-, bitmap', hset, htest⟩ := hcases
    · omega
    · refine .inr ⟨bitmap', 0, ?_, ?_, ?_⟩
      · rw [attempt, setOnebit, hset, if_neg (by rw [behind_iff]; omega)]
        rfl
      · rw [act, if_pos hin]
        exact setOf_insert hin fun j hj => by simpa using htest j hj
      · rw [act, if_pos hin]
        exact iff_of_true rfl hne
  · obtain ⟨-, hset⟩ | ⟨hnot, -⟩ := hcases
    · refine .inl ⟨?_, fun hfits => hfits heq⟩
      rw [attempt, setOnebit, hset]
      rfl
    · omega
  · obtain ⟨hout, -⟩ | ⟨-, bitmap', hset, htest⟩ := hcases
    · omega
    · refine .inr ⟨bitmap', -1, ?_, ?_, ?_⟩
      · rw [attempt, setOnebit, hset, if_pos (behind_iff.mpr hbehind)]
        rfl
      · rw [act, if_neg (by omega)]
        refine Finset.ext fun j => ?_
        rw [mem_setOf, mem_setOf]
        refine and_congr_right fun hj => ?_
        rw [htest j hj, if_neg (by omega)]
      · rw [act, if_neg (by omega)]
        exact iff_of_true rfl hne

theorem clear_meets (index : UInt8) : Meets fuel (.clear index) bitmap := by
  rcases index_cases index with ⟨hin, hne⟩ | ⟨hout, heq⟩ | ⟨hbehind, hne⟩
  · obtain ⟨bitmap', hunmark⟩ : ∃ bitmap', unmark bitmap index.toNat = some bitmap' :=
      exists_unmark (by omega)
    refine .inr ⟨bitmap', 0, ?_, ?_, ?_⟩
    · rw [attempt, utilsClearBitmapOnebit, if_neg (by rw [behind_iff]; omega), hunmark]
      rfl
    · rw [act, if_pos hin]
      exact setOf_erase fun j _ => test_unmark (by decide) hunmark j
    · rw [act, if_pos hin]
      exact iff_of_true rfl hne
  · have hunmark : unmark bitmap index.toNat = none := dif_neg (by omega)
    refine .inl ⟨?_, fun hfits => hfits heq⟩
    rw [attempt, utilsClearBitmapOnebit, if_neg (by rw [behind_iff]; omega), hunmark]
    rfl
  · refine .inr ⟨bitmap, -1, ?_, ?_, ?_⟩
    · rw [attempt, utilsClearBitmapOnebit, if_pos (behind_iff.mpr hbehind)]
      rfl
    · rw [act, if_neg (by omega)]
    · rw [act, if_neg (by omega)]
      exact iff_of_true rfl hne

theorem get_meets (index : UInt8) : Meets fuel (.get index) bitmap := by
  rcases index_cases index with ⟨hin, hne⟩ | ⟨hout, heq⟩ | ⟨hbehind, hne⟩
  · refine .inr ⟨bitmap, bitOf (setOf bitmap) index.toNat, ?_, rfl, ?_⟩
    · rw [attempt, get_inside hin]
      rfl
    · rw [act, if_pos hin]
      exact iff_of_true rfl hne
  · refine .inl ⟨?_, fun hfits => hfits heq⟩
    rw [attempt, get_outside hout]
    rfl
  · refine .inr ⟨bitmap, -1, ?_, rfl, ?_⟩
    · rw [attempt, get_behind hbehind]
      rfl
    · rw [act, if_neg (by omega)]
      exact iff_of_true rfl hne

theorem bitOf_zero {S : Finset ℕ} {i : ℕ} : bitOf S i = 0 ↔ i ∉ S := by
  by_cases h : i ∈ S <;> simp [bitOf, h]

theorem bitOf_one {S : Finset ℕ} {i : ℕ} : bitOf S i = 1 ↔ i ∈ S := by
  by_cases h : i ∈ S <;> simp [bitOf, h]

theorem lowest_isSome {S : Finset ℕ} {value : ℤ} :
    (lowest S value).isSome ↔ ∃ i < 128, bitOf S i = value := by
  simp [lowest]

/-- A search meets its purpose if there is something to find. -/
theorem search_meets {value : ℤ} (hfuel : 128 ≤ fuel)
    (hattempt : attempt fuel op bitmap = (first value fuel bitmap).map fun ret => (bitmap, [ret]))
    (hact : act op (setOf bitmap) =
      (setOf bitmap, [((lowest (setOf bitmap) value).map Int.ofNat).getD (-1)]))
    (hfits : Fits (setOf bitmap) op ↔ ∃ i < 128, bitOf (setOf bitmap) i = value) :
    Meets fuel op bitmap := by
  rw [first_eq value hfuel] at hattempt
  rw [← lowest_isSome] at hfits
  cases hlowest : lowest (setOf bitmap) value with
  | none =>
    rw [hlowest] at hattempt hfits
    exact .inl ⟨hattempt, mt hfits.mp Bool.false_ne_true⟩
  | some i =>
    rw [hlowest] at hattempt hact hfits
    exact .inr ⟨bitmap, i, hattempt, by rw [hact], iff_of_true (by rw [hact]; rfl) (hfits.mpr rfl)⟩

/-- The check is never right. -/
theorem isEqual_meets (other : UtilsBitmap) : Meets fuel (.isEqual other) bitmap := by
  refine .inr ⟨bitmap, if setOf bitmap = setOf other then -1 else 0, ?_, rfl,
    iff_of_false (fun heq => ?_) id⟩
  · rw [attempt, check_eq]
    rfl
  · have hret := (List.cons.inj heq).1
    split_ifs at hret

theorem init_bit (initState : UInt8) (w : Fin 4) {k : ℕ} (hk : k < 32) :
    ((utilsInitBitmap initState).1 w).getLsbD k = decide (initState ≠ 0) := by
  by_cases hstate : initState = 0
  · simp [utilsInitBitmap, hstate]
  · have hones : (utilsInitBitmap initState).1 w = BitVec.allOnes 32 := if_pos hstate
    rw [hones, BitVec.getLsbD_allOnes, decide_eq_true hk, decide_eq_true hstate]

theorem init_meets (initState : UInt8) : Meets fuel (.init initState) bitmap := by
  refine .inr ⟨_, 0, rfl, ?_, iff_of_true rfl trivial⟩
  refine Finset.ext fun i => ?_
  rw [mem_setOf, act]
  by_cases hi : i < 128
  · have htest : test (utilsInitBitmap initState).1 i = some (decide (initState ≠ 0)) := by
      rw [test, dif_pos (by omega), init_bit initState _ (Nat.mod_lt i (by omega))]
    rw [htest]
    by_cases hstate : initState = 0 <;> simp [hi, hstate]
  · by_cases hstate : initState = 0 <;> simp [hi, hstate]

theorem attempt_meets (hfuel : 128 ≤ fuel) (op : Op) (bitmap : UtilsBitmap) :
    Meets fuel op bitmap := by
  cases op with
  | set index => exact set_meets index
  | clear index => exact clear_meets index
  | get index => exact get_meets index
  | firstZero => exact search_meets hfuel rfl rfl (by simp only [Fits, bitOf_zero])
  | firstSet => exact search_meets hfuel rfl rfl (by simp only [Fits, bitOf_one])
  | isEqual other => exact isEqual_meets other
  | init initState => exact init_meets initState

theorem length_act (op : Op) (S : Finset ℕ) : (act op S).2.length = 1 := by
  cases op with
  | set index => by_cases h : index.toNat < 128 <;> simp [act, h]
  | clear index => by_cases h : index.toNat < 128 <;> simp [act, h]
  | get index | firstZero | firstSet | isEqual other | init initState => rfl

/-- Whatever an operation returns, it moves the set as it should. -/
theorem attempt_moves (hfuel : 128 ≤ fuel) {bitmap' : UtilsBitmap} {rets : List ℤ}
    (h : attempt fuel op bitmap = some (bitmap', rets)) :
    setOf bitmap' = (act op (setOf bitmap)).1 ∧ rets.length = (act op (setOf bitmap)).2.length := by
  rcases attempt_meets hfuel op bitmap with ⟨hnone, -⟩ | ⟨moved, ret, hsome, hset, -⟩
  · rw [hnone] at h
    cases h
  · rw [hsome] at h
    obtain ⟨rfl, rfl⟩ := Prod.mk.inj (Option.some.inj h)
    exact ⟨hset, (length_act op _).symm⟩

theorem attempt_right_iff (hfuel : 128 ≤ fuel) (op : Op) (bitmap : UtilsBitmap) :
    (∃ bitmap', attempt fuel op bitmap = some (bitmap', (act op (setOf bitmap)).2)) ↔
      Fits (setOf bitmap) op := by
  rcases attempt_meets hfuel op bitmap with ⟨hnone, hunfit⟩ | ⟨bitmap', ret, hsome, -, hfits⟩
  · simp [hnone, hunfit]
  · rw [← hfits, hsome]
    constructor
    · rintro ⟨_, heq⟩
      exact (Prod.mk.inj (Option.some.inj heq)).2
    · intro heq
      exact ⟨bitmap', by rw [heq]⟩

/-- From any bitmap, a run is right exactly if each of its operations fits the set it finds. -/
theorem bitmap_right_iff (fuel : ℕ) (hfuel : 128 ≤ fuel) (bitmap : UtilsBitmap) (ops : List Op) :
    (∃ bitmap', runAttempts (attempt fuel) ops bitmap =
        some (bitmap', (run act ops (setOf bitmap)).2) ∧
      setOf bitmap' = (run act ops (setOf bitmap)).1) ↔ Along act Fits ops (setOf bitmap) := by
  have hview (op : Op) (c c' : UtilsBitmap) (rets : List ℤ)
      (h : attempt fuel op c = some (c', rets)) : setOf c' = (act op (setOf c)).1 :=
    (attempt_moves hfuel h).1
  have hlength (op : Op) (c c' : UtilsBitmap) (rets : List ℤ)
      (h : attempt fuel op c = some (c', rets)) :
      rets.length = (act op (setOf c)).2.length := (attempt_moves hfuel h).2
  rw [← runAttempts_right_iff hview hlength (attempt_right_iff hfuel) ops bitmap]
  refine exists_congr fun bitmap' => and_iff_left_of_imp fun hrun => ?_
  exact runAttempts_view hview hrun

/-- A run that is right, with an index behind the bitmap that is refused. -/
theorem bitmap_right_refused :
    ∃ bitmap', runAttempts (attempt 128)
        [.init 0, .set 5, .set 200, .get 200, .firstSet, .clear 5, .get 5] (fun _ => 7) =
      some (bitmap', [0, 0, -1, -1, 5, 0, 0]) := by
  have hfits : Along act Fits [.init 0, .set 5, .set 200, .get 200, .firstSet, .clear 5, .get 5]
      (setOf fun _ => 7) :=
    ⟨trivial, by decide, by decide, by decide, ⟨5, by decide, by decide⟩, by decide, by decide,
      trivial⟩
  have hreplies : (run act [.init 0, .set 5, .set 200, .get 200, .firstSet, .clear 5, .get 5]
      (setOf fun _ => 7)).2 = [0, 0, -1, -1, 5, 0, 0] := by decide
  obtain ⟨bitmap', hrun, -⟩ := (bitmap_right_iff 128 (Nat.le_refl 128) (fun _ => 7) _).mpr hfits
  exact ⟨bitmap', hreplies ▸ hrun⟩

/-- The index 128 is not refused, a search for a zero among ones has no result, nor has one for
a one among zeros, and a bitmap is said to differ from itself. -/
theorem bitmap_wrong :
    attempt 1000 (.set 128) (fun _ => 0) = none ∧
    attempt 1000 .firstZero (fun _ => BitVec.allOnes 32) = none ∧
    attempt 1000 .firstSet (fun _ => 0) = none ∧
    attempt 1000 (.isEqual fun _ => 0) (fun _ => 0) = some (fun _ => 0, [-1]) := by
  refine ⟨rfl, ?_, ?_, ?_⟩
  · have hnone : lowest (setOf fun _ => BitVec.allOnes 32) 0 = none := by
      refine lowest_eq_none.mpr fun i hi => ?_
      have htest : test (fun _ => BitVec.allOnes 32 : UtilsBitmap) i = some true := by
        rw [test, dif_pos (by omega), BitVec.getLsbD_allOnes,
          decide_eq_true (Nat.mod_lt i (by omega))]
      rw [bitOf, if_pos (mem_setOf.mpr ⟨hi, htest⟩)]
      exact one_ne_zero
    rw [attempt, firstZero, first_eq 0 (by omega), hnone]
    rfl
  · have hnone : lowest (setOf fun _ => 0) 1 = none := by
      refine lowest_eq_none.mpr fun i hi => ?_
      simp [bitOf, mem_setOf, test]
    rw [attempt, firstSet, first_eq 1 (by omega), hnone]
    rfl
  · rw [attempt, check_eq, if_pos rfl]
    rfl

end Runs

end IotExplorer.UtilsBitmaps
