import Mathlib.Data.List.Basic
import Mathlib.Logic.Function.Basic

/-!
Bitmaps of a fixed number of machine words. A bit is addressed by its index over
all words, and an index behind the last word addresses nothing. Marking and
unmarking change one bit only, and the search for the first clear bit starts at
the lowest index.
-/
namespace IotExplorer.Basis.Bitmap

abbrev Words (w n : ℕ) := Fin n → BitVec w

variable {w n : ℕ} {words words' : Words w n} {i : ℕ}

def test (words : Words w n) (i : ℕ) : Option Bool :=
  if h : i / w < n then some ((words ⟨i / w, h⟩).getLsbD (i % w)) else none

def mark (words : Words w n) (i : ℕ) : Option (Words w n) :=
  if h : i / w < n then
    some (Function.update words ⟨i / w, h⟩ (words ⟨i / w, h⟩ ||| BitVec.twoPow w (i % w)))
  else none

def unmark (words : Words w n) (i : ℕ) : Option (Words w n) :=
  if h : i / w < n then
    some (Function.update words ⟨i / w, h⟩ (words ⟨i / w, h⟩ &&& ~~~BitVec.twoPow w (i % w)))
  else none

/-- The lowest index below the limit whose bit is clear. -/
def firstClear (words : Words w n) (limit : ℕ) : Option ℕ :=
  (List.range limit).find? fun i => test words i = some false

theorem test_zero (h : i / w < n) : test (fun _ => 0 : Words w n) i = some false := by
  rw [test, dif_pos h, BitVec.ofNat_eq_ofNat, BitVec.getLsbD_zero]

theorem exists_mark (h : i / w < n) : ∃ words', mark words i = some words' :=
  ⟨_, dif_pos h⟩

theorem exists_unmark (h : i / w < n) : ∃ words', unmark words i = some words' :=
  ⟨_, dif_pos h⟩

theorem index_ext {i j : ℕ} (hword : j / w = i / w) (hbit : j % w = i % w) : j = i := by
  rw [← Nat.div_add_mod j w, ← Nat.div_add_mod i w, hword, hbit]

/-- One word is replaced. -/
theorem test_update (h : i / w < n) (v : BitVec w) (j : ℕ) :
    test (Function.update words ⟨i / w, h⟩ v) j =
      if j / w = i / w then some (v.getLsbD (j % w)) else test words j := by
  unfold test
  by_cases hword : j / w = i / w
  · have hj : j / w < n := hword ▸ h
    have hsame : (⟨j / w, hj⟩ : Fin n) = ⟨i / w, h⟩ := Fin.ext hword
    rw [dif_pos hj, if_pos hword, hsame, Function.update_self]
  · rw [if_neg hword]
    by_cases hj : j / w < n
    · have hother : (⟨j / w, hj⟩ : Fin n) ≠ ⟨i / w, h⟩ := fun heq => hword (Fin.mk.inj heq)
      rw [dif_pos hj, dif_pos hj, Function.update_of_ne hother]
    · rw [dif_neg hj, dif_neg hj]

theorem test_word {h : i / w < n} {j : ℕ} (hword : j / w = i / w) :
    test words j = some ((words ⟨i / w, h⟩).getLsbD (j % w)) := by
  have hj : j / w < n := hword ▸ h
  have hsame : (⟨j / w, hj⟩ : Fin n) = ⟨i / w, h⟩ := Fin.ext hword
  rw [test, dif_pos hj, hsame]

/-- Marking sets one bit and keeps the others. -/
theorem test_mark (hw : 0 < w) (h : mark words i = some words') (j : ℕ) :
    test words' j = if j = i then some true else test words j := by
  unfold mark at h
  split at h
  next hi =>
    obtain rfl := Option.some.inj h
    rw [test_update hi]
    by_cases hword : j / w = i / w
    · rw [if_pos hword, test_word (h := hi) hword, BitVec.getLsbD_or, BitVec.getLsbD_twoPow]
      by_cases hbit : j % w = i % w
      · simp [index_ext hword hbit, Nat.mod_lt i hw]
      · have hne : j ≠ i := fun heq => hbit (heq ▸ rfl)
        have hbit' : ¬ i % w = j % w := fun heq => hbit heq.symm
        simp [hne, hbit']
    · have hne : j ≠ i := fun heq => hword (heq ▸ rfl)
      rw [if_neg hword, if_neg hne]
  · cases h

/-- Unmarking clears one bit and keeps the others. -/
theorem test_unmark (hw : 0 < w) (h : unmark words i = some words') (j : ℕ) :
    test words' j = if j = i then some false else test words j := by
  unfold unmark at h
  split at h
  next hi =>
    obtain rfl := Option.some.inj h
    rw [test_update hi]
    by_cases hword : j / w = i / w
    · rw [if_pos hword, test_word (h := hi) hword, BitVec.getLsbD_and, BitVec.getLsbD_not,
        BitVec.getLsbD_twoPow]
      by_cases hbit : j % w = i % w
      · simp [index_ext hword hbit, Nat.mod_lt i hw]
      · have hne : j ≠ i := fun heq => hbit (heq ▸ rfl)
        have hbit' : ¬ i % w = j % w := fun heq => hbit heq.symm
        simp [hne, hbit', Nat.mod_lt j hw]
    · have hne : j ≠ i := fun heq => hword (heq ▸ rfl)
      rw [if_neg hword, if_neg hne]
  · cases h

/-- The first clear bit, when all bits below it are set. -/
theorem firstClear_eq {limit k : ℕ} (hk : k < limit) (hclear : test words k = some false)
    (hset : ∀ i < k, test words i = some true) : firstClear words limit = some k := by
  unfold firstClear
  rw [List.find?_range_eq_some]
  refine ⟨by simpa using hclear, List.mem_range.mpr hk, ?_⟩
  intro j hj
  simp [hset j hj]

end IotExplorer.Basis.Bitmap
