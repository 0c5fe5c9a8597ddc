import Mathlib.Data.List.Basic

/-!
A memory gives each address its cell. Copies, moves and fills change the cells of one
block. What they leave of the contents of other blocks is told by slices, the cells from
one address up to another as a list.
-/
namespace IotExplorer.Basis.Memory

variable {α : Type*} {m m' : ℕ → α} {a b c d n : ℕ}

/-- The cells from `a` up to `b`. -/
def slice (m : ℕ → α) (a b : ℕ) : List α := (List.range' a (b - a)).map m

/-- A list is put at an address. -/
def memcpy (d : ℕ) (l : List α) (m : ℕ → α) : ℕ → α :=
  fun i => if d ≤ i then (l[i - d]?).getD (m i) else m i

/-- `n` cells are moved; source and destination may overlap. -/
def memmove (d s n : ℕ) (m : ℕ → α) : ℕ → α :=
  fun i => if d ≤ i ∧ i < d + n then m (i - d + s) else m i

def memset (d : ℕ) (x : α) (n : ℕ) (m : ℕ → α) : ℕ → α :=
  fun i => if d ≤ i ∧ i < d + n then x else m i

theorem memcpy_outside {l : List α} {i : ℕ} (h : i < d ∨ d + l.length ≤ i) :
    memcpy d l m i = m i := by
  unfold memcpy
  split_ifs with hd
  · rw [List.getElem?_eq_none (by omega), Option.getD_none]
  · rfl

theorem memcpy_inside {l : List α} {i : ℕ} (h : i < l.length) : memcpy d l m (d + i) = l[i] := by
  rw [memcpy, if_pos (by omega), Nat.add_sub_cancel_left, List.getElem?_eq_getElem h,
    Option.getD_some]

theorem memcpy_cases {l : List α} {i : ℕ} : memcpy d l m i = m i ∨ memcpy d l m i ∈ l := by
  by_cases h : i < d ∨ d + l.length ≤ i
  · exact Or.inl (memcpy_outside h)
  · obtain ⟨j, rfl⟩ := Nat.exists_eq_add_of_le (show d ≤ i by omega)
    rw [memcpy_inside (show j < l.length by omega)]
    exact Or.inr (List.getElem_mem _)

theorem memmove_outside {s i : ℕ} (h : i < d ∨ d + n ≤ i) : memmove d s n m i = m i :=
  if_neg (by omega)

theorem memset_outside {x : α} {i : ℕ} (h : i < d ∨ d + n ≤ i) : memset d x n m i = m i :=
  if_neg (by omega)

theorem memset_inside {x : α} {i : ℕ} (h : d ≤ i) (h' : i < d + n) : memset d x n m i = x :=
  if_pos ⟨h, h'⟩

theorem memset_cases (d : ℕ) (x : α) (n : ℕ) (m : ℕ → α) (i : ℕ) :
    memset d x n m i = m i ∨ memset d x n m i = x := by
  unfold memset
  split_ifs
  · exact Or.inr rfl
  · exact Or.inl rfl

theorem slice_self (m : ℕ → α) (a : ℕ) : slice m a a = [] := by
  simp [slice]

theorem length_slice (m : ℕ → α) (a b : ℕ) : (slice m a b).length = b - a := by
  simp [slice]

theorem mem_slice {x : α} : x ∈ slice m a b ↔ ∃ i, a ≤ i ∧ i < b ∧ m i = x := by
  simp only [slice, List.mem_map, List.mem_range'_1]
  constructor
  · rintro ⟨i, ⟨ha, hb⟩, rfl⟩
    exact ⟨i, ha, by omega, rfl⟩
  · rintro ⟨i, ha, hb, rfl⟩
    exact ⟨i, ⟨ha, by omega⟩, rfl⟩

/-- Adjacent slices are one. -/
theorem slice_append (m : ℕ → α) (hab : a ≤ b) (hbc : b ≤ c) :
    slice m a b ++ slice m b c = slice m a c := by
  unfold slice
  rw [← List.map_append]
  congr 1
  have hb : b = a + (b - a) := by omega
  have hc : c - a = b - a + (c - b) := by omega
  rw [hc, ← List.range'_append_1]
  rw [← hb]

/-- Slices with the same cells, perhaps at other addresses, are the same. -/
theorem slice_eq_slice (n : ℕ) (h : ∀ i < n, m (a + i) = m' (b + i)) :
    slice m a (a + n) = slice m' b (b + n) := by
  apply List.ext_getElem
  · simp [slice]
  · intro i hi _
    have hn : i < n := by simpa [slice] using hi
    simpa [slice] using h i hn

theorem slice_congr (h : ∀ i, a ≤ i → i < b → m i = m' i) : slice m a b = slice m' a b := by
  apply List.map_congr_left
  intro i hi
  have hmem := List.mem_range'_1.mp hi
  exact h i hmem.1 (by omega)

/-- The last two cells of a slice. -/
theorem slice_last_two (m : ℕ → α) (h : a + 2 ≤ b) :
    slice m a b = slice m a (b - 2) ++ [m (b - 2), m (b - 1)] := by
  rw [← slice_append m (show a ≤ b - 2 by omega) (show b - 2 ≤ b by omega)]
  congr 1
  have hb : b - (b - 2) = 2 := by omega
  have hnext : b - 2 + 1 = b - 1 := by omega
  simp [slice, hb, List.range', hnext]

theorem slice_memcpy_outside {l : List α} (h : b ≤ d ∨ d + l.length ≤ a) :
    slice (memcpy d l m) a b = slice m a b :=
  slice_congr fun i _ _ => memcpy_outside (by omega)

theorem slice_memcpy (d : ℕ) (l : List α) (m : ℕ → α) :
    slice (memcpy d l m) d (d + l.length) = l := by
  apply List.ext_getElem
  · simp [slice]
  · intro i _ hi
    simpa [slice] using memcpy_inside hi

/-- A copy of the beginning. -/
theorem memcpy_slice {n i : ℕ} (hi : i < n) : memcpy 0 (slice m' 0 n) m i = m' i := by
  have hlength : i < (slice m' 0 n).length := by
    rw [length_slice]
    omega
  have hinside := memcpy_inside (d := 0) (m := m) hlength
  rw [Nat.zero_add] at hinside
  rw [hinside]
  simp [slice]

theorem slice_memmove_outside {s : ℕ} (h : b ≤ d ∨ d + n ≤ a) :
    slice (memmove d s n m) a b = slice m a b :=
  slice_congr fun i _ _ => memmove_outside (by omega)

/-- What has been moved. -/
theorem slice_memmove (d s n : ℕ) (m : ℕ → α) :
    slice (memmove d s n m) d (d + n) = slice m s (s + n) := by
  apply slice_eq_slice
  intro i hi
  rw [memmove, if_pos (by omega), Nat.add_sub_cancel_left, Nat.add_comm]

theorem slice_memset_outside {x : α} (h : b ≤ d ∨ d + n ≤ a) :
    slice (memset d x n m) a b = slice m a b :=
  slice_congr fun i _ _ => memset_outside (by omega)

/-- What has been filled. -/
theorem slice_memset (d : ℕ) (x : α) (n : ℕ) (m : ℕ → α) :
    slice (memset d x n m) d (d + n) = List.replicate n x := by
  refine List.eq_replicate_iff.mpr ⟨by rw [length_slice, Nat.add_sub_cancel_left], fun y hy => ?_⟩
  obtain ⟨i, hi, hi', rfl⟩ := mem_slice.mp hy
  exact memset_inside hi hi'

end IotExplorer.Basis.Memory
