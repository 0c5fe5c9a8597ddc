import Mathlib.Data.List.Range

/-!
Queues in a ring of places. The place that was read last and the place that was written
last bound the queue, so that equal places are an empty queue and one place always stays
unused. A write behind the queue appends, a step of the read place takes the first element,
and the queue is full when the next place to write is the read place.
-/
namespace IotExplorer.Basis.RingQueues

variable {α : Type*} {n r w i : ℕ} {mem mem' : ℕ → α} {x : α}

def next (n i : ℕ) : ℕ := if i + 1 < n then i + 1 else 0

/-- The place so many steps behind this one, less than a round away. -/
def place (n r k : ℕ) : ℕ := if r + k < n then r + k else r + k - n

/-- How many places lie between the read place and the written one. -/
def count (n r w : ℕ) : ℕ := if r ≤ w then w - r else w + n - r

/-- The queue between the read place and the written one. -/
def contents (mem : ℕ → α) (n r w : ℕ) : List α :=
  (List.range (count n r w)).map fun k => mem (place n r (k + 1))

theorem next_lt (hi : i < n) : next n i < n := by
  unfold next
  split <;> omega

theorem next_eq_mod (hi : i < n) : next n i = (i + 1) % n := by
  unfold next
  split
  · next h => exact (Nat.mod_eq_of_lt h).symm
  · next h =>
    have hlast : i + 1 = n := by omega
    rw [hlast, Nat.mod_self]

theorem length_contents (mem : ℕ → α) (n r w : ℕ) : (contents mem n r w).length = count n r w := by
  simp [contents]

theorem count_lt (hr : r < n) (hw : w < n) : count n r w < n := by
  unfold count
  split <;> omega

theorem count_self (n r : ℕ) : count n r r = 0 := by
  simp [count]

theorem contents_self (mem : ℕ → α) (n r : ℕ) : contents mem n r r = [] := by
  rw [contents, count_self]
  rfl

theorem count_zero (hr : r < n) : count n r w = 0 ↔ w = r := by
  unfold count
  split_ifs <;> omega

theorem count_write (hr : r < n) (hw : w < n) (hroom : next n w ≠ r) :
    count n r (next n w) = count n r w + 1 := by
  unfold next at hroom ⊢
  unfold count
  split_ifs at hroom ⊢ <;> omega

theorem count_read (hr : r < n) (hw : w < n) (hsome : w ≠ r) :
    count n r w = count n (next n r) w + 1 := by
  unfold next count
  split_ifs <;> omega

/-- The queue is full exactly when all places but one are used. -/
theorem count_full (hr : r < n) (hw : w < n) : next n w = r ↔ count n r w = n - 1 := by
  unfold next count
  split_ifs <;> omega

theorem place_count (hr : r < n) (hw : w < n) (hroom : next n w ≠ r) :
    place n r (count n r w + 1) = next n w := by
  unfold next at hroom ⊢
  unfold place count
  split_ifs at hroom ⊢ <;> omega

theorem place_ne_next (hr : r < n) (hw : w < n) {k : ℕ} (hk : k < count n r w) :
    place n r (k + 1) ≠ next n w := by
  unfold count at hk
  unfold place next
  split_ifs at hk ⊢ <;> omega

theorem place_read (hr : r < n) {k : ℕ} (hk : k < n) :
    place n r (k + 1) = place n (next n r) k := by
  unfold place next
  split_ifs <;> omega

/-- An element that is written behind the queue is its last. -/
theorem contents_write (hr : r < n) (hw : w < n) (hroom : next n w ≠ r)
    (hsame : ∀ i, i ≠ next n w → mem' i = mem i) (hnew : mem' (next n w) = x) :
    contents mem' n r (next n w) = contents mem n r w ++ [x] := by
  rw [contents, count_write hr hw hroom, List.range_succ, List.map_append, List.map_singleton,
    place_count hr hw hroom, hnew]
  congr 1
  refine List.map_congr_left fun k hk => hsame _ ?_
  exact place_ne_next hr hw (List.mem_range.mp hk)

/-- The first element is at the next place to read. -/
theorem contents_read (hr : r < n) (hw : w < n) (hsome : w ≠ r) :
    contents mem n r w = mem (next n r) :: contents mem n (next n r) w := by
  have hcount := count_read hr hw hsome
  have hlt := count_lt (next_lt hr) hw
  rw [contents, hcount, List.range_succ_eq_map, List.map_cons, List.map_map]
  congr 1
  · rw [place_read hr (by omega)]
    congr 1
    unfold place
    have hnext := next_lt hr
    split_ifs <;> omega
  · refine List.map_congr_left fun k hk => congrArg mem ?_
    have hlt' := List.mem_range.mp hk
    exact place_read hr (by omega)

end IotExplorer.Basis.RingQueues
