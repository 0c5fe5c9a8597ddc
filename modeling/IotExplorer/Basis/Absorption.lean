import Mathlib.Data.Nat.Notation

/-!
A state that absorbs a stream in blocks of a fixed size. The stream is taken element by
element, so that pieces of any sizes absorb what they are together; the lemmas below
say what a shorter piece, a piece that fills the block and a whole block do.
-/
namespace IotExplorer.Basis.Absorption

variable {σ α : Type*}

/-- The state after the blocks that are complete, and the elements of the next one. -/
structure Absorbed (σ α : Type*) where
  state : σ
  pending : List α

variable (size : ℕ) (compress : σ → List α → σ)

def absorbOne (a : Absorbed σ α) (x : α) : Absorbed σ α :=
  if a.pending.length + 1 < size then ⟨a.state, a.pending ++ [x]⟩
  else ⟨compress a.state (a.pending ++ [x]), []⟩

def absorb (a : Absorbed σ α) (l : List α) : Absorbed σ α := l.foldl (absorbOne size compress) a

variable {size compress} {a : Absorbed σ α} {l : List α}

@[simp] theorem absorb_nil : absorb size compress a [] = a := rfl

theorem absorb_append (l r : List α) :
    absorb size compress a (l ++ r) = absorb size compress (absorb size compress a l) r :=
  List.foldl_append

/-- A piece that does not fill the block. -/
theorem absorb_short (h : a.pending.length + l.length < size) :
    absorb size compress a l = ⟨a.state, a.pending ++ l⟩ := by
  induction l generalizing a with
  | nil => simp
  | cons x l ih =>
      rw [List.length_cons] at h
      have hone : absorbOne size compress a x = ⟨a.state, a.pending ++ [x]⟩ := if_pos (by omega)
      rw [absorb, List.foldl_cons, hone]
      have hrest := ih (a := ⟨a.state, a.pending ++ [x]⟩) (by simp; omega)
      rw [absorb] at hrest
      rw [hrest, List.append_assoc, List.singleton_append]

/-- A piece that fills the block. -/
theorem absorb_fill (hl : l ≠ []) (h : a.pending.length + l.length = size) :
    absorb size compress a l = ⟨compress a.state (a.pending ++ l), []⟩ := by
  obtain ⟨front, x, rfl⟩ : ∃ front x, l = front ++ [x] :=
    ⟨l.dropLast, l.getLast hl, (List.dropLast_concat_getLast hl).symm⟩
  rw [List.length_append, List.length_singleton] at h
  have hone : absorbOne size compress ⟨a.state, a.pending ++ front⟩ x =
      ⟨compress a.state (a.pending ++ front ++ [x]), []⟩ :=
    if_neg (by rw [List.length_append]; omega)
  have hfront : absorb size compress a front = ⟨a.state, a.pending ++ front⟩ :=
    absorb_short (by omega)
  rw [absorb_append, hfront, absorb, List.foldl_cons, hone, List.foldl_nil, List.append_assoc]

theorem pending_length (hsize : 0 < size) (ha : a.pending.length < size) :
    (absorb size compress a l).pending.length = (a.pending.length + l.length) % size := by
  induction l generalizing a with
  | nil => exact (Nat.mod_eq_of_lt ha).symm
  | cons x l ih =>
      rw [absorb, List.foldl_cons, ← absorb, absorbOne, List.length_cons]
      split
      · rename_i hshort
        rw [ih (by simpa using hshort), List.length_append, List.length_singleton]
        congr 1
        omega
      · rename_i hfull
        have heq : a.pending.length + (l.length + 1) = l.length + size := by omega
        rw [ih (by exact hsize), heq, Nat.add_mod_right]
        simp

def blocksOf (size : ℕ) : ℕ → List α → List (List α)
  | 0, _ => []
  | n + 1, l => l.take size :: blocksOf size n (l.drop size)

/-- Whole blocks are compressed one after another. -/
theorem absorb_blocks (hsize : 0 < size) (n : ℕ) (s : σ) (h : size * n ≤ l.length) :
    absorb size compress ⟨s, []⟩ l =
      absorb size compress ⟨(blocksOf size n l).foldl compress s, []⟩ (l.drop (size * n)) := by
  induction n generalizing s l with
  | zero => rfl
  | succ n ih =>
    rw [Nat.mul_succ] at h
    have hlen : (l.take size).length = size := by
      rw [List.length_take]
      omega
    have hne : l.take size ≠ [] := by
      rw [← List.length_pos_iff]
      omega
    have hblock : absorb size compress ⟨s, []⟩ (l.take size) = ⟨compress s (l.take size), []⟩ :=
      absorb_fill hne (by rw [hlen, List.length_nil, Nat.zero_add])
    have hrest := ih (l := l.drop size) (compress s (l.take size))
      (by rw [List.length_drop]; omega)
    rw [List.drop_drop, Nat.add_comm size, ← Nat.mul_succ] at hrest
    rw [blocksOf, List.foldl_cons, ← hrest, ← hblock, ← absorb_append, List.take_append_drop]

end IotExplorer.Basis.Absorption
