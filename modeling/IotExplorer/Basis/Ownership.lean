import Mathlib.Data.List.Perm.Basic

/-!
A heap as the set of its live addresses, and single ownership. Addresses grow,
so an address is never handed out twice. `Owned` says that the listed owners
hold every live address exactly once: nothing is freed twice, nothing leaks.
-/
namespace IotExplorer.Basis.Ownership

/-- The live addresses, all below the next one to be handed out. -/
structure Heap where
  live : List ℕ
  next : ℕ
  below : ∀ a ∈ live, a < next
  deriving DecidableEq

def Heap.empty : Heap := ⟨[], 1, by simp⟩

def Heap.alloc (heap : Heap) : Heap where
  live := heap.next :: heap.live
  next := heap.next + 1
  below := by
    intro a ha
    rcases List.mem_cons.mp ha with rfl | hold
    · exact Nat.lt_succ_self _
    · exact Nat.lt_succ_of_lt (heap.below a hold)

/-- Release of a block; an address that is not live leaves the heap unchanged. -/
def Heap.free (heap : Heap) (a : ℕ) : Heap where
  live := heap.live.erase a
  next := heap.next
  below := fun b hb => heap.below b (List.mem_of_mem_erase hb)

/-- Every live address has exactly one owner in the list. -/
def Owned (heap : Heap) (owners : List ℕ) : Prop := owners.Nodup ∧ owners.Perm heap.live

theorem owned_empty : Owned Heap.empty [] := ⟨List.nodup_nil, List.Perm.refl _⟩

variable {heap : Heap} {owners owners' : List ℕ} {a : ℕ}

theorem Owned.perm (h : Owned heap owners) (hp : owners'.Perm owners) : Owned heap owners' :=
  ⟨hp.nodup_iff.mpr h.1, hp.trans h.2⟩

theorem Owned.mem (h : Owned heap owners) (ha : a ∈ owners) : a ∈ heap.live := h.2.mem_iff.mp ha

theorem Owned.alloc (h : Owned heap owners) : Owned heap.alloc (heap.next :: owners) := by
  refine ⟨List.nodup_cons.mpr ⟨fun hmem => ?_, h.1⟩, h.2.cons heap.next⟩
  exact Nat.lt_irrefl _ (heap.below _ (h.mem hmem))

theorem Owned.free (h : Owned heap (a :: owners)) : Owned (heap.free a) owners := by
  refine ⟨(List.nodup_cons.mp h.1).2, ?_⟩
  have herase := h.2.erase a
  rwa [List.erase_cons_head] at herase

end IotExplorer.Basis.Ownership
