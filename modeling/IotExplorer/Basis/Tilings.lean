import Mathlib.Data.List.Basic
import Mathlib.Data.Int.Order.Basic
import Mathlib.Order.Lattice

/-!
Stretchs of integers cut off one after another: each has so many numbers, or as
many as are left. `Tiles` says that a list of them begins such a tiling and where
the next one would begin. The intervals of a tiling lie in what is tiled, and one
behind the other.
-/
namespace IotExplorer.Basis.Tilings

structure Stretch where
  first : ℤ
  last : ℤ
  deriving DecidableEq, Repr

def Stretch.size (range : Stretch) : ℤ := range.last - range.first + 1

variable {size lo hi next : ℤ} {ranges : List Stretch} {range : Stretch}

/-- The stretch at the front of what is left. -/
def cut (size lo hi : ℤ) : Stretch := ⟨lo, lo + min size (hi - lo) - 1⟩

@[simp] theorem cut_size : (cut size lo hi).size = min size (hi - lo) := by
  rw [Stretch.size, cut]
  dsimp only
  omega

/-- The stretches are cut off from a number on, and the next one begins behind them. -/
def Tiles (size hi : ℤ) : ℤ → List Stretch → ℤ → Prop
  | lo, [], next => next = lo
  | lo, range :: ranges, next =>
      (lo < hi ∧ range = cut size lo hi) ∧ Tiles size hi (lo + min size (hi - lo)) ranges next

theorem Tiles.concat (h : Tiles size hi lo ranges next) (hnext : next < hi) :
    Tiles size hi lo (ranges ++ [cut size next hi]) (next + min size (hi - next)) := by
  induction ranges generalizing lo with
  | nil =>
    have hlo : next = lo := h
    rw [← hlo]
    exact ⟨⟨hnext, rfl⟩, rfl⟩
  | cons range ranges ih => exact ⟨h.1, ih h.2⟩

/-- The stretches are not empty and lie in what is tiled. -/
theorem Tiles.within (hsize : 0 < size) (h : Tiles size hi lo ranges next) (hmem : range ∈ ranges) :
    lo ≤ range.first ∧ range.first ≤ range.last ∧ range.last ≤ hi - 1 := by
  induction ranges generalizing lo with
  | nil => cases hmem
  | cons head ranges ih =>
    obtain ⟨⟨hlo, hhead⟩, hrest⟩ := h
    rcases List.mem_cons.mp hmem with rfl | hmem
    · rw [hhead, cut]
      refine ⟨le_rfl, ?_, ?_⟩ <;> dsimp only <;> omega
    · obtain ⟨hfirst, hsome⟩ := ih hrest hmem
      exact ⟨by omega, hsome⟩

/-- A stretch ends before those that follow it. -/
theorem Tiles.pairwise (hsize : 0 < size) (h : Tiles size hi lo ranges next) :
    ranges.Pairwise fun range later => range.last < later.first := by
  induction ranges generalizing lo with
  | nil => exact List.Pairwise.nil
  | cons head ranges ih =>
    obtain ⟨⟨-, hhead⟩, hrest⟩ := h
    refine List.Pairwise.cons ?_ (ih hrest)
    intro later hmem
    have hfirst := (hrest.within hsize hmem).1
    rw [hhead, cut]
    dsimp only
    omega

end IotExplorer.Basis.Tilings
