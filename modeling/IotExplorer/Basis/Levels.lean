import Mathlib.Data.List.Basic

/-!
Hierarchical names and patterns over them. A name is a list of levels, and a
pattern is a list of segments: an exact level, any one level, or everything
from here on. Names and patterns written as separated strings are cut with
`List.splitOn`; `splitOn_cases` is the case split that every induction over
such a string uses.
-/
namespace IotExplorer.Basis.Levels

inductive Segment (β : Type*) where
  | exact (level : β)
  | any
  | rest
  deriving DecidableEq

variable {β : Type*}

/-- A segment other than `rest` against one level. -/
def Segment.Accepts : Segment β → β → Prop
  | .exact level, t => level = t
  | .any, _ => True
  | .rest, _ => False

instance [DecidableEq β] (s : Segment β) (t : β) : Decidable (s.Accepts t) := by
  cases s <;> unfold Segment.Accepts <;> infer_instance

/-- Level-by-level matching. A final `rest` takes all remaining levels, none included. -/
def Matches : List (Segment β) → List β → Prop
  | [], ts => ts = []
  | [.rest], _ => True
  | _ :: _, [] => False
  | s :: ss, t :: ts => s.Accepts t ∧ Matches ss ts

instance decidableMatches [DecidableEq β] :
    (ss : List (Segment β)) → (ts : List β) → Decidable (Matches ss ts)
  | [], ts => by unfold Matches; infer_instance
  | [.rest], _ => by unfold Matches; infer_instance
  | .exact _ :: _, [] => by unfold Matches; infer_instance
  | .any :: _, [] => by unfold Matches; infer_instance
  | .rest :: _ :: _, [] => by unfold Matches; infer_instance
  | .exact _ :: ss, _ :: ts => by
      have := decidableMatches ss ts
      unfold Matches; infer_instance
  | .any :: ss, _ :: ts => by
      have := decidableMatches ss ts
      unfold Matches; infer_instance
  | .rest :: s :: ss, _ :: ts => by
      have := decidableMatches (s :: ss) ts
      unfold Matches; infer_instance

theorem matches_rest (ts : List β) : Matches [.rest] ts := by
  cases ts <;> trivial

theorem matches_nil_right_iff (ss : List (Segment β)) :
    Matches ss [] ↔ ss = [] ∨ ss = [.rest] := by
  match ss with
  | [] => simp [Matches]
  | [.rest] => simp [Matches]
  | .exact _ :: _ => simp [Matches]
  | .any :: _ => simp [Matches]
  | .rest :: _ :: _ => simp [Matches]

/-- Away from a final `rest`, matching consumes one level for one segment. -/
theorem matches_cons_cons_iff (s : Segment β) (ss : List (Segment β)) (t : β) (ts : List β)
    (h : s :: ss ≠ [.rest]) :
    Matches (s :: ss) (t :: ts) ↔ s.Accepts t ∧ Matches ss ts := by
  match s, ss with
  | .rest, [] => exact absurd rfl h
  | .rest, _ :: _ => simp only [Matches]
  | .exact _, _ => simp only [Matches]
  | .any, _ => simp only [Matches]

theorem matches_exact_iff (level : β) (ts : List β) :
    Matches [.exact level] ts ↔ ts = [level] := by
  cases ts with
  | nil =>
    rw [matches_nil_right_iff]
    simp
  | cons t ts =>
    rw [matches_cons_cons_iff _ _ _ _ (by simp), List.cons.injEq]
    exact and_congr_left' eq_comm

theorem matches_any_iff (ts : List β) : Matches [.any] ts ↔ ts.length = 1 := by
  cases ts with
  | nil =>
    rw [matches_nil_right_iff]
    simp
  | cons t ts =>
    rw [matches_cons_cons_iff _ _ _ _ (by simp), List.length_cons, Nat.add_eq_right,
      List.length_eq_zero_iff]
    exact iff_of_eq (true_and _)

section Separated
variable {α : Type*} [DecidableEq α]

/-- A string is one level, or a first level, the separator and the other levels. -/
theorem splitOn_cases (sep : α) (w : List α) :
    (sep ∉ w ∧ w.splitOn sep = [w]) ∨
      ∃ level rest, sep ∉ level ∧ w = level ++ sep :: rest ∧
        w.splitOn sep = level :: rest.splitOn sep := by
  by_cases hmem : sep ∈ w
  · obtain ⟨level, rest, rfl, hlevel⟩ := List.eq_append_cons_of_mem hmem
    exact Or.inr ⟨level, rest, hlevel, rfl, List.splitOn_append_cons_self_of_not_mem hlevel rest⟩
  · exact Or.inl ⟨hmem, List.splitOn_eq_singleton hmem⟩

end Separated
end IotExplorer.Basis.Levels
