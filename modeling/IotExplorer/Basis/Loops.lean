import Mathlib.Data.Nat.Notation

/-!
Loops whose body takes one input in each iteration and either goes on with a new state
or leaves the loop. `stateAt` is the state in front of an iteration, as long as the loop goes
on; a loop in which each iteration that goes on makes a measure smaller is left.
-/
namespace IotExplorer.Basis.Loops

variable {S : Type*} (body : ℕ → S → Option S)

/-- The state in front of an iteration, if the loop comes to it. -/
def stateAt (s : S) : ℕ → Option S
  | 0 => some s
  | n + 1 => (stateAt s n).bind (body n)

def Ends (s : S) : Prop := ∃ n, stateAt body s n = none

variable {body} {s : S}

theorem ends_of_measure (measure : S → ℕ)
    (h : ∀ n a b, stateAt body s n = some a → body n a = some b → measure b < measure a) :
    Ends body s := by
  have hbound (n : ℕ) (a : S) (ha : stateAt body s n = some a) : measure a + n ≤ measure s := by
    induction n generalizing a with
    | zero =>
        injection ha with ha
        subst ha
        exact Nat.le_refl _
    | succ n ih =>
        obtain ⟨b, hb, hbody⟩ := Option.bind_eq_some_iff.mp ha
        have hlt := h n b a hb hbody
        have hle := ih b hb
        omega
  refine ⟨measure s + 1, ?_⟩
  cases ha : stateAt body s (measure s + 1) with
  | none => rfl
  | some a =>
      have hle := hbound _ a ha
      omega

end IotExplorer.Basis.Loops
