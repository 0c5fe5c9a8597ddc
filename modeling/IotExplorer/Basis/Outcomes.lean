import Mathlib.Logic.Basic

/-!
Computations that may fail. `Runs x post` says that `x` succeeds with a value that
meets `post`: the weakest precondition of `post`. The rules push it through the
steps of a computation, and a condition may be replaced by one that agrees with
it on the value that comes out.
-/
namespace IotExplorer.Basis.Outcomes

universe u

variable {ε : Type*} {α β : Type u} {x : Except ε α} {post post' : α → Prop}

/-- The computation succeeds, and its value meets the condition. -/
def Runs (x : Except ε α) (post : α → Prop) : Prop :=
  match x with
  | .error _ => False
  | .ok a => post a

@[simp] theorem runs_ok (a : α) : Runs (.ok a : Except ε α) post ↔ post a := Iff.rfl

@[simp] theorem runs_pure (a : α) : Runs (pure a : Except ε α) post ↔ post a := Iff.rfl

@[simp] theorem runs_error (e : ε) : Runs (.error e : Except ε α) post ↔ False := Iff.rfl

@[simp] theorem ok_bind (a : α) (f : α → Except ε β) : (.ok a : Except ε α) >>= f = f a := rfl

@[simp] theorem error_bind (e : ε) (f : α → Except ε β) :
    (.error e : Except ε α) >>= f = .error e := rfl

theorem runs_bind (f : α → Except ε β) (post : β → Prop) :
    Runs (x >>= f) post ↔ Runs x fun a => Runs (f a) post := by
  cases x <;> rfl

theorem runs_map (f : α → β) (post : β → Prop) :
    Runs (x.map f) post ↔ Runs x fun a => post (f a) := by
  cases x <;> rfl

/-- What does not depend on the value is asked only once. -/
theorem runs_and (p : Prop) : Runs x (fun a => p ∧ post a) ↔ p ∧ Runs x post := by
  cases x with
  | error e => simp
  | ok a => rfl

theorem runs_iff : Runs x post ↔ ∃ a, x = .ok a ∧ post a := by
  cases x with
  | error e => simp
  | ok a => simp

theorem runs_congr (h : ∀ a, x = .ok a → (post a ↔ post' a)) : Runs x post ↔ Runs x post' := by
  cases x with
  | error e => rfl
  | ok a => exact h a rfl

theorem Runs.mono (hruns : Runs x post) (h : ∀ a, x = .ok a → post a → post' a) : Runs x post' := by
  cases x with
  | error e => exact hruns
  | ok a => exact h a rfl hruns

end IotExplorer.Basis.Outcomes
