import Mathlib.Data.List.Induction

/-!
Sessions over a link. A session is opened and closed; what uses it stands between the two. An
opening may fail, and may follow a session that was lost without a word. A trace of such marks
is accepted from a state to a state, and in an accepted trace every use has its opening.
-/
namespace IotExplorer.Basis.Sessions

inductive Mark where
  | quiet
  | opens
  | fails
  | uses
  | closes
  | wrong
  deriving DecidableEq

/-- Whether a session is open behind a trace of marks, from whether it was before. -/
def accepts : Bool → List Mark → Option Bool
  | up, [] => some up
  | up, .quiet :: marks => accepts up marks
  | _, .opens :: marks => accepts true marks
  | _, .fails :: marks => accepts false marks
  | up, .uses :: marks => if up then accepts true marks else none
  | up, .closes :: marks => if up then accepts false marks else none
  | _, .wrong :: _ => none

def Mark.Continues (m : Mark) : Prop := m = .quiet ∨ m = .uses

variable {up up' : Bool} {m : Mark} {marks before after : List Mark}

theorem accepts_append (up : Bool) (marks marks' : List Mark) :
    accepts up (marks ++ marks') = (accepts up marks).bind fun up' => accepts up' marks' := by
  induction marks generalizing up with
  | nil => rfl
  | cons m marks ih =>
    cases m with
    | quiet => exact ih up
    | opens => exact ih true
    | fails => exact ih false
    | uses =>
      cases up with
      | false => rfl
      | true => exact ih true
    | closes =>
      cases up with
      | false => rfl
      | true => exact ih false
    | wrong => rfl

theorem accepts_quiet (h : ∀ m ∈ marks, m = .quiet) : accepts up marks = some up := by
  induction marks with
  | nil => rfl
  | cons m marks ih =>
    obtain rfl := h m List.mem_cons_self
    exact ih fun m hm => h m (List.mem_cons_of_mem _ hm)

theorem accepts_continues (h : ∀ m ∈ marks, m.Continues) : accepts true marks = some true := by
  induction marks with
  | nil => rfl
  | cons m marks ih =>
    have hrest := ih fun m hm => h m (List.mem_cons_of_mem _ hm)
    rcases h m List.mem_cons_self with rfl | rfl
    · exact hrest
    · exact hrest

/-- Nothing in an accepted trace is wrong. -/
theorem not_wrong (h : accepts up marks = some up') : .wrong ∉ marks := by
  induction marks generalizing up with
  | nil => simp
  | cons m marks ih =>
    rw [List.mem_cons, not_or]
    cases m with
    | quiet => exact ⟨by decide, ih h⟩
    | opens => exact ⟨by decide, ih h⟩
    | fails => exact ⟨by decide, ih h⟩
    | uses =>
      cases up with
      | false => cases h
      | true => exact ⟨by decide, ih h⟩
    | closes =>
      cases up with
      | false => cases h
      | true => exact ⟨by decide, ih h⟩
    | wrong => cases h

/-- A session that is open was opened, and has only been used since. -/
theorem opened_of_accepts (h : accepts false before = some true) :
    ∃ earlier between, before = earlier ++ .opens :: between ∧ ∀ m ∈ between, m.Continues := by
  induction before using List.reverseRecOn with
  | nil => cases h
  | append_singleton before last ih =>
    rw [accepts_append] at h
    obtain ⟨up, hbefore, hlast⟩ := Option.bind_eq_some_iff.mp h
    have hextend (hup : up = true) (hcontinues : last.Continues) :
        ∃ earlier between, before ++ [last] = earlier ++ .opens :: between ∧
          ∀ m ∈ between, m.Continues := by
      obtain ⟨earlier, between, rfl, hall⟩ := ih (hup ▸ hbefore)
      refine ⟨earlier, between ++ [last], by simp, fun m hm => ?_⟩
      rcases List.mem_append.mp hm with hm | hm
      · exact hall m hm
      · exact List.mem_singleton.mp hm ▸ hcontinues
    cases last with
    | quiet => exact hextend (Option.some.inj hlast) (.inl rfl)
    | opens => exact ⟨before, [], rfl, by simp⟩
    | uses =>
      cases up with
      | false => cases hlast
      | true => exact hextend rfl (.inr rfl)
    | fails => cases hlast
    | closes => cases up <;> cases hlast
    | wrong => cases hlast

/-- A use or a closing stands behind its opening. -/
theorem opened_before (hm : m = .uses ∨ m = .closes)
    (h : accepts false (before ++ m :: after) = some up') :
    ∃ earlier between, before = earlier ++ .opens :: between ∧ ∀ m ∈ between, m.Continues := by
  rw [accepts_append] at h
  obtain ⟨up, hbefore, hhere⟩ := Option.bind_eq_some_iff.mp h
  apply opened_of_accepts
  cases up with
  | true => exact hbefore
  | false => rcases hm with rfl | rfl <;> cases hhere

end IotExplorer.Basis.Sessions
