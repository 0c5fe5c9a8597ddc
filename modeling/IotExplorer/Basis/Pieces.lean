import Mathlib.Data.List.Basic

/-!
Texts that consist of pieces, each of which ends with a delimiter of two different
letters. A text may be divided behind any delimiter: the pieces of the whole are then the
pieces of the parts, in order.
-/
namespace IotExplorer.Basis.Pieces

variable {α : Type*} {x y : α} {l r : List α}

/-- A text that is empty or ends with the delimiter. -/
def Delimited (x y : α) (l : List α) : Prop := l = [] ∨ ∃ t, l = t ++ [x, y]

/-- A letter in front of the first piece. -/
def consHead (a : α) : List (List α) → List (List α)
  | [] => [[a]]
  | p :: ps => (a :: p) :: ps

/-- The pieces of a text, each up to and with its delimiter. -/
def pieces [DecidableEq α] (x y : α) : List α → List (List α)
  | [] => []
  | [a] => [[a]]
  | a :: b :: l =>
      if a = x ∧ b = y then [a, b] :: pieces x y l else consHead a (pieces x y (b :: l))

theorem delimited_append (hl : Delimited x y l) (hr : Delimited x y r) :
    Delimited x y (l ++ r) := by
  rcases hr with rfl | ⟨t, rfl⟩
  · rwa [List.append_nil]
  · exact Or.inr ⟨l ++ t, (List.append_assoc l t [x, y]).symm⟩

theorem delimited_flatten {ls : List (List α)} (h : ∀ l ∈ ls, Delimited x y l) :
    Delimited x y ls.flatten := by
  induction ls with
  | nil => exact Or.inl rfl
  | cons l ls ih =>
    rw [List.flatten_cons]
    exact delimited_append (h l (List.mem_cons_self ..))
      (ih fun l' hl' => h l' (List.mem_cons_of_mem l hl'))

/-- What is left of a text behind a delimiter. -/
theorem Delimited.right (hxy : x ≠ y) (h : Delimited x y (l ++ r)) (hl : Delimited x y l) :
    Delimited x y r := by
  rcases h with h | ⟨t, h⟩
  · exact Or.inl (List.append_eq_nil_iff.mp h).2
  · rcases List.append_eq_append_iff.mp h with ⟨t', rfl, hr⟩ | ⟨t', ht, hr⟩
    · exact Or.inr ⟨t', hr⟩
    · -- the delimiter begins before `r`
      rcases List.cons_eq_append_iff.mp hr with ⟨rfl, hall⟩ | ⟨t'', rfl, htail⟩
      · exact Or.inr ⟨[], hall⟩
      · rcases List.cons_eq_append_iff.mp htail with ⟨rfl, rfl⟩ | ⟨u, rfl, hnone⟩
        · -- then `l` ends with `x`
          rcases hl with rfl | ⟨s, hs⟩
          · simp at ht
          · have hlast := congrArg List.getLast? (ht.symm.trans hs)
            simp at hlast
            exact absurd hlast hxy
        · exact Or.inl (List.append_eq_nil_iff.mp hnone.symm).2

theorem consHead_append {a : α} {ps qs : List (List α)} (h : ps ≠ []) :
    consHead a (ps ++ qs) = consHead a ps ++ qs := by
  cases ps with
  | nil => exact absurd rfl h
  | cons p ps => rfl

theorem flatten_consHead (a : α) (ps : List (List α)) :
    (consHead a ps).flatten = a :: ps.flatten := by
  cases ps <;> rfl

variable [DecidableEq α]

/-- The pieces are the whole text. -/
theorem flatten_pieces (x y : α) (l : List α) : (pieces x y l).flatten = l := by
  fun_induction pieces x y l with
  | case1 => rfl
  | case2 a => rfl
  | case3 a b l heq ih => simp [ih]
  | case4 a b l hne ih => rw [flatten_consHead, ih]

theorem pieces_ne_nil {a : α} : pieces x y (a :: l) ≠ [] := by
  intro h
  have hflatten := flatten_pieces x y (a :: l)
  rw [h] at hflatten
  cases hflatten

/-- Behind a delimiter, a text may be divided. -/
theorem pieces_append (hxy : x ≠ y) (h : Delimited x y l) (r : List α) :
    pieces x y (l ++ r) = pieces x y l ++ pieces x y r := by
  fun_induction pieces x y l with
  | case1 => rfl
  | case2 a =>
    rcases h with h | ⟨t, h⟩
    · cases h
    · have hlength := congrArg List.length h
      simp at hlength
  | case3 a b l heq ih =>
    obtain ⟨rfl, rfl⟩ := heq
    have hrest := Delimited.right hxy (l := [a, b]) h (Or.inr ⟨[], rfl⟩)
    rw [List.cons_append, List.cons_append, pieces, if_pos ⟨rfl, rfl⟩, ih hrest, List.cons_append]
  | case4 a b l hne ih =>
    have hrest : Delimited x y (b :: l) := by
      rcases h with h | ⟨t, h⟩
      · cases h
      · rcases List.cons_eq_append_iff.mp h with ⟨rfl, hall⟩ | ⟨t', rfl, htail⟩
        · cases hall
          exact absurd ⟨rfl, rfl⟩ hne
        · exact Or.inr ⟨t', htail⟩
    rw [List.cons_append, List.cons_append, pieces, if_neg hne, ← List.cons_append, ih hrest,
      consHead_append pieces_ne_nil]

/-- The pieces of texts that all end with the delimiter. -/
theorem pieces_flatten (hxy : x ≠ y) {ls : List (List α)} (h : ∀ l ∈ ls, Delimited x y l) :
    pieces x y ls.flatten = ls.flatMap (pieces x y) := by
  induction ls with
  | nil => rfl
  | cons l ls ih =>
    rw [List.flatten_cons, pieces_append hxy (h l (List.mem_cons_self ..)), List.flatMap_cons,
      ih fun l' hl' => h l' (List.mem_cons_of_mem l hl')]

/-- A text with no delimiter but at its end is one piece. -/
theorem pieces_eq_singleton (hl : l ≠ []) (h : ∀ u v, l = u ++ x :: y :: v → v = []) :
    pieces x y l = [l] := by
  fun_induction pieces x y l with
  | case1 => exact absurd rfl hl
  | case2 a => rfl
  | case3 a b l heq ih =>
    obtain ⟨rfl, rfl⟩ := heq
    have hnil := h [] l rfl
    rw [hnil]
    rfl
  | case4 a b l hne ih =>
    rw [ih (List.cons_ne_nil b l) fun u v huv => h (a :: u) v (by rw [huv]; rfl)]
    rfl

end IotExplorer.Basis.Pieces
