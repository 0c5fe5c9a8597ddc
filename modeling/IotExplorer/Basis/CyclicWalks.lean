import Mathlib.Data.List.Range
import Mathlib.Data.Nat.Notation

/-!
Walks from index to index that end at the first good one, and may fail on the way. `walk`
takes so many steps; `Reaches` says that it ends at an index. A walk around a circle of indices is
compared with the list of the indices in the order in which they are met.
-/
namespace IotExplorer.Basis.CyclicWalks

variable {ε : Type*} (next : ℕ → Except ε ℕ) (good : ℕ → Bool)

/-- The walk from an index, if it ends after so many steps. -/
def walk : ℕ → ℕ → Option (Except ε ℕ)
  | 0, _ => none
  | steps + 1, p =>
      match next p with
      | .error e => some (.error e)
      | .ok q => if good q then some (.ok q) else walk steps q

/-- The walk from an index ends at another. -/
inductive Reaches : ℕ → ℕ → Prop
  | here {p q : ℕ} : next p = .ok q → good q = true → Reaches p q
  | later {p r q : ℕ} : next p = .ok r → good r = false → Reaches r q → Reaches p q

variable {next good}

section Walks
variable {p q r : ℕ}

theorem reaches_iff : Reaches next good p q ↔ ∃ steps, walk next good steps p = some (.ok q) := by
  constructor
  · intro h
    induction h with
    | here hnext hgood => exact ⟨1, by simp [walk, hnext, hgood]⟩
    | later hnext hbad _ ih =>
      obtain ⟨steps, hsteps⟩ := ih
      exact ⟨steps + 1, by simp [walk, hnext, hbad, hsteps]⟩
  · rintro ⟨steps, hsteps⟩
    induction steps generalizing p with
    | zero => cases hsteps
    | succ steps ih =>
      unfold walk at hsteps
      cases hnext : next p with
      | error e =>
        rw [hnext] at hsteps
        cases hsteps
      | ok r =>
        rw [hnext] at hsteps
        cases hgood : good r with
        | true =>
          simp only [hgood, if_true, Option.some.injEq, Except.ok.injEq] at hsteps
          exact hsteps ▸ .here hnext hgood
        | false =>
          simp only [hgood, Bool.false_eq_true, if_false] at hsteps
          exact .later hnext hgood (ih hsteps)

theorem Reaches.good_end (h : Reaches next good p q) : good q = true := by
  induction h with
  | here _ hgood => exact hgood
  | later _ _ _ ih => exact ih

/-- What each step keeps holds of the end. -/
theorem Reaches.invariant {inv : ℕ → Prop} (h : Reaches next good p q)
    (hstep : ∀ p r, inv p → next p = .ok r → inv r) (hp : inv p) : inv q := by
  induction h with
  | here hnext _ => exact hstep _ _ hp hnext
  | later hnext _ _ ih => exact ih (hstep _ _ hp hnext)

/-- A step to a bad index does not change where the walk ends. -/
theorem reaches_later_iff (hnext : next p = .ok r) (hbad : good r = false) :
    Reaches next good p q ↔ Reaches next good r q := by
  constructor
  · intro h
    cases h with
    | here hnext' hgood =>
      cases hnext.symm.trans hnext'
      exact absurd hgood (by rw [hbad]; exact Bool.false_ne_true)
    | later hnext' _ hrest =>
      cases hnext.symm.trans hnext'
      exact hrest
  · exact .later hnext hbad

theorem reaches_here_iff (hnext : next p = .ok r) (hgood : good r = true) :
    Reaches next good p q ↔ q = r := by
  constructor
  · intro h
    cases h with
    | here hnext' _ =>
      cases hnext.symm.trans hnext'
      rfl
    | later hnext' hbad _ =>
      cases hnext.symm.trans hnext'
      rw [hgood] at hbad
      cases hbad
  · rintro rfl
    exact .here hnext hgood

theorem Reaches.unique {q' : ℕ} (h : Reaches next good p q) (h' : Reaches next good p q') :
    q = q' := by
  induction h with
  | here hnext hgood => exact ((reaches_here_iff hnext hgood).mp h').symm
  | later hnext hbad _ ih => exact ih ((reaches_later_iff hnext hbad).mp h')

/-- Over bad indices a walk goes up to its last. -/
theorem reaches_up_iff (hpr : p ≤ r) (hnext : ∀ j, p ≤ j → j < r → next j = .ok (j + 1))
    (hbad : ∀ j, p < j → j ≤ r → good j = false) :
    Reaches next good p q ↔ Reaches next good r q := by
  induction hk : r - p generalizing p with
  | zero =>
    obtain rfl : p = r := by omega
    rfl
  | succ k ih =>
    rw [reaches_later_iff (hnext p (Nat.le_refl p) (by omega)) (hbad (p + 1) (by omega) (by omega))]
    exact ih (by omega) (fun j hj hjr => hnext j (by omega) hjr)
      (fun j hj hjr => hbad j (by omega) hjr)
      (by omega)

/-- Over bad indices a walk goes down to its last. -/
theorem reaches_down_iff (hrp : r ≤ p) (hnext : ∀ j, r < j → j ≤ p → next j = .ok (j - 1))
    (hbad : ∀ j, r ≤ j → j < p → good j = false) :
    Reaches next good p q ↔ Reaches next good r q := by
  induction hk : p - r generalizing p with
  | zero =>
    obtain rfl : p = r := by omega
    rfl
  | succ k ih =>
    rw [reaches_later_iff (hnext p (by omega) (Nat.le_refl p)) (hbad (p - 1) (by omega) (by omega))]
    exact ih (by omega) (fun j hj hjp => hnext j hj (by omega))
      (fun j hj hjp => hbad j hj (by omega))
      (by omega)

/-- A walk that goes up comes to the first good index. -/
theorem reaches_up (hpq : p < q) (hnext : ∀ j, p ≤ j → j < q → next j = .ok (j + 1))
    (hbad : ∀ j, p < j → j < q → good j = false) (hgood : good q = true) :
    Reaches next good p q := by
  rw [reaches_up_iff (show p ≤ q - 1 by omega) (fun j hj hjq => hnext j hj (by omega))
    (fun j hj hjq => hbad j hj (by omega))]
  have hlast := hnext (q - 1) (by omega) (by omega)
  rw [Nat.sub_add_cancel (by omega)] at hlast
  exact .here hlast hgood

/-- A walk that goes down comes to the first good index. -/
theorem reaches_down (hqp : q < p) (hnext : ∀ j, q < j → j ≤ p → next j = .ok (j - 1))
    (hbad : ∀ j, q < j → j < p → good j = false) (hgood : good q = true) :
    Reaches next good p q := by
  rw [reaches_down_iff (show q + 1 ≤ p by omega) (fun j hj hjp => hnext j (by omega) hjp)
    (fun j hj hjp => hbad j (by omega) hjp)]
  exact .here (hnext (q + 1) (by omega) (by omega)) hgood

end Walks

section Circles
variable {n p i : ℕ}

/-- The indices of a circle in the order in which they are met forward from one of them, and that
one. -/
def forward (n p : ℕ) : List ℕ := (List.range n).map fun k => (p + (k + 1)) % n

/-- The indices of a circle in the order in which they are met backward from one of them, and that
one. -/
def backward (n p : ℕ) : List ℕ := (List.range n).map fun k => (p + n - (k + 1)) % n

theorem forward_at (hp : p < n) {k : ℕ} (hk : k < n) :
    (p + (k + 1)) % n = if p + (k + 1) < n then p + (k + 1) else p + (k + 1) - n := by
  split_ifs with h
  · exact Nat.mod_eq_of_lt h
  · rw [Nat.mod_eq_sub_mod (by omega)]
    exact Nat.mod_eq_of_lt (by omega)

theorem backward_at (hp : p < n) {k : ℕ} (hk : k < n) :
    (p + n - (k + 1)) % n = if k < p then p - (k + 1) else p + n - (k + 1) := by
  split_ifs with h
  · rw [Nat.mod_eq_sub_mod (by omega)]
    have hback : p + n - (k + 1) - n = p - (k + 1) := by omega
    rw [hback]
    exact Nat.mod_eq_of_lt (by omega)
  · exact Nat.mod_eq_of_lt (by omega)

theorem find_map_range_iff {f : ℕ → ℕ} : ((List.range n).map f).find? good = some i ↔
    ∃ k < n, f k = i ∧ good i = true ∧ ∀ j < k, good (f j) = false := by
  rw [List.find?_map, Option.map_eq_some_iff]
  constructor
  · rintro ⟨k, hk, rfl⟩
    rw [List.find?_range_eq_some] at hk
    obtain ⟨hgood, hmem, hbad⟩ := hk
    exact ⟨k, List.mem_range.mp hmem, rfl, hgood, fun j hj => by simpa using hbad j hj⟩
  · rintro ⟨k, hk, rfl, hgood, hbad⟩
    refine ⟨k, ?_, rfl⟩
    rw [List.find?_range_eq_some]
    exact ⟨hgood, List.mem_range.mpr hk, fun j hj => by simpa using hbad j hj⟩

/-- The first good index forward: above the start, or from the start of the circle on. -/
theorem find_forward_iff (hp : p < n) : (forward n p).find? good = some i ↔ i < n ∧ good i = true ∧
    ((p < i ∧ ∀ j, p < j → j < i → good j = false) ∨
      (i ≤ p ∧ (∀ j, p < j → j < n → good j = false) ∧ ∀ j < i, good j = false)) := by
  have hat (j k : ℕ) (hk : k < n) (hj : p + (k + 1) = j ∨ p + (k + 1) = j + n) (hjn : j < n) :
      (p + (k + 1)) % n = j := by
    rw [forward_at hp hk]
    split_ifs <;> omega
  rw [forward, find_map_range_iff]
  constructor
  · rintro ⟨k, hk, hi, hgood, hbad⟩
    rw [forward_at hp hk] at hi
    split_ifs at hi with hlow
    · refine ⟨by omega, hgood, .inl ⟨by omega, fun j hj hji => ?_⟩⟩
      rw [← hat j (j - p - 1) (by omega) (by omega) (by omega)]
      exact hbad (j - p - 1) (by omega)
    · refine ⟨by omega, hgood, .inr ⟨by omega, fun j hj hjn => ?_, fun j hj => ?_⟩⟩
      · rw [← hat j (j - p - 1) (by omega) (by omega) hjn]
        exact hbad (j - p - 1) (by omega)
      · rw [← hat j (j + n - p - 1) (by omega) (by omega) (by omega)]
        exact hbad (j + n - p - 1) (by omega)
  · rintro ⟨hin, hgood, ⟨hpi, hbad⟩ | ⟨hip, habove, hbelow⟩⟩
    · refine ⟨i - p - 1, by omega, hat i _ (by omega) (by omega) hin, hgood, fun k hk => ?_⟩
      rw [hat (p + (k + 1)) k (by omega) (.inl rfl) (by omega)]
      exact hbad _ (by omega) (by omega)
    · refine ⟨i + n - p - 1, by omega, hat i _ (by omega) (by omega) hin, hgood, fun k hk => ?_⟩
      by_cases hlow : p + (k + 1) < n
      · rw [hat (p + (k + 1)) k (by omega) (.inl rfl) hlow]
        exact habove _ (by omega) hlow
      · rw [hat (p + (k + 1) - n) k (by omega) (by omega) (by omega)]
        exact hbelow _ (by omega)

/-- The first good index backward: below the start, or from the end of the circle on. -/
theorem find_backward_iff (hp : p < n) :
    (backward n p).find? good = some i ↔ i < n ∧ good i = true ∧
    ((i < p ∧ ∀ j, i < j → j < p → good j = false) ∨
      (p ≤ i ∧ (∀ j < p, good j = false) ∧ ∀ j, i < j → j < n → good j = false)) := by
  have hat (j k : ℕ) (hk : k < n) (hj : p = j + (k + 1) ∨ p + n = j + (k + 1) ∧ p ≤ k) :
      (p + n - (k + 1)) % n = j := by
    rw [backward_at hp hk]
    split_ifs <;> omega
  rw [backward, find_map_range_iff]
  constructor
  · rintro ⟨k, hk, hi, hgood, hbad⟩
    rw [backward_at hp hk] at hi
    split_ifs at hi with hlow
    · refine ⟨by omega, hgood, .inl ⟨by omega, fun j hj hjp => ?_⟩⟩
      rw [← hat j (p - j - 1) (by omega) (by omega)]
      exact hbad (p - j - 1) (by omega)
    · refine ⟨by omega, hgood, .inr ⟨by omega, fun j hj => ?_, fun j hj hjn => ?_⟩⟩
      · rw [← hat j (p - j - 1) (by omega) (by omega)]
        exact hbad (p - j - 1) (by omega)
      · rw [← hat j (p + n - j - 1) (by omega) (by omega)]
        exact hbad (p + n - j - 1) (by omega)
  · rintro ⟨hin, hgood, ⟨hip, hbad⟩ | ⟨hpi, hbelow, habove⟩⟩
    · refine ⟨p - i - 1, by omega, hat i _ (by omega) (by omega), hgood, fun k hk => ?_⟩
      rw [hat (p - (k + 1)) k (by omega) (by omega)]
      exact hbad _ (by omega) (by omega)
    · refine ⟨p + n - i - 1, by omega, hat i _ (by omega) (by omega), hgood, fun k hk => ?_⟩
      by_cases hlow : k < p
      · rw [hat (p - (k + 1)) k (by omega) (by omega)]
        exact hbelow _ (by omega)
      · rw [hat (p + n - (k + 1)) k (by omega) (by omega)]
        exact habove _ (by omega) (by omega)

/-- There is a first good index forward if there is a good one. -/
theorem exists_forward (hp : p < n) (hi : i < n) (hgood : good i = true) :
    ∃ q, (forward n p).find? good = some q := by
  rw [← Option.isSome_iff_exists, List.find?_isSome]
  by_cases hpi : p < i
  · refine ⟨i, List.mem_map.mpr ⟨i - p - 1, List.mem_range.mpr (by omega), ?_⟩, hgood⟩
    rw [forward_at hp (by omega)]
    split_ifs <;> omega
  · refine ⟨i, List.mem_map.mpr ⟨i + n - p - 1, List.mem_range.mpr (by omega), ?_⟩, hgood⟩
    rw [forward_at hp (by omega)]
    split_ifs <;> omega

/-- A walk once around a circle comes to the first good index forward. -/
theorem reaches_forward_iff (hp : p < n) (hnext : ∀ j < n, next j = .ok ((j + 1) % n)) :
    Reaches next good p i ↔ (forward n p).find? good = some i := by
  have hup (j : ℕ) (hj : j + 1 < n) : next j = .ok (j + 1) := by
    rw [hnext j (by omega), Nat.mod_eq_of_lt hj]
  have hend : next (n - 1) = .ok 0 := by
    rw [hnext _ (by omega), Nat.sub_add_cancel (by omega), Nat.mod_self]
  have hfound : ∀ q, (forward n p).find? good = some q → Reaches next good p q := by
    intro q hq
    obtain ⟨hqn, hgood, ⟨hpq, hbad⟩ | ⟨hqp, habove, hbelow⟩⟩ := (find_forward_iff hp).mp hq
    · exact reaches_up hpq (fun j _ hjq => hup j (by omega)) hbad hgood
    · rw [reaches_up_iff (show p ≤ n - 1 by omega) (fun j _ hj => hup j (by omega))
        (fun j hj hjn => habove j hj (by omega))]
      rcases Nat.eq_zero_or_pos q with rfl | hpos
      · exact .here hend hgood
      · exact .later hend (hbelow 0 hpos)
          (reaches_up hpos (fun j _ hjq => hup j (by omega)) (fun j _ hjq => hbelow j hjq) hgood)
  constructor
  · intro h
    have hkeeps (j r : ℕ) (hj : j < n) (hjr : next j = .ok r) : r < n := by
      cases hjr.symm.trans (hnext j hj)
      exact Nat.mod_lt _ (by omega)
    have hin : i < n := h.invariant hkeeps hp
    obtain ⟨q, hq⟩ := exists_forward hp hin h.good_end
    rw [hq, h.unique (hfound q hq)]
  · exact hfound i

end Circles

end IotExplorer.Basis.CyclicWalks
