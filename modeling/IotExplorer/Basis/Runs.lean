import Mathlib.Data.List.Basic

/-!
Runs of a system that is driven by operations and logs events. `run` folds a
list of operations, `Along` asks a condition of every step of a run at the
state it starts from, and `track` is what an observer notes who sees every step
of a run with that state. The invariant rules lift what one step preserves to
what a run preserves, for the state alone, with the log, and with the notes. A system whose
steps may fail is compared with one whose steps do not.
-/
namespace IotExplorer.Basis.Runs

variable {S O E G : Type*} (step : O → S → S × List E)

/-- The state after a list of operations, and the events they logged. -/
def run : List O → S → S × List E
  | [], s => (s, [])
  | o :: os, s => ((run os (step o s).1).1, (step o s).2 ++ (run os (step o s).1).2)

/-- Every step of the run meets the condition at the state it starts from. -/
def Along (cond : S → O → Prop) : List O → S → Prop
  | [], _ => True
  | o :: os, s => cond s o ∧ Along cond os (step o s).1

instance decidableAlong (cond : S → O → Prop) [∀ s o, Decidable (cond s o)] :
    (os : List O) → (s : S) → Decidable (Along step cond os s)
  | [], _ => isTrue trivial
  | o :: os, s =>
      have := decidableAlong cond os (step o s).1
      inferInstanceAs (Decidable (cond s o ∧ Along step cond os (step o s).1))

def track (note : S → O → G → G) : List O → S → G → G
  | [], _, g => g
  | o :: os, s, g => track note os (step o s).1 (note s o g)

@[simp] theorem run_nil (s : S) : run step [] s = (s, []) := rfl

@[simp] theorem run_cons (o : O) (os : List O) (s : S) :
    run step (o :: os) s =
      ((run step os (step o s).1).1, (step o s).2 ++ (run step os (step o s).1).2) := rfl

theorem run_append (os os' : List O) (s : S) :
    run step (os ++ os') s =
      ((run step os' (run step os s).1).1,
        (run step os s).2 ++ (run step os' (run step os s).1).2) := by
  induction os generalizing s with
  | nil => simp
  | cons o os ih => simp [ih]

/-- What a run logs was logged by one of its steps. -/
theorem mem_run {step : O → S → S × List E} {e : E} {os : List O} {s : S}
    (h : e ∈ (run step os s).2) :
    ∃ earlier o later, os = earlier ++ o :: later ∧ e ∈ (step o (run step earlier s).1).2 := by
  induction os generalizing s with
  | nil => simp at h
  | cons o os ih =>
    rcases List.mem_append.mp h with hhere | hlater
    · exact ⟨[], o, os, rfl, hhere⟩
    · obtain ⟨earlier, o', later, rfl, hmem⟩ := ih hlater
      exact ⟨o :: earlier, o', later, rfl, hmem⟩

theorem along_append (cond : S → O → Prop) (os os' : List O) (s : S) :
    Along step cond (os ++ os') s ↔
      Along step cond os s ∧ Along step cond os' (run step os s).1 := by
  induction os generalizing s with
  | nil => simp [Along]
  | cons o os ih => simp [Along, ih, and_assoc]

theorem Along.mono {step : O → S → S × List E} {cond cond' : S → O → Prop} {os : List O} {s : S}
    (h : Along step cond os s) (hle : ∀ s o, cond s o → cond' s o) : Along step cond' os s := by
  induction os generalizing s with
  | nil => trivial
  | cons o os ih => exact ⟨hle s o h.1, ih h.2⟩

theorem along_true (os : List O) (s : S) : Along step (fun _ _ => True) os s := by
  induction os generalizing s with
  | nil => trivial
  | cons o os ih => exact ⟨trivial, ih _⟩

theorem along_of_forall_mem {prop : O → Prop} {os : List O} (h : ∀ o ∈ os, prop o) (s : S) :
    Along step (fun _ o => prop o) os s := by
  induction os generalizing s with
  | nil => trivial
  | cons o os ih =>
    exact ⟨h o (List.mem_cons_self ..), ih (fun o' ho' => h o' (List.mem_cons_of_mem o ho')) _⟩

theorem Along.and {step : O → S → S × List E} {cond cond' : S → O → Prop} {os : List O} {s : S}
    (h : Along step cond os s) (h' : Along step cond' os s) :
    Along step (fun s o => cond s o ∧ cond' s o) os s := by
  induction os generalizing s with
  | nil => trivial
  | cons o os ih => exact ⟨⟨h.1, h'.1⟩, ih h.2 h'.2⟩

/-- The condition at one step of the run. -/
theorem Along.at {step : O → S → S × List E} {cond : S → O → Prop} {os os' : List O} {o : O} {s : S}
    (h : Along step cond (os ++ o :: os') s) : cond (run step os s).1 o :=
  ((along_append step cond os (o :: os') s).mp h).2.1

/-- The invariant rule. -/
theorem run_invariant {step : O → S → S × List E} {cond : S → O → Prop} {inv : S → Prop}
    (hstep : ∀ s o, inv s → cond s o → inv (step o s).1) {os : List O} {s : S}
    (hinit : inv s) (hcond : Along step cond os s) : inv (run step os s).1 := by
  induction os generalizing s with
  | nil => exact hinit
  | cons o os ih => exact ih (hstep s o hinit hcond.1) hcond.2

/-- What an invariant gives for a step holds all along a run. -/
theorem Along.of_invariant {step : O → S → S × List E} {cond cond' : S → O → Prop} {inv : S → Prop}
    (hstep : ∀ s o, inv s → cond s o → inv (step o s).1)
    (hcond : ∀ s o, inv s → cond s o → cond' s o) {os : List O} {s : S} (hinit : inv s)
    (h : Along step cond os s) : Along step cond' os s := by
  induction os generalizing s with
  | nil => trivial
  | cons o os ih => exact ⟨hcond s o hinit h.1, ih (hstep s o hinit h.1) h.2⟩

/-- When a condition says exactly which steps keep the invariant, it says exactly which
runs keep it. -/
theorem along_invariant_iff {cond : S → O → Prop} {inv : S → Prop}
    (hstep : ∀ s o, inv s → (inv (step o s).1 ↔ cond s o)) {os : List O} {s : S} (hinit : inv s) :
    Along step (fun s o => inv (step o s).1) os s ↔ Along step cond os s := by
  induction os generalizing s with
  | nil => exact Iff.rfl
  | cons o os ih =>
    unfold Along
    rw [hstep s o hinit]
    exact and_congr_right fun hcond => ih ((hstep s o hinit).mpr hcond)

/-- When a condition says which steps are right, and keeps the invariant, it says which runs
are right. -/
theorem along_iff_along {step : O → S → S × List E} {cond cond' : S → O → Prop} {inv : S → Prop}
    (hstep : ∀ s o, inv s → (cond' s o ↔ cond s o) ∧ (cond s o → inv (step o s).1))
    {os : List O} {s : S} (hinit : inv s) : Along step cond' os s ↔ Along step cond os s := by
  induction os generalizing s with
  | nil => exact Iff.rfl
  | cons o os ih =>
    obtain ⟨hright, hkeeps⟩ := hstep s o hinit
    unfold Along
    rw [hright]
    exact and_congr_right fun hcond => ih (hkeeps hcond)

/-- The invariant rule for a state together with what was logged so far. -/
theorem run_history {step : O → S → S × List E} {cond : S → O → Prop} {inv : S → List E → Prop}
    (hstep : ∀ s log o, inv s log → cond s o → inv (step o s).1 (log ++ (step o s).2))
    {os : List O} {s : S} {log : List E} (hinit : inv s log) (hcond : Along step cond os s) :
    inv (run step os s).1 (log ++ (run step os s).2) := by
  induction os generalizing s log with
  | nil => simpa using hinit
  | cons o os ih =>
    have hrest := ih (hstep s log o hinit hcond.1) hcond.2
    rwa [List.append_assoc] at hrest

/-- The invariant rule for a state together with what was noted so far. -/
theorem track_invariant {step : O → S → S × List E} {note : S → O → G → G} {cond : S → O → Prop}
    {inv : S → G → Prop} (hstep : ∀ s g o, inv s g → cond s o → inv (step o s).1 (note s o g))
    {os : List O} {s : S} {g : G} (hinit : inv s g) (hcond : Along step cond os s) :
    inv (run step os s).1 (track step note os s g) := by
  induction os generalizing s g with
  | nil => exact hinit
  | cons o os ih => exact ih (hstep s g o hinit hcond.1) hcond.2

section Fallible
variable {C : Type*} (attempt : O → C → Option (C × List E))

/-- The state after a list of operations of which any may fail, and what they logged. -/
def runAttempts : List O → C → Option (C × List E)
  | [], c => some (c, [])
  | o :: os, c =>
      (attempt o c).bind fun here =>
        (runAttempts os here.1).map fun later => (later.1, here.2 ++ later.2)

theorem runAttempts_append (os os' : List O) (c : C) :
    runAttempts attempt (os ++ os') c =
      (runAttempts attempt os c).bind fun here =>
        (runAttempts attempt os' here.1).map fun later => (later.1, here.2 ++ later.2) := by
  induction os generalizing c with
  | nil => simp [runAttempts]
  | cons o os ih =>
    rw [List.cons_append, runAttempts, runAttempts]
    cases attempt o c with
    | none => rfl
    | some here =>
      rw [Option.bind_some, Option.bind_some, ih]
      cases runAttempts attempt os here.1 with
      | none => rfl
      | some later => simp [Function.comp_def]

/-- Where each step succeeds and does what the other system does, so does each run. -/
theorem runAttempts_refines {attempt : O → C → Option (C × List E)} {step : O → S → S × List E}
    {cond : S → O → Prop} {rel : C → S → Prop}
    (hstep : ∀ c s o, rel c s → cond s o →
      ∃ c', attempt o c = some (c', (step o s).2) ∧ rel c' (step o s).1)
    {os : List O} {c : C} {s : S} (hinit : rel c s) (hcond : Along step cond os s) :
    ∃ c', runAttempts attempt os c = some (c', (run step os s).2) ∧ rel c' (run step os s).1 := by
  induction os generalizing c s with
  | nil => exact ⟨c, rfl, hinit⟩
  | cons o os ih =>
    obtain ⟨c', hhere, hrel⟩ := hstep c s o hinit hcond.1
    obtain ⟨c'', hlater, hend⟩ := ih hrel hcond.2
    exact ⟨c'', by simp [runAttempts, hhere, hlater], hend⟩

section Views
variable {attempt : O → C → Option (C × List E)} {step : O → S → S × List E} {view : C → S}
  {cond : S → O → Prop}

/-- Where each step that succeeds moves the view as the other system does, so does each run. -/
theorem runAttempts_view (hview : ∀ o c c' es, attempt o c = some (c', es) →
      view c' = (step o (view c)).1)
    {os : List O} {c c' : C} {es : List E} (h : runAttempts attempt os c = some (c', es)) :
    view c' = (run step os (view c)).1 := by
  induction os generalizing c es with
  | nil =>
    obtain ⟨rfl, -⟩ := Prod.mk.inj (Option.some.inj h)
    rfl
  | cons o os ih =>
    obtain ⟨here, hhere, hrest⟩ := Option.bind_eq_some_iff.mp h
    obtain ⟨⟨c₁, later⟩, hlater, heq⟩ := Option.map_eq_some_iff.mp hrest
    obtain ⟨rfl, -⟩ := Prod.mk.inj heq
    have hend := ih hlater
    rwa [hview o c here.1 here.2 hhere] at hend

/-- When a condition says which steps log what the other system logs, it says which runs do. -/
theorem runAttempts_right_iff (hview : ∀ o c c' es, attempt o c = some (c', es) →
      view c' = (step o (view c)).1)
    (hlength : ∀ o c c' es, attempt o c = some (c', es) → es.length = (step o (view c)).2.length)
    (hright : ∀ o c, (∃ c', attempt o c = some (c', (step o (view c)).2)) ↔ cond (view c) o)
    (os : List O) (c : C) :
    (∃ c', runAttempts attempt os c = some (c', (run step os (view c)).2)) ↔
      Along step cond os (view c) := by
  induction os generalizing c with
  | nil => exact iff_of_true ⟨c, rfl⟩ trivial
  | cons o os ih =>
    unfold Along
    rw [run_cons, runAttempts, ← hright]
    cases hhere : attempt o c with
    | none =>
      refine iff_of_false ?_ ?_
      · rintro ⟨c', hrun⟩
        cases hrun
      · rintro ⟨⟨c', hstep⟩, -⟩
        cases hstep
    | some here =>
      have hmove := hview o c here.1 here.2 hhere
      have hlen := hlength o c here.1 here.2 hhere
      rw [← hmove, ← ih here.1, Option.bind_some]
      constructor
      · rintro ⟨c', hrun⟩
        obtain ⟨later, hlater, heq⟩ := Option.map_eq_some_iff.mp hrun
        obtain ⟨rfl, hlogs⟩ := Prod.mk.inj heq
        obtain ⟨hfirst, hrest⟩ := List.append_inj hlogs hlen
        exact ⟨⟨here.1, hfirst ▸ rfl⟩, later.1, hrest ▸ hlater⟩
      · rintro ⟨⟨c₁, hfirst⟩, c', hlater⟩
        obtain ⟨-, hlogs⟩ := Prod.mk.inj (Option.some.inj hfirst)
        exact ⟨c', by rw [hlater, ← hlogs]; rfl⟩

end Views

end Fallible

end IotExplorer.Basis.Runs
