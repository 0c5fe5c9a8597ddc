import IotExplorer.Md5
import IotExplorer.OtaRuns

/-!
Repeated checks of a firmware. Each check finishes the context of the digest in place,
so the next one compares the digest of the bytes and of the padding that was fed to
them. A report that resets the handle ends the checks.
-/
namespace IotExplorer.FirmwareChecks

open Basis.Runs HttpClient OtaClient OtaRuns
open Md5 (md5Digest)

section Checks

/-- The calls of an application that checks the firmware and reports on it. -/
def Asks : Step → Bool
  | .checkFirmware _ _ => true
  | .reportUpgradeResult _ _ _ => true
  | _ => false

def answers (events : List Event) : List Bool :=
  events.filterMap fun event => match event with
    | .answered right => some right
    | _ => none

/-- The bytes in the context after so many checks. -/
def padded (fed : List UInt8) : ℕ → List UInt8
  | 0 => fed
  | k + 1 => padded fed k ++ md5Padding (padded fed k).length

def nextAnswer (md5sum fed : List UInt8) (k : ℕ) : Bool :=
  cstr md5sum = digestText (md5Digest (padded fed k))

/-- A handle in whose state a firmware can be checked. -/
def fetched (handle : Handle) (fed : List UInt8) : Handle :=
  { handle with state := .fetched, md5 := some fed }

def SameAnswers (handle : Handle) (fed : List UInt8) : Prop :=
  ∀ steps : List Step, (∀ s ∈ steps, Asks s) →
    ∀ a ∈ answers (run (step md5Digest) steps (fetched handle fed)).2,
      ∀ b ∈ answers (run (step md5Digest) steps (fetched handle fed)).2, a = b

/-- What the checks keep: the expected digest, and after so many of them the context. -/
structure Checked (md5sum fed : List UInt8) (k : ℕ) (handle : Handle) : Prop where
  md5sum : handle.params.md5sum = md5sum
  md5 : handle.state = .fetched → handle.md5 = some (padded fed k)

end Checks

section Steps
variable {md5sum fed : List UInt8} {k : ℕ} {handle : Handle}

theorem Checked.reset (h : Checked md5sum fed k handle) (k' : ℕ) (md5 : Option (List UInt8)) :
    Checked md5sum fed k' (resetStatus { handle with md5 := md5 }).1 :=
  ⟨h.md5sum, fun hstate => nomatch hstate⟩

/-- A call gives no answer, or the next one. -/
theorem checked_step {s : Step} (hs : Asks s) (h : Checked md5sum fed k handle) :
    (answers (step md5Digest s handle).2 = [] ∧
        Checked md5sum fed k (step md5Digest s handle).1) ∨
      (answers (step md5Digest s handle).2 = [nextAnswer md5sum fed k] ∧
        Checked md5sum fed (k + 1) (step md5Digest s handle).1) := by
  cases s with
  | checkFirmware wellPlaced sent =>
      rw [step]
      rcases checkFirmware_cases md5Digest wellPlaced sent handle with
        ⟨-, hidle⟩ | ⟨-, hstate, ⟨hnone, -⟩ | ⟨bytes, hbytes, hanswer⟩⟩
      · rw [hidle]
        exact .inl ⟨rfl, h⟩
      · rw [h.md5 hstate] at hnone
        cases hnone
      · have heq : bytes = padded fed k := by
          rw [h.md5 hstate] at hbytes
          exact (Option.some.inj hbytes).symm
        subst heq
        have hnext : Checked md5sum fed (k + 1)
            { handle with md5 := some (padded fed k ++ md5Padding (padded fed k).length) } :=
          ⟨h.md5sum, fun _ => rfl⟩
        right
        rcases hanswer with ⟨hright, hcheck⟩ | ⟨hwrong, hcheck | hcheck⟩
        · rw [hcheck]
          rw [h.md5sum] at hright
          exact ⟨by simp [answers, nextAnswer, hright], hnext⟩
        · rw [hcheck]
          rw [h.md5sum] at hwrong
          exact ⟨by simp [answers, nextAnswer, hwrong], hnext⟩
        · rw [hcheck]
          rw [h.md5sum] at hwrong
          exact ⟨by simp [answers, nextAnswer, hwrong], h.reset _ _⟩
  | reportUpgradeResult version reportType sent =>
      left
      rw [step]
      rcases reportUpgradeResult_cases version reportType sent handle with hreport | hreport
      · rw [hreport]
        exact ⟨rfl, h⟩
      · rw [hreport]
        exact ⟨rfl, h.reset k handle.md5⟩
  | message | reportVersion | startDownload | resetClientMd5 | updateClientMd5 | fetchYield =>
      cases hs

/-- A run gives answers one after another, until a report resets the handle. -/
theorem checked_run (steps : List Step) (hsteps : ∀ s ∈ steps, Asks s)
    (h : Checked md5sum fed k handle) :
    ∃ n, answers (run (step md5Digest) steps handle).2 =
      (List.range' k n).map (nextAnswer md5sum fed) := by
  induction steps generalizing k handle with
  | nil => exact ⟨0, rfl⟩
  | cons s steps ih =>
      have hrest := fun s' hs' => hsteps s' (List.mem_cons_of_mem _ hs')
      rw [run_cons]
      rcases checked_step (hsteps s (List.mem_cons_self ..)) h with
        ⟨hnone, hnext⟩ | ⟨hone, hnext⟩
      · obtain ⟨n, hn⟩ := ih hrest hnext
        refine ⟨n, ?_⟩
        rw [answers, List.filterMap_append, ← answers, ← answers, hnone, hn, List.nil_append]
      · obtain ⟨n, hn⟩ := ih hrest hnext
        refine ⟨n + 1, ?_⟩
        rw [answers, List.filterMap_append, ← answers, ← answers, hone, hn, List.range'_succ]
        rfl

theorem report_unsent (version : Option (List UInt8)) (reportType : ReportType) (handle : Handle) :
    reportUpgradeResult version reportType false handle = (handle, []) := by
  cases version with
  | none => rfl
  | some version =>
      rw [reportUpgradeResult]
      split_ifs <;> simp_all

/-- A check whose report cannot be sent. -/
theorem unsent_check (hstate : handle.state = .fetched) (h : Checked md5sum fed k handle) :
    step md5Digest (.checkFirmware true false) handle =
      ({ handle with md5 := some (padded fed (k + 1)) },
        [.answered (nextAnswer md5sum fed k)]) := by
  rw [step, checkFirmware, if_neg (by decide), if_neg (not_not.mpr hstate), h.md5 hstate]
  simp only [report_unsent, h.md5sum]
  split
  · rename_i hright
    simp [nextAnswer, hright, padded]
  · rename_i hwrong
    simp [nextAnswer, hwrong, padded]

/-- A handle whose reports cannot be sent is checked any number of times. -/
theorem unsent_run (n : ℕ) (hstate : handle.state = .fetched)
    (h : Checked md5sum fed k handle) :
    answers (run (step md5Digest) (List.replicate n (.checkFirmware true false)) handle).2 =
      (List.range' k n).map (nextAnswer md5sum fed) := by
  induction n generalizing k handle with
  | zero => rfl
  | succ n ih =>
      have hnext : Checked md5sum fed (k + 1)
          { handle with md5 := some (padded fed (k + 1)) } := ⟨h.md5sum, fun _ => rfl⟩
      have hstay : { handle with md5 := some (padded fed (k + 1)) }.state = .fetched := hstate
      have hrest := ih hstay hnext
      rw [List.replicate_succ, run_cons, unsent_check hstate h, answers, List.filterMap_append,
        ← answers, ← answers, hrest, List.range'_succ, List.map_cons]
      rfl

end Steps

section Answers
variable (handle : Handle) (fed : List UInt8)

theorem checked_fetched : Checked handle.params.md5sum fed 0 (fetched handle fed) :=
  ⟨rfl, fun _ => rfl⟩

/-- The checks agree with each other exactly when the expected digest is that of the bytes and of
everything that the checks make of them, or of none of these. -/
theorem same_answers_iff :
    SameAnswers handle fed ↔
      (∀ k, cstr handle.params.md5sum = digestText (md5Digest (padded fed k))) ∨
        ∀ k, cstr handle.params.md5sum ≠ digestText (md5Digest (padded fed k)) := by
  constructor
  · intro h
    have hall (i : ℕ) :
        nextAnswer handle.params.md5sum fed i = nextAnswer handle.params.md5sum fed 0 := by
      have hrun := h (List.replicate (i + 1) (.checkFirmware true false))
        (fun s hs => by rw [List.eq_of_mem_replicate hs]; rfl)
      rw [unsent_run (i + 1) rfl (checked_fetched handle fed)] at hrun
      exact hrun _ (List.mem_map_of_mem (List.mem_range'_1.mpr (by omega))) _
        (List.mem_map_of_mem (List.mem_range'_1.mpr (by omega)))
    cases hfirst : nextAnswer handle.params.md5sum fed 0 with
    | true => exact .inl fun k => of_decide_eq_true ((hall k).trans hfirst)
    | false => exact .inr fun k => of_decide_eq_false ((hall k).trans hfirst)
  · intro h steps hsteps
    obtain ⟨n, hn⟩ := checked_run steps hsteps (checked_fetched handle fed)
    rw [hn]
    intro a ha b hb
    obtain ⟨i, -, rfl⟩ := List.mem_map.mp ha
    obtain ⟨j, -, rfl⟩ := List.mem_map.mp hb
    rcases h with hright | hwrong
    · rw [nextAnswer, nextAnswer, decide_eq_true (hright i), decide_eq_true (hright j)]
    · rw [nextAnswer, nextAnswer, decide_eq_false (hwrong i), decide_eq_false (hwrong j)]

/-- An image of one byte with the digest that its update announces: the first check confirms it,
the second one does not. -/
theorem second_check_differs :
    ¬ ∀ (handle : Handle) (fed : List UInt8), SameAnswers handle fed := by
  intro h
  have hrun := h { init with params := { init.params with
      version := some (TemplateJson.ascii "1")
      md5sum := TemplateJson.ascii "0cc175b9c0f1b6a831c399e269772661" ++ [0]
      sizeFile := 1 } } (TemplateJson.ascii "a")
    [.checkFirmware true true, .checkFirmware true true] (by decide)
  revert hrun
  decide +kernel

end Answers

end IotExplorer.FirmwareChecks
