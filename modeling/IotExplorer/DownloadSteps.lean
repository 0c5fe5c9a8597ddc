import IotExplorer.OtaClient
import IotExplorer.FileManageRuns
import IotExplorer.ResourceClient

/-!
The steps of the three clients that fetch a file piece by piece. A client is a step with
the percentages it computes; what the steps have in common is stated once, and what is
proved of a run is proved of each client from it. The bytes that were delivered are
counted beside the handle, without a bound.
-/
namespace IotExplorer.DownloadSteps

open Basis.Runs

section Percentages
variable {fetched size : ℕ}

def exactPercent (fetched size : ℕ) : ℕ := 100 * fetched / size

theorem exactPercent_mono {fetched' : ℕ} (h : fetched ≤ fetched') :
    exactPercent fetched size ≤ exactPercent fetched' size :=
  Nat.div_le_div_right (Nat.mul_le_mul_left 100 h)

theorem exactPercent_full (hle : fetched ≤ size) (h : exactPercent fetched size = 100) :
    fetched = size := by
  have hmul := Nat.div_mul_le_self (100 * fetched) size
  rw [exactPercent] at h
  rw [h] at hmul
  omega

/-- A product of 32 bits gives the percentage as long as it does not wrap, and only then. -/
theorem wrapped_exact_iff (hsize : 0 < size) (hsize' : size < 2 ^ 32) :
    fetched * 100 % 2 ^ 32 / size = exactPercent fetched size ↔ 100 * fetched < 2 ^ 32 := by
  rw [exactPercent, Nat.mul_comm fetched 100]
  constructor
  · intro heq
    by_contra hwraps
    have hsplit := Nat.mod_add_div (100 * fetched) (2 ^ 32)
    have hpos : 1 ≤ 100 * fetched / 2 ^ 32 :=
      (Nat.one_le_div_iff (by decide)).mpr (Nat.le_of_not_lt hwraps)
    have hbelow : 100 * fetched % 2 ^ 32 + size ≤ 100 * fetched := by
      calc 100 * fetched % 2 ^ 32 + size
          ≤ 100 * fetched % 2 ^ 32 + 2 ^ 32 * 1 := by omega
        _ ≤ 100 * fetched % 2 ^ 32 + 2 ^ 32 * (100 * fetched / 2 ^ 32) := by
            apply Nat.add_le_add_left
            exact Nat.mul_le_mul_left _ hpos
        _ = 100 * fetched := hsplit
    have hless := Nat.div_le_div_right (c := size) hbelow
    rw [Nat.add_div_right _ hsize, heq] at hless
    omega
  · intro h
    rw [Nat.mod_eq_of_lt h]

/-- The percentage that `IOT_OTA_FetchYield` computes, in 64 bits. -/
def otaFetchPercent (sizeFetched sizeFile : ℕ) : ℕ := sizeFetched * 100 % 2 ^ 64 / sizeFile % 2 ^ 32

theorem otaFetchPercent_exact (hle : fetched ≤ size) (hsize' : size < 2 ^ 31) :
    otaFetchPercent fetched size = exactPercent fetched size := by
  have hquotient : 100 * fetched / size ≤ 100 := by
    rcases Nat.eq_zero_or_pos size with hzero | hpos
    · rw [hzero, Nat.div_zero]
      omega
    · exact Nat.div_le_of_le_mul (by rw [Nat.mul_comm]; exact Nat.mul_le_mul_right 100 hle)
  have hproduct : 100 * fetched < 2 ^ 64 := by omega
  rw [otaFetchPercent, exactPercent, Nat.mul_comm fetched 100, Nat.mod_eq_of_lt hproduct,
    Nat.mod_eq_of_lt (by omega)]

end Percentages

section Clients

/-- What a fetch delivers: bytes, so many as an `int` can count, or an error; and whether there is
memory for a report. -/
inductive Fetch
  | delivered (bytes : {bytes : List UInt8 // bytes.length < 2 ^ 31})
  | authFail (memory : Bool)
  | notExist (memory : Bool)
  | failed

/-- A client that fetches a file: its step, with the percentages it computes, and the states in
which it fetches and in which it has finished. -/
structure Client (H : Type) where
  yield : Fetch → H → H × List ℕ
  loading : H → Prop
  finished : H → Prop

def Fetch.size : Fetch → ℕ
  | .delivered bytes => bytes.val.length
  | _ => 0

/-- `IOT_OTA_FetchYield`. -/
def otaYield (fetch : Fetch) (handle : OtaClient.Handle) :
    OtaClient.Handle × List OtaClient.Event :=
  match fetch with
  | .delivered bytes => OtaClient.fetchYield (some bytes.val) handle
  | _ => OtaClient.fetchYield none handle

def otaPercent (sizeFetched : ℕ) : OtaClient.Event → Option ℕ
  | .divided sizeFile => some (otaFetchPercent sizeFetched sizeFile)
  | _ => none

def ota : Client OtaClient.Handle where
  yield fetch handle := ((otaYield fetch handle).1,
    (otaYield fetch handle).2.filterMap (otaPercent (otaYield fetch handle).1.sizeFetched))
  loading handle := handle.state = .fetching ∧ handle.chFetch = true
  finished handle := handle.state = .fetched

/-- `IOT_FileManage_FetchYield`. -/
def fileManageYield (fetch : Fetch) (handle : FileManageClient.Handle) :
    FileManageClient.Handle × List FileManageClient.Event :=
  match fetch with
  | .delivered bytes => FileManageClient.fetchYield (.fetched bytes.val.length) true handle
  | .authFail memory => FileManageClient.fetchYield .authFail memory handle
  | .notExist memory => FileManageClient.fetchYield .notExist memory handle
  | .failed => FileManageClient.fetchYield .failed true handle

def fileManagePercent : FileManageClient.Event → Option ℕ
  | .percent percent => some percent
  | _ => none

def fileManage : Client FileManageClient.Handle where
  yield fetch handle := ((fileManageYield fetch handle).1,
    (fileManageYield fetch handle).2.filterMap fileManagePercent)
  loading handle := handle.state = .fetching
  finished handle := handle.state = .fetched

/-- `IOT_Resource_DownloadYield`. -/
def resourceYield (fetch : Fetch) (info : ResourceClient.Info) :
    ResourceClient.Info × List ResourceClient.Event :=
  match fetch with
  | .delivered bytes => ResourceClient.downloadYield (.fetched bytes.val.length) info
  | .authFail _ => ResourceClient.downloadYield .authFail info
  | .notExist _ => ResourceClient.downloadYield .notExist info
  | .failed => ResourceClient.downloadYield .failed info

def resourcePercent : ResourceClient.Event → Option ℕ
  | .percent percent => some percent
  | .divided => none

def resource : Client ResourceClient.Info where
  yield fetch info := ((resourceYield fetch info).1,
    (resourceYield fetch info).2.filterMap resourcePercent)
  loading info := info.state = .start ∧ info.resultCode = 0
  finished info := info.state = .ended

variable {H : Type}

/-- What a client makes of bytes that are delivered while it fetches, counting in 32 bits. -/
structure Counted (client : Client H) (fetched size : H → ℕ) (percent : ℕ → ℕ → ℕ) (counted : ℕ)
    (before after : H) (percents : List ℕ) : Prop where
  percents_eq : percents = [percent counted (size before)]
  fetched_eq : fetched after = counted
  size_eq : size after = size before
  loading_iff : client.loading after ↔ counted < size before
  finished_iff : client.finished after ↔ size before ≤ counted

/-- What the three steps have in common: bytes are counted, an error changes nothing or ends the
fetching, and a client that does not fetch does nothing. -/
structure Client.Lawful (client : Client H) (fetched size : H → ℕ) (percent : ℕ → ℕ → ℕ) :
    Prop where
  delivered : ∀ bytes h, client.loading h → 0 < size h →
    Counted client fetched size percent ((fetched h + bytes.val.length) % 2 ^ 32) h
      (client.yield (.delivered bytes) h).1 (client.yield (.delivered bytes) h).2
  failed : ∀ fetch h, (∀ bytes, fetch ≠ .delivered bytes) →
    (client.yield fetch h).1 = h ∨ ¬client.loading (client.yield fetch h).1
  idle : ∀ fetch h, ¬client.loading h → (client.yield fetch h).1 = h

theorem otaYield_delivered {bytes : {bytes : List UInt8 // bytes.length < 2 ^ 31}}
    {handle : OtaClient.Handle} (hloading : ota.loading handle)
    (hsize : 0 < handle.params.sizeFile) :
    ∃ md5 events, otaYield (.delivered bytes) handle =
      ({ handle with
        sizeFetched := (handle.sizeFetched + bytes.val.length) % 2 ^ 32
        state := if handle.params.sizeFile ≤ (handle.sizeFetched + bytes.val.length) % 2 ^ 32
          then .fetched
          else .fetching
        md5 := md5 }, .divided handle.params.sizeFile :: events) ∧
          (events = [] ∨ events = [.fault]) := by
  obtain ⟨hstate, hchannel⟩ := hloading
  rw [otaYield, OtaClient.fetchYield.eq_def, if_neg (not_not.mpr hstate),
    if_neg (by simp [hchannel])]
  dsimp only
  rw [if_neg (by omega)]
  cases hmd5 : handle.md5 with
  | none => exact ⟨none, [.fault], by simp [OtaClient.md5Update], Or.inr rfl⟩
  | some fed => exact ⟨some (fed ++ bytes.val), [], by simp [OtaClient.md5Update], Or.inl rfl⟩

theorem ota_lawful : ota.Lawful (fun handle => handle.sizeFetched)
    (fun handle => handle.params.sizeFile)
    otaFetchPercent where
  delivered bytes handle hloading hsize := by
    obtain ⟨md5, events, hyield, hevents⟩ := otaYield_delivered hloading hsize
    have hchannel : handle.chFetch = true := hloading.2
    have hpercents : events.filterMap (otaPercent
        ((handle.sizeFetched + bytes.val.length) % 2 ^ 32)) = [] := by
      rcases hevents with rfl | rfl <;> rfl
    dsimp only [ota]
    rw [hyield]
    refine ⟨?_, rfl, rfl, ?_, ?_⟩
    · rw [List.filterMap_cons, otaPercent, hpercents]
    · dsimp only
      split_ifs with hwhole
      · simp only [false_and, false_iff]
        omega
      · simp only [hchannel, and_self, true_iff]
        omega
    · dsimp only
      split_ifs with hwhole
      · simp only [true_iff]
        omega
      · simp only [false_iff]
        omega
  failed fetch handle herror := by
    have hnone : OtaClient.fetchYield none handle = (handle, []) := by
      rw [OtaClient.fetchYield]
      split_ifs <;> rfl
    left
    cases fetch with
    | delivered bytes => exact absurd rfl (herror bytes)
    | authFail memory => exact congrArg Prod.fst hnone
    | notExist memory => exact congrArg Prod.fst hnone
    | failed => exact congrArg Prod.fst hnone
  idle fetch handle hidle := by
    have hidle : handle.state ≠ .fetching ∨ (!handle.chFetch) = true := by
      by_contra hboth
      simp only [not_or, not_not, Bool.not_eq_true', Bool.not_eq_false] at hboth
      exact hidle hboth
    have hyield (result : Option (List UInt8)) :
        OtaClient.fetchYield result handle = (handle, []) := by
      rw [OtaClient.fetchYield.eq_def]
      by_cases hstate : handle.state = .fetching
      · rw [if_neg (not_not.mpr hstate), if_pos (hidle.resolve_left (not_not.mpr hstate))]
      · rw [if_pos hstate]
    cases fetch <;> exact congrArg Prod.fst (hyield _)

theorem report_loading (version : Option (List UInt8)) (reportType : FileManageClient.ReportType)
    (memory : Bool) (handle : FileManageClient.Handle) :
    (FileManageClient.fileManageReportUpgradeResult version reportType memory handle).1 = handle ∨
      ¬fileManage.loading
        (FileManageClient.fileManageReportUpgradeResult version reportType memory handle).1 := by
  rcases FileManageRuns.report_cases version reportType memory handle with hreport | hreport
  · exact Or.inl (congrArg Prod.fst hreport)
  · right
    rw [hreport]
    intro hloading
    cases hloading

theorem fileManage_lawful : fileManage.Lawful (fun handle => handle.sizeFetched)
    (fun handle => handle.sizeFile) FileManageClient.fetchPercent where
  delivered bytes handle hloading hsize := by
    have hstate : handle.state = .fetching := hloading
    have hyield : fileManageYield (.delivered bytes) handle =
        ({ handle with
          sizeFetched := (handle.sizeFetched + bytes.val.length) % 2 ^ 32
          state := if (handle.sizeFetched + bytes.val.length) % 2 ^ 32 ≥ handle.sizeFile
            then .fetched
            else .fetching },
          [.percent (FileManageClient.fetchPercent
            ((handle.sizeFetched + bytes.val.length) % 2 ^ 32)
            handle.sizeFile)]) := by
      rw [fileManageYield, FileManageClient.fetchYield.eq_def, if_neg (not_not.mpr hstate)]
      dsimp only
      rw [if_neg (by omega)]
    dsimp only [fileManage]
    rw [hyield]
    refine ⟨rfl, rfl, rfl, ?_, ?_⟩
    · dsimp only
      split_ifs with hwhole
      · simp only [false_iff]
        omega
      · simp only [true_iff]
        omega
    · dsimp only
      split_ifs with hwhole
      · simp only [true_iff]
        omega
      · simp only [false_iff]
        omega
  failed fetch handle herror := by
    by_cases hloading : handle.state = .fetching
    · have hbusy : ¬handle.state ≠ .fetching := not_not.mpr hloading
      cases fetch with
      | delivered bytes => exact absurd rfl (herror bytes)
      | authFail memory =>
        dsimp only [fileManage]
        rw [fileManageYield, FileManageClient.fetchYield.eq_def, if_neg hbusy]
        exact report_loading _ _ _ handle
      | notExist memory =>
        dsimp only [fileManage]
        rw [fileManageYield, FileManageClient.fetchYield.eq_def, if_neg hbusy]
        exact report_loading _ _ _ handle
      | failed =>
        dsimp only [fileManage]
        rw [fileManageYield, FileManageClient.fetchYield.eq_def, if_neg hbusy]
        exact Or.inl rfl
    · have hyield (result : FileManageClient.FetchResult) (memory : Bool) :
          FileManageClient.fetchYield result memory handle = (handle, []) := by
        rw [FileManageClient.fetchYield.eq_def, if_pos hloading]
      left
      cases fetch <;> exact congrArg Prod.fst (hyield _ _)
  idle fetch handle hidle := by
    have hyield (result : FileManageClient.FetchResult) (memory : Bool) :
        FileManageClient.fetchYield result memory handle = (handle, []) := by
      rw [FileManageClient.fetchYield.eq_def]
      exact if_pos hidle
    cases fetch <;> exact congrArg Prod.fst (hyield _ _)

theorem resource_lawful : resource.Lawful (fun info => info.sizePrepared)
    (fun info => info.resourceSize) ResourceClient.downloadPercent where
  delivered bytes info hloading hsize := by
    obtain ⟨hstart, hcode⟩ := hloading
    have hyield : resourceYield (.delivered bytes) info =
        ({ info with
          sizePrepared := (info.sizePrepared + bytes.val.length) % 2 ^ 32
          state := if (info.sizePrepared + bytes.val.length) % 2 ^ 32 ≥ info.resourceSize
            then .ended
            else .start },
          [.percent (ResourceClient.downloadPercent
            ((info.sizePrepared + bytes.val.length) % 2 ^ 32)
            info.resourceSize)]) := by
      have hbusy : ¬(info.state ≠ .start ∨ info.resultCode ≠ 0) := by simp [hstart, hcode]
      rw [resourceYield, ResourceClient.downloadYield.eq_def, if_neg hbusy]
      dsimp only
      rw [if_neg (by omega)]
    dsimp only [resource]
    rw [hyield]
    refine ⟨rfl, rfl, rfl, ?_, ?_⟩
    · dsimp only
      split_ifs with hwhole
      · simp only [false_and, false_iff]
        omega
      · simp only [hcode, and_self, true_iff]
        omega
    · dsimp only
      split_ifs with hwhole
      · simp only [true_iff]
        omega
      · simp only [false_iff]
        omega
  failed fetch info herror := by
    by_cases hbusy : info.state ≠ .start ∨ info.resultCode ≠ 0
    · have hyield (result : ResourceClient.FetchResult) :
          ResourceClient.downloadYield result info = (info, []) := by
        rw [ResourceClient.downloadYield.eq_def, if_pos hbusy]
      left
      cases fetch <;> exact congrArg Prod.fst (hyield _)
    · have hreset : ¬resource.loading (ResourceClient.reportDownloadResult info) := by
        have hstart : info.state = .start := by
          by_contra hstate
          exact hbusy (Or.inl hstate)
        rintro ⟨hstate, -⟩
        rw [ResourceClient.reportDownloadResult, hstart] at hstate
        cases hstate
      cases fetch with
      | delivered bytes => exact absurd rfl (herror bytes)
      | authFail memory =>
        right
        dsimp only [resource]
        rw [resourceYield, ResourceClient.downloadYield.eq_def, if_neg hbusy]
        exact hreset
      | notExist memory =>
        right
        dsimp only [resource]
        rw [resourceYield, ResourceClient.downloadYield.eq_def, if_neg hbusy]
        exact hreset
      | failed =>
        left
        dsimp only [resource]
        rw [resourceYield, ResourceClient.downloadYield.eq_def, if_neg hbusy]
  idle fetch info hidle := by
    have hbusy : info.state ≠ .start ∨ info.resultCode ≠ 0 := by
      by_contra hboth
      simp only [not_or, not_not] at hboth
      exact hidle hboth
    have hyield (result : ResourceClient.FetchResult) :
        ResourceClient.downloadYield result info = (info, []) := by
      rw [ResourceClient.downloadYield.eq_def, if_pos hbusy]
    cases fetch <;> exact congrArg Prod.fst (hyield _)

end Clients

section Watched
variable {H : Type} {client : Client H} {fetched size : H → ℕ} {percent : ℕ → ℕ → ℕ} {total : ℕ}

/-- A step of a client, with the number of bytes that were delivered. -/
def watch (client : Client H) (fetch : Fetch) (watched : ℕ × H) : (ℕ × H) × List ℕ :=
  ((watched.1 + fetch.size, (client.yield fetch watched.2).1), (client.yield fetch watched.2).2)

/-- A successful fetch leads to the finished state when the whole file is there, and only then; and
up to there it computes the exact percentage, which does not fall and is full for the whole file
only. -/
structure DeliveredRight (client : Client H) (announced before after : ℕ) (h : H)
    (percents : List ℕ) :
    Prop where
  finished : client.finished h ↔ announced ≤ after
  percent : after ≤ announced → percents = [exactPercent after announced]
  rises : after ≤ announced → ∀ percent ∈ percents, exactPercent before announced ≤ percent
  full : after ≤ announced → ∀ percent ∈ percents, percent = 100 → after = announced

def StepRight (client : Client H) (announced : ℕ) (watched : ℕ × H) (fetch : Fetch) : Prop :=
  ∀ bytes, fetch = .delivered bytes → client.loading watched.2 →
    DeliveredRight client announced watched.1 (watched.1 + bytes.val.length)
      (watch client fetch watched).1.2 (watch client fetch watched).2

/-- A successful fetch with which the product of 32 bits does not wrap. -/
def Small (client : Client H) (announced : ℕ) (watched : ℕ × H) (fetch : Fetch) : Prop :=
  ∀ bytes, fetch = .delivered bytes → client.loading watched.2 →
    watched.1 + bytes.val.length ≤ announced → 100 * (watched.1 + bytes.val.length) < 2 ^ 32

/-- A client that fetches has counted what was delivered, and not all is there. -/
def Inv (client : Client H) (fetched size : H → ℕ) (announced : ℕ) (watched : ℕ × H) : Prop :=
  client.loading watched.2 →
    fetched watched.2 = watched.1 ∧ size watched.2 = announced ∧ watched.1 < announced

variable {announced : ℕ} {watched : ℕ × H}

/-- As long as it fetches a client counts without wrapping. -/
theorem counted_exact (hlawful : client.Lawful fetched size percent)
    (hannounced : announced < 2 ^ 31)
    (h : Inv client fetched size announced watched) (hloading : client.loading watched.2)
    (bytes : {bytes : List UInt8 // bytes.length < 2 ^ 31}) :
    Counted client fetched size percent (watched.1 + bytes.val.length) watched.2
      (client.yield (.delivered bytes) watched.2).1
        (client.yield (.delivered bytes) watched.2).2 := by
  obtain ⟨hfetched, hsize, hbelow⟩ := h hloading
  have hbytes := bytes.property
  have hcounted := hlawful.delivered bytes watched.2 hloading (by omega)
  rwa [hfetched, Nat.mod_eq_of_lt (by omega)] at hcounted

theorem inv_step (hlawful : client.Lawful fetched size percent) (hannounced : announced < 2 ^ 31)
    (fetch : Fetch) (h : Inv client fetched size announced watched) :
    Inv client fetched size announced (watch client fetch watched).1 := by
  intro hloading
  by_cases hbefore : client.loading watched.2
  · by_cases hdelivered : ∃ bytes, fetch = .delivered bytes
    · obtain ⟨bytes, rfl⟩ := hdelivered
      have hcounted := counted_exact hlawful hannounced h hbefore bytes
      have hsize := (h hbefore).2.1
      have hless := hcounted.loading_iff.mp hloading
      rw [hsize] at hless
      exact ⟨hcounted.fetched_eq, hcounted.size_eq.trans hsize, hless⟩
    · have herror : ∀ bytes, fetch ≠ .delivered bytes := fun bytes heq => hdelivered ⟨bytes, heq⟩
      have hsame := (hlawful.failed fetch watched.2 herror).resolve_right (not_not.mpr hloading)
      have hnone : fetch.size = 0 := by
        cases fetch with
        | delivered bytes => exact absurd rfl (herror bytes)
        | authFail memory => rfl
        | notExist memory => rfl
        | failed => rfl
      dsimp only [watch]
      rw [hsame, hnone]
      exact h hbefore
  · dsimp only [watch] at hloading
    rw [hlawful.idle fetch watched.2 hbefore] at hloading
    exact absurd hloading hbefore

/-- A step is right when the percentages it can compute are exact, and only then. -/
theorem stepRight_iff (hlawful : client.Lawful fetched size percent)
    (hannounced : announced < 2 ^ 31)
    (fetch : Fetch) (h : Inv client fetched size announced watched) :
    StepRight client announced watched fetch ↔
      ∀ bytes, fetch = .delivered bytes → client.loading watched.2 →
        watched.1 + bytes.val.length ≤ announced →
          percent (watched.1 + bytes.val.length) announced =
            exactPercent (watched.1 + bytes.val.length) announced := by
  constructor
  · rintro hright bytes rfl hloading hle
    have hpercents := (counted_exact hlawful hannounced h hloading bytes).percents_eq
    rw [(h hloading).2.1] at hpercents
    have hexact := (hright bytes rfl hloading).percent hle
    rw [watch, hpercents] at hexact
    exact List.head_eq_of_cons_eq hexact
  · rintro hexact bytes rfl hloading
    have hcounted := counted_exact hlawful hannounced h hloading bytes
    have hsize := (h hloading).2.1
    have hpercents : watched.1 + bytes.val.length ≤ announced →
        (watch client (.delivered bytes) watched).2 =
          [exactPercent (watched.1 + bytes.val.length) announced] := by
      intro hle
      rw [watch, hcounted.percents_eq, hsize, hexact bytes rfl hloading hle]
    refine ⟨?_, hpercents, ?_, ?_⟩
    · have hfinished := hcounted.finished_iff
      rwa [hsize] at hfinished
    · intro hle percent hmem
      rw [hpercents hle] at hmem
      rw [List.mem_singleton.mp hmem]
      exact exactPercent_mono (Nat.le_add_right _ _)
    · intro hle percent hmem hfull
      rw [hpercents hle] at hmem
      rw [List.mem_singleton.mp hmem] at hfull
      exact exactPercent_full hle hfull

/-- In a run from the start of a download each step is right when each percentage is exact. -/
theorem along_right_iff (hlawful : client.Lawful fetched size percent)
    (hannounced : announced < 2 ^ 31)
    {good : ℕ → Prop} (hpercent : ∀ after, after ≤ announced →
      (percent after announced = exactPercent after announced ↔ good after))
    (fetches : List Fetch) (hinit : Inv client fetched size announced watched) :
    Along (watch client) (StepRight client announced) fetches watched ↔
      Along (watch client) (fun watched fetch => ∀ bytes, fetch = .delivered bytes →
        client.loading watched.2 → watched.1 + bytes.val.length ≤ announced →
          good (watched.1 + bytes.val.length)) fetches watched := by
  constructor
  · intro hright
    refine hright.of_invariant
      (fun _ fetch hinv _ => inv_step hlawful hannounced fetch hinv) ?_ hinit
    rintro before fetch hinv hstep bytes rfl hloading hle
    exact (hpercent _ hle).mp
      ((stepRight_iff hlawful hannounced _ hinv).mp hstep bytes rfl hloading hle)
  · intro hgood
    refine hgood.of_invariant
      (fun _ fetch hinv _ => inv_step hlawful hannounced fetch hinv) ?_ hinit
    intro before fetch hinv hstep
    apply (stepRight_iff hlawful hannounced _ hinv).mpr
    rintro bytes rfl hloading hle
    exact (hpercent _ hle).mpr (hstep bytes rfl hloading hle)

end Watched

section Agreement
variable {announced offset : ℕ} {firmware : OtaClient.Handle} {file : FileManageClient.Handle}
  {info : ResourceClient.Info}

/-- The three downloads of one file, each from its start. -/
structure Started (announced offset : ℕ) (firmware : OtaClient.Handle)
    (file : FileManageClient.Handle)
    (info : ResourceClient.Info) : Prop where
  firmware : ∃ before : OtaClient.Handle, before.state = .fetching ∧
    before.params.sizeFile = announced ∧
    firmware = OtaClient.startDownload offset true true before
  file : ∃ before : FileManageClient.Handle, before.state = .fetching ∧
    before.sizeFile = announced ∧
    file = FileManageClient.startDownload offset before
  info : ∃ before : ResourceClient.Info, before.state = .start ∧ before.resultCode = 0 ∧
    before.resourceSize = announced ∧ info = ResourceClient.startDownload offset before

theorem startDownload_sizes (offset : ℕ) (handle : OtaClient.Handle) :
    (OtaClient.startDownload offset true true handle).sizeFetched = offset % 2 ^ 32 ∧
      (OtaClient.startDownload offset true true handle).params = handle.params := by
  rw [OtaClient.startDownload]
  split_ifs <;> exact ⟨rfl, rfl⟩

theorem inv_ota (hstarted : Started announced offset firmware file info)
    (hoffset : offset < announced)
    (hannounced : announced < 2 ^ 31) : Inv ota (fun handle => handle.sizeFetched)
      (fun handle => handle.params.sizeFile) announced (offset, firmware) := by
  obtain ⟨before, -, hsize, rfl⟩ := hstarted.firmware
  obtain ⟨hfetched, hparams⟩ := startDownload_sizes offset before
  intro hloading
  refine ⟨?_, ?_, hoffset⟩
  · exact hfetched.trans (Nat.mod_eq_of_lt (by omega))
  · dsimp only
    rw [hparams]
    exact hsize

theorem inv_fileManage (hstarted : Started announced offset firmware file info)
    (hoffset : offset < announced) (hannounced : announced < 2 ^ 31) :
    Inv fileManage (fun handle => handle.sizeFetched) (fun handle => handle.sizeFile) announced
      (offset, file) := by
  obtain ⟨before, -, hsize, rfl⟩ := hstarted.file
  exact fun _ => ⟨Nat.mod_eq_of_lt (by omega), hsize, hoffset⟩

theorem inv_resource (hstarted : Started announced offset firmware file info)
    (hoffset : offset < announced) (hannounced : announced < 2 ^ 31) :
    Inv resource (fun info => info.sizePrepared) (fun info => info.resourceSize) announced
      (offset, info) := by
  obtain ⟨before, -, -, hsize, rfl⟩ := hstarted.info
  exact fun _ => ⟨Nat.mod_eq_of_lt (by omega), hsize, hoffset⟩

/-- The download of a firmware is right. -/
theorem ota_right (hstarted : Started announced offset firmware file info)
    (hoffset : offset < announced)
    (hannounced : announced < 2 ^ 31) (fetches : List Fetch) :
    Along (watch ota) (StepRight ota announced) fetches (offset, firmware) := by
  have hpercent : ∀ after, after ≤ announced →
      (otaFetchPercent after announced = exactPercent after announced ↔ True) :=
    fun after hle => iff_of_true (otaFetchPercent_exact hle hannounced) trivial
  apply (along_right_iff ota_lawful hannounced hpercent fetches
    (inv_ota hstarted hoffset hannounced)).mpr
  exact (along_true _ fetches _).mono fun _ _ _ _ _ _ _ => trivial

/-- In each download of a file the three clients are right as long as no product of 32 bits wraps,
and only then. -/
theorem downloads_right_iff (hpos : 0 < announced) (hannounced : announced < 2 ^ 31)
    (hoffset : offset < announced) (hstarted : Started announced offset firmware file info)
    (fetches : List Fetch) :
    (Along (watch ota) (StepRight ota announced) fetches (offset, firmware) ∧
      Along (watch fileManage) (StepRight fileManage announced) fetches (offset, file) ∧
        Along (watch resource) (StepRight resource announced) fetches (offset, info)) ↔
      Along (watch fileManage) (Small fileManage announced) fetches (offset, file) ∧
        Along (watch resource) (Small resource announced) fetches (offset, info) := by
  have hpercent : ∀ after, after ≤ announced →
      (after * 100 % 2 ^ 32 / announced = exactPercent after announced ↔ 100 * after < 2 ^ 32) :=
    fun after _ => wrapped_exact_iff hpos (by omega)
  have hfile := along_right_iff fileManage_lawful hannounced hpercent fetches
    (inv_fileManage hstarted hoffset hannounced)
  have hinfo := along_right_iff resource_lawful hannounced hpercent fetches
    (inv_resource hstarted hoffset hannounced)
  constructor
  · rintro ⟨-, hfileRight, hinfoRight⟩
    exact ⟨hfile.mp hfileRight, hinfo.mp hinfoRight⟩
  · rintro ⟨hfileSmall, hinfoSmall⟩
    exact ⟨ota_right hstarted hoffset hannounced fetches, hfile.mpr hfileSmall,
      hinfo.mpr hinfoSmall⟩

def firmwareAt (announced offset : ℕ) : OtaClient.Handle :=
  OtaClient.startDownload offset true true
    { OtaClient.init with
      state := .fetching
      params := { OtaClient.init.params with sizeFile := announced } }

def fileAt (announced offset : ℕ) : FileManageClient.Handle :=
  FileManageClient.startDownload offset
    { FileManageClient.init with state := .fetching, sizeFile := announced }

def infoAt (announced offset : ℕ) : ResourceClient.Info :=
  ResourceClient.startDownload offset ⟨.start, 0, announced, 0⟩

theorem started_at (announced offset : ℕ) : Started announced offset (firmwareAt announced offset)
    (fileAt announced offset) (infoAt announced offset) :=
  ⟨⟨_, rfl, rfl, rfl⟩, ⟨_, rfl, rfl, rfl⟩, ⟨_, rfl, rfl, rfl, rfl⟩⟩

theorem downloads_right_iff_five : (Along (watch ota) (StepRight ota 5)
    [.delivered ⟨[1, 2, 3], by decide⟩, .failed, .delivered ⟨[4, 5], by decide⟩]
      (0, firmwareAt 5 0) ∧
      Along (watch fileManage) (StepRight fileManage 5)
        [.delivered ⟨[1, 2, 3], by decide⟩, .failed, .delivered ⟨[4, 5], by decide⟩]
          (0, fileAt 5 0) ∧
      Along (watch resource) (StepRight resource 5)
        [.delivered ⟨[1, 2, 3], by decide⟩, .failed, .delivered ⟨[4, 5], by decide⟩]
          (0, infoAt 5 0)) ↔
    Along (watch fileManage) (Small fileManage 5)
      [.delivered ⟨[1, 2, 3], by decide⟩, .failed, .delivered ⟨[4, 5], by decide⟩] (0, fileAt 5 0) ∧
    Along (watch resource) (Small resource 5)
      [.delivered ⟨[1, 2, 3], by decide⟩, .failed, .delivered ⟨[4, 5], by decide⟩]
        (0, infoAt 5 0) :=
  downloads_right_iff (by decide) (by decide) (by decide) (started_at 5 0) _

/-- Behind 42949672 bytes the percentage of a file starts again. -/
theorem downloads_right_large : ¬ ∀ (announced offset : ℕ) (firmware : OtaClient.Handle)
    (file : FileManageClient.Handle) (info : ResourceClient.Info) (fetches : List Fetch),
    0 < announced → announced < 2 ^ 31 → offset < announced →
    Started announced offset firmware file info →
    Along (watch ota) (StepRight ota announced) fetches (offset, firmware) ∧
      Along (watch fileManage) (StepRight fileManage announced) fetches (offset, file) ∧
        Along (watch resource) (StepRight resource announced) fetches (offset, info) := by
  intro hall
  obtain ⟨-, hfile, -⟩ :=
    hall 50000000 42949672 _ _ _ [.delivered ⟨[0], by decide⟩] (by decide) (by decide)
    (by decide) (started_at 50000000 42949672)
  have hpercent := (hfile.1 _ rfl rfl).percent (by decide)
  exact absurd hpercent (by decide)

end Agreement

end IotExplorer.DownloadSteps
