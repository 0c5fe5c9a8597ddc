import IotExplorer.OtaClient

/-!
Runs of the OTA client. An observer notes which update was accepted, which bytes of
it the application holds since the last start of a download, and what has been fed to
the digest by the application itself. Of a handle that has fetched a firmware, and of the
digest, the runs promise what the observer has noted, as long as no server message
and no call is one of those that the client does not take into account.
-/
namespace IotExplorer.OtaRuns

open Basis.Runs JsonParser JsonLookup TemplateJson DeviceProperty HttpClient OtaClient

section Observers

/-- What an observer notes: an update has been accepted since the last reset, its md5sum as it was
announced, a download has been started for it, the bytes held since the last start, the bytes the
application itself has fed to a new digest for a start in the middle, and whether the digest is
final. -/
structure Download where
  accepted : Bool
  announced : List UInt8
  started : Bool
  bytes : List UInt8
  feeding : Option (List UInt8)
  finished : Bool
  deriving DecidableEq, Repr

abbrev Observed := Handle × Download

def fresh : Observed := (init, ⟨false, [], false, [], none, false⟩)

def announcedMd5 (text : CString) : List UInt8 :=
  match liteJsonValueOf (ascii "md5sum") (text.val ++ [0]) with
  | .ok (some value) => value
  | _ => []

/-- A reset takes the update back. -/
def noteReset (events : List Event) (download : Download) : Download :=
  { download with accepted := download.accepted && !decide (Event.reset ∈ events) }

theorem noteReset_eq {events : List Event} {download : Download} (h : Event.reset ∉ events) :
    noteReset events download = download := by
  rw [noteReset, decide_eq_false h, Bool.not_false, Bool.and_true]

@[simp] theorem noteReset_nil (download : Download) : noteReset [] download = download :=
  noteReset_eq List.not_mem_nil

def note (md5 : Md5) (s : Step) (handle : Handle) (download : Download) : Download :=
  let events := (step md5 s handle).2
  let download := noteReset events download
  match s with
  | .message _ _ text =>
      if Event.accepted ∈ events then
        { download with accepted := true, announced := announcedMd5 text, started := false }
      else download
  | .startDownload stored _ _ =>
      { download with
        started := true
        bytes := stored
        feeding := none
        finished := download.finished && !stored.isEmpty }
  | .resetClientMd5 _ => { download with feeding := some [], finished := false }
  | .updateClientMd5 bytes =>
      { download with feeding := download.feeding.map fun fed => fed ++ bytes }
  | .fetchYield (some bytes) =>
      if handle.state = .fetching ∧ handle.chFetch = true then
        { download with bytes := download.bytes ++ bytes }
      else download
  | .checkFirmware wellPlaced _ =>
      if wellPlaced = true ∧ handle.state = .fetched then
        { download with finished := true, feeding := none }
      else download
  | _ => download

def observe (md5 : Md5) (s : Step) (observed : Observed) : Observed × List Event :=
  (((step md5 s observed.1).1, note md5 s observed.1 observed.2), (step md5 s observed.1).2)

/-- The handle takes messages. -/
def Listens (handle : Handle) (msgLen : ℕ) : Prop :=
  (handle.state = .uninited ∨ handle.state = .inited) ∧ msgLen ≠ 0

def RefusesVersion (alloc : List UInt8 → Bool) (text : CString) : Prop :=
  (∃ b, getFirmwareVarlenPara alloc (text.val ++ [0]) (ascii "type") none =
    .ok (b, some (ascii "report_version_rsp"))) ∧
  getReportVersionResult alloc (text.val ++ [0]) = .ok false

def Announces (alloc : List UInt8 → Bool) (text : CString) (before params : Params) : Prop :=
  (∃ b, getFirmwareVarlenPara alloc (text.val ++ [0]) (ascii "type") none =
    .ok (b, some (ascii "update_firmware"))) ∧
  getParams alloc (text.val ++ [0]) before = .ok (true, params)

end Observers

section Messages
variable {alloc : List UInt8 → Bool} {text : CString} {msgLen : ℕ} {handle : Handle}

/-- What a message can do. -/
theorem otaCallback_cases (msgLen : ℕ) (alloc : List UInt8 → Bool) (text : CString)
    (handle : Handle) :
    ((otaCallback msgLen alloc text handle).1 = handle ∧
        ((otaCallback msgLen alloc text handle).2 = [] ∨
          (otaCallback msgLen alloc text handle).2 = [.fault])) ∨
      (Listens handle msgLen ∧ RefusesVersion alloc text ∧
        otaCallback msgLen alloc text handle = ({ handle with state := .fetched }, [])) ∨
      (Listens handle msgLen ∧ ∃ params,
        getParams alloc (text.val ++ [0]) handle.params = .ok (false, params) ∧
        otaCallback msgLen alloc text handle = ({ handle with params := params }, [])) ∨
      (Listens handle msgLen ∧ ∃ params, Announces alloc text handle.params params ∧
        otaCallback msgLen alloc text handle =
          ({ handle with params := params, state := .fetching }, [.accepted])) := by
  generalize hresult : otaCallback msgLen alloc text handle = result
  rw [otaCallback] at hresult
  by_cases hbusy : handle.state = .fetching ∨ handle.state = .fetched ∨ handle.state = .disconnected
  · rw [if_pos hbusy] at hresult
    exact .inl (hresult ▸ ⟨rfl, .inl rfl⟩)
  rw [if_neg hbusy] at hresult
  by_cases hlen : msgLen = 0
  · rw [if_pos hlen] at hresult
    exact .inl (hresult ▸ ⟨rfl, .inl rfl⟩)
  rw [if_neg hlen] at hresult
  have hlistens : Listens handle msgLen := by
    refine ⟨?_, hlen⟩
    cases hstate : handle.state with
    | uninited => exact .inl rfl
    | inited => exact .inr rfl
    | fetching => exact absurd (.inl hstate) hbusy
    | fetched => exact absurd (.inr (.inl hstate)) hbusy
    | disconnected => exact absurd (.inr (.inr hstate)) hbusy
  cases htype : getFirmwareVarlenPara alloc (text.val ++ [0]) (ascii "type") none with
  | error e =>
    rw [htype] at hresult
    exact .inl (hresult ▸ ⟨rfl, .inr rfl⟩)
  | ok found =>
    obtain ⟨b, jsonType⟩ := found
    rw [htype] at hresult
    cases jsonType with
    | none => exact .inl (hresult ▸ ⟨rfl, .inl rfl⟩)
    | some jsonType =>
      dsimp only at hresult
      by_cases hversion : jsonType = ascii "report_version_rsp"
      · rw [if_pos hversion] at hresult
        cases hrefused : getReportVersionResult alloc (text.val ++ [0]) with
        | error e =>
          rw [hrefused] at hresult
          exact .inl (hresult ▸ ⟨rfl, .inr rfl⟩)
        | ok right =>
          rw [hrefused] at hresult
          cases right with
          | true => exact .inl (hresult ▸ ⟨rfl, .inl rfl⟩)
          | false => exact .inr (.inl ⟨hlistens, ⟨⟨b, hversion ▸ htype⟩, hrefused⟩, hresult.symm⟩)
      · rw [if_neg hversion] at hresult
        by_cases hupdate : jsonType = ascii "update_firmware"
        · rw [if_neg (not_not.mpr hupdate)] at hresult
          cases hparams : getParams alloc (text.val ++ [0]) handle.params with
          | error e =>
            rw [hparams] at hresult
            exact .inl (hresult ▸ ⟨rfl, .inr rfl⟩)
          | ok found =>
            obtain ⟨complete, params⟩ := found
            rw [hparams] at hresult
            cases complete with
            | true =>
              exact .inr (.inr (.inr ⟨hlistens, params, ⟨⟨b, hupdate ▸ htype⟩, hparams⟩,
                hresult.symm⟩))
            | false => exact .inr (.inr (.inl ⟨hlistens, params, rfl, hresult.symm⟩))
        · rw [if_pos hupdate] at hresult
          exact .inl (hresult ▸ ⟨rfl, .inl rfl⟩)

end Messages

section Calls
variable {handle : Handle} {md5 : Md5}

theorem reportVersion_cases (version : List UInt8) (handle : Handle) :
    reportVersion version handle = (handle, []) ∨
      reportVersion version handle = resetStatus handle := by
  rw [reportVersion]
  split_ifs <;> simp

theorem reportUpgradeResult_cases (version : Option (List UInt8)) (reportType : ReportType)
    (sent : Bool) (handle : Handle) :
    reportUpgradeResult version reportType sent handle = (handle, []) ∨
      reportUpgradeResult version reportType sent handle = resetStatus handle := by
  cases version with
  | none => exact .inl rfl
  | some version =>
    rw [reportUpgradeResult]
    split_ifs <;> simp

/-- What a check of the firmware can do. -/
theorem checkFirmware_cases (md5 : Md5) (wellPlaced sent : Bool) (handle : Handle) :
    ((wellPlaced = false ∨ handle.state ≠ .fetched) ∧
        checkFirmware md5 wellPlaced sent handle = (handle, [])) ∨
      (wellPlaced = true ∧ handle.state = .fetched ∧
        ((handle.md5 = none ∧ checkFirmware md5 wellPlaced sent handle = (handle, [.fault])) ∨
          ∃ fed, handle.md5 = some fed ∧
            ((cstr handle.params.md5sum = digestText (md5 fed) ∧
                checkFirmware md5 wellPlaced sent handle =
                  ({ handle with md5 := some (fed ++ md5Padding fed.length) }, [.answered true])) ∨
              (cstr handle.params.md5sum ≠ digestText (md5 fed) ∧
                (checkFirmware md5 wellPlaced sent handle =
                    ({ handle with md5 := some (fed ++ md5Padding fed.length) },
                      [.answered false]) ∨
                  checkFirmware md5 wellPlaced sent handle =
                    ((resetStatus { handle with md5 := some (fed ++ md5Padding fed.length) }).1,
                      [.answered false, .reset])))))) := by
  rw [checkFirmware]
  cases wellPlaced with
  | false => exact .inl ⟨.inl rfl, rfl⟩
  | true =>
    by_cases hstate : handle.state = .fetched
    · right
      refine ⟨rfl, hstate, ?_⟩
      rw [if_neg (by decide), if_neg (not_not.mpr hstate)]
      cases hmd5 : handle.md5 with
      | none => exact .inl ⟨rfl, rfl⟩
      | some fed =>
        right
        refine ⟨fed, rfl, ?_⟩
        dsimp only
        by_cases hright : cstr handle.params.md5sum = digestText (md5 fed)
        · rw [if_pos hright]
          exact .inl ⟨hright, rfl⟩
        · rw [if_neg hright]
          right
          refine ⟨hright, ?_⟩
          rcases reportUpgradeResult_cases handle.params.version .md5NotMatch sent
            { handle with md5 := some (fed ++ md5Padding fed.length) } with hreport | hreport
          · exact .inl (by rw [hreport])
          · exact .inr (by rw [hreport]; rfl)
    · left
      refine ⟨.inr hstate, ?_⟩
      rw [if_neg (by decide), if_pos hstate]

/-- What a fetch can do. -/
theorem fetchYield_cases (result : Option (List UInt8)) (handle : Handle) :
    ((handle.state ≠ .fetching ∨ handle.chFetch = false ∨ result = none) ∧
        fetchYield result handle = (handle, [])) ∨
      ∃ bytes, result = some bytes ∧ handle.state = .fetching ∧ handle.chFetch = true ∧
        ((handle.params.sizeFile = 0 ∧ fetchYield result handle =
            ({ handle with sizeFetched := (handle.sizeFetched + bytes.length) % 2 ^ 32 },
              [.divided 0])) ∨
          (handle.params.sizeFile ≠ 0 ∧ ∃ md5 events,
            (md5 = handle.md5.map fun fed => fed ++ bytes) ∧
            (events = [] ∨ events = [.fault]) ∧ fetchYield result handle =
              ({ handle with
                sizeFetched := (handle.sizeFetched + bytes.length) % 2 ^ 32
                state := if handle.params.sizeFile ≤ (handle.sizeFetched + bytes.length) % 2 ^ 32
                  then .fetched else .fetching
                md5 := md5 }, .divided handle.params.sizeFile :: events))) := by
  unfold fetchYield
  by_cases hstate : handle.state = .fetching
  · rw [if_neg (not_not.mpr hstate)]
    cases hfetch : handle.chFetch with
    | false => exact .inl ⟨.inr (.inl rfl), rfl⟩
    | true =>
      rw [if_neg (by decide)]
      cases result with
      | none => exact .inl ⟨.inr (.inr rfl), rfl⟩
      | some bytes =>
        right
        refine ⟨bytes, rfl, hstate, rfl, ?_⟩
        dsimp only
        by_cases hzero : handle.params.sizeFile = 0
        · rw [if_pos hzero]
          exact .inl ⟨hzero, by rw [hzero]⟩
        · rw [if_neg hzero]
          right
          refine ⟨hzero, ?_⟩
          cases hmd5 : handle.md5 with
          | none =>
            refine ⟨none, [.fault], rfl, .inr rfl, ?_⟩
            rw [md5Update]
          | some fed =>
            refine ⟨some (fed ++ bytes), [], rfl, .inl rfl, ?_⟩
            rw [md5Update]
  · rw [if_pos hstate]
    exact .inl ⟨.inl hstate, rfl⟩

end Calls

section Fetching
variable {md5 : Md5} {observed : Observed}

/-- A fetched firmware is that of an update accepted since the last reset, and at least as many
bytes have been fetched for it as were announced. -/
def FetchedRight (observed : Observed) : Prop :=
  observed.1.state = .fetched → observed.2.accepted = true ∧ 0 < observed.1.params.sizeFile ∧
    observed.1.params.sizeFile ≤ observed.1.sizeFetched ∧ observed.2.started = true ∧
    observed.1.params.sizeFile ≤ observed.2.bytes.length

/-- No message refuses a reported version or announces an empty firmware while the handle takes
messages; a fetched firmware is not started again in front of its size; and a download is started
before bytes are fetched for an update. -/
def Meets (observed : Observed) : Step → Prop
  | .message msgLen alloc text => Listens observed.1 msgLen → ¬ RefusesVersion alloc text ∧
      ∀ params, Announces alloc text observed.1.params params → params.sizeFile ≠ 0
  | .startDownload stored _ _ => stored.length < 2 ^ 32 ∧
      (observed.1.state = .fetched → observed.1.params.sizeFile ≤ stored.length)
  | .fetchYield _ => observed.1.state = .fetching → observed.2.started = true
  | _ => True

structure Fetching (observed : Observed) : Prop where
  fetching : observed.1.state = .fetching →
    observed.2.accepted = true ∧ observed.1.params.sizeFile ≠ 0
  fetched : observed.1.state = .fetched → (observed.2.accepted = true ∧
    observed.1.params.sizeFile ≠ 0) ∧ observed.2.started = true ∧
    observed.1.params.sizeFile ≤ observed.1.sizeFetched
  counted : observed.2.started = true → observed.1.sizeFetched ≤ observed.2.bytes.length

theorem fetching_fresh : Fetching fresh :=
  ⟨fun h => OtaState.noConfusion h, fun h => OtaState.noConfusion h, fun h => Bool.noConfusion h⟩

/-- A handle that neither fetches nor has fetched. -/
theorem Fetching.idle (h : Fetching observed) {handle : Handle} {download : Download}
    (hfetching : handle.state ≠ .fetching) (hfetched : handle.state ≠ .fetched)
    (hsize : handle.sizeFetched = observed.1.sizeFetched)
    (hstarted : download.started = true → observed.2.started = true)
    (hbytes : download.bytes = observed.2.bytes) : Fetching (handle, download) := by
  refine ⟨fun h => absurd h hfetching, fun h => absurd h hfetched, ?_⟩
  intro hstart
  dsimp only
  rw [hsize, hbytes]
  exact h.counted (hstarted hstart)

/-- A step that changes nothing that counts. -/
theorem Fetching.same (h : Fetching observed) {handle : Handle} {download : Download}
    (hstate : handle.state = observed.1.state)
    (hfile : handle.params.sizeFile = observed.1.params.sizeFile)
    (hsize : handle.sizeFetched = observed.1.sizeFetched)
    (haccepted : download.accepted = observed.2.accepted)
    (hstarted : download.started = observed.2.started)
    (hbytes : download.bytes = observed.2.bytes) : Fetching (handle, download) := by
  refine ⟨?_, ?_, ?_⟩
  · intro hs
    dsimp only at hs ⊢
    rw [haccepted, hfile]
    exact h.fetching (hstate.symm.trans hs)
  · intro hs
    dsimp only at hs ⊢
    rw [haccepted, hfile, hstarted, hsize]
    exact h.fetched (hstate.symm.trans hs)
  · intro hs
    dsimp only at hs ⊢
    rw [hsize, hbytes]
    exact h.counted (hstarted.symm.trans hs)

theorem note_message {msgLen : ℕ} {alloc : List UInt8 → Bool} {text : CString} {handle : Handle}
    {download : Download} (hreset : Event.reset ∉ (otaCallback msgLen alloc text handle).2) :
    note md5 (.message msgLen alloc text) handle download =
      if Event.accepted ∈ (otaCallback msgLen alloc text handle).2 then
        { download with accepted := true, announced := announcedMd5 text, started := false }
      else download := by
  simp only [note, step, noteReset_eq hreset]

/-- What is observed of a message: nothing, a refusal, parameters that are not complete, or
an update that is accepted. -/
theorem observe_message_cases (md5 : Md5) (msgLen : ℕ) (alloc : List UInt8 → Bool) (text : CString)
    (observed : Observed) :
    (observe md5 (.message msgLen alloc text) observed).1 = observed ∨
      (Listens observed.1 msgLen ∧ RefusesVersion alloc text) ∨
      (Listens observed.1 msgLen ∧ ∃ params,
        getParams alloc (text.val ++ [0]) observed.1.params = .ok (false, params) ∧
        (observe md5 (.message msgLen alloc text) observed).1 =
          ({ observed.1 with params := params }, observed.2)) ∨
      (Listens observed.1 msgLen ∧ ∃ params, Announces alloc text observed.1.params params ∧
        (observe md5 (.message msgLen alloc text) observed).1 =
          ({ observed.1 with params := params, state := .fetching },
            { observed.2 with
              accepted := true, announced := announcedMd5 text, started := false })) := by
  obtain ⟨handle, download⟩ := observed
  rw [observe]
  rcases otaCallback_cases msgLen alloc text handle with
    ⟨hsame, hevents⟩ | ⟨hlistens, hrefuses, -⟩ | ⟨hlistens, params, hparams, heq⟩ |
    ⟨hlistens, params, hannounces, heq⟩
  · have hreset : Event.reset ∉ (otaCallback msgLen alloc text handle).2 := by
      rcases hevents with hevents | hevents <;> rw [hevents] <;> simp
    have haccepted : Event.accepted ∉ (otaCallback msgLen alloc text handle).2 := by
      rcases hevents with hevents | hevents <;> rw [hevents] <;> simp
    left
    rw [note_message hreset, if_neg haccepted, step, hsame]
  · exact .inr (.inl ⟨hlistens, hrefuses⟩)
  · refine .inr (.inr (.inl ⟨hlistens, params, hparams, ?_⟩))
    rw [note_message (by simp [heq]), if_neg (by simp [heq]), step, heq]
  · refine .inr (.inr (.inr ⟨hlistens, params, hannounces, ?_⟩))
    rw [note_message (by simp [heq]), if_pos (by simp [heq]), step, heq]

/-- A handle that takes messages is not fetching. -/
theorem Listens.idle {msgLen : ℕ} {handle : Handle} (h : Listens handle msgLen) :
    handle.state ≠ .fetching ∧ handle.state ≠ .fetched := by
  rcases h.1 with hstate | hstate <;> rw [hstate] <;> simp

theorem fetching_message {msgLen : ℕ} {alloc : List UInt8 → Bool} {text : CString}
    (h : Fetching observed) (hmeets : Meets observed (.message msgLen alloc text)) :
    Fetching (observe md5 (.message msgLen alloc text) observed).1 := by
  rcases observe_message_cases md5 msgLen alloc text observed with
    heq | ⟨hlistens, hrefuses⟩ | ⟨hlistens, params, -, heq⟩ | ⟨hlistens, params, hannounces, heq⟩
  · rw [heq]
    exact h
  · exact absurd hrefuses (hmeets hlistens).1
  · rw [heq]
    exact @Fetching.idle _ h { observed.1 with params := params } observed.2 hlistens.idle.1
      hlistens.idle.2 rfl id rfl
  · -- an update that is accepted
    rw [heq]
    exact ⟨fun _ => ⟨rfl, (hmeets hlistens).2 params hannounces⟩, fun h => OtaState.noConfusion h,
      fun h => Bool.noConfusion h⟩

theorem fetching_reset (h : Fetching observed) {handle : Handle} {download : Download}
    (hsize : handle.sizeFetched = observed.1.sizeFetched)
    (hstarted : download.started = observed.2.started)
    (hbytes : download.bytes = observed.2.bytes) : Fetching ((resetStatus handle).1, download) :=
  h.idle (by simp [resetStatus]) (by simp [resetStatus]) hsize (fun hs => hstarted ▸ hs) hbytes

theorem note_fetchYield_idle {result : Option (List UInt8)} {handle : Handle} {download : Download}
    (hidle : handle.state ≠ .fetching ∨ handle.chFetch = false ∨ result = none)
    (heq : fetchYield result handle = (handle, [])) :
    note md5 (.fetchYield result) handle download = download := by
  simp only [note, step, heq, noteReset_nil]
  cases result with
  | none => simp
  | some bytes =>
    have hnot : ¬ (handle.state = .fetching ∧ handle.chFetch = true) := by
      rintro ⟨hstate, hfetch⟩
      rcases hidle with hidle | hidle | hidle
      · exact hidle hstate
      · rw [hfetch] at hidle
        cases hidle
      · cases hidle
    simp [hnot]

theorem note_fetchYield {bytes : List UInt8} {handle handle' : Handle} {download : Download}
    {events : List Event} (hstate : handle.state = .fetching) (hfetch : handle.chFetch = true)
    (hevents : events = [] ∨ events = [.fault])
    (heq : fetchYield (some bytes) handle = (handle', .divided handle.params.sizeFile :: events)) :
    note md5 (.fetchYield (some bytes)) handle download =
      { download with bytes := download.bytes ++ bytes } := by
  have hreset : Event.reset ∉ (.divided handle.params.sizeFile :: events) := by
    rcases hevents with rfl | rfl <;> simp
  simp only [note, step, heq, noteReset_eq hreset]
  rw [if_pos ⟨hstate, hfetch⟩]

theorem fetching_fetchYield {result : Option (List UInt8)} (h : Fetching observed)
    (hmeets : Meets observed (.fetchYield result)) :
    Fetching (observe md5 (.fetchYield result) observed).1 := by
  obtain ⟨handle, download⟩ := observed
  rw [observe]
  rcases fetchYield_cases result handle with ⟨hidle, heq⟩ |
    ⟨bytes, rfl, hstate, hfetch, ⟨hzero, -⟩ | ⟨hsize, md5', events, -, hevents, heq⟩⟩
  · rw [note_fetchYield_idle hidle heq, step, heq]
    exact h
  · exact absurd hzero (h.fetching hstate).2
  · obtain ⟨haccepted, -⟩ := h.fetching hstate
    have hstarted := hmeets hstate
    have hcounted := h.counted hstarted
    rw [note_fetchYield hstate hfetch hevents heq, step, heq]
    refine ⟨fun _ => ⟨haccepted, hsize⟩, ?_, ?_⟩
    · intro hs
      dsimp only at hs ⊢
      refine ⟨⟨haccepted, hsize⟩, hstarted, ?_⟩
      by_contra hless
      rw [if_neg hless] at hs
      cases hs
    · intro _
      dsimp only at hcounted ⊢
      rw [List.length_append]
      exact Nat.le_trans (Nat.mod_le _ _) (Nat.add_le_add_right hcounted _)

theorem fetching_checkFirmware {wellPlaced sent : Bool} (h : Fetching observed) :
    Fetching (observe md5 (.checkFirmware wellPlaced sent) observed).1 := by
  obtain ⟨handle, download⟩ := observed
  have hnote : (note md5 (.checkFirmware wellPlaced sent) handle download).started =
        download.started ∧
      (note md5 (.checkFirmware wellPlaced sent) handle download).bytes = download.bytes := by
    simp only [note]
    split_ifs <;> exact ⟨rfl, rfl⟩
  have haccepted : Event.reset ∉ (checkFirmware md5 wellPlaced sent handle).2 →
      (note md5 (.checkFirmware wellPlaced sent) handle download).accepted = download.accepted := by
    intro hreset
    simp only [note, step, noteReset_eq hreset]
    split_ifs <;> rfl
  rw [observe]
  rcases checkFirmware_cases md5 wellPlaced sent handle with ⟨-, heq⟩ |
    ⟨-, -, ⟨-, heq⟩ | ⟨fed, -, ⟨-, heq⟩ | ⟨-, heq | heq⟩⟩⟩
  · exact h.same (by rw [step, heq]) (by rw [step, heq]) (by rw [step, heq])
      (haccepted (by rw [heq]; simp)) hnote.1 hnote.2
  · exact h.same (by rw [step, heq]) (by rw [step, heq]) (by rw [step, heq])
      (haccepted (by rw [heq]; simp)) hnote.1 hnote.2
  · exact h.same (by rw [step, heq]) (by rw [step, heq]) (by rw [step, heq])
      (haccepted (by rw [heq]; simp)) hnote.1 hnote.2
  · exact h.same (by rw [step, heq]) (by rw [step, heq]) (by rw [step, heq])
      (haccepted (by rw [heq]; simp)) hnote.1 hnote.2
  · rw [step, heq]
    exact fetching_reset h rfl hnote.1 hnote.2

/-- A step keeps what is promised. -/
theorem fetching_step (md5 : Md5) (observed : Observed) (s : Step) (h : Fetching observed)
    (hmeets : Meets observed s) : Fetching (observe md5 s observed).1 := by
  cases s with
  | message msgLen alloc text => exact fetching_message h hmeets
  | fetchYield result => exact fetching_fetchYield h hmeets
  | checkFirmware wellPlaced sent => exact fetching_checkFirmware h
  | reportVersion version =>
    obtain ⟨handle, download⟩ := observed
    rw [observe]
    rcases reportVersion_cases version handle with heq | heq
    · simp only [note, step, heq, noteReset_nil]
      exact h
    · simp only [note, step, heq]
      exact fetching_reset h rfl rfl rfl
  | reportUpgradeResult version reportType sent =>
    obtain ⟨handle, download⟩ := observed
    rw [observe]
    rcases reportUpgradeResult_cases version reportType sent handle with heq | heq
    · simp only [note, step, heq, noteReset_nil]
      exact h
    · simp only [note, step, heq]
      exact fetching_reset h rfl rfl rfl
  | startDownload stored alloc opened =>
    obtain ⟨handle, download⟩ := observed
    obtain ⟨hoffset, hsize⟩ := hmeets
    have hstart : (startDownload stored.length alloc opened handle).state = handle.state ∧
        (startDownload stored.length alloc opened handle).params = handle.params ∧
        (startDownload stored.length alloc opened handle).sizeFetched = stored.length := by
      have hmod : stored.length % 2 ^ 32 = stored.length := Nat.mod_eq_of_lt hoffset
      rw [startDownload]
      split_ifs <;> exact ⟨rfl, rfl, hmod⟩
    obtain ⟨hstate, hparams, hfetched⟩ := hstart
    simp only [observe, note, step, noteReset_nil]
    refine ⟨?_, ?_, ?_⟩ <;> dsimp only
    · intro hs
      rw [hparams]
      exact h.fetching (hstate.symm.trans hs)
    · intro hs
      have hs' := hstate.symm.trans hs
      rw [hparams, hfetched]
      exact ⟨(h.fetched hs').1, rfl, hsize hs'⟩
    · intro _
      rw [hfetched]
  | resetClientMd5 alloc =>
    simp only [observe, note, step, noteReset_nil]
    exact h.same rfl rfl rfl rfl rfl rfl
  | updateClientMd5 bytes =>
    have hupdate : (md5Update bytes observed.1).1.state = observed.1.state ∧
        (md5Update bytes observed.1).1.params = observed.1.params ∧
        (md5Update bytes observed.1).1.sizeFetched = observed.1.sizeFetched ∧
        Event.reset ∉ (md5Update bytes observed.1).2 := by
      rw [md5Update]
      cases observed.1.md5 <;> simp
    obtain ⟨hstate, hparams, hsize, hreset⟩ := hupdate
    simp only [observe, note, step, noteReset_eq hreset]
    exact h.same hstate (by rw [hparams]) hsize rfl rfl rfl

/-- A step divides by the size of an update, which is not zero. -/
theorem divided_step (md5 : Md5) (s : Step) (h : Fetching observed) :
    Event.divided 0 ∉ (observe md5 s observed).2 := by
  obtain ⟨handle, download⟩ := observed
  have hreset : Event.divided 0 ∉ (resetStatus handle).2 := by simp [resetStatus]
  rw [observe]
  cases s with
  | message msgLen alloc text =>
    rw [step]
    rcases otaCallback_cases msgLen alloc text handle with
      ⟨-, hevents | hevents⟩ | ⟨-, -, heq⟩ | ⟨-, params, -, heq⟩ | ⟨-, params, -, heq⟩
    · simp [hevents]
    · simp [hevents]
    · simp [heq]
    · simp [heq]
    · simp [heq]
  | fetchYield result =>
    rw [step]
    rcases fetchYield_cases result handle with ⟨-, heq⟩ |
      ⟨bytes, -, hstate, -, ⟨hzero, -⟩ | ⟨hsize, md5', events, -, hevents, heq⟩⟩
    · simp [heq]
    · exact absurd hzero (h.fetching hstate).2
    · have hother : Event.divided 0 ∉ events := by
        rcases hevents with rfl | rfl <;> simp
      rw [heq]
      simp only [List.mem_cons, Event.divided.injEq, not_or]
      exact ⟨fun hzero => hsize hzero.symm, hother⟩
  | checkFirmware wellPlaced sent =>
    rw [step]
    rcases checkFirmware_cases md5 wellPlaced sent handle with ⟨-, heq⟩ |
      ⟨-, -, ⟨-, heq⟩ | ⟨fed, -, ⟨-, heq⟩ | ⟨-, heq | heq⟩⟩⟩ <;> simp [heq]
  | reportVersion version =>
    rw [step]
    rcases reportVersion_cases version handle with heq | heq
    · simp [heq]
    · rw [heq]
      exact hreset
  | reportUpgradeResult version reportType sent =>
    rw [step]
    rcases reportUpgradeResult_cases version reportType sent handle with heq | heq
    · simp [heq]
    · rw [heq]
      exact hreset
  | startDownload stored alloc opened => simp [step]
  | resetClientMd5 alloc => simp [step]
  | updateClientMd5 bytes =>
    rw [step, md5Update]
    cases handle.md5 <;> simp

/-- In a run whose steps the client takes into account, a fetched firmware is that of an accepted
update and has been fetched, and nothing is divided by zero. -/
theorem run_fetchedRight (md5 : Md5) (steps : List Step)
    (hmeets : Along (observe md5) Meets steps fresh) :
    FetchedRight (run (observe md5) steps fresh).1 ∧
      Event.divided 0 ∉ (run (observe md5) steps fresh).2 := by
  have hstep : ∀ (observed : Observed) (log : List Event) (s : Step),
      Fetching observed ∧ Event.divided 0 ∉ log → Meets observed s →
      Fetching (observe md5 s observed).1 ∧
        Event.divided 0 ∉ log ++ (observe md5 s observed).2 := by
    rintro observed log s ⟨h, hlog⟩ hmeets
    refine ⟨fetching_step md5 observed s h hmeets, ?_⟩
    rw [List.mem_append, not_or]
    exact ⟨hlog, divided_step md5 s h⟩
  have hrun :=
    @run_history _ _ _ _ _ (fun observed log => Fetching observed ∧ Event.divided 0 ∉ log)
    hstep _ _ [] ⟨fetching_fresh, List.not_mem_nil⟩ hmeets
  rw [List.nil_append] at hrun
  obtain ⟨hfetching, hdivided⟩ := hrun
  refine ⟨?_, hdivided⟩
  intro hstate
  obtain ⟨⟨haccepted, hsize⟩, hstarted, hfile⟩ := hfetching.fetched hstate
  exact ⟨haccepted, Nat.pos_of_ne_zero hsize, hfile, hstarted,
    Nat.le_trans hfile (hfetching.counted hstarted)⟩

/-- A message with an update of one byte whose md5sum is all zeros. -/
def updateText : CString :=
  ⟨ascii "\x7b\"type\":\"update_firmware\"," ++ ascii "\"version\":\"1\"," ++
  ascii "\"url\":\"u\"," ++ (ascii "\"md5sum\":\"" ++ List.replicate 32 0x30 ++ ascii "\",") ++
  ascii "\"file_size\":\"1\"," ++ ascii "\"user_defined\":\"u\"\x7d", by decide +kernel⟩

theorem updateText_type :
    getFirmwareVarlenPara (fun _ => true) (updateText.val ++ [0]) (ascii "type") none =
    .ok (true, some (ascii "update_firmware")) := by decide +kernel

theorem updateText_params {params : Params}
    (h : getParams (fun _ => true) (updateText.val ++ [0]) init.params = .ok (true, params)) :
    params.sizeFile = 1 := by
  have hsize : (getParams (fun _ => true) (updateText.val ++ [0]) init.params).toOption.map
      (fun found => found.2.sizeFile) = some 1 := by decide +kernel
  rw [h] at hsize
  exact Option.some.inj hsize

theorem updateText_meets : Meets fresh (.message 1 (fun _ => true) updateText) := by
  intro _
  constructor
  · rintro ⟨⟨b, htype⟩, -⟩
    rw [updateText_type] at htype
    injection htype with htype
    injection htype with _ htype
    injection htype with htype
    exact absurd htype (by decide)
  · rintro params ⟨-, hparams⟩
    rw [updateText_params hparams]
    decide

def zeroMd5 : Md5 := fun _ => Vector.replicate 16 0

theorem run_fetchedRight_update :
    FetchedRight (run (observe zeroMd5) [.message 1 (fun _ => true) updateText,
        .startDownload [] true true, .fetchYield (some [0])] fresh).1 ∧
      Event.divided 0 ∉ (run (observe zeroMd5) [.message 1 (fun _ => true) updateText,
        .startDownload [] true true, .fetchYield (some [0])] fresh).2 := by
  have hstate : (observe zeroMd5 (.message 1 (fun _ => true) updateText) fresh).1.1.state =
      .fetching := by
    decide +kernel
  apply run_fetchedRight
  refine ⟨updateText_meets, ⟨by decide, ?_⟩, fun _ => rfl, trivial⟩
  intro hfetched
  rw [hstate] at hfetched
  cases hfetched

def refusalText : CString :=
  ⟨ascii "\x7b\"type\":\"report_version_rsp\",\"result_code\":\"1\"\x7d", by decide⟩

/-- The state of a fetched firmware is also that of a refused version. -/
theorem run_fetchedRight_refusal : ¬ ∀ (md5 : Md5) (steps : List Step),
    FetchedRight (run (observe md5) steps fresh).1 ∧
      Event.divided 0 ∉ (run (observe md5) steps fresh).2 := by
  intro hall
  have hright := (hall zeroMd5 [.message 1 (fun _ => true) refusalText]).1
  obtain ⟨hstate, haccepted⟩ :
      (run (observe zeroMd5) [.message 1 (fun _ => true) refusalText] fresh).1.1.state = .fetched ∧
      (run (observe zeroMd5) [.message 1 (fun _ => true) refusalText] fresh).1.2.accepted =
        false := by
    decide +kernel
  have hboth := (hright hstate).1
  rw [haccepted] at hboth
  cases hboth

end Fetching

section Fields
variable {alloc : List UInt8 → Bool} {doc : Ptr} {params params' : Params} {b : Bool}

theorem map_ok {α β : Type} {x : Except Overrun α} {f : α → β} {result : β}
    (h : x.map f = .ok result) : ∃ value, x = .ok value ∧ f value = result := by
  cases x with
  | error e => cases h
  | ok value =>
    injection h with h
    exact ⟨value, rfl, h⟩

/-- A value that has been copied into the buffer of an md5sum. -/
def Copies (doc : Ptr) (before after : List UInt8) : Prop :=
  ∃ value, liteJsonValueOf (ascii "md5sum") doc = .ok (some value) ∧ value.length ≤ 32 ∧
    after = value ++ before.drop value.length

theorem md5Field_copies (h : md5Field alloc doc params = .ok (b, params')) :
    (b = false ∧ params' = params) ∨ (b = true ∧ Copies doc params.md5sum params'.md5sum) := by
  obtain ⟨found, hfound, heq⟩ := map_ok h
  injection heq with hb hparams
  rw [getFirmwareFixlenPara] at hfound
  split_ifs at hfound
  · obtain ⟨value, hvalue, hcopy⟩ := map_ok hfound
    cases value with
    | none =>
      left
      rw [← hcopy] at hb hparams
      exact ⟨hb.symm, hparams.symm⟩
    | some value =>
      dsimp only at hcopy
      split_ifs at hcopy with hlong
      · left
        rw [← hcopy] at hb hparams
        exact ⟨hb.symm, hparams.symm⟩
      · right
        rw [← hcopy] at hb hparams
        refine ⟨hb.symm, value, hvalue, Nat.not_lt.mp hlong, ?_⟩
        rw [← hparams]
  · left
    injection hfound with hfound
    rw [← hfound] at hb hparams
    exact ⟨hb.symm, hparams.symm⟩

theorem getFields_cons {field : Params → Except Overrun (Bool × Params)}
    {fields : List (Params → Except Overrun (Bool × Params))}
    (h : getFields (field :: fields) params = .ok (b, params')) :
    (b = false ∧ field params = .ok (false, params')) ∨
      ∃ next, field params = .ok (true, next) ∧ getFields fields next = .ok (b, params') := by
  rw [getFields] at h
  cases hfield : field params with
  | error e =>
    rw [hfield] at h
    cases h
  | ok found =>
    obtain ⟨complete, next⟩ := found
    rw [hfield] at h
    cases complete with
    | false =>
      injection h with h
      injection h with hb hparams
      exact .inl ⟨hb.symm, by rw [hparams]⟩
    | true => exact .inr ⟨next, rfl, h⟩

/-- The buffer of the md5sum is changed by its own field only. -/
theorem getParams_md5sum (h : getParams alloc doc params = .ok (b, params')) :
    (b = false ∧ params'.md5sum = params.md5sum) ∨ Copies doc params.md5sum params'.md5sum := by
  have htype : ∀ {p p' b}, typeField alloc doc p = .ok (b, p') → p'.md5sum = p.md5sum := by
    intro p p' b h
    obtain ⟨found, -, heq⟩ := map_ok h
    injection heq with _ heq
    rw [← heq]
  have hversion : ∀ {p p' b}, versionField alloc doc p = .ok (b, p') → p'.md5sum = p.md5sum := by
    intro p p' b h
    obtain ⟨found, -, heq⟩ := map_ok h
    injection heq with _ heq
    rw [← heq]
  have hurl : ∀ {p p' b}, urlField alloc doc p = .ok (b, p') → p'.md5sum = p.md5sum := by
    intro p p' b h
    obtain ⟨found, -, heq⟩ := map_ok h
    injection heq with _ heq
    rw [← heq]
  have hsize : ∀ {p p' b}, sizeField alloc doc p = .ok (b, p') → p'.md5sum = p.md5sum := by
    intro p p' b h
    obtain ⟨found, -, heq⟩ := map_ok h
    injection heq with _ heq
    rw [← heq]
    split_ifs <;> rfl
  have huser : ∀ {p p' b}, userField alloc doc p = .ok (b, p') → p'.md5sum = p.md5sum := by
    intro p p' b h
    obtain ⟨found, -, heq⟩ := map_ok h
    injection heq with _ heq
    rw [← heq]
  rw [getParams] at h
  rcases getFields_cons h with ⟨hb, h1⟩ | ⟨p1, h1, h⟩
  · exact .inl ⟨hb, htype h1⟩
  rcases getFields_cons h with ⟨hb, h2⟩ | ⟨p2, h2, h⟩
  · exact .inl ⟨hb, (hversion h2).trans (htype h1)⟩
  rcases getFields_cons h with ⟨hb, h3⟩ | ⟨p3, h3, h⟩
  · exact .inl ⟨hb, (hurl h3).trans ((hversion h2).trans (htype h1))⟩
  have hbefore : p3.md5sum = params.md5sum := (hurl h3).trans ((hversion h2).trans (htype h1))
  rcases getFields_cons h with ⟨hb, h4⟩ | ⟨p4, h4, h⟩
  · rcases md5Field_copies h4 with ⟨-, heq⟩ | ⟨hfalse, -⟩
    · exact .inl ⟨hb, by rw [heq, hbefore]⟩
    · cases hfalse
  rcases md5Field_copies h4 with ⟨hfalse, -⟩ | ⟨-, hcopies⟩
  · cases hfalse
  rw [hbefore] at hcopies
  right
  rcases getFields_cons h with ⟨-, h5⟩ | ⟨p5, h5, h⟩
  · rwa [hsize h5]
  rcases getFields_cons h with ⟨-, h6⟩ | ⟨p6, h6, h⟩
  · rwa [huser h6, hsize h5]
  · injection h with h
    injection h with _ h
    rwa [← h, huser h6, hsize h5]

end Fields

section Digests
variable {md5 : Md5} {observed : Observed}

/-- While the application does not feed the digest itself and the digest is not final, it is that of
the bytes that have been fetched, and the answer on a fetched firmware is whether it has been
announced. -/
structure DigestRight (md5 : Md5) (observed : Observed) : Prop where
  context : observed.2.feeding = none → observed.2.finished = false →
    observed.1.md5 = some observed.2.bytes ∧ observed.1.sizeFetched = observed.2.bytes.length
  answer : observed.2.feeding = none → observed.2.finished = false → observed.1.state = .fetched →
    ∀ sent, ∃ events, (checkFirmware md5 true sent observed.1).2 =
      .answered (decide (digestText (md5 observed.2.bytes) = observed.2.announced)) :: events

/-- No message refuses a reported version, announces an empty firmware, or announces an md5sum
shorter than what earlier messages have left in its buffer. A download is started with a new digest:
at its beginning, or behind the bytes that the application has just fed to it. No other bytes are
fed. -/
def Feeds (observed : Observed) : Step → Prop
  | .message msgLen alloc text => Listens observed.1 msgLen → ¬ RefusesVersion alloc text ∧
      ∀ params, Announces alloc text observed.1.params params → params.sizeFile ≠ 0 ∧
        (cstr observed.1.params.md5sum).length ≤ (announcedMd5 text).length
  | .startDownload stored alloc _ => stored.length < 2 ^ 32 ∧ (stored = [] → alloc = true) ∧
      (stored ≠ [] → observed.2.feeding = some stored)
  | .resetClientMd5 alloc => alloc = true
  | .updateClientMd5 _ => observed.2.feeding ≠ none
  | .fetchYield (some bytes) => observed.1.state = .fetching → observed.1.chFetch = true →
      observed.2.feeding = none ∧ observed.2.bytes.length + bytes.length < 2 ^ 32
  | _ => True

/-- A buffer of 33 bytes with a text in front of zeros. -/
def Padded (buffer : List UInt8) : Prop :=
  ∃ text n, buffer = text ++ List.replicate (n + 1) 0 ∧ (0 : UInt8) ∉ text ∧ text.length + n = 32

structure Fed (observed : Observed) : Prop where
  context : observed.2.feeding = none → observed.2.finished = false →
    observed.1.md5 = some observed.2.bytes ∧ observed.1.sizeFetched = observed.2.bytes.length
  feeding : ∀ fed, observed.2.feeding = some fed → observed.1.md5 = some fed
  size : observed.1.state = .fetching → observed.1.params.sizeFile ≠ 0
  buffer : Padded observed.1.params.md5sum
  announced : observed.1.state = .fetching ∨ observed.1.state = .fetched →
    cstr observed.1.params.md5sum = observed.2.announced

theorem cstr_padded {text : List UInt8} (h : (0 : UInt8) ∉ text) (n : ℕ) :
    cstr (text ++ List.replicate (n + 1) 0) = text := by
  rw [cstr, List.takeWhile_append_of_pos]
  · rw [List.replicate_succ]
    exact List.append_nil _
  · intro c hmem
    exact bne_iff_ne.mpr fun hc => h (hc ▸ hmem)

/-- A copied value replaces the text if it is not shorter. -/
theorem Copies.padded {doc : Ptr} {before after : List UInt8} (h : Copies doc before after)
    (hbefore : Padded before) : Padded after ∧ ∃ value,
      liteJsonValueOf (ascii "md5sum") doc = .ok (some value) ∧
      ((cstr before).length ≤ value.length → cstr after = value) := by
  obtain ⟨value, hvalue, hlen, rfl⟩ := h
  obtain ⟨text, n, rfl, hnul, htotal⟩ := hbefore
  have hvalueNul := liteJsonValueOf_noNul hvalue
  rw [cstr_padded hnul]
  by_cases hlong : value.length ≤ text.length
  · have hdrop : (text ++ List.replicate (n + 1) 0).drop value.length =
        text.drop value.length ++ List.replicate (n + 1) 0 := List.drop_append_of_le_length hlong
    rw [hdrop, ← List.append_assoc]
    have hrest : (0 : UInt8) ∉ value ++ text.drop value.length := by
      rw [List.mem_append, not_or]
      exact ⟨hvalueNul, fun hmem => hnul (List.mem_of_mem_drop hmem)⟩
    refine ⟨⟨_, n, rfl, hrest, ?_⟩, value, hvalue, ?_⟩
    · rw [List.length_append, List.length_drop]
      omega
    · intro hshort
      have heq : text.drop value.length = [] := List.drop_eq_nil_of_le hshort
      rw [cstr_padded hrest, heq, List.append_nil]
  · have hdrop : (text ++ List.replicate (n + 1) (0 : UInt8)).drop value.length =
        List.replicate (32 - value.length + 1) 0 := by
      rw [List.drop_append, List.drop_eq_nil_of_le (by omega), List.nil_append, List.drop_replicate]
      congr 1
      omega
    rw [hdrop]
    exact ⟨⟨value, 32 - value.length, rfl, hvalueNul, by omega⟩, value, hvalue,
      fun _ => cstr_padded hvalueNul _⟩

theorem fed_fresh : Fed fresh := by
  refine ⟨fun _ _ => ⟨rfl, rfl⟩, ?_, fun h => OtaState.noConfusion h,
    ⟨[], 32, rfl, List.not_mem_nil, rfl⟩, ?_⟩
  · intro fed h
    cases h
  · rintro (h | h) <;> cases h

/-- A step that leaves the digest and the parameters. -/
theorem Fed.same (h : Fed observed) {handle : Handle} {download : Download}
    (hmd5 : handle.md5 = observed.1.md5) (hsize : handle.sizeFetched = observed.1.sizeFetched)
    (hfile : handle.params.sizeFile = observed.1.params.sizeFile)
    (hsum : handle.params.md5sum = observed.1.params.md5sum)
    (hstate : handle.state = observed.1.state ∨ handle.state ≠ .fetching ∧ handle.state ≠ .fetched)
    (hfeeding : download.feeding = observed.2.feeding)
    (hfinished : download.finished = observed.2.finished)
    (hbytes : download.bytes = observed.2.bytes)
    (hannounced : download.announced = observed.2.announced) : Fed (handle, download) := by
  refine ⟨?_, ?_, ?_, ?_, ?_⟩ <;> dsimp only
  · rw [hfeeding, hfinished, hmd5, hsize, hbytes]
    exact h.context
  · rw [hfeeding, hmd5]
    exact h.feeding
  · intro hs
    rw [hfile]
    rcases hstate with hstate | hstate
    · exact h.size (hstate.symm.trans hs)
    · exact absurd hs hstate.1
  · rw [hsum]
    exact h.buffer
  · intro hs
    rw [hsum, hannounced]
    rcases hstate with hstate | ⟨hfetching, hfetched⟩
    · exact h.announced (hs.imp hstate.symm.trans hstate.symm.trans)
    · rcases hs with hs | hs
      · exact absurd hs hfetching
      · exact absurd hs hfetched

/-- A reset. -/
theorem Fed.reset {handle : Handle} {download : Download} (h : Fed (handle, download))
    (events : List Event) : Fed ((resetStatus handle).1, noteReset events download) := by
  have hstate : (resetStatus handle).1.state ≠ .fetching ∧
      (resetStatus handle).1.state ≠ .fetched := by
    constructor <;> intro hs <;> cases hs
  refine h.same ?_ ?_ ?_ ?_ (.inr hstate) ?_ ?_ ?_ ?_ <;> rfl

theorem fed_message {msgLen : ℕ} {alloc : List UInt8 → Bool} {text : CString} (h : Fed observed)
    (hfeeds : Feeds observed (.message msgLen alloc text)) :
    Fed (observe md5 (.message msgLen alloc text) observed).1 := by
  rcases observe_message_cases md5 msgLen alloc text observed with
    heq | ⟨hlistens, hrefuses⟩ | ⟨hlistens, params, hparams, heq⟩ |
      ⟨hlistens, params, hannounces, heq⟩
  · rw [heq]
    exact h
  · exact absurd hrefuses (hfeeds hlistens).1
  · -- a message that is not complete may have changed the buffer
    rw [heq]
    refine ⟨h.context, h.feeding, fun hs => absurd hs hlistens.idle.1, ?_, ?_⟩
    · dsimp only
      rcases getParams_md5sum hparams with ⟨-, hsame⟩ | hcopies
      · rw [hsame]
        exact h.buffer
      · exact (hcopies.padded h.buffer).1
    · rintro (hs | hs)
      · exact absurd hs hlistens.idle.1
      · exact absurd hs hlistens.idle.2
  · -- an update that is accepted
    obtain ⟨hsize, hlong⟩ := (hfeeds hlistens).2 params hannounces
    have hcopies : Copies (text.val ++ [0]) observed.1.params.md5sum params.md5sum := by
      rcases getParams_md5sum hannounces.2 with ⟨hfalse, -⟩ | hcopies
      · cases hfalse
      · exact hcopies
    obtain ⟨hpadded, value, hvalue, hcstr⟩ := hcopies.padded h.buffer
    have hannounced : announcedMd5 text = value := by rw [announcedMd5, hvalue]
    rw [hannounced] at hlong
    rw [heq, hannounced]
    exact ⟨h.context, h.feeding, fun _ => hsize, hpadded, fun _ => hcstr hlong⟩

theorem fed_fetchYield {result : Option (List UInt8)} (h : Fed observed)
    (hfeeds : Feeds observed (.fetchYield result)) :
    Fed (observe md5 (.fetchYield result) observed).1 := by
  obtain ⟨handle, download⟩ := observed
  rw [observe]
  rcases fetchYield_cases result handle with ⟨hidle, heq⟩ |
    ⟨bytes, rfl, hstate, hfetch, ⟨hzero, -⟩ | ⟨hsize, md5', events, hmd5, hevents, heq⟩⟩
  · rw [note_fetchYield_idle hidle heq, step, heq]
    exact h
  · exact absurd hzero (h.size hstate)
  · obtain ⟨hnone, hint⟩ := hfeeds hstate hfetch
    rw [note_fetchYield hstate hfetch hevents heq, step, heq]
    refine ⟨?_, ?_, fun _ => hsize, h.buffer, fun _ => h.announced (.inl hstate)⟩
    · intro _ hfinished
      obtain ⟨hcontext, hcount⟩ := h.context hnone hfinished
      dsimp only at hcontext hcount hint ⊢
      rw [hmd5, hcontext, hcount, List.length_append]
      exact ⟨rfl, Nat.mod_eq_of_lt hint⟩
    · intro fed hfed
      rw [show download.feeding = none from hnone] at hfed
      cases hfed

theorem fed_checkFirmware {wellPlaced sent : Bool} (h : Fed observed) :
    Fed (observe md5 (.checkFirmware wellPlaced sent) observed).1 := by
  obtain ⟨handle, download⟩ := observed
  rw [observe]
  rcases checkFirmware_cases md5 wellPlaced sent handle with
    ⟨hidle, heq⟩ | ⟨hplaced, hstate, hcheck⟩
  · have hinactive : ¬ (wellPlaced = true ∧ handle.state = .fetched) := by
      rintro ⟨hplaced, hstate⟩
      rcases hidle with hidle | hidle
      · rw [hidle] at hplaced
        cases hplaced
      · exact hidle hstate
    simp only [note, step, heq, noteReset_nil]
    rw [if_neg hinactive]
    exact h
  · -- the digest is final, and so nothing is said about it any more
    have hdone : ∀ handle' : Handle, handle'.params.md5sum = handle.params.md5sum →
        (handle'.state = handle.state ∨ handle'.state = .inited) → ∀ events,
        Fed (handle', { noteReset events download with finished := true, feeding := none }) := by
      intro handle' hsum hstate' events
      refine ⟨fun _ hs => Bool.noConfusion hs, fun fed hs => Option.noConfusion rfl (heq_of_eq hs),
        ?_, ?_, ?_⟩
      · intro hs
        rcases hstate' with hstate' | hstate'
        · rw [hstate', hstate] at hs
          cases hs
        · rw [hstate'] at hs
          cases hs
      · dsimp only
        rw [hsum]
        exact h.buffer
      · intro _
        dsimp only
        rw [hsum]
        exact h.announced (.inr hstate)
    have hactive : wellPlaced = true ∧ handle.state = .fetched := ⟨hplaced, hstate⟩
    simp only [note]
    rw [if_pos hactive]
    rcases hcheck with ⟨-, heq⟩ | ⟨fed, -, ⟨-, heq⟩ | ⟨-, heq | heq⟩⟩
    · rw [step, heq]
      refine hdone _ ?_ (.inl ?_) _ <;> rfl
    · rw [step, heq]
      refine hdone _ ?_ (.inl ?_) _ <;> rfl
    · rw [step, heq]
      refine hdone _ ?_ (.inl ?_) _ <;> rfl
    · rw [step, heq]
      refine hdone _ ?_ (.inr ?_) _ <;> rfl

theorem fed_startDownload {stored : List UInt8} {alloc opened : Bool} (h : Fed observed)
    (hfeeds : Feeds observed (.startDownload stored alloc opened)) :
    Fed (observe md5 (.startDownload stored alloc opened) observed).1 := by
  obtain ⟨handle, download⟩ := observed
  obtain ⟨hoffset, hfirst, hmiddle⟩ := hfeeds
  have hlen : stored.length % 2 ^ 32 = stored.length := Nat.mod_eq_of_lt hoffset
  simp only [observe, note, step, noteReset_nil, startDownload, hlen]
  cases stored with
  | nil =>
    rw [hfirst rfl, if_pos List.length_nil, if_pos rfl]
    exact ⟨fun _ _ => ⟨rfl, rfl⟩, fun fed hs => Option.noConfusion rfl (heq_of_eq hs),
      h.size, h.buffer, h.announced⟩
  | cons byte stored =>
    have hfed : handle.md5 = some (byte :: stored) := h.feeding _ (hmiddle (List.cons_ne_nil _ _))
    rw [if_neg (show (byte :: stored).length ≠ 0 from Nat.succ_ne_zero _)]
    exact ⟨fun _ _ => ⟨hfed, rfl⟩, fun fed hs => Option.noConfusion rfl (heq_of_eq hs),
      h.size, h.buffer, h.announced⟩

theorem fed_updateClientMd5 {bytes : List UInt8} (h : Fed observed)
    (hfeeds : Feeds observed (.updateClientMd5 bytes)) :
    Fed (observe md5 (.updateClientMd5 bytes) observed).1 := by
  obtain ⟨handle, download⟩ := observed
  obtain ⟨fed, hfed⟩ := Option.ne_none_iff_exists'.mp hfeeds
  dsimp only at hfed
  have hmd5 : handle.md5 = some fed := h.feeding fed hfed
  simp only [observe, note, step, md5Update, hmd5, hfed, noteReset_nil, Option.map_some]
  refine ⟨fun hs => Option.noConfusion rfl (heq_of_eq hs), ?_, h.size, h.buffer, h.announced⟩
  intro fed' hs
  exact hs

/-- A step keeps what is promised. -/
theorem fed_step (md5 : Md5) (observed : Observed) (s : Step) (h : Fed observed)
    (hfeeds : Feeds observed s) : Fed (observe md5 s observed).1 := by
  cases s with
  | message msgLen alloc text => exact fed_message h hfeeds
  | fetchYield result => exact fed_fetchYield h hfeeds
  | checkFirmware wellPlaced sent => exact fed_checkFirmware h
  | startDownload stored alloc opened => exact fed_startDownload h hfeeds
  | updateClientMd5 bytes => exact fed_updateClientMd5 h hfeeds
  | reportVersion version =>
    obtain ⟨handle, download⟩ := observed
    rw [observe]
    rcases reportVersion_cases version handle with heq | heq
    · simp only [note, step, heq, noteReset_nil]
      exact h
    · simp only [note, step, heq]
      exact h.reset _
  | reportUpgradeResult version reportType sent =>
    obtain ⟨handle, download⟩ := observed
    rw [observe]
    rcases reportUpgradeResult_cases version reportType sent handle with heq | heq
    · simp only [note, step, heq, noteReset_nil]
      exact h
    · simp only [note, step, heq]
      exact h.reset _
  | resetClientMd5 alloc =>
    obtain rfl : alloc = true := hfeeds
    simp only [observe, note, step, noteReset_nil]
    refine ⟨fun hs => ?_, ?_, h.size, h.buffer, h.announced⟩
    · cases hs
    · intro fed hs
      injection hs with hs
      rw [← hs]
      rfl

/-- In a run whose steps the client takes into account, the digest is that of the bytes that have
been fetched, and the answer on a fetched firmware is whether it is the announced one. -/
theorem run_digestRight (md5 : Md5) (steps : List Step)
    (hfeeds : Along (observe md5) Feeds steps fresh) :
    DigestRight md5 (run (observe md5) steps fresh).1 := by
  have hfed : Fed (run (observe md5) steps fresh).1 :=
    run_invariant (fed_step md5) fed_fresh hfeeds
  refine ⟨hfed.context, ?_⟩
  intro hfeeding hfinished hstate sent
  have hmd5 := (hfed.context hfeeding hfinished).1
  have hannounced := hfed.announced (.inr hstate)
  rcases checkFirmware_cases md5 true sent (run (observe md5) steps fresh).1.1 with
    ⟨hidle | hidle, -⟩ | ⟨-, -, ⟨hnone, -⟩ | ⟨fed, hsome, ⟨hright, heq⟩ | ⟨hright, heq⟩⟩⟩
  · cases hidle
  · exact absurd hstate hidle
  · rw [hmd5] at hnone
    cases hnone
  · rw [hmd5] at hsome
    injection hsome with hsome
    rw [hannounced, ← hsome] at hright
    rw [heq, decide_eq_true hright.symm]
    exact ⟨[], rfl⟩
  · rw [hmd5] at hsome
    injection hsome with hsome
    rw [hannounced, ← hsome] at hright
    rw [decide_eq_false (Ne.symm hright)]
    rcases heq with heq | heq <;> rw [heq]
    · exact ⟨[], rfl⟩
    · exact ⟨[.reset], rfl⟩

theorem run_digestRight_update : DigestRight zeroMd5 (run (observe zeroMd5)
    [.message 1 (fun _ => true) updateText, .startDownload [] true true, .fetchYield (some [0])]
    fresh).1 := by
  apply run_digestRight
  refine ⟨fun hlistens => ⟨(updateText_meets hlistens).1, ?_⟩, ⟨by decide, fun _ => rfl, ?_⟩,
    ?_, trivial⟩
  · intro params hannounces
    refine ⟨(updateText_meets hlistens).2 params hannounces, ?_⟩
    exact Nat.zero_le _
  · intro hstored
    exact absurd rfl hstored
  · intro _ _
    exact ⟨rfl, by decide⟩

/-- A message with an update of one byte whose md5sum is one digit short. -/
def shortText : CString :=
  ⟨ascii "\x7b\"type\":\"update_firmware\"," ++ ascii "\"version\":\"1\"," ++
  ascii "\"url\":\"u\"," ++ (ascii "\"md5sum\":\"" ++ List.replicate 31 0x30 ++ ascii "\",") ++
  ascii "\"file_size\":\"1\"," ++ ascii "\"user_defined\":\"u\"\x7d", by decide +kernel⟩

def shorterRun : List Step := [.message 1 (fun _ => true) updateText, .reportVersion [0x31],
  .message 1 (fun _ => true) shortText, .startDownload [] true true, .fetchYield (some [0])]

/-- The last digit of the earlier md5sum is still compared with. -/
theorem run_digestRight_shorter : ¬ ∀ (md5 : Md5) (steps : List Step),
    DigestRight md5 (run (observe md5) steps fresh).1 := by
  intro hall
  have hright := hall zeroMd5 shorterRun
  have hrun : ((run (observe zeroMd5) shorterRun fresh).1.2.feeding = none ∧
      (run (observe zeroMd5) shorterRun fresh).1.2.finished = false) ∧
      (run (observe zeroMd5) shorterRun fresh).1.1.state = .fetched ∧
      (checkFirmware zeroMd5 true true (run (observe zeroMd5) shorterRun fresh).1.1).2 =
        [.answered true] ∧
      digestText (zeroMd5 (run (observe zeroMd5) shorterRun fresh).1.2.bytes) ≠
        (run (observe zeroMd5) shorterRun fresh).1.2.announced := by decide +kernel
  obtain ⟨⟨hfeeding, hfinished⟩, hstate, hanswer, hother⟩ := hrun
  obtain ⟨events, hevents⟩ := hright.answer hfeeding hfinished hstate true
  rw [hanswer, decide_eq_false hother] at hevents
  cases hevents

end Digests

end IotExplorer.OtaRuns
