import IotExplorer.AtResponses

/-!
A command of the modem whose response does not fit. The parser notes a line that was too
long for what was left of the object in the status of the response, but a line that ends
the response sets the status again: the command reports the missing line exactly if the
response does not end with success behind it.
-/
namespace IotExplorer.AtOverflows

open Basis.Runs TemplateJson HttpClient AtClient AtResponses

section Commands

def isResponse (line : List UInt8) (client : Client) : Bool :=
  !line.isEmpty && (getUrcObj client.urcTable line).isNone && client.resp && client.endSign == 0

/-- What a command waits for: lines arrive until the semaphore is posted or the time is over, and
may arrive until the command has returned. -/
def waitSteps (before between : List (List UInt8)) : List Step :=
  before.map .line ++ (.wake :: .timeOut :: between.map .line)

/-- A command, from its start to its return. -/
def commandSteps (resp : Response) (before between : List (List UInt8)) : List Step :=
  .execCmd resp :: (waitSteps before between ++ [.exit])

/-- The lines of the response, and those that were stored. -/
def noteLine (client : Client) (s : Step) (record : Record) : Record :=
  match s with
  | .line line =>
      if isResponse line client then
        ⟨record.received ++ [terminated line],
          record.stored ++ (clientParser line client).2.filterMap storedText⟩
      else record
  | _ => record

def responseRecord (resp : Response) (before between : List (List UInt8)) (client : Client) :
    Record :=
  track step noteLine (waitSteps before between) (execCmd resp client) ⟨[], []⟩

/-- A command that succeeds has stored every line of its response, in its object and behind what the
parser takes to be in it. -/
def CommandRight (resp : Response) (before between : List (List UInt8)) (client : Client) : Prop :=
  ∀ object, Event.returned object true ∈ (run step (commandSteps resp before between) client).2 →
    let record := responseRecord resp before between client
    record.stored = record.received ∧
      record.stored.flatten <+: object.buf.drop client.respBufLen

/-- A line that ends the response with success fits, and so did the lines before it. -/
def EndsStored (client : Client) : Step → Prop
  | .line line =>
      isResponse line client = true →
        lineResult (terminated line) (storeLine (terminated line) client).1 = some .ok →
          client.respStatus ≠ .buffFull ∧
            client.respBufLen + (terminated line).length < client.object.buf.length
  | _ => True

instance : (client : Client) → (s : Step) → Decidable (EndsStored client s)
  | _, .line _ => inferInstanceAs (Decidable (_ → _ → _ ∧ _))
  | _, .execCmd _ | _, .wake | _, .timeOut | _, .exit | _, .setEndSign _ => .isTrue trivial

end Commands

section Lines
variable {client : Client} {record : Record} {line : List UInt8}

def Waits : Step → Prop
  | .line _ | .wake | .timeOut => True
  | _ => False

theorem waits_waitSteps (before between : List (List UInt8)) :
    ∀ s ∈ waitSteps before between, Waits s := by
  intro s hs
  rcases List.mem_append.mp hs with hs | hs
  · obtain ⟨line, -, rfl⟩ := List.mem_map.mp hs
    trivial
  · rcases List.mem_cons.mp hs with rfl | hs
    · trivial
    · rcases List.mem_cons.mp hs with rfl | hs
      · trivial
      · obtain ⟨line, -, rfl⟩ := List.mem_map.mp hs
        trivial

/-- What the parser does with a line. -/
theorem clientParser_cases (line : List UInt8) (client : Client) :
    (isResponse line client = true ∧ client.resp = true ∧
        clientParser line client = parseResponse line client) ∨
      (isResponse line client = false ∧ (clientParser line client).2 = [] ∧
        ((clientParser line client).1 = client ∨
          (clientParser line client).1 = complete client ∧ client.resp = true)) := by
  unfold clientParser isResponse
  by_cases hempty : line = []
  · simp [hempty]
  by_cases hurc : (getUrcObj client.urcTable line).isSome = true
  · obtain ⟨urc, hfound⟩ := Option.isSome_iff_exists.mp hurc
    simp [hempty, hfound]
  by_cases hresp : client.resp = true
  · by_cases hend : client.endSign = 0
    · simp_all
    · by_cases hlast : line.getLast? = some client.endSign <;> simp_all
  · simp_all

/-- The status says whether a line is missing, as long as the response is not complete. -/
def Told (client : Client) (record : Record) : Prop :=
  (client.respStatus = .ok ∧ record.stored = record.received) ∨
    (client.respStatus = .buffFull ∧ record.stored.length < record.received.length)

/-- A line that is stored, or is missing from now on. -/
theorem storeLine_told (h : Told client record) (text : List UInt8) :
    Told (storeLine text client).1 ⟨record.received ++ [text],
      record.stored ++ (storeLine text client).2.filterMap storedText⟩ ∧
    ((storeLine text client).1.respStatus = .ok ↔
      client.respStatus ≠ .buffFull ∧
        client.respBufLen + text.length < client.object.buf.length) := by
  unfold storeLine
  by_cases hfits : client.respBufLen + text.length < client.object.buf.length
  · rw [if_pos hfits]
    rcases h with ⟨hstatus, hstored⟩ | ⟨hstatus, hmissing⟩
    · refine ⟨.inl ⟨hstatus, ?_⟩, ?_⟩
      · simp [storedText, hstored]
      · simp [hstatus, hfits]
    · refine ⟨.inr ⟨hstatus, ?_⟩, ?_⟩
      · simp [storedText, hmissing]
      · simp [hstatus]
  · rw [if_neg hfits]
    refine ⟨.inr ⟨rfl, ?_⟩, ?_⟩
    · rcases h with ⟨-, hstored⟩ | ⟨-, hmissing⟩
      · simp [hstored]
      · simp only [List.filterMap_nil, List.append_nil, List.length_append, List.length_singleton]
        omega
    · simp [hfits]

/-- Behind the end of the response no line is one of it. -/
theorem isResponse_detached (hresp : client.resp = false) (line : List UInt8) :
    isResponse line client = false := by
  unfold isResponse
  rw [hresp, Bool.and_false, Bool.false_and]

/-- A step leaves a response that is complete. -/
theorem step_detached {s : Step} (hs : Waits s) (hresp : client.resp = false) :
    (step s client).1.resp = false ∧ (step s client).1.respStatus = client.respStatus ∧
      noteLine client s record = record ∧ EndsStored client s := by
  cases s with
  | line line =>
    have hline := isResponse_detached hresp line
    have hstep : (step (.line line) client).1 = client := by
      rcases clientParser_cases line client with ⟨-, hattached, -⟩ | ⟨-, -, hsame | ⟨-, hattached⟩⟩
      · rw [hresp] at hattached
        cases hattached
      · exact hsame
      · rw [hresp] at hattached
        cases hattached
    refine ⟨by rw [hstep, hresp], by rw [hstep], ?_, ?_⟩
    · simp [noteLine, hline]
    · intro hyes
      rw [hline] at hyes
      cases hyes
  | wake =>
    refine ⟨?_, ?_, rfl, trivial⟩ <;> simp only [step] <;> split_ifs <;> first | exact hresp | rfl
  | timeOut =>
    refine ⟨?_, ?_, rfl, trivial⟩ <;> simp only [step] <;> split_ifs <;> first | exact hresp | rfl
  | execCmd resp => cases hs
  | exit => cases hs
  | setEndSign ch => cases hs

theorem run_detached {steps : List Step} (hsteps : ∀ s ∈ steps, Waits s)
    (hresp : client.resp = false) :
    (run step steps client).1.respStatus = client.respStatus ∧
      track step noteLine steps client record = record ∧ Along step EndsStored steps client := by
  induction steps generalizing client with
  | nil => exact ⟨rfl, rfl, trivial⟩
  | cons s steps ih =>
    obtain ⟨hdetached, hstatus, hnote, hends⟩ := @step_detached client record s
      (hsteps s (List.mem_cons_self ..)) hresp
    obtain ⟨hstatus', hrecord', hends'⟩ := ih (fun s' hs' => hsteps s' (List.mem_cons_of_mem s hs'))
      hdetached
    refine ⟨hstatus'.trans hstatus, ?_, hends, hends'⟩
    rw [track, hnote]
    exact hrecord'

theorem Told.stored (h : Told client record) :
    client.respStatus = .ok ↔ record.stored = record.received := by
  rcases h with ⟨hstatus, hstored⟩ | ⟨hstatus, hmissing⟩
  · exact iff_of_true hstatus hstored
  · refine iff_of_false (by rw [hstatus]; decide) fun hstored => ?_
    rw [hstored] at hmissing
    exact Nat.lt_irrefl _ hmissing

/-- A step that does not end the response leaves the status telling; one that ends it is as it
should be exactly if it does not end it with success behind a missing line. -/
theorem step_told {s : Step} (hs : Waits s) (h : Told client record) :
    (Told (step s client).1 (noteLine client s record) ∧ EndsStored client s) ∨
      ((step s client).1.resp = false ∧
        (((step s client).1.respStatus = .ok →
          (noteLine client s record).stored = (noteLine client s record).received) ↔
            EndsStored client s)) := by
  cases s with
  | line line =>
    rcases clientParser_cases line client with ⟨hline, -, hparse⟩ | ⟨hline, -, hsame⟩
    · obtain ⟨htold, hfits⟩ := storeLine_told h (terminated line)
      have hstored := htold.stored
      simp only [step, noteLine, EndsStored, hline, hparse, parseResponse, if_true, true_imp_iff]
      cases hresult : lineResult (terminated line) (storeLine (terminated line) client).1 with
      | none => exact .inl ⟨htold, fun hok => by cases hok⟩
      | some status =>
        right
        refine ⟨rfl, ?_⟩
        by_cases hok : status = .ok
        · subst hok
          dsimp only [complete]
          rw [← hstored, hfits]
          simp
        · refine iff_of_true (fun hstatus => absurd hstatus hok) fun hends => ?_
          exact absurd (Option.some.inj hends) hok
    · left
      refine ⟨?_, fun hyes => ?_⟩
      · have hnote : noteLine client (.line line) record = record := by simp [noteLine, hline]
        rw [hnote]
        change Told (clientParser line client).1 record
        rcases hsame with hsame | ⟨hsame, -⟩ <;> rw [hsame] <;> exact h
      · rw [hline] at hyes
        cases hyes
  | wake =>
    refine .inl ⟨?_, trivial⟩
    simp only [step, noteLine]
    split_ifs <;> exact h
  | timeOut =>
    refine .inl ⟨?_, trivial⟩
    simp only [step, noteLine]
    split_ifs <;> exact h
  | execCmd resp => cases hs
  | exit => cases hs
  | setEndSign ch => cases hs

/-- A command has stored what it reports exactly if no line ends its response with success behind a
missing line. -/
theorem run_told {steps : List Step} (hsteps : ∀ s ∈ steps, Waits s) (h : Told client record) :
    ((run step steps client).1.respStatus = .ok →
        (track step noteLine steps client record).stored =
          (track step noteLine steps client record).received) ↔
      Along step EndsStored steps client := by
  induction steps generalizing client record with
  | nil => exact iff_of_true h.stored.mp trivial
  | cons s steps ih =>
    have hrest : ∀ s' ∈ steps, Waits s' := fun s' hs' => hsteps s' (List.mem_cons_of_mem s hs')
    rw [run_cons, track, Along]
    rcases step_told (hsteps s (List.mem_cons_self ..)) h with ⟨htold, hends⟩ | ⟨hdetached, hends⟩
    · rw [ih hrest htold]
      exact ⟨fun hrun => ⟨hends, hrun⟩, And.right⟩
    · obtain ⟨hstatus, hrecord, hrun⟩ :=
        @run_detached _ (noteLine client s record) steps hrest hdetached
      dsimp only
      rw [hstatus, hrecord, hends]
      exact ⟨fun hstep => ⟨hstep, hrun⟩, And.left⟩

/-- The lines that were stored are in the object, behind what the parser took to be in it. -/
def Placed (offset : ℕ) (client : Client) (record : Record) : Prop :=
  record.stored.flatten <+: client.object.buf.drop offset ∧
    (client.resp = true → client.respBufLen = offset + record.stored.flatten.length)

theorem drop_copyTo {buf text : List UInt8} {offset n : ℕ} (h : offset + n ≤ buf.length) :
    (copyTo buf (offset + n) text).drop offset = copyTo (buf.drop offset) n text := by
  have htake : (buf.take (offset + n)).length = offset + n := by
    rw [List.length_take, Nat.min_eq_left h]
  unfold copyTo
  rw [List.drop_append_of_le_length (by omega), List.drop_take, List.drop_drop,
    Nat.add_sub_cancel_left, Nat.add_assoc]

theorem step_placed {offset : ℕ} {s : Step} (hs : Waits s) (h : Placed offset client record) :
    Placed offset (step s client).1 (noteLine client s record) := by
  cases s with
  | line line =>
    rcases clientParser_cases line client with ⟨hline, hattached, hparse⟩ | ⟨hline, -, hsame⟩
    · have hlen := h.2 hattached
      have hstore : Placed offset (storeLine (terminated line) client).1
          ⟨record.received ++ [terminated line], record.stored ++
            (storeLine (terminated line) client).2.filterMap storedText⟩ := by
        unfold storeLine
        split_ifs with hfits
        · refine ⟨?_, fun _ => ?_⟩
          · simp only [List.filterMap_cons_some (show storedText (.stored (terminated line)) =
              some (terminated line) from rfl), List.filterMap_nil, List.flatten_append,
              List.flatten_singleton]
            rw [hlen, drop_copyTo (by omega)]
            exact prefix_copyTo h.1
          · simp only [List.filterMap_cons_some (show storedText (.stored (terminated line)) =
              some (terminated line) from rfl), List.filterMap_nil, List.flatten_append,
              List.flatten_singleton, List.length_append]
            rw [hlen, Nat.add_assoc]
        · rw [List.filterMap_nil, List.append_nil]
          exact h
      simp only [step, noteLine, hline, hparse, parseResponse, if_true]
      cases lineResult (terminated line) (storeLine (terminated line) client).1 with
      | none => exact hstore
      | some status => exact ⟨hstore.1, fun hresp => by cases hresp⟩
    · have hnote : noteLine client (.line line) record = record := by simp [noteLine, hline]
      rw [hnote]
      change Placed offset (clientParser line client).1 record
      rcases hsame with hsame | ⟨hsame, -⟩ <;> rw [hsame]
      · exact h
      · exact ⟨h.1, fun hresp => by cases hresp⟩
  | wake =>
    simp only [step, noteLine]
    split_ifs <;> exact h
  | timeOut =>
    simp only [step, noteLine]
    split_ifs <;> exact h
  | execCmd resp => cases hs
  | exit => cases hs
  | setEndSign ch => cases hs

theorem run_placed {offset : ℕ} {steps : List Step} (hsteps : ∀ s ∈ steps, Waits s)
    (h : Placed offset client record) :
    Placed offset (run step steps client).1 (track step noteLine steps client record) :=
  @track_invariant _ _ _ _ step noteLine (fun _ s => Waits s) (Placed offset)
    (fun _ _ _ hplaced hs => step_placed hs hplaced) _ _ _ h
    (along_of_forall_mem step hsteps client)

/-- No command returns while it waits. -/
theorem run_waits_events {steps : List Step} (hsteps : ∀ s ∈ steps, Waits s) (object : Response)
    (success : Bool) : Event.returned object success ∉ (run step steps client).2 := by
  induction steps generalizing client with
  | nil => exact List.not_mem_nil
  | cons s steps ih =>
    rw [run_cons, List.mem_append, not_or]
    refine ⟨?_, ih fun s' hs' => hsteps s' (List.mem_cons_of_mem s hs')⟩
    cases s with
    | line line => exact clientParser_events line client object success
    | wake =>
      simp only [step]
      split_ifs <;> exact List.not_mem_nil
    | timeOut =>
      simp only [step]
      split_ifs <;> exact List.not_mem_nil
    | execCmd resp => cases hsteps _ (List.mem_cons_self ..)
    | exit => cases hsteps _ (List.mem_cons_self ..)
    | setEndSign ch => cases hsteps _ (List.mem_cons_self ..)

/-- The parser does not touch the thread of the commands. -/
theorem run_lines_phase (lines : List (List UInt8)) :
    (run step (lines.map .line) client).1.phase = client.phase := by
  induction lines generalizing client with
  | nil => rfl
  | cons line lines ih =>
    rw [List.map_cons, run_cons, ih]
    change (clientParser line client).1.phase = client.phase
    rcases clientParser_cases line client with ⟨-, -, hparse⟩ | ⟨-, -, hsame | ⟨hsame, -⟩⟩
    · have hstore : (storeLine (terminated line) client).1.phase = client.phase := by
        unfold storeLine
        split_ifs <;> rfl
      rw [hparse, parseResponse]
      dsimp only
      split <;> exact hstore
    · rw [hsame]
    · rw [hsame]
      rfl

/-- The wait of a command ends because of the semaphore, if it is posted. -/
theorem run_waitSteps_phase (before between : List (List UInt8))
    (hphase : client.phase = .waiting) :
    (run step (waitSteps before between) client).1.phase =
      .leaving (decide ((run step (before.map .line) client).1.respSem ≠ 0)) := by
  have hwaiting := (@run_lines_phase client before).trans hphase
  rw [waitSteps, run_append]
  generalize (run step (before.map .line) client).1 = waited at *
  rw [run_cons, run_cons, run_lines_phase]
  by_cases hsem : waited.respSem = 0
  · have hwake : (step .wake waited).1 = waited := by simp [step, hsem]
    rw [hwake]
    simp [step, hsem, hwaiting]
  · have hwake : (step .wake waited).1 =
        { waited with phase := .leaving true, respSem := waited.respSem - 1 } := by
      simp [step, hsem, hwaiting]
    rw [hwake]
    simp [step, hsem]

end Lines

section Overflows

/-- A command with a response object reports every line that does not fit exactly if, in case it is
woken, no line ends its response with success that does not fit or comes behind one. -/
theorem command_right_iff (resp : Response) (before between : List (List UInt8)) (client : Client)
    (hidle : client.phase = .idle) :
    CommandRight resp before between client ↔
      ((run step (before.map .line) (execCmd resp client)).1.respSem ≠ 0 →
        Along step EndsStored (waitSteps before between) (execCmd resp client)) := by
  have hissued : execCmd resp client = { client with
      object := { resp with lineCounts := 0 }, resp := true, respStatus := .ok,
      phase := .waiting } :=
    if_pos hidle
  have hwaits := waits_waitSteps before between
  have htold : Told (execCmd resp client) ⟨[], []⟩ := by
    rw [hissued]
    exact .inl ⟨rfl, rfl⟩
  have hplaced : Placed client.respBufLen (execCmd resp client) ⟨[], []⟩ := by
    rw [hissued]
    exact ⟨List.nil_prefix, fun _ => rfl⟩
  have hphase : (execCmd resp client).phase = .waiting := by rw [hissued]
  have hleaves := run_waitSteps_phase before between hphase
  have hiff := run_told hwaits htold
  have hend := run_placed hwaits hplaced
  have hnone := @run_waits_events (execCmd resp client) _ hwaits
  have hreturns : ∀ object, Event.returned object true ∈
      (run step (commandSteps resp before between) client).2 ↔
        object = (run step (waitSteps before between) (execCmd resp client)).1.object ∧
          (run step (before.map .line) (execCmd resp client)).1.respSem ≠ 0 ∧
          (run step (waitSteps before between) (execCmd resp client)).1.respStatus = .ok := by
    intro object
    have hstart : step (.execCmd resp) client = (execCmd resp client, []) := rfl
    have hexit : (step .exit (run step (waitSteps before between) (execCmd resp client)).1).2 =
        [.returned (run step (waitSteps before between) (execCmd resp client)).1.object
          (decide ((run step (before.map .line) (execCmd resp client)).1.respSem ≠ 0) &&
            (run step (waitSteps before between) (execCmd resp client)).1.respStatus == .ok)] := by
      rw [step, hleaves]
      rfl
    rw [commandSteps, run_cons, hstart, run_append, run_cons, hexit]
    simp only [List.nil_append, run_nil, List.append_nil, List.mem_append, hnone, false_or,
      List.mem_singleton, Event.returned.injEq, eq_comm (a := true), Bool.and_eq_true,
      decide_eq_true_eq, beq_iff_eq]
  unfold CommandRight responseRecord
  dsimp only
  rw [← hiff]
  constructor
  · intro hright hwoken hok
    exact (hright _ ((hreturns _).mpr ⟨rfl, hwoken, hok⟩)).1
  · intro hcond object hobject
    obtain ⟨rfl, hwoken, hok⟩ := (hreturns object).mp hobject
    exact ⟨hcond hwoken hok, hend.1⟩

/-- The answer to `AT+CSQ` in an object of thirty-two bytes. -/
theorem command_right_iff_csq : CommandRight ⟨List.replicate 32 0, 0, 0⟩
    [ascii "+CSQ: 99,99\r\n", ascii "OK\r\n"] [] (fresh []).1 := by
  rw [command_right_iff _ _ _ _ rfl]
  intro _
  decide

/-- It does not fit into an object of eight bytes, and the command succeeds. -/
theorem command_wrong_csq : ¬ CommandRight ⟨List.replicate 8 0, 0, 0⟩
    [ascii "+CSQ: 99,99\r\n", ascii "OK\r\n"] [] (fresh []).1 := by
  intro hright
  have hreturned : Event.returned ⟨ascii "OK\r" ++ List.replicate 5 0, 0, 1⟩ true ∈
      (run step (commandSteps ⟨List.replicate 8 0, 0, 0⟩
        [ascii "+CSQ: 99,99\r\n", ascii "OK\r\n"] []) (fresh []).1).2 := by decide
  have hstored := (hright _ hreturned).1
  revert hstored
  decide

end Overflows

end IotExplorer.AtOverflows
