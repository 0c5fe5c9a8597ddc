import IotExplorer.AtClient
import IotExplorer.Basis.Runs

/-!
What a command of the modem returns with. An observer notes the lines that have arrived
since the command was issued, and those that were copied into its response object; the
object is compared with them when the command returns. The parser begins each response
with clean locals as long as no command gives up in the middle of one.
-/
namespace IotExplorer.AtResponses

open Basis.Runs TemplateJson HttpClient AtClient

section Observers

/-- The lines since the last command, and those that were copied for it. -/
structure Record where
  received : List (List UInt8)
  stored : List (List UInt8)
  deriving DecidableEq, Repr

abbrev Observed := Client × Record

def fresh (table : List Urc) : Observed :=
  (⟨0, table, ⟨[], 0, 0⟩, false, .ok, 0, .idle, 0, 0⟩, ⟨[], []⟩)

def storedText : Event → Option (List UInt8)
  | .stored text => some text
  | .returned _ _ => none

def note (s : Step) (client : Client) (record : Record) : Record :=
  match s with
  | .execCmd _ => if client.phase = .idle then ⟨[], []⟩ else record
  | .line line =>
      ⟨record.received ++ [line], record.stored ++ (step s client).2.filterMap storedText⟩
  | _ => record

def observe (s : Step) (observed : Observed) : Observed × List Event :=
  (((step s observed.1).1, note s observed.1 observed.2), (step s observed.1).2)

/-- A response object holds lines of its command, in their order and from the beginning of the
buffer, and counts them. -/
structure ResponseRight (object : Response) (record : Record) : Prop where
  since : record.stored.Sublist (record.received.map terminated)
  contents : record.stored.flatten <+: object.buf
  counted : object.lineCounts = record.stored.length

def ReturnsRight (observed : Observed) (s : Step) : Prop :=
  ∀ object success, Event.returned object success ∈ (observe s observed).2 →
    ResponseRight object observed.2

/-- A command that was not woken returns only when no line was copied for it, and when its response
was not completed meanwhile. -/
def Meets (observed : Observed) : Step → Prop
  | .exit => observed.1.phase = .leaving false → observed.1.lineCounts = 0 ∧ observed.1.respSem = 0
  | _ => True

end Observers

section Invariant
variable {client : Client} {record : Record}

/-- The locals of the parser while a response comes in. -/
structure Parses (client : Client) (record : Record) : Prop where
  len : client.respBufLen = record.stored.flatten.length
  counts : client.lineCounts = record.stored.length
  contents : record.stored.flatten <+: client.object.buf
  zero : client.object.lineCounts = 0
  sem : client.respSem = 0

structure Inv (observed : Observed) : Prop where
  since : observed.2.stored.Sublist (observed.2.received.map terminated)
  idle : observed.1.phase = .idle → observed.1.resp = false ∧ observed.1.respSem = 0
  attached : observed.1.resp = true → Parses observed.1 observed.2
  locals : observed.1.resp = false → observed.1.respBufLen = 0 ∧ observed.1.lineCounts = 0
  right : observed.1.resp = false → observed.1.phase ≠ .idle →
    ResponseRight observed.1.object observed.2
  woken : observed.1.phase = .leaving true → observed.1.resp = false ∧ observed.1.respSem = 0
  waits : observed.1.phase = .waiting → observed.1.resp = false → observed.1.respSem = 1

theorem inv_fresh (table : List Urc) : Inv (fresh table) := by
  refine ⟨List.Sublist.refl _, fun _ => ⟨rfl, rfl⟩, ?_, fun _ => ⟨rfl, rfl⟩, ?_, ?_, ?_⟩
  · intro h
    cases h
  · intro _ h
    exact absurd rfl h
  · intro h
    cases h
  · intro h
    cases h

/-- A copy behind what is in the buffer already. -/
theorem prefix_copyTo {front text buf : List UInt8} (h : front <+: buf) :
    front ++ text <+: copyTo buf front.length text := by
  obtain ⟨rest, rfl⟩ := h
  rw [copyTo, List.take_left, ← List.append_assoc]
  exact List.prefix_append _ _

/-- The copy of a line. -/
theorem storeLine_parses (h : Parses client record) (text : List UInt8) :
    ∃ stored, (storeLine text client).2.filterMap storedText = stored ∧
      stored.Sublist [text] ∧
        Parses (storeLine text client).1 ⟨record.received, record.stored ++ stored⟩ ∧
      (storeLine text client).1.phase = client.phase := by
  rw [storeLine]
  split_ifs
  · refine ⟨[text], rfl, List.Sublist.refl _, ⟨?_, ?_, ?_, h.zero, h.sem⟩, rfl⟩
    · simp only [List.flatten_append, List.length_append, List.flatten_singleton]
      rw [h.len]
    · simp only [List.length_append, List.length_singleton]
      rw [h.counts]
    · simp only [List.flatten_append, List.flatten_singleton]
      rw [h.len]
      exact prefix_copyTo h.contents
  · refine ⟨[], rfl, List.nil_sublist _, ?_, rfl⟩
    rw [List.append_nil]
    exact ⟨h.len, h.counts, h.contents, h.zero, h.sem⟩

/-- A response that is complete. -/
theorem inv_complete (hsince : record.stored.Sublist (record.received.map terminated))
    (h : Parses client record) (hphase : client.phase ≠ .idle ∧ client.phase ≠ .leaving true) :
    Inv (complete client, record) := by
  refine ⟨hsince, fun hs => absurd hs hphase.1, ?_, fun _ => ⟨rfl, rfl⟩, ?_,
    fun hs => absurd hs hphase.2, ?_⟩
  · intro hs
    cases hs
  · intro _ _
    exact ⟨hsince, h.contents, h.counts⟩
  · intro _ _
    dsimp only [complete]
    rw [h.sem]

theorem since_hears {text : List (List UInt8)}
    (h : record.stored.Sublist (record.received.map terminated))
    {line : List UInt8} (htext : text.Sublist [terminated line]) :
    (record.stored ++ text).Sublist ((record.received ++ [line]).map terminated) := by
  rw [List.map_append, List.map_singleton]
  exact h.append htext

/-- A line that is not copied. -/
theorem Inv.hears (h : Inv (client, record)) (line : List UInt8) :
    Inv (client, ⟨record.received ++ [line], record.stored ++ []⟩) := by
  have hsince := since_hears h.since (List.nil_sublist [terminated line])
  rw [List.append_nil] at hsince ⊢
  refine ⟨hsince, h.idle, ?_, h.locals, ?_, h.woken, h.waits⟩
  · intro hs
    obtain ⟨hlen, hcounts, hcontents, hzero, hsem⟩ := h.attached hs
    exact ⟨hlen, hcounts, hcontents, hzero, hsem⟩
  · intro hs hphase
    obtain ⟨-, hcontents, hcounted⟩ := h.right hs hphase
    exact ⟨hsince, hcontents, hcounted⟩

/-- A response comes in only while a command waits, or gives up. -/
theorem Inv.phase (h : Inv (client, record)) (hresp : client.resp = true) :
    client.phase ≠ .idle ∧ client.phase ≠ .leaving true := by
  constructor
  · intro hphase
    have hnone := (h.idle hphase).1
    rw [hresp] at hnone
    cases hnone
  · intro hphase
    have hnone := (h.woken hphase).1
    rw [hresp] at hnone
    cases hnone

theorem inv_attached (hsince : record.stored.Sublist (record.received.map terminated))
    (h : Parses client record) (hresp : client.resp = true)
    (hphase : client.phase ≠ .idle ∧ client.phase ≠ .leaving true) : Inv (client, record) := by
  have hnever : client.resp = false → False := by
    intro hs
    rw [hresp] at hs
    cases hs
  exact ⟨hsince, fun hs => absurd hs hphase.1, fun _ => h, fun hs => (hnever hs).elim,
    fun hs => (hnever hs).elim, fun hs => absurd hs hphase.2, fun _ hs => (hnever hs).elim⟩

theorem inv_parseResponse (h : Inv (client, record)) (hresp : client.resp = true)
    (line : List UInt8) :
    Inv ((parseResponse line client).1, ⟨record.received ++ [line],
      record.stored ++ (parseResponse line client).2.filterMap storedText⟩) := by
  have hphase := h.phase hresp
  have hkept : (storeLine (terminated line) client).1.resp = true := by
    rw [storeLine]
    split_ifs <;> exact hresp
  obtain ⟨stored, hstored, hsublist, hparses, hsame⟩ := storeLine_parses (h.attached hresp)
    (terminated line)
  have hsince := since_hears h.since hsublist
  rw [← hsame] at hphase
  rw [parseResponse]
  dsimp only
  split
  · rw [hstored]
    obtain ⟨hlen, hcounts, hcontents, hzero, hsem⟩ := hparses
    exact inv_attached hsince ⟨hlen, hcounts, hcontents, hzero, hsem⟩ hkept hphase
  · dsimp only
    rw [hstored]
    obtain ⟨hlen, hcounts, hcontents, hzero, hsem⟩ := hparses
    exact inv_complete hsince ⟨hlen, hcounts, hcontents, hzero, hsem⟩ hphase

theorem inv_line (h : Inv (client, record)) (line : List UInt8) :
    Inv ((clientParser line client).1, ⟨record.received ++ [line],
      record.stored ++ (clientParser line client).2.filterMap storedText⟩) := by
  rw [clientParser]
  split_ifs with hempty hurc hresp hend hlast
  · exact h.hears line
  · exact h.hears line
  · exact h.hears line
  · have hattached : client.resp = true := by simpa using hresp
    obtain ⟨hlen, hcounts, hcontents, hzero, hsem⟩ := h.attached hattached
    have hsince := since_hears h.since (List.nil_sublist [terminated line])
    rw [List.append_nil] at hsince
    rw [List.filterMap_nil, List.append_nil]
    exact inv_complete hsince ⟨hlen, hcounts, hcontents, hzero, hsem⟩ (h.phase hattached)
  · exact h.hears line
  · exact inv_parseResponse h (by simpa using hresp) line

/-- A step keeps what is promised. -/
theorem inv_step (observed : Observed) (s : Step) (h : Inv observed) (hmeets : Meets observed s) :
    Inv (observe s observed).1 := by
  obtain ⟨client, record⟩ := observed
  rw [observe]
  cases s with
  | line line => exact inv_line h line
  | setEndSign ch =>
    simp only [note, step]
    refine ⟨h.since, h.idle, ?_, h.locals, h.right, h.woken, h.waits⟩
    intro hs
    obtain ⟨hlen, hcounts, hcontents, hzero, hsem⟩ := h.attached hs
    exact ⟨hlen, hcounts, hcontents, hzero, hsem⟩
  | execCmd resp =>
    simp only [note, step, execCmd]
    by_cases hphase : client.phase = .idle
    · -- the locals of the parser are clean
      obtain ⟨hresp, hsem⟩ := h.idle hphase
      obtain ⟨hlen, hcounts⟩ := h.locals hresp
      rw [if_pos hphase, if_pos hphase]
      refine inv_attached (List.Sublist.refl _) ⟨hlen, hcounts, List.nil_prefix, rfl, hsem⟩ rfl ?_
      constructor <;> intro hs <;> cases hs
    · rw [if_neg hphase, if_neg hphase]
      exact h
  | wake =>
    simp only [note, step]
    split_ifs with hwakes
    · obtain ⟨hphase, hsem⟩ := hwakes
      have hresp : client.resp = false := by
        cases hresp : client.resp with
        | false => rfl
        | true => exact absurd (h.attached hresp).sem hsem
      have hone : client.respSem - 1 = 0 := by
        have hwaits := h.waits hphase hresp
        dsimp only at hwaits
        omega
      refine ⟨h.since, fun hs => ?_, fun hs => ?_, h.locals, fun _ _ => ?_, fun _ => ⟨hresp, hone⟩,
        fun hs => ?_⟩
      · cases hs
      · rw [show client.resp = true from hs] at hresp
        cases hresp
      · exact h.right hresp (by rw [hphase]; decide)
      · cases hs
    · exact h
  | timeOut =>
    simp only [note, step]
    split_ifs with houts
    · refine ⟨h.since, fun hs => ?_, fun hs => ?_, h.locals, fun hs _ => ?_, fun hs => ?_,
        fun hs => ?_⟩
      · cases hs
      · obtain ⟨hlen, hcounts, hcontents, hzero, hsem⟩ := h.attached hs
        exact ⟨hlen, hcounts, hcontents, hzero, hsem⟩
      · exact h.right hs (by rw [houts.1]; decide)
      · cases hs
      · cases hs
    · exact h
  | exit =>
    simp only [note, step]
    split
    · next woken hphase =>
      have hclean : client.respBufLen = 0 ∧ client.lineCounts = 0 ∧ client.respSem = 0 := by
        cases hresp : client.resp with
        | false =>
          obtain ⟨hlen, hcounts⟩ := h.locals hresp
          cases woken with
          | true => exact ⟨hlen, hcounts, (h.woken hphase).2⟩
          | false => exact ⟨hlen, hcounts, (hmeets hphase).2⟩
        | true =>
          obtain ⟨hlen, hcounts, -, -, hsem⟩ := h.attached hresp
          cases woken with
          | true => exact absurd hphase (h.phase hresp).2
          | false =>
            have hzero := (hmeets hphase).1
            have hnone : record.stored = [] :=
              List.eq_nil_of_length_eq_zero (hcounts.symm.trans hzero)
            dsimp only at hlen
            rw [hnone] at hlen
            exact ⟨hlen, hzero, hsem⟩
      obtain ⟨hlen, hcounts, hsem⟩ := hclean
      refine ⟨h.since, fun _ => ⟨rfl, hsem⟩, fun hs => ?_, fun _ => ⟨hlen, hcounts⟩,
        fun _ hs => absurd rfl hs, fun hs => ?_, fun hs => ?_⟩ <;> cases hs
    · exact h

/-- The parser returns from no command. -/
theorem clientParser_events (line : List UInt8) (client : Client) (object : Response)
    (success : Bool) :
    Event.returned object success ∉ (clientParser line client).2 := by
  have hstore : Event.returned object success ∉ (storeLine (terminated line) client).2 := by
    rw [storeLine]
    split_ifs <;> simp
  rw [clientParser]
  split_ifs
  · exact List.not_mem_nil
  · exact List.not_mem_nil
  · exact List.not_mem_nil
  · exact List.not_mem_nil
  · exact List.not_mem_nil
  · rw [parseResponse]
    dsimp only
    split <;> exact hstore

/-- A command that returns does so with a right object. -/
theorem returnsRight_step (observed : Observed) (s : Step) (h : Inv observed)
    (hmeets : Meets observed s) :
    ReturnsRight observed s := by
  obtain ⟨client, record⟩ := observed
  intro object success hmem
  rw [observe] at hmem
  cases s with
  | line line => exact absurd hmem (clientParser_events line client object success)
  | setEndSign ch => exact absurd hmem List.not_mem_nil
  | execCmd resp => exact absurd hmem List.not_mem_nil
  | wake =>
    rw [step] at hmem
    split_ifs at hmem
    · exact absurd hmem List.not_mem_nil
    · exact absurd hmem List.not_mem_nil
  | timeOut =>
    rw [step] at hmem
    split_ifs at hmem
    · exact absurd hmem List.not_mem_nil
    · exact absurd hmem List.not_mem_nil
  | exit =>
    rw [step] at hmem
    split at hmem
    · next woken hphase =>
      obtain ⟨rfl, -⟩ := Event.returned.inj (List.mem_singleton.mp hmem)
      cases hresp : client.resp with
      | false => exact h.right hresp (by rw [hphase]; simp)
      | true =>
        cases woken with
        | true => exact absurd hphase (h.phase hresp).2
        | false =>
          -- the command gives up before the first line
          obtain ⟨-, hcounts, hcontents, hzero, -⟩ := h.attached hresp
          exact ⟨h.since, hcontents, (hzero.trans (hmeets hphase).1.symm).trans hcounts⟩
    · exact absurd hmem List.not_mem_nil

/-- In a run in which no command gives up in the middle of its response, every command returns with
the lines of its own. -/
theorem run_returnsRight (table : List Urc) (steps : List Step)
    (hmeets : Along observe Meets steps (fresh table)) :
    Along observe ReturnsRight steps (fresh table) :=
  hmeets.of_invariant inv_step returnsRight_step (inv_fresh table)

def okRun : List Step :=
  [.execCmd ⟨List.replicate 16 0, 0, 0⟩, .line (ascii "OK\r\n"), .wake, .exit]

theorem run_returnsRight_ok : Along observe ReturnsRight okRun (fresh []) := by
  apply run_returnsRight
  refine ⟨trivial, trivial, trivial, ?_, trivial⟩
  intro hphase
  exact absurd hphase (by decide)

def lateRun : List Step :=
  [.execCmd ⟨List.replicate 16 0, 0, 0⟩, .line (ascii "AT\r\n"), .timeOut, .exit]

/-- The response of the next command begins behind that line, and counts it. -/
theorem run_returnsRight_late : ¬ ∀ (table : List Urc) (steps : List Step),
    Along observe ReturnsRight steps (fresh table) := by
  intro hall
  have hlast := (hall [] (lateRun ++ ([.execCmd ⟨List.replicate 16 0, 0, 0⟩,
    .line (ascii "OK\r\n"), .wake] ++ [.exit])))
  rw [← List.append_assoc] at hlast
  have hreturns := hlast.at
  have hmem : Event.returned
      ⟨List.replicate 4 0 ++ (ascii "OK\r" ++ List.replicate 9 0), 0, 2⟩ true ∈ (observe .exit
        (run observe (lateRun ++ [.execCmd ⟨List.replicate 16 0, 0, 0⟩,
          .line (ascii "OK\r\n"), .wake])
          (fresh [])).1).2 := by decide
  have hcounted := (hreturns _ _ hmem).counted
  exact absurd hcounted (by decide)

end Invariant

end IotExplorer.AtResponses
