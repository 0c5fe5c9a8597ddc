import IotExplorer.DataTemplate
import IotExplorer.JsonPayload

/-!
Event replies and actions are parsed in the receive buffer, in which the bytes of
earlier packets follow the payload. The fields that a handler parses, in order,
decide what it does; they are the same for all bytes behind the payload exactly
if each search for a field ends inside the payload.
-/
namespace IotExplorer.TemplateLeftovers

open Basis.JsonText JsonParser JsonLookup JsonPayload TemplateJson DataTemplate

/-- A field that a handler parses, and whether it goes on with this text. -/
structure Field where
  name : List UInt8
  goesOn : List UInt8 → Bool

/-- The fields of `_on_event_reply_callback`. -/
def eventReplyFields : List Field :=
  [⟨ascii "clientToken", fun _ => true⟩, ⟨ascii "code", fun text => (scanInt 32 text).isSome⟩,
    ⟨ascii "status", fun _ => true⟩]

/-- The fields of `_on_action_handle_callback`. -/
def actionFields : List Field :=
  [⟨ascii "method", fun text => text == ascii "action"⟩, ⟨ascii "clientToken", fun _ => true⟩,
    ⟨ascii "actionId", fun _ => true⟩, ⟨ascii "timestamp", fun text => (scanUint 32 text).isSome⟩,
    ⟨ascii "params", fun _ => true⟩]

/-- What the searches for the fields answer, up to the one that ends the handler. -/
def parsedFields : List Field → Ptr → List (Except Overrun (Option (List UInt8)))
  | [], _ => []
  | field :: fields, memory =>
      liteJsonValueOf field.name memory ::
        match liteJsonValueOf field.name memory with
        | .ok (some text) => if field.goesOn text then parsedFields fields memory else []
        | _ => []

/-- Each search that the handler makes ends inside the payload. -/
def EndsInside : List Field → List UInt8 → Prop
  | [], _ => True
  | field :: fields, payload =>
      ∃ value, valueInside field.name payload = .ok value ∧
        ∀ text, value = some text → field.goesOn text = true → EndsInside fields payload

/-- A notice with the bytes of its message only. -/
def visible : Notice → Notice
  | .eventReply reply message =>
      .eventReply reply { message with memory := message.memory.take message.payloadLen }
  | notice => notice

/-- An application that looks at the bytes of a message only. -/
def throughLength (env : MessageEnv) : MessageEnv :=
  { env with react := fun notice => env.react (visible notice) }

/-- The same state, and the same calls with the same values. -/
def SameOutcome (outcome outcome' : Template × List Notice) : Prop :=
  outcome.1 = outcome'.1 ∧ outcome.2.map visible = outcome'.2.map visible

/-- Whatever follows the payload in the memory, a handler parses the same fields and does the
same. -/
def IgnoresLeftovers (fields : List Field)
    (handler : MessageEnv → Payload → Template → Template × List Notice) (payload : List UInt8) :
    Prop :=
  ∀ after after' : Ptr, (0 : UInt8) ∈ after → (0 : UInt8) ∈ after' →
    parsedFields fields (payload ++ after) = parsedFields fields (payload ++ after') ∧
      ∀ (env : MessageEnv) (topicLen : ℕ) (t : Template),
        SameOutcome (handler (throughLength env) ⟨payload ++ after, payload.length, topicLen⟩ t)
          (handler (throughLength env) ⟨payload ++ after', payload.length, topicLen⟩ t)

section Fields
variable {fields : List Field} {memory memory' : Ptr}

theorem parsedFields_some {field : Field} {text : List UInt8}
    (h : liteJsonValueOf field.name memory = .ok (some text)) (hgoes : field.goesOn text = true) :
    parsedFields (field :: fields) memory = .ok (some text) :: parsedFields fields memory := by
  rw [parsedFields, h]
  dsimp only
  rw [if_pos hgoes]

/-- The same fields were parsed: the first is the same, and so are the others if it lets the
handler go on. -/
theorem parsedFields_cons {field : Field}
    (h : parsedFields (field :: fields) memory = parsedFields (field :: fields) memory') :
    liteJsonValueOf field.name memory = liteJsonValueOf field.name memory' ∧
      ∀ text, liteJsonValueOf field.name memory = .ok (some text) → field.goesOn text = true →
        parsedFields fields memory = parsedFields fields memory' := by
  have hhead : liteJsonValueOf field.name memory = liteJsonValueOf field.name memory' := by
    rw [parsedFields, parsedFields, List.cons.injEq] at h
    exact h.1
  refine ⟨hhead, ?_⟩
  intro text htext hgoes
  rw [parsedFields_some htext hgoes, parsedFields_some (hhead ▸ htext) hgoes, List.cons.injEq] at h
  exact h.2

theorem parsedFields_inside_iff (hnames : ∀ field ∈ fields, FieldName field.name)
    (payload : List UInt8) :
    (∀ after after' : Ptr, (0 : UInt8) ∈ after → (0 : UInt8) ∈ after' →
      parsedFields fields (payload ++ after) = parsedFields fields (payload ++ after')) ↔
        EndsInside fields payload := by
  induction fields with
  | nil => exact ⟨fun _ => trivial, fun _ _ _ _ _ => rfl⟩
  | cons field fields ih =>
    have hname := hnames field (List.mem_cons_self ..)
    have ih := ih fun field' hmem => hnames field' (List.mem_cons_of_mem field hmem)
    rw [EndsInside]
    constructor
    · intro hsame
      obtain ⟨value, hvalue⟩ := (liteJsonValueOf_inside_iff hname).mp fun after after' hnul hnul' =>
        (parsedFields_cons (hsame after after' hnul hnul')).1
      refine ⟨value, hvalue, ?_⟩
      rintro text rfl hgoes
      apply ih.mp
      intro after after' hnul hnul'
      have htext := valueInside_onto hname.noDot hnul hvalue
      exact (parsedFields_cons (hsame after after' hnul hnul')).2 text htext hgoes
    · rintro ⟨value, hvalue, hrest⟩ after after' hnul hnul'
      have htext := valueInside_onto hname.noDot hnul hvalue
      have htext' := valueInside_onto hname.noDot hnul' hvalue
      cases value with
      | none => rw [parsedFields, parsedFields, htext, htext']
      | some text =>
        by_cases hgoes : field.goesOn text = true
        · rw [parsedFields_some htext hgoes, parsedFields_some htext' hgoes,
            ih.mpr (hrest text rfl hgoes) after after' hnul hnul']
        · rw [parsedFields, parsedFields, htext, htext']
          dsimp only
          rw [if_neg hgoes, if_neg hgoes]

end Fields

section Outcome
variable {env : MessageEnv} {message message' : Payload}

theorem SameOutcome.refl (outcome : Template × List Notice) : SameOutcome outcome outcome :=
  ⟨rfl, rfl⟩

theorem walkNodes_sameOutcome {α : Type} {handle handle' : α → Template → Template × List Notice}
    (hstep : ∀ node t, SameOutcome (handle node t) (handle' node t)) (nodes : List α)
    (t : Template) :
    SameOutcome (walkNodes handle nodes t) (walkNodes handle' nodes t) := by
  induction nodes generalizing t with
  | nil => exact SameOutcome.refl _
  | cons node nodes ih =>
    rw [walkNodes, walkNodes]
    split_ifs
    · exact SameOutcome.refl _
    · obtain ⟨hstate, hnotices⟩ := hstep node t
      obtain ⟨hstate', hnotices'⟩ := ih (handle node t).1
      dsimp only
      rw [← hstate]
      refine ⟨hstate', ?_⟩
      rw [List.map_append, List.map_append, hnotices, hnotices']

theorem handleEventReply_sameOutcome (clientToken : List UInt8) (reply : EventReply) (t : Template)
    (hsame : visible (.eventReply reply message) = visible (.eventReply reply message')) :
    SameOutcome (handleEventReply (throughLength env).react clientToken message reply t)
      (handleEventReply (throughLength env).react clientToken message' reply t) := by
  have hreact : (throughLength env).react (.eventReply reply message) =
      (throughLength env).react (.eventReply reply message') := congrArg env.react hsame
  unfold handleEventReply DataTemplate.tell
  split_ifs
  · exact SameOutcome.refl _
  · dsimp only
    rw [hreact]
    refine ⟨rfl, ?_⟩
    rw [List.map_cons, List.map_cons, hsame]

theorem onEventReplyCallback_sameOutcome (t : Template)
    (hvisible : ∀ reply, visible (.eventReply reply message) = visible (.eventReply reply message'))
    (h : parsedFields eventReplyFields message.memory =
      parsedFields eventReplyFields message'.memory) :
    SameOutcome (onEventReplyCallback (throughLength env) message t)
      (onEventReplyCallback (throughLength env) message' t) := by
  obtain ⟨htoken, h⟩ := parsedFields_cons h
  unfold onEventReplyCallback parseClientToken parseCodeReturn parseStatusReturn
  dsimp only at htoken
  rw [← htoken]
  cases hparsed : liteJsonValueOf (ascii "clientToken") message.memory with
  | error e => exact SameOutcome.refl _
  | ok found =>
    cases found with
    | none => exact SameOutcome.refl _
    | some clientToken =>
      obtain ⟨hcode, h⟩ := parsedFields_cons (h clientToken hparsed rfl)
      dsimp only at hcode ⊢
      rw [← hcode]
      cases hparsed : liteJsonValueOf (ascii "code") message.memory with
      | error e => exact SameOutcome.refl _
      | ok found =>
        cases found with
        | none => exact SameOutcome.refl _
        | some text =>
          cases hscan : scanInt 32 text with
          | none =>
            simp only [Except.map, Option.bind_some, hscan]
            exact SameOutcome.refl _
          | some code =>
            obtain ⟨hstatus, -⟩ := parsedFields_cons (h text hparsed (by simp [hscan]))
            dsimp only at hstatus
            simp only [Except.map, Option.bind_some, hscan]
            rw [← hstatus]
            cases liteJsonValueOf (ascii "status") message.memory with
            | error e => exact SameOutcome.refl _
            | ok status =>
              dsimp only
              split_ifs
              · exact SameOutcome.refl _
              · apply walkNodes_sameOutcome
                intro reply t
                exact handleEventReply_sameOutcome clientToken reply t (hvisible reply)

theorem onActionHandleCallback_sameOutcome (t : Template)
    (h : parsedFields actionFields message.memory = parsedFields actionFields message'.memory) :
    SameOutcome (onActionHandleCallback env message t) (onActionHandleCallback env message' t) := by
  obtain ⟨hmethod, h⟩ := parsedFields_cons h
  unfold onActionHandleCallback parseTemplateMethodType parseClientToken parseActionId
    parseTimeStamp
    parseParams
  dsimp only at hmethod
  rw [← hmethod]
  cases hparsed : liteJsonValueOf (ascii "method") message.memory with
  | error e => exact SameOutcome.refl _
  | ok found =>
    cases found with
    | none => exact SameOutcome.refl _
    | some type =>
      dsimp only
      by_cases htype : type ≠ ascii "action"
      · rw [if_pos htype, if_pos htype]
        exact SameOutcome.refl _
      · rw [if_neg htype, if_neg htype]
        rw [not_not] at htype
        obtain ⟨htoken, h⟩ := parsedFields_cons (h type hparsed (by simpa using htype))
        dsimp only at htoken
        rw [← htoken]
        cases hparsed : liteJsonValueOf (ascii "clientToken") message.memory with
        | error e => exact SameOutcome.refl _
        | ok found =>
          cases found with
          | none => exact SameOutcome.refl _
          | some clientToken =>
            obtain ⟨haction, h⟩ := parsedFields_cons (h clientToken hparsed rfl)
            dsimp only at haction ⊢
            rw [← haction]
            cases hparsed : liteJsonValueOf (ascii "actionId") message.memory with
            | error e => exact SameOutcome.refl _
            | ok found =>
              cases found with
              | none => exact SameOutcome.refl _
              | some actionId =>
                obtain ⟨htime, h⟩ := parsedFields_cons (h actionId hparsed rfl)
                dsimp only at htime ⊢
                rw [← htime]
                cases hparsed : liteJsonValueOf (ascii "timestamp") message.memory with
                | error e => exact SameOutcome.refl _
                | ok found =>
                  cases found with
                  | none => exact SameOutcome.refl _
                  | some text =>
                    cases hscan : scanUint 32 text with
                    | none =>
                      simp only [Except.map, Option.bind_some, hscan]
                      exact SameOutcome.refl _
                    | some timestamp =>
                      obtain ⟨hparams, -⟩ := parsedFields_cons (h text hparsed (by simp [hscan]))
                      dsimp only at hparams
                      simp only [Except.map, Option.bind_some, hscan]
                      rw [← hparams]
                      exact SameOutcome.refl _

/-- A handler that goes by its fields ignores what follows the payload exactly if its searches
end inside the payload. -/
theorem ignoresLeftovers_iff {fields : List Field}
    {handler : MessageEnv → Payload → Template → Template × List Notice}
    (hnames : ∀ field ∈ fields, FieldName field.name)
    (hhandler : ∀ (env : MessageEnv) (message message' : Payload) (t : Template),
      (∀ reply, visible (.eventReply reply message) = visible (.eventReply reply message')) →
      parsedFields fields message.memory = parsedFields fields message'.memory →
        SameOutcome (handler (throughLength env) message t)
          (handler (throughLength env) message' t))
    (payload : List UInt8) :
    IgnoresLeftovers fields handler payload ↔ EndsInside fields payload := by
  rw [← parsedFields_inside_iff hnames]
  constructor
  · exact fun h after after' hnul hnul' => (h after after' hnul hnul').1
  · intro h after after' hnul hnul'
    refine ⟨h after after' hnul hnul', ?_⟩
    intro env topicLen t
    apply hhandler
    · intro reply
      simp [visible]
    · exact h after after' hnul hnul'

end Outcome

/-- Whether the bytes behind a payload have a say in what the two handlers do. -/
theorem handlers_ignore_leftovers_iff (payload : List UInt8) :
    (IgnoresLeftovers eventReplyFields onEventReplyCallback payload ↔
        EndsInside eventReplyFields payload) ∧
      (IgnoresLeftovers actionFields onActionHandleCallback payload ↔
        EndsInside actionFields payload) := by
  have hnames : ∀ field ∈ eventReplyFields ++ actionFields, field.name ≠ [] ∧ dot ∉ field.name ∧
      quote ∉ field.name ∧ (0 : UInt8) ∉ field.name ∧ 0x78 ∉ field.name := by decide
  have hfield : ∀ field ∈ eventReplyFields ++ actionFields, FieldName field.name := by
    intro field hmem
    obtain ⟨hne, hdot, hquote, hnul, hx⟩ := hnames field hmem
    exact ⟨hne, hdot, hquote, hnul, hx⟩
  constructor
  · apply ignoresLeftovers_iff
    · exact fun field hmem => hfield field (List.mem_append_left _ hmem)
    · exact fun env message message' t hvisible h => onEventReplyCallback_sameOutcome t hvisible h
  · apply ignoresLeftovers_iff
    · exact fun field hmem => hfield field (List.mem_append_right _ hmem)
    · exact fun env message message' t _ h => onActionHandleCallback_sameOutcome t h

/-- A template with an event that waits for a reply to the token `t`. -/
def awaitingReply : Template :=
  { Template.init (ClientState.Client.init 5 5000 true ⟨⟨[], 4, 240, true⟩, true⟩) true none with
    eventList := [⟨0, ascii "t", 9000, some 1⟩] }

/-- A reply without a code is taken for one if the bytes behind it complete it. -/
theorem onEventReplyCallback_leftover :
    ¬ IgnoresLeftovers eventReplyFields onEventReplyCallback
      (ascii "\x7b\"clientToken\":\"t\"\x7d") := by
  intro h
  obtain ⟨-, houtcome⟩ := h [0] (ascii ",\"code\":0\x7d" ++ [0]) (by decide) (by decide)
  obtain ⟨hstate, -⟩ := houtcome ⟨fun _ => [], true, [], fun _ => none⟩ 1 awaitingReply
  have hlists := congrArg (fun t => t.eventList.length) hstate
  exact absurd hlists (by decide)

end IotExplorer.TemplateLeftovers
