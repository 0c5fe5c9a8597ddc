import IotExplorer.DataTemplate

/-!
The inputs of an action that the cloud calls. They are written one after the other, up
to the first whose value is missing or cannot be read, and the application is called
when there is none.
-/
namespace IotExplorer.ActionInputs

open JsonParser TemplateJson DataTemplate

section Values
variable (scanFloat : List UInt8 → Option UInt32) (doc : Ptr)

/-- The value that a document has for an input, if it has one that can be read. -/
def inputValue (input : ActionInput) : Except Overrun (Option InputData) :=
  (JsonLookup.liteJsonValueOf input.key doc).map fun value => value.bind (readInput scanFloat input)

def taken (input : ActionInput) : ActionInput :=
  match inputValue scanFloat doc input with
  | .ok (some data) => { input with data := data }
  | _ => input

/-- An input whose value can be read. -/
def Readable (input : ActionInput) : Prop :=
  ∃ data, inputValue scanFloat doc input = .ok (some data)

def declared (input : ActionInput) : List UInt8 × InputType × ℕ :=
  (input.key, input.type, input.dataBuffLen)

structure Taken (inputs inputs' : List ActionInput) : Prop where
  declared : inputs'.map declared = inputs.map declared
  values : ∀ input ∈ inputs', inputValue scanFloat doc input = .ok (some input.data)

/-- What is asked of `_parse_action_input`: all inputs are taken, or it fails and all are as
before. -/
structure AllOrNothing (inputs : List ActionInput) : Prop where
  all : ∀ inputs', parseActionInput scanFloat doc inputs = .ok (inputs', true) →
    Taken scanFloat doc inputs inputs'
  nothing : ∀ inputs', parseActionInput scanFloat doc inputs = .ok (inputs', false) →
    inputs' = inputs

/-- The inputs in front of the first that is missing or cannot be read have the values of the
document already. -/
def HeldBefore (inputs : List ActionInput) : Prop :=
  ∀ front bad back, inputs = front ++ bad :: back →
    (∀ input ∈ front, Readable scanFloat doc input) →
    inputValue scanFloat doc bad = .ok none →
    ∀ input ∈ front, inputValue scanFloat doc input = .ok (some input.data)

/-- A call of an action by a message: its inputs are those that an action of the list declares,
taken from the message. -/
def CallsTaken (env : MessageEnv) (message : Payload) (t : Template) : Prop :=
  ∀ callback clientToken action,
    .action callback clientToken action ∈ (onActionHandleCallback env message t).2 →
    ∃ input, parseParams message.memory = .ok (some input) ∧
      ∃ handler ∈ t.actionHandleList, handler.callback = some callback ∧
        Taken env.scanFloat (input ++ 0 :: env.behind) (t.actions handler.action).input action.input

end Values

section Parsing
variable {scanFloat : List UInt8 → Option UInt32} {doc : Ptr} {inputs front back : List ActionInput}
  {input bad : ActionInput}

theorem parseActionInput_cons : parseActionInput scanFloat doc (input :: inputs) =
    match inputValue scanFloat doc input with
    | .error e => .error e
    | .ok none => .ok (input :: inputs, false)
    | .ok (some _) =>
        match parseActionInput scanFloat doc inputs with
        | .error e => .error e
        | .ok (inputs', ok) => .ok (taken scanFloat doc input :: inputs', ok) := by
  rw [parseActionInput, taken, inputValue]
  cases JsonLookup.liteJsonValueOf input.key doc with
  | error e => rfl
  | ok value =>
    cases value with
    | none => rfl
    | some text =>
      dsimp only [Except.map, Option.bind]
      cases readInput scanFloat input text <;> rfl

/-- Inputs that can all be read are taken. -/
theorem parseActionInput_readable (h : ∀ input ∈ inputs, Readable scanFloat doc input) :
    parseActionInput scanFloat doc inputs = .ok (inputs.map (taken scanFloat doc), true) := by
  induction inputs with
  | nil => rfl
  | cons input inputs ih =>
    obtain ⟨data, hdata⟩ := h input (List.mem_cons_self ..)
    rw [parseActionInput_cons, hdata,
      ih fun other hmem => h other (List.mem_cons_of_mem input hmem)]
    rfl

/-- Those in front of the first that cannot be read are written. -/
theorem parseActionInput_fails (h : ∀ input ∈ front, Readable scanFloat doc input)
    (hbad : inputValue scanFloat doc bad = .ok none) :
    parseActionInput scanFloat doc (front ++ bad :: back) =
      .ok (front.map (taken scanFloat doc) ++ bad :: back, false) := by
  induction front with
  | nil =>
    rw [List.nil_append, parseActionInput_cons, hbad]
    rfl
  | cons input front ih =>
    obtain ⟨data, hdata⟩ := h input (List.mem_cons_self ..)
    rw [List.cons_append, parseActionInput_cons, hdata,
      ih fun other hmem => h other (List.mem_cons_of_mem input hmem)]
    rfl

/-- The document overruns, or all inputs can be read, or there is a first that cannot. -/
theorem parseActionInput_cases (scanFloat : List UInt8 → Option UInt32) (doc : Ptr)
    (inputs : List ActionInput) :
    (∃ e, parseActionInput scanFloat doc inputs = .error e) ∨
      (∀ input ∈ inputs, Readable scanFloat doc input) ∨
      ∃ front bad back, inputs = front ++ bad :: back ∧
        (∀ input ∈ front, Readable scanFloat doc input) ∧
          inputValue scanFloat doc bad = .ok none := by
  induction inputs with
  | nil => exact .inr (.inl fun input hmem => by cases hmem)
  | cons input inputs ih =>
    rw [parseActionInput_cons]
    cases hvalue : inputValue scanFloat doc input with
    | error e => exact .inl ⟨e, rfl⟩
    | ok value =>
      cases value with
      | none => exact .inr (.inr ⟨[], input, inputs, rfl, List.forall_mem_nil _, hvalue⟩)
      | some data =>
        have hinput : Readable scanFloat doc input := ⟨data, hvalue⟩
        rcases ih with ⟨e, he⟩ | hall | ⟨front, bad, back, heq, hfront, hbad⟩
        · rw [he]
          exact .inl ⟨e, rfl⟩
        · exact .inr (.inl (List.forall_mem_cons.mpr ⟨hinput, hall⟩))
        · exact .inr (.inr ⟨input :: front, bad, back, by rw [heq]; rfl,
            List.forall_mem_cons.mpr ⟨hinput, hfront⟩, hbad⟩)

theorem declared_taken (input : ActionInput) :
    declared (taken scanFloat doc input) = declared input := by
  rw [taken]
  split <;> rfl

/-- The value of an input does not depend on what it holds. -/
theorem inputValue_taken (h : Readable scanFloat doc input) :
    inputValue scanFloat doc (taken scanFloat doc input) =
      .ok (some (taken scanFloat doc input).data) := by
  obtain ⟨data, hdata⟩ := h
  rw [taken, hdata]
  exact hdata

theorem taken_eq_self_iff (h : Readable scanFloat doc input) :
    taken scanFloat doc input = input ↔ inputValue scanFloat doc input = .ok (some input.data) := by
  obtain ⟨data, hdata⟩ := h
  rw [taken, hdata]
  constructor
  · intro heq
    rw [← congrArg ActionInput.data heq]
  · intro heq
    cases heq
    rfl

/-- Inputs that are not changed by what is taken have the values already. -/
theorem map_taken_eq_self_iff (h : ∀ input ∈ inputs, Readable scanFloat doc input) :
    inputs.map (taken scanFloat doc) = inputs ↔
      ∀ input ∈ inputs, inputValue scanFloat doc input = .ok (some input.data) := by
  have hmap : inputs.map (taken scanFloat doc) = inputs ↔
      ∀ input ∈ inputs, taken scanFloat doc input = id input := by
    rw [← List.map_inj_left, List.map_id]
  rw [hmap]
  exact forall₂_congr fun input hmem => taken_eq_self_iff (h input hmem)

theorem parseActionInput_declared {inputs' : List ActionInput} {ok : Bool}
    (h : parseActionInput scanFloat doc inputs = .ok (inputs', ok)) :
    inputs'.map declared = inputs.map declared := by
  have hmap : ∀ inputs : List ActionInput,
      (inputs.map (taken scanFloat doc)).map declared = inputs.map declared := by
    intro inputs
    rw [List.map_map]
    exact List.map_congr_left fun input _ => declared_taken input
  rcases parseActionInput_cases scanFloat doc inputs with ⟨e, he⟩ | hall |
    ⟨front, bad, back, rfl, hfront, hbad⟩
  · cases he.symm.trans h
  · cases (parseActionInput_readable hall).symm.trans h
    exact hmap inputs
  · cases (parseActionInput_fails hfront hbad).symm.trans h
    rw [List.map_append, hmap, List.map_append]

theorem taken_map (h : ∀ input ∈ inputs, Readable scanFloat doc input) :
    Taken scanFloat doc inputs (inputs.map (taken scanFloat doc)) := by
  refine ⟨parseActionInput_declared (parseActionInput_readable h), ?_⟩
  intro input hmem
  obtain ⟨source, hsource, rfl⟩ := List.mem_map.mp hmem
  exact inputValue_taken (h source hsource)

/-- A parse that succeeds has taken all inputs. -/
theorem parseActionInput_taken {inputs' : List ActionInput}
    (h : parseActionInput scanFloat doc inputs = .ok (inputs', true)) :
    Taken scanFloat doc inputs inputs' := by
  rcases parseActionInput_cases scanFloat doc inputs with ⟨e, he⟩ | hall |
    ⟨front, bad, back, rfl, hfront, hbad⟩
  · cases he.symm.trans h
  · cases (parseActionInput_readable hall).symm.trans h
    exact taken_map hall
  · cases (parseActionInput_fails hfront hbad).symm.trans h

/-- A parse is all or nothing if what it writes before it fails is there already, and only then. -/
theorem allOrNothing_iff (scanFloat : List UInt8 → Option UInt32) (doc : Ptr)
    (inputs : List ActionInput) :
    AllOrNothing scanFloat doc inputs ↔ HeldBefore scanFloat doc inputs := by
  constructor
  · rintro ⟨-, hnothing⟩ front bad back rfl hfront hbad
    have hsame := hnothing _ (parseActionInput_fails hfront hbad)
    exact (map_taken_eq_self_iff hfront).mp (List.append_cancel_right hsame)
  · intro hheld
    refine ⟨fun inputs' h => parseActionInput_taken h, ?_⟩
    intro inputs' h
    rcases parseActionInput_cases scanFloat doc inputs with ⟨e, he⟩ | hall |
      ⟨front, bad, back, rfl, hfront, hbad⟩
    · cases he.symm.trans h
    · cases (parseActionInput_readable hall).symm.trans h
    · cases (parseActionInput_fails hfront hbad).symm.trans h
      rw [(map_taken_eq_self_iff hfront).mpr (hheld front bad back rfl hfront hbad)]

end Parsing

section Calls
variable {env : MessageEnv} {message : Payload} {t : Template} {notice : Notice}

/-- What is sent while the application is told something is no call of an action. -/
theorem sendAll_quiet (calls : List RequestCall) (t : Template) :
    (sendAll calls t).1.actions = t.actions ∧
      ∀ callback clientToken action, .action callback clientToken action ∉ (sendAll calls t).2 := by
  have hsend : ∀ call t, (sendTemplateRequest call t).2.1.actions = t.actions ∧
      ∀ callback clientToken action,
        .action callback clientToken action ∉ (sendTemplateRequest call t).2.2 := by
    intro call t
    unfold sendTemplateRequest addRequestToTemplateList
    repeat' split
    all_goals exact ⟨rfl, by simp⟩
  induction calls generalizing t with
  | nil => exact ⟨rfl, fun _ _ _ hmem => by cases hmem⟩
  | cons call calls ih =>
    obtain ⟨hactions, hquiet⟩ := hsend call t
    obtain ⟨hactions', hquiet'⟩ := ih (sendTemplateRequest call t).2.1
    refine ⟨hactions'.trans hactions, ?_⟩
    intro callback clientToken action hmem
    rcases List.mem_append.mp hmem with hmem | hmem
    · exact hquiet callback clientToken action hmem
    · exact hquiet' callback clientToken action hmem

/-- The declarations of the actions stay, and an action is called with inputs that are all taken. -/
structure NodeRight (env : MessageEnv) (input : List UInt8) (handlers : List ActionHandler)
    (t t' : Template)
    (notices : List Notice) : Prop where
  declared : ∀ addr, (t'.actions addr).input.map declared = (t.actions addr).input.map declared
  calls : ∀ callback clientToken action, .action callback clientToken action ∈ notices →
    ∃ handler ∈ handlers, handler.callback = some callback ∧
      Taken env.scanFloat (input ++ 0 :: env.behind) (t.actions handler.action).input action.input

theorem NodeRight.of_actions {input : List UInt8} {handlers : List ActionHandler} {t' : Template}
    (h : t'.actions = t.actions) : NodeRight env input handlers t t' [] :=
  ⟨fun addr => by rw [h], fun _ _ _ hmem => by cases hmem⟩

theorem setAction_declared {addr : ℕ} {action : DeviceAction}
    (h : action.input.map declared = (t.actions addr).input.map declared) (other : ℕ) :
    ((t.setAction addr action).actions other).input.map declared =
      (t.actions other).input.map declared := by
  rw [Template.setAction]
  dsimp only
  split_ifs with heq
  · rw [h, heq]
  · rfl

theorem handleActionNode_right (clientToken actionId : List UInt8) (timestamp : ℕ)
    (input : List UInt8)
    (handler : ActionHandler) (t : Template) :
    NodeRight env input [handler] t
      (handleActionNode env clientToken actionId timestamp input handler t).1
      (handleActionNode env clientToken actionId timestamp input handler t).2 := by
  unfold handleActionNode
  split
  · exact NodeRight.of_actions rfl
  · next callback hcallback =>
    dsimp only
    split_ifs
    · exact NodeRight.of_actions rfl
    · split
      · exact NodeRight.of_actions rfl
      · next hparse =>
        exact ⟨setAction_declared (parseActionInput_declared hparse),
          fun _ _ _ hmem => by cases hmem⟩
      · next inputs hparse =>
        have htaken := parseActionInput_taken hparse
        obtain ⟨hactions, hquiet⟩ := sendAll_quiet (env.react (.action callback clientToken
          { t.actions handler.action with input := inputs, timestamp := timestamp }))
          (t.setAction handler.action
            { t.actions handler.action with input := inputs, timestamp := timestamp })
        refine ⟨?_, ?_⟩
        · intro addr
          rw [DataTemplate.tell, hactions]
          exact setAction_declared htaken.declared addr
        · intro callback' clientToken' action hmem
          rcases List.mem_cons.mp hmem with heq | hmem
          · cases heq
            exact ⟨handler, List.mem_singleton_self _, hcallback, htaken⟩
          · exact absurd hmem (hquiet callback' clientToken' action)

/-- The walk over the registered actions. -/
theorem walkNodes_right (clientToken actionId : List UInt8) (timestamp : ℕ) (input : List UInt8)
    (handlers : List ActionHandler) (t : Template) :
    NodeRight env input handlers t
      (walkNodes (handleActionNode env clientToken actionId timestamp input) handlers t).1
      (walkNodes (handleActionNode env clientToken actionId timestamp input) handlers t).2 := by
  induction handlers generalizing t with
  | nil => exact NodeRight.of_actions rfl
  | cons handler handlers ih =>
    rw [walkNodes]
    split_ifs
    · exact NodeRight.of_actions rfl
    · have hnode := @handleActionNode_right env clientToken actionId timestamp input handler t
      have hrest := ih (handleActionNode env clientToken actionId timestamp input handler t).1
      refine ⟨fun addr => (hrest.declared addr).trans (hnode.declared addr), ?_⟩
      intro callback clientToken' action hmem
      rcases List.mem_append.mp hmem with hmem | hmem
      · obtain ⟨handler', hmem', hcalled⟩ := hnode.calls callback clientToken' action hmem
        rw [List.mem_singleton.mp hmem'] at hcalled
        exact ⟨handler, List.mem_cons_self .., hcalled⟩
      · obtain ⟨handler', hmem', hcallback, htaken⟩ := hrest.calls callback clientToken' action hmem
        refine ⟨handler', List.mem_cons_of_mem handler hmem', hcallback, ?_, htaken.values⟩
        rw [htaken.declared, hnode.declared]

theorem callsTaken (env : MessageEnv) (message : Payload) (t : Template) :
    CallsTaken env message t := by
  intro callback clientToken action hmem
  unfold onActionHandleCallback at hmem
  -- only a message with all its fields comes to the actions
  repeat' split at hmem
  all_goals try cases hmem
  rename_i input hparams _
  obtain ⟨handler, hmem', hcalled⟩ := (walkNodes_right _ _ _ input _ t).calls _ _ _ hmem
  exact ⟨input, hparams, handler, List.mem_reverse.mp hmem', hcalled⟩

/-- `_parse_action_input` is all or nothing exactly if the inputs in front of the first that is
missing or cannot be read have the values of the document already; an action is called only with
inputs that are all taken from the message. -/
theorem action_inputs_right_iff (scanFloat : List UInt8 → Option UInt32) (doc : Ptr)
    (inputs : List ActionInput) (env : MessageEnv) (message : Payload) (t : Template) :
    (AllOrNothing scanFloat doc inputs ↔ HeldBefore scanFloat doc inputs) ∧
      CallsTaken env message t :=
  ⟨allOrNothing_iff scanFloat doc inputs, callsTaken env message t⟩

/-- The first of two numbers is written when the second is missing. -/
theorem action_inputs_half_written : ¬ ∀ (scanFloat : List UInt8 → Option UInt32) (doc : Ptr)
    (inputs : List ActionInput), AllOrNothing scanFloat doc inputs := by
  intro hall
  have hsame := (hall (fun _ => none) (ascii "\x7b\"a\":1\x7d" ++ [0])
    [⟨ascii "a", .int32, 4, .int 0⟩, ⟨ascii "b", .int32, 4, .int 0⟩]).nothing
    [⟨ascii "a", .int32, 4, .int 1⟩, ⟨ascii "b", .int32, 4, .int 0⟩] (by decide +kernel)
  cases hsame

end Calls

end IotExplorer.ActionInputs
