import IotExplorer.Basis.Runs
import IotExplorer.DataTemplate
import Mathlib.Data.List.Nodup

/-!
What becomes of a template request. A run is any order of requests, messages and
walks over the waiting nodes. A request is in the reply list until its callback is
called, and the callback is called once, as long as every message that meets a
waiting request of its token has a code that can be read.
-/
namespace IotExplorer.TemplateRequests

open Basis.JsonText Basis.Runs JsonParser TemplateJson DataTemplate

/-- A step of the client as far as requests are concerned. -/
inductive Op where
  | request (call : RequestCall)
  | downstream (env : MessageEnv) (message : Payload)
  | expiredReply (react : Reaction) (iterOk : Bool) (clock : ℕ → ℕ)
  | expiredEvent (iterOk : Bool) (clock : ℕ → ℕ)
  | eventReply (env : MessageEnv) (message : Payload)
  | action (env : MessageEnv) (message : Payload)

/-- The step of an operation; after undefined behaviour nothing follows. -/
def step (op : Op) (t : Template) : Template × List Notice :=
  if t.halted then (t, [])
  else
    match op with
    | .request call => (sendTemplateRequest call t).2
    | .downstream env message => onTemplateDownstreamTopicHandler env message t
    | .expiredReply react iterOk clock => handleTemplateExpiredReply react iterOk clock t
    | .expiredEvent iterOk clock => (handleTemplateExpiredEvent iterOk clock t, [])
    | .eventReply env message => onEventReplyCallback env message t
    | .action env message => onActionHandleCallback env message t

def calls (serial : ℕ) (log : List Notice) : ℕ :=
  log.countP fun notice =>
    match notice with
    | .called request _ _ => request.serial == serial
    | _ => false

def acceptances (serial : ℕ) (log : List Notice) : ℕ :=
  log.countP fun notice =>
    match notice with
    | .accepted request => request.serial == serial
    | _ => false

/-- The nodes of a request in the reply list. -/
def waiting (serial : ℕ) (t : Template) : ℕ :=
  t.replyList.countP fun request => request.serial == serial

/-- Every request that was accepted, and no other, either waits for its callback or had it
called, once. -/
structure Kept (t : Template) (log : List Notice) : Prop where
  answered : ∀ serial, waiting serial t + calls serial log = acceptances serial log
  accepted : ∀ serial, acceptances serial log = if serial < t.accepted then 1 else 0
  listed : ∀ request ∈ t.replyList, request.callback ≠ none ∧ .accepted request ∈ log
  called : ∀ request ack document, .called request ack document ∈ log → .accepted request ∈ log

/-- If the token of a message is stored in a waiting request, then it is the one that the request
was sent with, and the message has a code that can be read. -/
def CodeReads (env : MessageEnv) (message : Payload) (t : Template) : Prop :=
  ∀ type clientToken,
    parseTemplateMethodType (copiedText message ++ 0 :: env.behind) = .ok (some type) →
    parseClientToken (copiedText message ++ 0 :: env.behind) = .ok (some clientToken) →
    type ≠ ascii "control" → ∀ request ∈ t.replyList, request.clientToken = clientToken →
      request.sentToken = clientToken ∧
        parseCodeReturn (copiedText message ++ 0 :: env.behind) ≠ .ok none

/-- The condition on a step: a message that the handler takes up has a code to read. -/
def Reads (t : Template) (op : Op) : Prop :=
  match op with
  | .downstream env message =>
      message.topicLen ≠ 0 → message.payloadLen ≤ cloudIotJsonRxBufLen → env.iterOk = true →
        CodeReads env message t
  | _ => True

/-- A call of a callback says what the step found: the code of a reply that carries the token
of the request, or that its timer expired. -/
def Justified (op : Op) (request : Request) (ack : ReplyAck) : Prop :=
  match op with
  | .downstream env message =>
      parseClientToken (copiedText message ++ 0 :: env.behind) = .ok (some request.sentToken) ∧
        ∃ code, parseCodeReturn (copiedText message ++ 0 :: env.behind) = .ok (some code) ∧
          ack = if code = 0 then .accepted else .rejected
  | .expiredReply _ _ clock => ack = .timeout ∧ request.timer ≤ clock request.serial
  | _ => False

/-- What the caller of a request relies on: it is in the list until its callback was called, and
that happens once. -/
structure Answered (t : Template) (log : List Notice) : Prop where
  settled : ∀ request, .accepted request ∈ log →
    request ∈ t.replyList ∧ calls request.serial log = 0 ∨
      request ∉ t.replyList ∧ calls request.serial log = 1
  serials : ∀ request request', .accepted request ∈ log → .accepted request' ∈ log →
    request.serial = request'.serial → request = request'
  known : ∀ request ack document, .called request ack document ∈ log → .accepted request ∈ log

/-- A run in which every accepted request is answered as it should be. -/
def AnswersRequests (ops : List Op) (start : Template) : Prop :=
  Answered (run step ops start).1 (run step ops start).2 ∧
    ∀ front op back, ops = front ++ op :: back → ∀ request ack document,
      .called request ack document ∈ (step op (run step front start).1).2 → Justified op request ack

section Sends
variable {t t' t'' : Template} {log events events' : List Notice}

/-- Requests are sent and appended; nothing else happens to the reply list. -/
structure Grows (t t' : Template) (events : List Notice) : Prop where
  waiting : ∀ serial, waiting serial t' = waiting serial t + acceptances serial events
  accepted : ∀ serial, acceptances serial events =
    if t.accepted ≤ serial ∧ serial < t'.accepted then 1 else 0
  le : t.accepted ≤ t'.accepted
  mem : ∀ request ∈ t.replyList, request ∈ t'.replyList
  listed : ∀ request ∈ t'.replyList,
    request ∈ t.replyList ∨ request.callback ≠ none ∧ .accepted request ∈ events
  quiet : ∀ request ack document, .called request ack document ∉ events
  buffer : t'.cloudRcvBuf = t.cloudRcvBuf

theorem calls_append (serial : ℕ) (log events : List Notice) :
    calls serial (log ++ events) = calls serial log + calls serial events :=
  List.countP_append

theorem acceptances_append (serial : ℕ) (log events : List Notice) :
    acceptances serial (log ++ events) = acceptances serial log + acceptances serial events :=
  List.countP_append

theorem calls_quiet (h : ∀ request ack document, Notice.called request ack document ∉ events)
    (serial : ℕ) : calls serial events = 0 := by
  rw [calls, List.countP_eq_zero]
  intro notice hmem
  cases notice with
  | called request ack document => exact absurd hmem (h request ack document)
  | _ => simp

theorem Grows.refl (t : Template) : Grows t t [] := by
  refine ⟨fun _ => rfl, ?_, Nat.le_refl _, fun _ h => h, fun _ h => .inl h, ?_, rfl⟩
  · intro serial
    rw [if_neg (by omega)]
    rfl
  · intro request ack document
    exact List.not_mem_nil

theorem Grows.trans (h : Grows t t' events) (h' : Grows t' t'' events') :
    Grows t t'' (events ++ events') := by
  have hle := h.le
  have hle' := h'.le
  refine ⟨?_, ?_, Nat.le_trans hle hle', ?_, ?_, ?_, h'.buffer.trans h.buffer⟩
  · intro serial
    rw [acceptances_append, h'.waiting, h.waiting]
    omega
  · intro serial
    rw [acceptances_append, h.accepted, h'.accepted]
    split_ifs <;> omega
  · exact fun request hmem => h'.mem request (h.mem request hmem)
  · intro request hmem
    rcases h'.listed request hmem with hmem | ⟨hcallback, haccepted⟩
    · rcases h.listed request hmem with hmem | ⟨hcallback, haccepted⟩
      · exact .inl hmem
      · exact .inr ⟨hcallback, List.mem_append_left _ haccepted⟩
    · exact .inr ⟨hcallback, List.mem_append_right _ haccepted⟩
  · intro request ack document hmem
    rcases List.mem_append.mp hmem with hmem | hmem
    · exact h.quiet request ack document hmem
    · exact h'.quiet request ack document hmem

/-- A step that leaves the requests alone. -/
theorem Grows.of_same (hlist : t'.replyList = t.replyList) (haccepted : t'.accepted = t.accepted)
    (hbuffer : t'.cloudRcvBuf = t.cloudRcvBuf) : Grows t t' [] := by
  have hrefl := Grows.refl t
  refine ⟨?_, ?_, ?_, ?_, ?_, hrefl.quiet, hbuffer⟩
  · intro serial
    rw [TemplateRequests.waiting, hlist]
    rfl
  · rw [haccepted]
    exact hrefl.accepted
  · rw [haccepted]
  · rw [hlist]
    exact hrefl.mem
  · rw [hlist]
    exact hrefl.listed

/-- Steps that log nothing, behind the others. -/
theorem Grows.silent (h : Grows t t' events) (h' : Grows t' t'' []) : Grows t t'' events := by
  have htrans := h.trans h'
  rwa [List.append_nil] at htrans

theorem Kept.grow (h : Kept t log) (hgrows : Grows t t' events) : Kept t' (log ++ events) := by
  have hle := hgrows.le
  refine ⟨?_, ?_, ?_, ?_⟩
  · intro serial
    have hanswered := h.answered serial
    rw [calls_append, acceptances_append, hgrows.waiting, calls_quiet hgrows.quiet]
    omega
  · intro serial
    rw [acceptances_append, h.accepted, hgrows.accepted]
    split_ifs <;> omega
  · intro request hmem
    rcases hgrows.listed request hmem with hmem | ⟨hcallback, haccepted⟩
    · obtain ⟨hcallback, haccepted⟩ := h.listed request hmem
      exact ⟨hcallback, List.mem_append_left _ haccepted⟩
    · exact ⟨hcallback, List.mem_append_right _ haccepted⟩
  · intro request ack document hmem
    rcases List.mem_append.mp hmem with hmem | hmem
    · exact List.mem_append_left _ (h.called request ack document hmem)
    · exact absurd hmem (hgrows.quiet request ack document)

/-- A request is accepted with the next serial number. -/
theorem addRequestToTemplateList_grows {clientToken : List UInt8} (call : RequestCall)
    (t : Template)
    (hcallback : call.requestCallback ≠ none) :
    Grows t (addRequestToTemplateList clientToken call t).2.1
      (addRequestToTemplateList clientToken call t).2.2 := by
  unfold addRequestToTemplateList
  split_ifs
  · exact Grows.refl t
  · exact Grows.refl t
  · exact Grows.refl t
  · dsimp only
    refine ⟨?_, ?_, Nat.le_succ _, ?_, ?_, ?_, rfl⟩
    · intro serial
      simp only [waiting, acceptances, List.countP_append, List.countP_cons, List.countP_nil]
    · intro serial
      simp only [acceptances, List.countP_cons, List.countP_nil, beq_iff_eq]
      split_ifs <;> omega
    · exact fun request hmem => List.mem_append_left _ hmem
    · intro request hmem
      rcases List.mem_append.mp hmem with hmem | hmem
      · exact .inl hmem
      · right
        obtain rfl := List.mem_singleton.mp hmem
        exact ⟨hcallback, List.mem_singleton_self _⟩
    · intro request ack document hmem
      cases List.mem_singleton.mp hmem

theorem sendTemplateRequest_grows (call : RequestCall) (t : Template) :
    Grows t (sendTemplateRequest call t).2.1 (sendTemplateRequest call t).2.2 := by
  unfold sendTemplateRequest
  cases parseClientToken (call.jsonDoc ++ 0 :: call.behind) with
  | error e => exact Grows.of_same rfl rfl rfl
  | ok found =>
    cases found with
    | none => exact Grows.refl t
    | some clientToken =>
      dsimp only
      cases setTemplateJsonType call.jsonDoc call.sizeOfBuffer call.method with
      | none => exact Grows.refl t
      | some jsonDoc =>
        dsimp only
        split_ifs with hpublish hcallback
        · exact Grows.refl t
        · exact Grows.refl t
        · exact addRequestToTemplateList_grows call t hcallback

theorem sendAll_grows (calls : List RequestCall) (t : Template) :
    Grows t (sendAll calls t).1 (sendAll calls t).2 := by
  induction calls generalizing t with
  | nil => exact Grows.refl t
  | cons call calls ih =>
    have hfirst := sendTemplateRequest_grows call t
    exact hfirst.trans (ih (sendTemplateRequest call t).2.1)

/-- A call of the application that does not answer a request. -/
theorem tell_grows (react : Reaction) (notice : Notice) (t : Template)
    (hnotice : ∀ request, notice ≠ .accepted request)
    (hquiet : ∀ request ack document, notice ≠ .called request ack document) :
    Grows t (tell react notice t).1 (tell react notice t).2 := by
  have hsends := sendAll_grows (react notice) t
  have hnone : ∀ serial, acceptances serial (notice :: (sendAll (react notice) t).2) =
      acceptances serial (sendAll (react notice) t).2 := by
    intro serial
    cases notice with
    | accepted request => exact absurd rfl (hnotice request)
    | _ => simp [acceptances]
  refine ⟨?_, ?_, hsends.le, hsends.mem, ?_, ?_, hsends.buffer⟩
  · intro serial
    exact (hsends.waiting serial).trans (congrArg _ (hnone serial).symm)
  · intro serial
    exact (hnone serial).trans (hsends.accepted serial)
  · intro request hmem
    rcases hsends.listed request hmem with hmem | ⟨hcallback, haccepted⟩
    · exact .inl hmem
    · exact .inr ⟨hcallback, List.mem_cons_of_mem notice haccepted⟩
  · intro request ack document hmem
    rcases List.mem_cons.mp hmem with heq | hmem
    · exact hquiet request ack document heq.symm
    · exact hsends.quiet request ack document hmem

end Sends

section Answers
variable {t t' : Template} {log events : List Notice} {request : Request}

theorem waiting_removeRequest (request : Request) (t : Template) (serial : ℕ) :
    waiting serial (t.removeRequest request) =
      if serial = request.serial then 0 else waiting serial t := by
  rw [waiting, Template.removeRequest, List.countP_filter]
  split_ifs with hserial
  · rw [List.countP_eq_zero]
    intro other _
    simp [hserial]
  · rw [waiting]
    apply List.countP_congr
    intro other _
    simp only [Bool.and_eq_true, beq_iff_eq, bne_iff_ne]
    constructor
    · exact fun h => h.1
    · intro h
      exact ⟨h, fun h' => hserial (h ▸ h')⟩

theorem one_le_waiting (hmem : request ∈ t.replyList) : 1 ≤ waiting request.serial t := by
  rw [waiting, Nat.one_le_iff_ne_zero, Ne, List.countP_eq_zero]
  intro hnone
  exact hnone request hmem (by simp)

/-- The callback of a waiting request is called, and the request removed. -/
theorem Kept.answer (h : Kept t log) (hmem : request ∈ t.replyList) (ack : ReplyAck)
    (document : List UInt8) (hgrows : Grows t t' events) :
    Kept (t'.removeRequest request) (log ++ .called request ack document :: events) := by
  have hone := one_le_waiting hmem
  have hle := hgrows.le
  have hcalls : ∀ serial, calls serial (.called request ack document :: events) =
      if serial = request.serial then 1 else 0 := by
    intro serial
    have hquiet := calls_quiet hgrows.quiet serial
    rw [calls] at hquiet ⊢
    rw [List.countP_cons, hquiet, Nat.zero_add]
    by_cases hserial : serial = request.serial
    · simp [hserial]
    · have hother : request.serial ≠ serial := fun h => hserial h.symm
      simp [hserial, hother]
  have hacceptances : ∀ serial, acceptances serial (.called request ack document :: events) =
      acceptances serial events := by
    intro serial
    simp [acceptances]
  have hlater : ∀ notice ∈ log ++ events,
      notice ∈ log ++ .called request ack document :: events := by
    intro notice hnotice
    rw [List.mem_append] at hnotice ⊢
    exact hnotice.imp_right (List.mem_cons_of_mem _)
  refine ⟨?_, ?_, ?_, ?_⟩
  · intro serial
    have hanswered := h.answered serial
    have haccepted := h.accepted serial
    have hnew := hgrows.accepted serial
    have hwaiting := hgrows.waiting serial
    rw [waiting_removeRequest, calls_append, acceptances_append, hcalls, hacceptances]
    by_cases hserial : serial = request.serial
    · subst hserial
      rw [if_pos rfl, if_pos rfl]
      split_ifs at haccepted hnew <;> omega
    · rw [if_neg hserial, if_neg hserial]
      omega
  · intro serial
    have haccepted := (h.grow hgrows).accepted serial
    rw [acceptances_append] at haccepted
    rw [acceptances_append, hacceptances, haccepted]
    rfl
  · intro other hother
    obtain ⟨hcallback, haccepted⟩ := (h.grow hgrows).listed other (List.mem_of_mem_filter hother)
    exact ⟨hcallback, hlater _ haccepted⟩
  · intro other ack' document' hcalled
    rcases List.mem_append.mp hcalled with hcalled | hcalled
    · exact List.mem_append_left _ (h.called other ack' document' hcalled)
    · rcases List.mem_cons.mp hcalled with heq | hcalled
      · obtain ⟨rfl, -, -⟩ := Notice.called.inj heq
        exact List.mem_append_left _ (h.listed other hmem).2
      · exact absurd hcalled (hgrows.quiet other ack' document')

/-- What a walk does at a node: it keeps the requests, leaves the other nodes in the list and
the buffer as it is, and its calls are allowed. -/
structure Handles (Allowed : Request → ReplyAck → Prop) (node : Request) (log : List Notice)
    (t t' : Template) (events : List Notice) : Prop where
  kept : Kept t' (log ++ events)
  others : ∀ request ∈ t.replyList, request.serial ≠ node.serial → request ∈ t'.replyList
  buffer : t'.cloudRcvBuf = t.cloudRcvBuf
  allowed : ∀ request ack document, .called request ack document ∈ events → Allowed request ack

variable {Allowed : Request → ReplyAck → Prop} {node : Request}

theorem Handles.of_grows (h : Kept t log) (hgrows : Grows t t' events) :
    Handles Allowed node log t t' events where
  kept := h.grow hgrows
  others := fun request hmem _ => hgrows.mem request hmem
  buffer := hgrows.buffer
  allowed := fun request ack document hmem => absurd hmem (hgrows.quiet request ack document)

/-- A node is answered: its callback is told, and it is removed. -/
theorem Handles.of_answer (react : Reaction) (h : Kept t log) (hmem : node ∈ t.replyList)
    {ack : ReplyAck} (document : List UInt8) (hallowed : Allowed node ack) :
    Handles Allowed node log t ((tell react (.called node ack document) t).1.removeRequest node)
      (tell react (.called node ack document) t).2 := by
  have hgrows := sendAll_grows (react (.called node ack document)) t
  refine ⟨h.answer hmem ack document hgrows, ?_, hgrows.buffer, ?_⟩
  · intro request hrequest hserial
    exact List.mem_filter.mpr ⟨hgrows.mem request hrequest, by simpa using hserial⟩
  · intro request ack' document' hcalled
    rcases List.mem_cons.mp hcalled with heq | hcalled
    · obtain ⟨rfl, rfl, -⟩ := Notice.called.inj heq
      exact hallowed
    · exact absurd hcalled (hgrows.quiet request ack' document')

/-- The calls of a walk, one node after the other. -/
theorem walkNodes_handles {handle : Request → Template → Template × List Notice}
    {nodes : List Request} (buffer : List UInt8)
    (hstep : ∀ node ∈ nodes, ∀ t log, node ∈ t.replyList → t.cloudRcvBuf = buffer → Kept t log →
      Handles Allowed node log t (handle node t).1 (handle node t).2)
    (hdistinct : (nodes.map Request.serial).Nodup)
    (hnodes : ∀ node ∈ nodes, node ∈ t.replyList) (hbuffer : t.cloudRcvBuf = buffer)
    (h : Kept t log) :
    Kept (walkNodes handle nodes t).1 (log ++ (walkNodes handle nodes t).2) ∧
      ∀ request ack document, .called request ack document ∈ (walkNodes handle nodes t).2 →
        Allowed request ack := by
  induction nodes generalizing t log with
  | nil =>
    rw [walkNodes, List.append_nil]
    exact ⟨h, fun _ _ _ hmem => absurd hmem List.not_mem_nil⟩
  | cons node nodes ih =>
    rw [walkNodes]
    split_ifs with hhalted
    · rw [List.append_nil]
      exact ⟨h, fun _ _ _ hmem => absurd hmem List.not_mem_nil⟩
    · have hhead : node ∈ node :: nodes := List.mem_cons_self ..
      have hfirst := hstep node hhead t log (hnodes node hhead) hbuffer h
      rw [List.map_cons, List.nodup_cons] at hdistinct
      have hrest : ∀ node' ∈ nodes, node' ∈ (handle node t).1.replyList := by
        intro node' hmem
        apply hfirst.others node' (hnodes node' (List.mem_cons_of_mem node hmem))
        intro hserial
        exact hdistinct.1 (hserial ▸ List.mem_map_of_mem hmem)
      obtain ⟨hkept, hallowed⟩ :=
        ih (fun node' hmem => hstep node' (List.mem_cons_of_mem node hmem)) hdistinct.2 hrest
          (hfirst.buffer.trans hbuffer) hfirst.kept
      rw [List.append_assoc] at hkept
      refine ⟨hkept, ?_⟩
      intro request ack document hmem
      rcases List.mem_append.mp hmem with hmem | hmem
      · exact hfirst.allowed request ack document hmem
      · exact hallowed request ack document hmem

/-- The nodes of the reply list are distinct. -/
theorem Kept.distinct (h : Kept t log) : (t.replyList.reverse.map Request.serial).Nodup := by
  rw [List.map_reverse, List.nodup_reverse, List.nodup_iff_count_le_one]
  intro serial
  have hanswered := h.answered serial
  have haccepted := h.accepted serial
  have hcount : List.count serial (t.replyList.map Request.serial) = waiting serial t := by
    rw [List.count, List.countP_map, waiting]
    rfl
  rw [hcount]
  split_ifs at haccepted <;> omega

end Answers

section Handlers
variable {t : Template} {log : List Notice} {node : Request}
  {Allowed : Request → ReplyAck → Prop}

/-- What is sent before a node is answered. -/
theorem Handles.after {t' t'' : Template} {events events' : List Notice}
    (hgrows : Grows t t' events)
    (h : Handles Allowed node (log ++ events) t' t'' events') :
    Handles Allowed node log t t'' (events ++ events') := by
  refine ⟨?_, ?_, h.buffer.trans hgrows.buffer, ?_⟩
  · rw [← List.append_assoc]
    exact h.kept
  · intro request hmem hserial
    exact h.others request (hgrows.mem request hmem) hserial
  · intro request ack document hmem
    rcases List.mem_append.mp hmem with hmem | hmem
    · exact absurd hmem (hgrows.quiet request ack document)
    · exact h.allowed request ack document hmem

theorem handleTemplateExpiredReplyCallback_handles (react : Reaction) (clock : ℕ → ℕ)
    (h : Kept t log) (hmem : node ∈ t.replyList)
    (hallowed : node.timer ≤ clock node.serial → Allowed node .timeout) :
    Handles Allowed node log t (handleTemplateExpiredReplyCallback react clock node t).1
      (handleTemplateExpiredReplyCallback react clock node t).2 := by
  unfold handleTemplateExpiredReplyCallback
  split_ifs with hclock hcallback
  · exact Handles.of_grows h (Grows.refl t)
  · exact absurd hcallback (h.listed node hmem).1
  · exact Handles.of_answer react h hmem t.cloudRcvBuf (hallowed (Nat.le_of_not_lt hclock))

theorem handleGetControl_grows (react : Reaction) (behind : Ptr) (clientToken : List UInt8)
    (request : Request) (t : Template) :
    Grows t (handleGetControl react behind clientToken request t).1
      (handleGetControl react behind clientToken request t).2 := by
  unfold handleGetControl
  cases parseTemplateGetControl (t.cloudRcvBuf ++ 0 :: behind) with
  | error e => exact Grows.of_same rfl rfl rfl
  | ok found =>
    cases found with
    | none => exact Grows.refl t
    | some control =>
      have htoken : Grows t
          { t with controlClientToken := clientToken.take maxSizeOfClientToken } [] :=
        Grows.of_same rfl rfl rfl
      have htold := htoken.trans (tell_grows react (.control t.usrControlHandle control true) _
        (fun _ => Notice.noConfusion) (fun _ _ _ => Notice.noConfusion))
      dsimp only
      split_ifs
      · apply htold.silent
        exact Grows.of_same rfl rfl rfl
      · exact htold

theorem handleTemplateReplyCallback_handles (react : Reaction) (behind : Ptr)
    {clientToken : List UInt8} (type : List UInt8) (h : Kept t log) (hmem : node ∈ t.replyList)
    (hreads : node.clientToken = clientToken →
      parseCodeReturn (t.cloudRcvBuf ++ 0 :: behind) ≠ .ok none)
    (hallowed : node.clientToken = clientToken → ∀ code,
      parseCodeReturn (t.cloudRcvBuf ++ 0 :: behind) = .ok (some code) →
        Allowed node (if code = 0 then .accepted else .rejected)) :
    Handles Allowed node log t (handleTemplateReplyCallback react behind clientToken type node t).1
      (handleTemplateReplyCallback react behind clientToken type node t).2 := by
  unfold handleTemplateReplyCallback
  by_cases htoken : node.clientToken = clientToken
  · rw [if_neg (not_not_intro htoken)]
    have hreads := hreads htoken
    have hallowed := hallowed htoken
    cases hcode : parseCodeReturn (t.cloudRcvBuf ++ 0 :: behind) with
    | error e => exact Handles.of_grows h (Grows.of_same rfl rfl rfl)
    | ok found =>
      cases found with
      | none => exact absurd hcode hreads
      | some code =>
        have hallowed := hallowed code hcode
        dsimp only
        generalize (if code = 0 then ReplyAck.accepted else ReplyAck.rejected) =
            status at hallowed ⊢
        generalize hcontrol : (if type = ascii "get_status_reply" ∧ status = .accepted then
          handleGetControl react behind clientToken node t else (t, [])) = control
        have hgrows : Grows t control.1 control.2 := by
          rw [← hcontrol]
          split_ifs
          · exact handleGetControl_grows react behind clientToken node t
          · exact Grows.refl t
        split_ifs with hhalted hcallback
        · exact Handles.of_grows h hgrows
        · exact absurd hcallback (h.listed node hmem).1
        · apply Handles.after hgrows
          exact Handles.of_answer react (h.grow hgrows) (hgrows.mem node hmem) _ hallowed
  · rw [if_pos htoken]
    exact Handles.of_grows h (Grows.refl t)

/-- A walk whose nodes only let the application send requests. -/
theorem walkNodes_grows {α : Type} {handle : α → Template → Template × List Notice}
    (hstep : ∀ node t, Grows t (handle node t).1 (handle node t).2) (nodes : List α)
    (t : Template) :
    Grows t (walkNodes handle nodes t).1 (walkNodes handle nodes t).2 := by
  induction nodes generalizing t with
  | nil => exact Grows.refl t
  | cons node nodes ih =>
    rw [walkNodes]
    split_ifs
    · exact Grows.refl t
    · exact (hstep node t).trans (ih (handle node t).1)

theorem handleControlMessage_grows (env : MessageEnv) (clientToken : List UInt8) (t : Template) :
    Grows t (handleControlMessage env clientToken t).1
      (handleControlMessage env clientToken t).2 := by
  unfold handleControlMessage
  cases parseParams (t.cloudRcvBuf ++ 0 :: env.behind) with
  | error e => exact Grows.of_same rfl rfl rfl
  | ok found =>
    cases found with
    | none => exact Grows.refl t
    | some control =>
      have htoken : Grows t
          { t with controlClientToken := clientToken.take maxSizeOfClientToken } [] :=
        Grows.of_same rfl rfl rfl
      exact htoken.trans (tell_grows env.react (.control t.usrControlHandle control false) _
        (fun _ => Notice.noConfusion) (fun _ _ _ => Notice.noConfusion))

theorem handleEventReply_grows (react : Reaction) (clientToken : List UInt8) (message : Payload)
    (reply : EventReply) (t : Template) :
    Grows t (handleEventReply react clientToken message reply t).1
      (handleEventReply react clientToken message reply t).2 := by
  unfold handleEventReply
  split_ifs
  · exact Grows.refl t
  · have htold := tell_grows react (.eventReply reply message) t
      (fun _ => Notice.noConfusion) (fun _ _ _ => Notice.noConfusion)
    apply htold.silent
    exact Grows.of_same rfl rfl rfl

theorem onEventReplyCallback_grows (env : MessageEnv) (message : Payload) (t : Template) :
    Grows t (onEventReplyCallback env message t).1 (onEventReplyCallback env message t).2 := by
  have hhalted : Grows t { t with halted := true } [] := Grows.of_same rfl rfl rfl
  unfold onEventReplyCallback
  -- a field that is not found ends the handler, an overrun halts the client
  repeat' split
  all_goals first
    | exact hhalted
    | exact Grows.refl t
    | exact walkNodes_grows (handleEventReply_grows env.react _ message) _ t

theorem handleActionNode_grows (env : MessageEnv) (clientToken actionId : List UInt8)
    (timestamp : ℕ)
    (input : List UInt8) (handler : ActionHandler) (t : Template) :
    Grows t (handleActionNode env clientToken actionId timestamp input handler t).1
      (handleActionNode env clientToken actionId timestamp input handler t).2 := by
  have hset : ∀ action, Grows t (t.setAction handler.action action) [] :=
    fun _ => Grows.of_same rfl rfl rfl
  unfold handleActionNode
  split
  · exact Grows.refl t
  · dsimp only
    split_ifs
    · exact Grows.refl t
    · split
      · exact Grows.of_same rfl rfl rfl
      · exact hset _
      · exact (hset _).trans (tell_grows env.react (.action _ clientToken _) _
          (fun _ => Notice.noConfusion) (fun _ _ _ => Notice.noConfusion))

theorem onActionHandleCallback_grows (env : MessageEnv) (message : Payload) (t : Template) :
    Grows t (onActionHandleCallback env message t).1 (onActionHandleCallback env message t).2 := by
  have hhalted : Grows t { t with halted := true } [] := Grows.of_same rfl rfl rfl
  unfold onActionHandleCallback
  -- a field that is not found ends the handler, an overrun halts the client
  repeat' split
  all_goals first
    | exact hhalted
    | exact Grows.refl t
    | exact walkNodes_grows (handleActionNode_grows env _ _ _ _) _ t

end Handlers

section Steps
variable {t : Template} {log : List Notice}

/-- What a step of the client does to the requests: it keeps them, and its calls are justified. -/
def KeptBy (op : Op) (log : List Notice) (t' : Template) (events : List Notice) : Prop :=
  Kept t' (log ++ events) ∧
    ∀ request ack document, .called request ack document ∈ events → Justified op request ack

theorem KeptBy.of_grows {op : Op} {t' : Template} {events : List Notice} (h : Kept t log)
    (hgrows : Grows t t' events) : KeptBy op log t' events :=
  ⟨h.grow hgrows, fun request ack document hmem => absurd hmem (hgrows.quiet request ack document)⟩

theorem handleTemplateExpiredReply_kept (react : Reaction) (iterOk : Bool) (clock : ℕ → ℕ)
    (h : Kept t log) :
    KeptBy (.expiredReply react iterOk clock) log
      (handleTemplateExpiredReply react iterOk clock t).1
      (handleTemplateExpiredReply react iterOk clock t).2 := by
  unfold handleTemplateExpiredReply
  split_ifs
  · exact KeptBy.of_grows h (Grows.refl t)
  · apply walkNodes_handles t.cloudRcvBuf _ h.distinct _ rfl h
    · intro node _ t' log' hmem _ hkept
      apply handleTemplateExpiredReplyCallback_handles react clock hkept hmem
      exact fun hexpired => ⟨rfl, hexpired⟩
    · intro node hmem
      exact List.mem_reverse.mp hmem

theorem onTemplateDownstreamTopicHandler_kept (env : MessageEnv) (message : Payload)
    (h : Kept t log) (hreads : Reads t (.downstream env message)) :
    KeptBy (.downstream env message) log (onTemplateDownstreamTopicHandler env message t).1
      (onTemplateDownstreamTopicHandler env message t).2 := by
  unfold onTemplateDownstreamTopicHandler
  split_ifs with htopic hlen
  · exact KeptBy.of_grows h (Grows.refl t)
  · exact KeptBy.of_grows h (Grows.refl t)
  · have hreads := hreads htopic (Nat.le_of_not_lt hlen)
    have hbuffer : Kept { t with cloudRcvBuf := copiedText message } log := ⟨h.1, h.2, h.3, h.4⟩
    unfold handleDownstreamText
    dsimp only
    cases htype : parseTemplateMethodType (copiedText message ++ 0 :: env.behind) with
    | error e => exact KeptBy.of_grows hbuffer (Grows.of_same rfl rfl rfl)
    | ok type =>
      cases type with
      | none => exact KeptBy.of_grows hbuffer (Grows.refl _)
      | some type =>
        cases htoken : parseClientToken (copiedText message ++ 0 :: env.behind) with
        | error e => exact KeptBy.of_grows hbuffer (Grows.of_same rfl rfl rfl)
        | ok clientToken =>
          cases clientToken with
          | none => exact KeptBy.of_grows hbuffer (Grows.refl _)
          | some clientToken =>
            dsimp only
            split_ifs with hcontrol hskipped
            · exact KeptBy.of_grows hbuffer (handleControlMessage_grows env clientToken _)
            · exact KeptBy.of_grows hbuffer (Grows.refl _)
            · have hiter : env.iterOk = true := by
                rw [not_or] at hskipped
                simpa using hskipped.2
              have hreads := hreads hiter type clientToken htype htoken hcontrol
              apply walkNodes_handles (copiedText message) _ hbuffer.distinct _ rfl hbuffer
              · intro node hnode t' log' hmem hbuffer' hkept
                have hreads := hreads node (List.mem_reverse.mp hnode)
                rw [← hbuffer'] at hreads
                apply handleTemplateReplyCallback_handles env.react env.behind type hkept hmem
                · exact fun hsame => (hreads hsame).2
                · intro hsame code hcode
                  rw [hbuffer'] at hcode
                  rw [← (hreads hsame).1] at htoken
                  exact ⟨htoken, code, hcode, rfl⟩
              · intro node hmem
                exact List.mem_reverse.mp hmem

theorem handleTemplateExpiredEvent_grows (iterOk : Bool) (clock : ℕ → ℕ) (t : Template) :
    Grows t (handleTemplateExpiredEvent iterOk clock t) [] := by
  unfold handleTemplateExpiredEvent
  split_ifs
  · exact Grows.refl t
  · exact Grows.of_same rfl rfl rfl

theorem step_kept (op : Op) (h : Kept t log) (hreads : Reads t op) :
    KeptBy op log (step op t).1 (step op t).2 := by
  unfold step
  split_ifs
  · exact KeptBy.of_grows h (Grows.refl t)
  · cases op with
    | request call => exact KeptBy.of_grows h (sendTemplateRequest_grows call t)
    | downstream env message => exact onTemplateDownstreamTopicHandler_kept env message h hreads
    | expiredReply react iterOk clock => exact handleTemplateExpiredReply_kept react iterOk clock h
    | expiredEvent iterOk clock => exact KeptBy.of_grows h (handleTemplateExpiredEvent_grows _ _ t)
    | eventReply env message => exact KeptBy.of_grows h (onEventReplyCallback_grows env message t)
    | action env message => exact KeptBy.of_grows h (onActionHandleCallback_grows env message t)

theorem init_kept (mqtt : ClientState.Client) (eventHandle : Bool) (usrControlHandle : Option ℕ) :
    Kept (Template.init mqtt eventHandle usrControlHandle) [] where
  answered := fun _ => rfl
  accepted := fun _ => rfl
  listed := fun _ hmem => absurd hmem List.not_mem_nil
  called := fun _ _ _ hmem => absurd hmem List.not_mem_nil

theorem run_kept {ops : List Op} (h : Kept t log) (hreads : Along step Reads ops t) :
    Kept (run step ops t).1 (log ++ (run step ops t).2) := by
  have hstep : ∀ t log op, Kept t log → Reads t op → Kept (step op t).1 (log ++ (step op t).2) :=
    fun t log op hkept hop => (step_kept op hkept hop).1
  exact run_history hstep h hreads

theorem eq_of_countP_le_one {α : Type} {p : α → Bool} {l : List α} {a b : α}
    (hone : l.countP p ≤ 1) (ha : a ∈ l) (hb : b ∈ l) (hpa : p a = true) (hpb : p b = true) :
    a = b := by
  have ha := List.mem_filter.mpr ⟨ha, hpa⟩
  have hb := List.mem_filter.mpr ⟨hb, hpb⟩
  rw [List.countP_eq_length_filter] at hone
  cases hfilter : l.filter p with
  | nil => simp [hfilter] at ha
  | cons c rest =>
    have hrest : rest = [] := by simpa [hfilter] using hone
    simp only [hfilter, hrest, List.mem_singleton] at ha hb
    exact ha.trans hb.symm

/-- The serial number of an accepted request is its own. -/
theorem Kept.serials (h : Kept t log) {request request' : Request} (hmem : .accepted request ∈ log)
    (hmem' : .accepted request' ∈ log) (hserial : request.serial = request'.serial) :
    request = request' := by
  have hone : acceptances request.serial log ≤ 1 := by
    rw [h.accepted]
    split_ifs <;> omega
  rw [acceptances] at hone
  have hsame := eq_of_countP_le_one hone hmem hmem' (beq_self_eq_true request.serial)
    (beq_iff_eq.mpr hserial.symm)
  exact Notice.accepted.inj hsame

theorem Kept.settled (h : Kept t log) {request : Request} (hmem : .accepted request ∈ log) :
    request ∈ t.replyList ∧ calls request.serial log = 0 ∨
      request ∉ t.replyList ∧ calls request.serial log = 1 := by
  have hanswered := h.answered request.serial
  have haccepted := h.accepted request.serial
  have hone : acceptances request.serial log ≠ 0 := by
    rw [acceptances, Ne, List.countP_eq_zero]
    intro hnone
    exact hnone _ hmem (beq_self_eq_true request.serial)
  have hcount : acceptances request.serial log = 1 := by
    split_ifs at haccepted <;> omega
  by_cases hlisted : request ∈ t.replyList
  · left
    have hwaiting := one_le_waiting hlisted
    exact ⟨hlisted, by omega⟩
  · right
    have hwaiting : waiting request.serial t = 0 := by
      rw [waiting, List.countP_eq_zero]
      intro other hother hserial
      have hsame := h.serials (h.listed other hother).2 hmem (beq_iff_eq.mp hserial)
      exact hlisted (hsame ▸ hother)
    exact ⟨hlisted, by omega⟩

theorem Kept.toAnswered (h : Kept t log) : Answered t log where
  settled := fun _ hmem => h.settled hmem
  serials := fun _ _ hmem hmem' hserial => h.serials hmem hmem' hserial
  known := h.called

/-- In every run whose replies have a code that can be read, every request is answered once, and
for a reason. -/
theorem requests_answered (mqtt : ClientState.Client) (eventHandle : Bool)
    (usrControlHandle : Option ℕ) (ops : List Op)
    (hreads : Along step Reads ops (Template.init mqtt eventHandle usrControlHandle)) :
    AnswersRequests ops (Template.init mqtt eventHandle usrControlHandle) := by
  have hinit := init_kept mqtt eventHandle usrControlHandle
  constructor
  · exact (run_kept hinit hreads).toAnswered
  · rintro front op back rfl request ack document hcalled
    have hfront := ((along_append step Reads front (op :: back) _).mp hreads).1
    exact (step_kept op (run_kept hinit hfront) hreads.at).2 request ack document hcalled

def tokenRequest : RequestCall where
  method := .report
  timeoutSec := 5
  requestCallback := some 1
  userContext := none
  jsonDoc := ascii "\x7b\"clientToken\":\"t\"\x7d"
  sizeOfBuffer := 200
  behind := []
  publish := .success
  requestOk := true
  nodeOk := true
  now := 0
  beyond := []

/-- An environment in which nothing fails and no callback sends anything. -/
def quietEnv : MessageEnv where
  react := fun _ => []
  iterOk := true
  behind := []
  scanFloat := fun _ => none

/-- The reply to the request, with these bytes behind its token. -/
def reply (rest : String) : Payload :=
  let text := ascii ("\x7b\"method\":\"report_reply\",\"clientToken\":\"t\"" ++ rest)
  ⟨text, text.length, 1⟩

def startTemplate : Template :=
  Template.init (ClientState.Client.init 5 5000 true ⟨⟨[], 4, 240, true⟩, true⟩) true none

/-- A request and its reply, then an expiry walk. -/
theorem requests_answered_reply : AnswersRequests
    [.request tokenRequest, .downstream quietEnv (reply ",\"code\":0\x7d"),
      .expiredReply quietEnv.react true fun _ => 9000] startTemplate := by
  apply requests_answered
  refine ⟨trivial, ?_, trivial, trivial⟩
  intro _ _ _ type clientToken _ htoken _ request hmem _
  have hread : parseClientToken (copiedText (reply ",\"code\":0\x7d") ++ [0]) =
      .ok (some [0x74]) := by
    decide
  have hlist : (step (.request tokenRequest) startTemplate).1.replyList.map Request.sentToken =
      [[0x74]] := by decide
  have hsent : request.sentToken ∈
      (step (.request tokenRequest) startTemplate).1.replyList.map Request.sentToken :=
    List.mem_map_of_mem hmem
  rw [hlist, List.mem_singleton] at hsent
  constructor
  · apply hsent.trans
    exact Option.some.inj (Except.ok.inj (hread.symm.trans htoken))
  · decide

/-- A reply without a code: the request is removed and its callback is not called. -/
theorem codeless_reply :
    ¬ AnswersRequests [.request tokenRequest, .downstream quietEnv (reply "\x7d")]
      startTemplate := by
  intro h
  have hlog : (run step [.request tokenRequest, .downstream quietEnv (reply "\x7d")]
      startTemplate).2 =
      [.accepted ⟨0, [0x74], [0x74], .report, none, 5000, some 1⟩] := by decide
  have hlist : (run step [.request tokenRequest, .downstream quietEnv (reply "\x7d")]
      startTemplate).1.replyList = [] := by decide
  have hsettled := h.1.settled ⟨0, [0x74], [0x74], .report, none, 5000, some 1⟩
  rw [hlog, hlist] at hsettled
  rcases hsettled (List.mem_cons_self ..) with ⟨hmem, -⟩ | ⟨-, hcalls⟩
  · exact List.not_mem_nil hmem
  · exact absurd hcalls (by decide)

end Steps

end IotExplorer.TemplateRequests
