import IotExplorer.Basis.Outcomes
import IotExplorer.FileManageClient
import Mathlib.Data.List.Nodup

/-!
The results of speech recognition. A request waits in a list until its results have
arrived; a result names its request by a token, and the lookup walks the list from the
tail, takes requests without a token out when they have expired, and ends with the request
that it examined last when none has the token.
-/
namespace IotExplorer.AsrResults

open Basis.Outcomes Basis.JsonText JsonParser TemplateJson HttpClient

section Requests

/-- `AsrReq`, as far as a result is concerned: where it is, whether its timer has expired, whether
it has a callback, and its token when that has arrived. -/
structure AsrReq where
  address : ℕ
  requestId : ℤ
  expired : Bool
  resultCb : Bool
  asrToken : Option (List UInt8)
  deriving DecidableEq, Repr

structure Pending where
  reqs : List AsrReq
  distinct : (reqs.map AsrReq.address).Nodup

/-- What goes wrong outside of the list: a lookup reads behind the text, or a request is removed
without its node. -/
inductive Fault
  | overrun
  | noNode
  deriving DecidableEq, Repr

/-- The memory of a call: for the copies of the values, for the iterator of the lookup and for that
of `qcloud_list_find`. -/
structure Memory where
  alloc : List UInt8 → Bool
  iter : Bool
  find : Bool

structure Call where
  address : ℕ
  requestId : ℤ
  resText : List UInt8
  totalNum : ℤ
  seq : ℤ
  deriving DecidableEq, Repr

/-- What `_asr_result_notify` leaves, calls and returns. -/
structure Notified where
  reqs : List AsrReq
  calls : List Call
  code : ℤ
  deriving DecidableEq, Repr

def keyAsrResult : List UInt8 := ascii "result_code"

def keyAsrToken : List UInt8 := ascii "resource_token"

def keyAsrTextSegs : List UInt8 := ascii "total_num"

def keyAsrTextSeq : List UInt8 := ascii "seq"

def keyAsrText : List UInt8 := ascii "res_text"

/-- The loop of `_get_req_node_by_asr_token`, over the nodes from the tail, with the value of
`req`. -/
def walkNodes (asrToken : List UInt8) (req : Option AsrReq) :
    List AsrReq → List AsrReq × Option AsrReq
  | [] => ([], req)
  | node :: nodes =>
      match node.asrToken with
      | some token =>
          if token = asrToken then (node :: nodes, some node)
          else
            let walked := walkNodes asrToken (some node) nodes
            (node :: walked.1, walked.2)
      | none =>
          let walked := walkNodes asrToken none nodes
          (if node.expired then walked.1 else node :: walked.1, walked.2)

/-- `_get_req_node_by_asr_token`: the requests that stay, and the one that is returned. -/
def getReqNodeByAsrToken (iter : Bool) (asrToken : List UInt8) (reqs : List AsrReq) :
    List AsrReq × Option AsrReq :=
  if reqs.length = 0 ∨ !iter then (reqs, none)
  else
    let walked := walkNodes asrToken none reqs.reverse
    (walked.1.reverse, walked.2)

/-- `qcloud_list_remove` for the node that `qcloud_list_find` finds. -/
def removeReq (find : Bool) (req : AsrReq) (reqs : List AsrReq) : Except Fault (List AsrReq) :=
  if find ∧ req.address ∈ reqs.map AsrReq.address then
    .ok (reqs.eraseP fun node => node.address = req.address)
  else .error .noNode

/-- `LITE_json_value_of`, whose copies may not be allocated. -/
def read (memory : Memory) (doc : Ptr) (key : List UInt8) : Except Fault (Option (List UInt8)) :=
  match FileManageClient.lookup memory.alloc doc key with
  | .error _ => .error .overrun
  | .ok value => .ok value

def resultCalls (memory : Memory) (doc : Ptr) (req : AsrReq) (num seq : ℤ) :
    Except Fault (List Call) := do
  if req.resultCb then
    let asrTxt ← read memory doc keyAsrText
    return [⟨req.address, req.requestId, asrTxt.getD (ascii "NULL"), num, seq⟩]
  else return []

/-- `_asr_result_notify`, when the request is found. -/
def notifyReq (memory : Memory) (doc : Ptr) (rc : ℤ) (req : AsrReq) (reqs : List AsrReq) :
    Except Fault Notified := do
  if rc = 0 then
    let strNum ← read memory doc keyAsrTextSegs
    let strSeq ← read memory doc keyAsrTextSeq
    match strNum, strSeq with
    | some strNum, some strSeq =>
        let num := atoi strNum
        let seq := atoi strSeq
        let calls ← resultCalls memory doc req num seq
        if num = seq ∨ num < 2 then return ⟨← removeReq memory.find req reqs, calls, rc⟩
        else return ⟨reqs, calls, rc⟩
    | _, _ => return ⟨reqs, [], -132⟩
  else return ⟨← removeReq memory.find req reqs, [], rc⟩

def asrResultNotify (memory : Memory) (doc : Ptr) (reqs : List AsrReq) : Except Fault Notified := do
  let strResult ← read memory doc keyAsrResult
  let asrToken ← read memory doc keyAsrToken
  match strResult, asrToken with
  | some strResult, some asrToken =>
      match getReqNodeByAsrToken memory.iter asrToken reqs with
      | (reqs, none) => return ⟨reqs, [], -1001⟩
      | (reqs, some req) => notifyReq memory doc (atoi strResult) req reqs
  | _, _ => return ⟨reqs, [], -132⟩

end Requests

section Right

/-- What a lookup finds, with the memory of the call. -/
def seen (memory : Memory) (doc : Ptr) (key : List UInt8) : Option (List UInt8) :=
  match FileManageClient.lookup memory.alloc doc key with
  | .error _ => none
  | .ok value => value

/-- The request has the token of the document. -/
def Mine (memory : Memory) (doc : Ptr) (req : AsrReq) : Prop :=
  req.asrToken ≠ none ∧ req.asrToken = seen memory doc keyAsrToken

/-- The total and the number of the segment in the document, which is not an error result. -/
def segment (memory : Memory) (doc : Ptr) : Option (ℤ × ℤ) :=
  match seen memory doc keyAsrResult, seen memory doc keyAsrTextSegs,
    seen memory doc keyAsrTextSeq with
  | some strResult, some strNum, some strSeq =>
      if atoi strResult = 0 then some (atoi strNum, atoi strSeq) else none
  | _, _, _ => none

/-- The document is an error result, or the last segment. -/
def finishes (memory : Memory) (doc : Ptr) : Bool :=
  ((seen memory doc keyAsrResult).any fun strResult => atoi strResult ≠ 0) ||
    (segment memory doc).any fun segment => segment.1 = segment.2 ∨ segment.1 < 2

/-- The callbacks that are called are those of the requests with the token, for a segment; what
stays is as it was; and a request is taken out exactly when the document finishes it or it has
expired. -/
def NotifyRight (memory : Memory) (doc : Ptr) (pending : Pending) : Prop :=
  Runs (asrResultNotify memory doc pending.reqs) fun notified =>
    (∀ call ∈ notified.calls, ∃ req ∈ pending.reqs, call.address = req.address) ∧
    (∀ req ∈ pending.reqs, (∃ call ∈ notified.calls, call.address = req.address) ↔
      Mine memory doc req ∧ segment memory doc ≠ none ∧ req.resultCb) ∧
    notified.reqs.Sublist pending.reqs ∧
    ∀ req ∈ pending.reqs, req ∉ notified.reqs ↔ Mine memory doc req ∧ finishes memory doc ∨
      req.expired

/-- The token of the document, when the list is asked for it. -/
def asked (memory : Memory) (doc : Ptr) : Option (List UInt8) :=
  if seen memory doc keyAsrResult ≠ none ∧ memory.iter then seen memory doc keyAsrToken else none

def passed (asrToken : List UInt8) (reqs : List AsrReq) : List AsrReq :=
  reqs.reverse.takeWhile fun req => req.asrToken ≠ some asrToken

/-- The last request with the token; if there is none, the first of all, when it has a token. -/
def found (asrToken : List UInt8) (reqs : List AsrReq) : Option AsrReq :=
  (reqs.reverse.find? fun req => req.asrToken = some asrToken).or
    (reqs.head?.filter fun req => req.asrToken.isSome)

/-- The request that the document is taken to be for. -/
def hit (memory : Memory) (doc : Ptr) (reqs : List AsrReq) : Option AsrReq :=
  (asked memory doc).bind fun asrToken => found asrToken reqs

/-- The request has expired, and the lookup comes past it and finds no token. -/
def TimedOut (memory : Memory) (doc : Ptr) (reqs : List AsrReq) (req : AsrReq) : Prop :=
  ∃ asrToken, asked memory doc = some asrToken ∧ req ∈ passed asrToken reqs ∧ req.asrToken = none ∧
    req.expired

/-- A lookup stays in the text. -/
def Readable (memory : Memory) (doc : Ptr) (key : List UInt8) : Prop :=
  ∃ value, FileManageClient.lookup memory.alloc doc key = .ok value

def lookups (memory : Memory) (doc : Ptr) (reqs : List AsrReq) : List (List UInt8) :=
  [keyAsrResult, keyAsrToken] ++
    match hit memory doc reqs, seen memory doc keyAsrResult with
    | some req, some strResult =>
        if atoi strResult = 0 then
          [keyAsrTextSegs, keyAsrTextSeq] ++
            if segment memory doc ≠ none ∧ req.resultCb then [keyAsrText] else []
        else []
    | _, _ => []

/-- When a document is handled right: its lookups stay in the text, and there is memory for the node
that is removed; a request that the document is for, and on which it has an effect, is the one that
is found; if another is found, the document has no effect on it, but that an expired request may be
taken out; and each expired request is met without a token, or is finished. -/
structure NotifyFits (memory : Memory) (doc : Ptr) (pending : Pending) : Prop where
  readable : ∀ key ∈ lookups memory doc pending.reqs, Readable memory doc key
  node : hit memory doc pending.reqs ≠ none → finishes memory doc → memory.find
  mine : ∀ req ∈ pending.reqs, Mine memory doc req →
    segment memory doc ≠ none ∧ req.resultCb ∨ finishes memory doc →
      hit memory doc pending.reqs = some req
  stranger : ∀ req, hit memory doc pending.reqs = some req → ¬Mine memory doc req →
    ¬(segment memory doc ≠ none ∧ req.resultCb) ∧ (finishes memory doc → req.expired)
  expired : ∀ req ∈ pending.reqs, req.expired → TimedOut memory doc pending.reqs req ∨
    hit memory doc pending.reqs = some req ∧ finishes memory doc

end Right

section Lookup
variable {asrToken : List UInt8} {reqs : List AsrReq} {req : AsrReq}

/-- A request that the lookup leaves, if it comes past it. -/
def stays (req : AsrReq) : Bool := req.asrToken.isSome || !req.expired

theorem walkNodes_eq (asrToken : List UInt8) (last : Option AsrReq) (nodes : List AsrReq) :
    walkNodes asrToken last nodes =
      ((nodes.takeWhile fun req => req.asrToken ≠ some asrToken).filter stays ++
          nodes.dropWhile fun req => req.asrToken ≠ some asrToken,
        (nodes.find? fun req => req.asrToken = some asrToken).or
          (nodes.getLast?.elim last fun req =>
            if req.asrToken.isSome then some req else none)) := by
  induction nodes generalizing last with
  | nil => rfl
  | cons node nodes ih =>
    cases htoken : node.asrToken with
    | some token =>
      by_cases heq : token = asrToken
      · simp [walkNodes, htoken, heq]
      · have hlast : (nodes.getLast?.elim (some node)
              fun req => if req.asrToken.isSome then some req else none) =
            (node :: nodes).getLast?.elim last fun req =>
              if req.asrToken.isSome then some req else none := by
          rw [List.getLast?_cons]
          cases nodes.getLast? <;> simp [htoken]
        rw [← hlast]
        simp [walkNodes, htoken, heq, ih, stays]
    | none =>
      have hlast : (nodes.getLast?.elim none fun req =>
          if req.asrToken.isSome then some req else none) =
          (node :: nodes).getLast?.elim last fun req =>
            if req.asrToken.isSome then some req else none := by
        rw [List.getLast?_cons]
        cases nodes.getLast? <;> simp [htoken]
      rw [← hlast]
      cases hexpired : node.expired <;> simp [walkNodes, htoken, ih, stays, hexpired]

def left (asrToken : List UInt8) (reqs : List AsrReq) : List AsrReq :=
  ((passed asrToken reqs).filter stays ++
    reqs.reverse.dropWhile fun req => req.asrToken ≠ some asrToken).reverse

theorem getReqNodeByAsrToken_eq (asrToken : List UInt8) (reqs : List AsrReq) :
    getReqNodeByAsrToken true asrToken reqs = (left asrToken reqs, found asrToken reqs) := by
  unfold getReqNodeByAsrToken
  by_cases hnil : reqs.length = 0
  · rw [List.length_eq_zero_iff.mp hnil]
    rfl
  · rw [if_neg (by simpa using hnil), walkNodes_eq]
    unfold left found passed
    rw [List.getLast?_reverse]
    cases reqs.head? <;> simp [Option.filter]

theorem left_sublist (asrToken : List UInt8) (reqs : List AsrReq) :
    (left asrToken reqs).Sublist reqs := by
  have hsub : ((passed asrToken reqs).filter stays ++
      reqs.reverse.dropWhile fun req => req.asrToken ≠ some asrToken).Sublist reqs.reverse := by
    have happend := (List.filter_sublist (l := passed asrToken reqs) (p := stays)).append
      (List.Sublist.refl (reqs.reverse.dropWhile fun req => req.asrToken ≠ some asrToken))
    rwa [passed, List.takeWhile_append_dropWhile] at happend
  have hreverse := hsub.reverse
  rwa [List.reverse_reverse] at hreverse

/-- The lookup takes out what it passes without a token, when that has expired. -/
theorem not_mem_left (hnodup : reqs.Nodup) (hmem : req ∈ reqs) :
    req ∉ left asrToken reqs ↔ req ∈ passed asrToken reqs ∧ req.asrToken = none ∧ req.expired := by
  have hsplit : passed asrToken reqs ++
      (reqs.reverse.dropWhile fun req => req.asrToken ≠ some asrToken) =
      reqs.reverse := List.takeWhile_append_dropWhile
  have hall := List.mem_reverse.mpr hmem
  have hboth := (List.reverse_perm reqs).nodup_iff.mpr hnodup
  rw [← hsplit] at hall hboth
  unfold left
  rw [List.mem_reverse, List.mem_append, List.mem_filter, not_or]
  constructor
  · rintro ⟨hstays, hdrop⟩
    have hpassed := (List.mem_append.mp hall).resolve_right hdrop
    have hgoes : ¬stays req := fun hreq => hstays ⟨hpassed, hreq⟩
    refine ⟨hpassed, ?_⟩
    simpa [stays] using hgoes
  · rintro ⟨hpassed, htoken, hexpired⟩
    refine ⟨fun hstays => ?_,
      fun hdrop => (List.nodup_append.mp hboth).2.2 req hpassed req hdrop rfl⟩
    have hreq := hstays.2
    simp [stays, htoken, hexpired] at hreq

theorem found_mem (h : found asrToken reqs = some req) : req ∈ reqs ∧ req.asrToken ≠ none := by
  unfold found at h
  rcases Option.or_eq_some_iff.mp h with hfind | ⟨-, hhead⟩
  · have htoken := List.find?_some hfind
    exact ⟨List.mem_reverse.mp (List.mem_of_find?_eq_some hfind), by simp_all⟩
  · obtain ⟨hhead, htoken⟩ := Option.filter_eq_some_iff.mp hhead
    exact ⟨List.mem_of_head? hhead, Option.isSome_iff_ne_none.mp htoken⟩

theorem mem_left_of_token (hmem : req ∈ reqs) (htoken : req.asrToken ≠ none) :
    req ∈ left asrToken reqs := by
  have hsplit : passed asrToken reqs ++
      (reqs.reverse.dropWhile fun req => req.asrToken ≠ some asrToken) =
      reqs.reverse := List.takeWhile_append_dropWhile
  have hall := List.mem_reverse.mpr hmem
  rw [← hsplit] at hall
  have hstays : stays req = true := by simp [stays, Option.isSome_iff_ne_none.mpr htoken]
  exact List.mem_reverse.mpr (List.mem_append.mpr
    ((List.mem_append.mp hall).imp_left fun hpassed => List.mem_filter.mpr ⟨hpassed, hstays⟩))

end Lookup

section Outcomes
variable {memory : Memory} {doc : Ptr} {key : List UInt8} {reqs : List AsrReq}
  {req : AsrReq} {rc : ℤ}

theorem runs_read (post : Option (List UInt8) → Prop) :
    Runs (read memory doc key) post ↔ Readable memory doc key ∧ post (seen memory doc key) := by
  unfold read seen Readable
  cases FileManageClient.lookup memory.alloc doc key with
  | error e => simp
  | ok value => simp

theorem runs_removeReq {find : Bool} (hmem : req.address ∈ reqs.map AsrReq.address)
    (post : List AsrReq → Prop) : Runs (removeReq find req reqs) post ↔
      find ∧ post (reqs.eraseP fun node => node.address = req.address) := by
  unfold removeReq
  cases find <;> simp [hmem]

def callsFor (memory : Memory) (doc : Ptr) (req : AsrReq) : List Call :=
  match segment memory doc with
  | some (num, seq) =>
      if req.resultCb then
        [⟨req.address, req.requestId, (seen memory doc keyAsrText).getD (ascii "NULL"), num, seq⟩]
      else []
  | none => []

theorem runs_resultCalls {num seq : ℤ} (hsegment : segment memory doc = some (num, seq))
    (post : List Call → Prop) : Runs (resultCalls memory doc req num seq) post ↔
      (req.resultCb → Readable memory doc keyAsrText) ∧ post (callsFor memory doc req) := by
  unfold resultCalls callsFor
  rw [hsegment]
  cases req.resultCb with
  | false => simp
  | true =>
    simp only [if_true, forall_const]
    rw [runs_bind, runs_read]
    rfl

/-- The request that is found is taken out when the document finishes it. -/
def finish (memory : Memory) (doc : Ptr) (req : AsrReq) (reqs : List AsrReq) : List AsrReq :=
  if finishes memory doc then reqs.eraseP fun node => node.address = req.address else reqs

theorem runs_notifyReq {strResult : List UInt8}
    (hresult : seen memory doc keyAsrResult = some strResult)
    (hmem : req.address ∈ reqs.map AsrReq.address) (post : List AsrReq → List Call → Prop) :
    Runs (notifyReq memory doc (atoi strResult) req reqs)
      (fun notified => post notified.reqs notified.calls) ↔
      (∀ key ∈ (if atoi strResult = 0 then
          [keyAsrTextSegs, keyAsrTextSeq] ++
            if segment memory doc ≠ none ∧ req.resultCb then [keyAsrText] else []
        else []), Readable memory doc key) ∧
      (finishes memory doc → memory.find) ∧
        post (finish memory doc req reqs) (callsFor memory doc req) := by
  unfold notifyReq
  by_cases hrc : atoi strResult = 0
  · rw [if_pos hrc, if_pos hrc, runs_bind, runs_read, runs_bind, runs_read]
    cases hnum : seen memory doc keyAsrTextSegs with
    | none =>
      have hsegment : segment memory doc = none := by simp [segment, hnum]
      have hfinishes : finishes memory doc = false := by simp [finishes, hresult, hrc, hsegment]
      simp [hsegment, hfinishes, finish, callsFor, and_assoc]
    | some strNum =>
      cases hseq : seen memory doc keyAsrTextSeq with
      | none =>
        have hsegment : segment memory doc = none := by simp [segment, hseq]
        have hfinishes : finishes memory doc = false := by simp [finishes, hresult, hrc, hsegment]
        simp [hsegment, hfinishes, finish, callsFor, and_assoc]
      | some strSeq =>
        have hsegment : segment memory doc = some (atoi strNum, atoi strSeq) := by
          simp [segment, hresult, hnum, hseq, hrc]
        have hfinishes : finishes memory doc = true ↔
            atoi strNum = atoi strSeq ∨ atoi strNum < 2 := by
          simp [finishes, hresult, hrc, hsegment]
        have hkeys : (∀ key ∈ [keyAsrTextSegs, keyAsrTextSeq] ++
              (if segment memory doc ≠ none ∧ req.resultCb then [keyAsrText] else []),
                Readable memory doc key) ↔
            Readable memory doc keyAsrTextSegs ∧ Readable memory doc keyAsrTextSeq ∧
              (req.resultCb → Readable memory doc keyAsrText) := by
          cases req.resultCb <;> simp [hsegment]
        dsimp only
        rw [runs_bind, runs_resultCalls hsegment, hkeys, and_assoc, and_assoc]
        by_cases hlast : atoi strNum = atoi strSeq ∨ atoi strNum < 2
        · rw [if_pos hlast, runs_bind, runs_removeReq hmem]
          simp [finish, hfinishes.mpr hlast]
        · have hgoes : finishes memory doc = false :=
            Bool.eq_false_iff.mpr fun h => hlast (hfinishes.mp h)
          rw [if_neg hlast]
          simp [finish, hgoes]
  · rw [if_neg hrc, if_neg hrc, runs_bind, runs_removeReq hmem]
    have hfinishes : finishes memory doc = true := by simp [finishes, hresult, hrc]
    have hsegment : segment memory doc = none := by
      unfold segment
      rw [hresult]
      cases seen memory doc keyAsrTextSegs <;> cases seen memory doc keyAsrTextSeq <;> simp [hrc]
    simp [hfinishes, finish, callsFor, hsegment]

/-- The requests that stay in the list when the document has been looked up. -/
def kept (memory : Memory) (doc : Ptr) (reqs : List AsrReq) : List AsrReq :=
  match asked memory doc with
  | some asrToken => left asrToken reqs
  | none => reqs

def remaining (memory : Memory) (doc : Ptr) (reqs : List AsrReq) : List AsrReq :=
  match hit memory doc reqs with
  | none => kept memory doc reqs
  | some req => finish memory doc req (kept memory doc reqs)

def called (memory : Memory) (doc : Ptr) (reqs : List AsrReq) : List Call :=
  match hit memory doc reqs with
  | none => []
  | some req => callsFor memory doc req

/-- What `_asr_result_notify` does. -/
theorem runs_asrResultNotify (post : List AsrReq → List Call → Prop) :
    Runs (asrResultNotify memory doc reqs) (fun notified => post notified.reqs notified.calls) ↔
      (∀ key ∈ lookups memory doc reqs, Readable memory doc key) ∧
      (hit memory doc reqs ≠ none → finishes memory doc → memory.find) ∧
      post (remaining memory doc reqs) (called memory doc reqs) := by
  unfold asrResultNotify remaining called
  rw [runs_bind, runs_read, runs_bind, runs_read]
  cases hresult : seen memory doc keyAsrResult with
  | none =>
    have hasked : asked memory doc = none := by simp [asked, hresult]
    simp [lookups, hit, hasked, kept, and_assoc]
  | some strResult =>
    cases htoken : seen memory doc keyAsrToken with
    | none =>
      have hasked : asked memory doc = none := by simp [asked, htoken]
      simp [lookups, hit, hasked, kept, and_assoc]
    | some asrToken =>
      dsimp only
      cases hiter : memory.iter with
      | false =>
        have hasked : asked memory doc = none := by simp [asked, hiter]
        simp [getReqNodeByAsrToken, lookups, hit, hasked, kept, and_assoc]
      | true =>
        have hasked : asked memory doc = some asrToken := by simp [asked, hiter, hresult, htoken]
        rw [getReqNodeByAsrToken_eq]
        cases hfound : found asrToken reqs with
        | none => simp [lookups, hit, hasked, hfound, kept, and_assoc]
        | some req =>
          obtain ⟨hmem, hsome⟩ := found_mem hfound
          have hleft : req.address ∈ (left asrToken reqs).map AsrReq.address :=
            List.mem_map_of_mem (mem_left_of_token hmem hsome)
          have hhit : hit memory doc reqs = some req := by simp [hit, hasked, hfound]
          have hkept : kept memory doc reqs = left asrToken reqs := by simp [kept, hasked]
          dsimp only
          rw [runs_notifyReq hresult hleft, hkept, hhit]
          unfold lookups
          rw [hhit, hresult]
          simp [and_assoc, or_imp, forall_and]

end Outcomes

section Results
variable {memory : Memory} {doc : Ptr} {pending : Pending} {req : AsrReq}

theorem Pending.nodup (pending : Pending) : pending.reqs.Nodup :=
  List.Nodup.of_map _ pending.distinct

/-- A request is where its address says. -/
theorem Pending.eq_of_address (pending : Pending) {req req' : AsrReq} (hmem : req ∈ pending.reqs)
    (hmem' : req' ∈ pending.reqs) (h : req.address = req'.address) : req = req' :=
  List.inj_on_of_nodup_map pending.distinct hmem hmem' h

theorem hit_mem (h : hit memory doc pending.reqs = some req) : req ∈ pending.reqs := by
  obtain ⟨asrToken, -, hfound⟩ := Option.bind_eq_some_iff.mp h
  exact (found_mem hfound).1

theorem kept_sublist (memory : Memory) (doc : Ptr) (reqs : List AsrReq) :
    (kept memory doc reqs).Sublist reqs := by
  unfold kept
  cases asked memory doc with
  | none => exact List.Sublist.refl reqs
  | some asrToken => exact left_sublist asrToken reqs

theorem remaining_sublist (memory : Memory) (doc : Ptr) (reqs : List AsrReq) :
    (remaining memory doc reqs).Sublist reqs := by
  have hkept := kept_sublist memory doc reqs
  unfold remaining finish
  cases hit memory doc reqs with
  | none => exact hkept
  | some req =>
    dsimp only
    split_ifs
    · exact List.eraseP_sublist.trans hkept
    · exact hkept

theorem not_mem_kept (hmem : req ∈ pending.reqs) :
    req ∉ kept memory doc pending.reqs ↔ TimedOut memory doc pending.reqs req := by
  unfold kept TimedOut
  cases asked memory doc with
  | none => simpa using hmem
  | some asrToken =>
    rw [not_mem_left pending.nodup hmem]
    simp

/-- A request is removed with its node. -/
theorem not_mem_eraseP {reqs : List AsrReq} (hdistinct : (reqs.map AsrReq.address).Nodup) :
    req ∉ reqs.eraseP fun node => node.address = req.address := by
  induction reqs with
  | nil => exact List.not_mem_nil
  | cons node reqs ih =>
    obtain ⟨hnode, hrest⟩ := List.nodup_cons.mp hdistinct
    by_cases heq : node.address = req.address
    · rw [List.eraseP_cons_of_pos (by simpa using heq)]
      exact fun hmem => hnode (heq ▸ List.mem_map_of_mem hmem)
    · rw [List.eraseP_cons_of_neg (by simpa using heq), List.mem_cons, not_or]
      exact ⟨fun hreq => heq (congrArg AsrReq.address hreq.symm), ih hrest⟩

/-- Which requests are taken out. -/
theorem not_mem_remaining (hmem : req ∈ pending.reqs) :
    req ∉ remaining memory doc pending.reqs ↔ TimedOut memory doc pending.reqs req ∨
      hit memory doc pending.reqs = some req ∧ finishes memory doc := by
  rw [← not_mem_kept hmem]
  unfold remaining finish
  cases hhit : hit memory doc pending.reqs with
  | none => simp
  | some found =>
    dsimp only
    cases finishes memory doc with
    | false => simp
    | true =>
      rw [if_pos rfl]
      by_cases heq : found = req
      · have hdistinct :=
          pending.distinct.sublist ((kept_sublist memory doc pending.reqs).map AsrReq.address)
        simpa [heq] using not_mem_eraseP hdistinct
      · have haddress : found.address ≠ req.address :=
          fun haddress => heq (pending.eq_of_address (hit_mem hhit) hmem haddress)
        rw [List.mem_eraseP_of_neg (by simpa using Ne.symm haddress)]
        simp [heq]

/-- Which callbacks are called. -/
theorem mem_called (hmem : req ∈ pending.reqs) :
    (∃ call ∈ called memory doc pending.reqs, call.address = req.address) ↔
      hit memory doc pending.reqs = some req ∧ segment memory doc ≠ none ∧ req.resultCb := by
  unfold called callsFor
  cases hhit : hit memory doc pending.reqs with
  | none => simp
  | some found =>
    have heq : found.address = req.address ↔ found = req :=
      ⟨pending.eq_of_address (hit_mem hhit) hmem, congrArg AsrReq.address⟩
    cases segment memory doc with
    | none => simp
    | some segment =>
      obtain ⟨num, seq⟩ := segment
      dsimp only
      cases hcb : found.resultCb with
      | false =>
        simp only [Bool.false_eq_true, if_false, List.not_mem_nil, false_and, exists_false,
          false_iff]
        rintro ⟨hfound, -, hreq⟩
        rw [Option.some.inj hfound, hreq] at hcb
        cases hcb
      | true =>
        simp only [if_true, List.mem_singleton, exists_eq_left, heq, Option.some.injEq]
        refine ⟨fun hfound => ⟨hfound, by simp, hfound ▸ hcb⟩, And.left⟩

/-- Only callbacks of requests in the list are called. -/
theorem called_in_list (memory : Memory) (doc : Ptr) (pending : Pending) :
    ∀ call ∈ called memory doc pending.reqs, ∃ req ∈ pending.reqs, call.address = req.address := by
  intro call hcall
  unfold called callsFor at hcall
  cases hhit : hit memory doc pending.reqs with
  | none => simp [hhit] at hcall
  | some found =>
    refine ⟨found, hit_mem hhit, ?_⟩
    rw [hhit] at hcall
    cases hsegment : segment memory doc with
    | none => simp [hsegment] at hcall
    | some segment =>
      simp only [hsegment, List.mem_ite_nil_right, List.mem_singleton] at hcall
      rw [hcall.2]

theorem TimedOut.not_mine (h : TimedOut memory doc pending.reqs req) : ¬Mine memory doc req := by
  obtain ⟨-, -, -, htoken, -⟩ := h
  exact fun hmine => hmine.1 htoken

/-- Which documents are handled right. -/
theorem notify_right_iff (memory : Memory) (doc : Ptr) (pending : Pending) :
    NotifyRight memory doc pending ↔ NotifyFits memory doc pending := by
  unfold NotifyRight
  rw [runs_asrResultNotify fun reqs calls =>
    (∀ call ∈ calls, ∃ req ∈ pending.reqs, call.address = req.address) ∧
    (∀ req ∈ pending.reqs, (∃ call ∈ calls, call.address = req.address) ↔
      Mine memory doc req ∧ segment memory doc ≠ none ∧ req.resultCb) ∧
    reqs.Sublist pending.reqs ∧
    ∀ req ∈ pending.reqs, req ∉ reqs ↔ Mine memory doc req ∧ finishes memory doc ∨ req.expired]
  constructor
  · rintro ⟨hreadable, hnode, -, hcalled, -, hremoved⟩
    refine ⟨hreadable, hnode, fun req hmem hmine heffect => ?_, fun req hhit hstranger => ⟨?_, ?_⟩,
      fun req hmem hexpired =>
        (not_mem_remaining hmem).mp ((hremoved req hmem).mpr (.inr hexpired))⟩
    · rcases heffect with hsegment | hfinishes
      · exact ((mem_called hmem).mp ((hcalled req hmem).mpr ⟨hmine, hsegment⟩)).1
      · rcases (not_mem_remaining hmem).mp
          ((hremoved req hmem).mpr (.inl ⟨hmine, hfinishes⟩)) with hout | hout
        · exact absurd hmine hout.not_mine
        · exact hout.1
    · intro hsegment
      exact hstranger
        ((hcalled req (hit_mem hhit)).mp ((mem_called (hit_mem hhit)).mpr ⟨hhit, hsegment⟩)).1
    · intro hfinishes
      have hout := (not_mem_remaining (hit_mem hhit)).mpr (.inr ⟨hhit, hfinishes⟩)
      exact ((hremoved req (hit_mem hhit)).mp hout).resolve_left fun hboth => hstranger hboth.1
  · intro h
    refine ⟨h.readable, h.node, called_in_list memory doc pending, fun req hmem => ?_,
      remaining_sublist memory doc pending.reqs, fun req hmem => ?_⟩
    · rw [mem_called hmem]
      refine and_congr_left fun hsegment =>
        ⟨fun hhit => ?_, fun hmine => h.mine req hmem hmine (.inl hsegment)⟩
      by_contra hstranger
      exact (h.stranger req hhit hstranger).1 hsegment
    · rw [not_mem_remaining hmem]
      constructor
      · rintro (hout | ⟨hhit, hfinishes⟩)
        · obtain ⟨-, -, -, -, hexpired⟩ := hout
          exact .inr hexpired
        · by_cases hmine : Mine memory doc req
          · exact .inl ⟨hmine, hfinishes⟩
          · exact .inr ((h.stranger req hhit hmine).2 hfinishes)
      · rintro (⟨hmine, hfinishes⟩ | hexpired)
        · exact .inr ⟨h.mine req hmem hmine (.inr hfinishes), hfinishes⟩
        · exact h.expired req hmem hexpired

/-- A request whose token has arrived waits alone. -/
def waiting : Pending := ⟨[⟨0, 7, false, true, some (ascii "a")⟩], by decide⟩

def otherResult : Ptr :=
  ascii "\x7b\"result_code\":0,\"resource_token\":\"b\",\"total_num\":1,\"seq\":1,\"res_text\":\"x\"\x7d" ++ [0]

/-- The text of another request goes to the one that waits, which is taken out. -/
theorem notify_wrong : ¬NotifyRight ⟨fun _ => true, true, true⟩ otherResult waiting := by
  have houtcome : asrResultNotify ⟨fun _ => true, true, true⟩ otherResult waiting.reqs =
      .ok ⟨[], [⟨0, 7, ascii "x", 1, 1⟩], 0⟩ := by decide
  unfold NotifyRight
  rw [houtcome]
  rintro ⟨-, hcalled, -⟩
  obtain ⟨hmine, -⟩ :=
    (hcalled _ (List.mem_singleton_self _)).mp ⟨_, List.mem_singleton_self _, rfl⟩
  have htoken : seen ⟨fun _ => true, true, true⟩ otherResult keyAsrToken =
      some (ascii "b") := by decide
  have hother := hmine.2
  rw [htoken] at hother
  exact absurd hother (by decide)

end Results

end IotExplorer.AsrResults
