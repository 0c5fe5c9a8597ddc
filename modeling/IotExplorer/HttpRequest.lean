import IotExplorer.HttpCredentials
import IotExplorer.UrlParser

/-!
The header of an HTTP request. Its pieces are packed into a buffer that is written to the
network when it is full, and once more at the end. A write takes any number of the
bytes it is given.
-/
namespace IotExplorer.HttpRequest

open TemplateJson
open DeviceProperty (CString signedText)
open HttpClient (cstr)
open HttpCredentials (httpClientBase64enc)
open UrlParser (Parsed httpClientParseUrl)

section Writes

/-- `HTTP_CLIENT_SEND_BUF_SIZE`. -/
def sendBufSize : ℕ := 1024

/-- The size of the buffer for the host, `HTTP_CLIENT_MAX_HOST_LEN`. -/
def maxHostLen : ℕ := 64

/-- The size of the buffer for the path, `HTTP_CLIENT_MAX_URL_LEN`. -/
def maxUrlLen : ℕ := 1024

/-- `HTTP_CLIENT_AUTHB_SIZE`. -/
def authbSize : ℕ := 128

/-- How many bytes a write of the network takes at most, and what it returns. -/
structure Write where
  size : ℕ
  code : ℤ
  deriving DecidableEq, Repr

inductive SendCode
  | success
  | httpParse
  | httpConn
  | httpClosed
  deriving DecidableEq, Repr

/-- How sending ends: it returns, it waits for a write that does not come, or it writes outside
its buffers. -/
inductive SendEnd
  | returned (code : SendCode)
  | waiting
  | outside
  deriving DecidableEq, Repr

structure Exit where
  outcome : SendEnd
  taken : List UInt8
  deriving DecidableEq, Repr

/-- The buffer up to the index, what the network has taken, and the writes to come. -/
structure Sender where
  front : List UInt8
  taken : List UInt8
  writes : List Write
  deriving DecidableEq, Repr

/-- The loop with a full buffer: it is written until some of it is taken, which ends the call with
the old index, or until nothing of the piece is left. -/
def writeFull (full rest : List UInt8) (s : Sender) : List Write → Except Exit (ℤ × Sender)
  | [] => .error ⟨.waiting, s.taken⟩
  | write :: writes =>
      let out := full.take write.size
      if 0 < out.length then .ok (out.length, ⟨s.front, s.taken ++ out, writes⟩)
      else if rest = [] then .ok (write.code, ⟨full, s.taken, writes⟩)
      else writeFull full rest s writes

/-- The bytes of a text that are passed on; its length is a `uint32_t`. -/
def passed (text : List UInt8) : List UInt8 := text.take (text.length % 2 ^ 32)

def httpClientGetInfo (text : List UInt8) (s : Sender) : Except Exit (ℤ × Sender) :=
  let piece := passed text
  let room := sendBufSize - s.front.length
  if piece.length < room then .ok (0, { s with front := s.front ++ piece })
  else writeFull (s.front ++ piece.take room) (piece.drop room) s s.writes

def sendPieces : List (List UInt8) → Sender → Except Exit Sender
  | [], s => .ok s
  | text :: texts, s =>
      match httpClientGetInfo text s with
      | .error exit => .error exit
      | .ok (_, s) => sendPieces texts s

def writeRest (s : Sender) : Exit :=
  match s.writes with
  | [] => ⟨.waiting, s.taken⟩
  | write :: _ =>
      let out := s.front.take write.size
      ⟨.returned (if 0 < out.length then .success else .httpClosed), s.taken ++ out⟩

end Writes

section Requests

inductive HttpMethod
  | get
  | post
  | put
  | delete
  | head
  | other
  deriving DecidableEq, Repr

def HttpMethod.text : HttpMethod → List UInt8
  | .get => ascii "GET"
  | .post => ascii "POST"
  | .put => ascii "PUT"
  | .delete => ascii "DELETE"
  | .head => ascii "HEAD"
  | .other => []

/-- A request: the URL with the memory behind it, the method, and what the client and its data
hold for the header. -/
structure Request where
  url : CString
  behind : ℕ → UInt8
  method : HttpMethod
  authUser : Option CString
  authPassword : Option CString
  header : Option CString
  postBufLen : Option Int32
  postContentType : Option CString

/-- `HAL_Snprintf` into a buffer of so many bytes. -/
def printed (size : ℕ) (text : List UInt8) : List UInt8 := text.take (size - 1)

variable (request : Request)

def Request.parsed : Parsed :=
  httpClientParseUrl request.url request.behind 8 (UInt32.ofNat maxHostLen) (UInt32.ofNat maxUrlLen)

def Request.requestLine : List UInt8 :=
  printed sendBufSize
    (request.method.text ++ ascii " " ++ cstr request.parsed.path ++
      ascii " HTTP/1.1\r\nHost: " ++ cstr request.parsed.host ++ ascii "\r\n")

/-- User and password as they are printed. -/
def Request.credentials (user : CString) : List UInt8 :=
  printed (authbSize + 3)
    (user.val ++ ascii ":" ++ (request.authPassword.map (·.val)).getD (ascii "null"))

def Request.fields : List (List UInt8) :=
  (request.header.map (·.val)).toList ++
    (match request.postBufLen with
      | none => []
      | some len =>
          printed sendBufSize (ascii "Content-Length: " ++ signedText len.toInt ++ ascii "\r\n") ::
            (request.postContentType.map fun type =>
              printed sendBufSize (ascii "Content-Type: " ++ type.val ++ ascii "\r\n")).toList) ++
    [ascii "\r\n"]

/-- `_http_client_send_auth`; the credentials are encoded into a buffer of
`(HTTP_CLIENT_AUTHB_SIZE + 3) * 4 / 3 + 1` bytes and a line feed is put behind them. -/
def httpClientSendAuth (user : CString) (s : Sender) : Except Exit Sender :=
  match httpClientGetInfo (ascii "Authorization: Basic ") s with
  | .error exit => .error exit
  | .ok (_, s) =>
      match httpClientBase64enc (request.credentials user) with
      | none => .error ⟨.outside, s.taken⟩
      | some text =>
          if (authbSize + 3) * 4 / 3 + 1 < text.length + 1 then .error ⟨.outside, s.taken⟩
          else sendPieces [text.dropLast ++ ascii "\n"] s

/-- `_http_client_send_header` from the second piece on. -/
def sendFields (s : Sender) : Except Exit Sender :=
  match request.authUser with
  | none => sendPieces request.fields s
  | some user =>
      match httpClientSendAuth request user s with
      | .error exit => .error exit
      | .ok s => sendPieces request.fields s

def httpClientSendHeader (writes : List Write) : Exit :=
  if maxHostLen < request.parsed.host.length ∨ maxUrlLen < request.parsed.path.length then
    ⟨.outside, []⟩
  else
    match request.parsed.code with
    | .httpParse => ⟨.returned .httpParse, []⟩
    | .success =>
        match httpClientGetInfo request.requestLine ⟨[], [], writes⟩ with
        | .error exit => exit
        | .ok (rc, s) =>
            if rc ≠ 0 then ⟨.returned .httpConn, s.taken⟩
            else
              match sendFields request s with
              | .error exit => exit
              | .ok s => writeRest s

end Requests

section Pieces

/-- The texts that `_http_client_get_info` is given behind the first one. -/
def Request.further (request : Request) : List (List UInt8) :=
  (match request.authUser with
    | none => []
    | some user =>
        [ascii "Authorization: Basic ",
          HttpCredentials.padded (HttpCredentials.packed 0 0 (request.credentials user)) ++
            ascii "\n"]) ++
    request.fields

def Request.pieces (request : Request) : List (List UInt8) := request.requestLine :: request.further

def Request.text (request : Request) : List UInt8 := (request.pieces.map passed).flatten

/-- What the network is owed: nothing is written outside the buffers, what it takes is the
beginning of the header, and all of it if success is reported. -/
structure HeaderRight (request : Request) (exit : Exit) : Prop where
  inside : exit.outcome ≠ .outside
  front : exit.taken <+: request.text
  whole : exit.outcome = .returned .success → exit.taken = request.text

/-- The networks that take a write whole or not at all, unless they are free to take a part. -/
def Allowed (partWrites : Bool) (write : Write) : Prop :=
  partWrites = true ∨ write.size = 0 ∨ sendBufSize ≤ write.size

instance (partWrites : Bool) (write : Write) : Decidable (Allowed partWrites write) :=
  inferInstanceAs (Decidable (partWrites = true ∨ write.size = 0 ∨ sendBufSize ≤ write.size))

/-- The parsed URL stays inside the buffers for host and path. -/
def Request.urlFits (request : Request) : Prop :=
  request.parsed.host.length ≤ maxHostLen ∧ request.parsed.path.length ≤ maxUrlLen

/-- User and password, with the colon, leave room in their buffer. -/
def Request.credentialsFit (request : Request) : Prop :=
  ∀ user, request.authUser = some user → (request.credentials user).length < authbSize + 2

/-- A request that every such network gets as it is: the URL fits and is refused, or the
credentials fit too, the header is shorter than the buffer and writes are taken whole. -/
def Sendable (request : Request) (partWrites : Bool) : Prop :=
  request.urlFits ∧
    (request.parsed.code = .httpParse ∨
      request.credentialsFit ∧ request.text.length < sendBufSize ∧ partWrites = false)

end Pieces

section Runs
variable {s : Sender} {text : List UInt8} {texts : List (List UInt8)}

theorem getInfo_short (h : s.front.length + (passed text).length < sendBufSize) :
    httpClientGetInfo text s = .ok (0, { s with front := s.front ++ passed text }) := by
  rw [httpClientGetInfo]
  exact if_pos (by omega)

/-- As long as the buffer is not full, pieces are put one behind another. -/
theorem sendPieces_short
    (h : s.front.length + (texts.map passed).flatten.length < sendBufSize) :
    sendPieces texts s = .ok { s with front := s.front ++ (texts.map passed).flatten } := by
  induction texts generalizing s with
  | nil => simp [sendPieces]
  | cons text texts ih =>
      rw [List.map_cons, List.flatten_cons, List.length_append] at h
      rw [sendPieces, getInfo_short (by omega)]
      simp only
      rw [ih (by simp only [List.length_append]; omega)]
      simp

theorem sendPieces_append (front back : List (List UInt8)) :
    sendPieces (front ++ back) s =
      match sendPieces front s with
      | .error exit => .error exit
      | .ok s => sendPieces back s := by
  induction front generalizing s with
  | nil => rfl
  | cons text front ih =>
      simp only [List.cons_append, sendPieces]
      cases httpClientGetInfo text s with
      | error exit => rfl
      | ok next => exact ih

/-- A network that takes nothing is tried for ever if the buffer is full before the piece ends. -/
theorem writeFull_waits {full rest : List UInt8} {writes : List Write} (hrest : rest ≠ [])
    (h : ∀ write ∈ writes, write.size = 0) :
    writeFull full rest s writes = .error ⟨.waiting, s.taken⟩ := by
  induction writes with
  | nil => rfl
  | cons write writes ih =>
      rw [writeFull]
      simp only [h write (List.mem_cons_self ..), List.take_zero, List.length_nil, lt_irrefl,
        if_false, hrest]
      exact ih fun w hw => h w (List.mem_cons_of_mem _ hw)

/-- So no request that is longer than the buffer comes to an end with such a network. -/
theorem sendPieces_waits (hfront : s.front.length ≤ sendBufSize)
    (hlong : sendBufSize < s.front.length + (texts.map passed).flatten.length)
    (h : ∀ write ∈ s.writes, write.size = 0) :
    sendPieces texts s = .error ⟨.waiting, s.taken⟩ := by
  induction texts generalizing s with
  | nil =>
      simp only [List.map_nil, List.flatten_nil, List.length_nil] at hlong
      omega
  | cons text texts ih =>
      rw [List.map_cons, List.flatten_cons, List.length_append] at hlong
      rw [sendPieces]
      by_cases hshort : s.front.length + (passed text).length < sendBufSize
      · have hnext := ih (s := { s with front := s.front ++ passed text })
          (by rw [List.length_append]; omega) (by rw [List.length_append]; omega) h
        rw [getInfo_short hshort]
        exact hnext
      · have hroom : ¬ (passed text).length < sendBufSize - s.front.length := by omega
        simp only [httpClientGetInfo, hroom, if_false]
        by_cases hrest : (passed text).drop (sendBufSize - s.front.length) = []
        · -- the piece ends with the buffer, and the next one finds it full
          have hend : (passed text).length ≤ sendBufSize - s.front.length :=
            List.drop_eq_nil_iff.mp hrest
          cases hwrites : s.writes with
          | nil => rfl
          | cons write writes =>
              rw [hwrites] at h
              rw [writeFull]
              simp only [h write (List.mem_cons_self ..), List.take_zero, List.length_nil,
                lt_irrefl, if_false, hrest, if_true]
              rw [List.take_of_length_le hend]
              exact ih (s := ⟨s.front ++ passed text, s.taken, writes⟩)
                (by rw [List.length_append]; omega) (by rw [List.length_append]; omega)
                (fun w hw => h w (List.mem_cons_of_mem _ hw))
        · rw [writeFull_waits hrest h]

/-- A network that takes all it is given lets every piece through. -/
theorem getInfo_taken (text : List UInt8) {write : Write} {writes : List Write}
    (hwrites : s.writes = write :: writes)
    (hwrite : 0 < write.size) (hfront : s.front.length < sendBufSize) :
    ∃ rc s', httpClientGetInfo text s = .ok (rc, s') := by
  rw [httpClientGetInfo]
  split
  · exact ⟨_, _, rfl⟩
  · rename_i hlong
    have hout : 0 < ((s.front ++ (passed text).take (sendBufSize - s.front.length)).take
        write.size).length := by
      rw [List.length_take, List.length_append, List.length_take]
      omega
    rw [hwrites, writeFull]
    simp only [hout, if_true]
    exact ⟨_, _, rfl⟩

end Runs

section Credentials
variable {request : Request} {user : CString}

theorem credentials_length : (request.credentials user).length ≤ authbSize + 2 := by
  rw [Request.credentials, printed, List.length_take]
  omega

theorem encoded_credentials :
    httpClientBase64enc (request.credentials user) =
      some (HttpCredentials.padded (HttpCredentials.packed 0 0 (request.credentials user)) ++
        [0]) := by
  have hlen : (request.credentials user).length ≤ authbSize + 2 := credentials_length
  rw [httpClientBase64enc]
  simp only [HttpCredentials.padded_length]
  refine if_pos ?_
  simp only [authbSize] at hlen
  omega

theorem sendFields_eq (h : request.credentialsFit) (s : Sender) :
    sendFields request s = sendPieces request.further s := by
  rw [sendFields, Request.further]
  cases huser : request.authUser with
  | none => rfl
  | some user =>
      have hlen := h user huser
      have hfit : ¬ (authbSize + 3) * 4 / 3 + 1 <
          (HttpCredentials.padded (HttpCredentials.packed 0 0 (request.credentials user)) ++
            [0]).length + 1 := by
        rw [List.length_append, HttpCredentials.padded_length]
        simp only [authbSize] at hlen ⊢
        simp only [List.length_cons, List.length_nil]
        omega
      simp only [httpClientSendAuth, encoded_credentials, hfit, if_false, List.dropLast_concat]
      rw [sendPieces_append, sendPieces]

/-- Credentials of 130 bytes are encoded behind the end of their buffer. -/
theorem sendAuth_outside (h : (request.credentials user).length = authbSize + 2) {s : Sender}
    {write : Write} {writes : List Write} (hwrites : s.writes = write :: writes)
    (hwrite : 0 < write.size) (hfront : s.front.length < sendBufSize) :
    ∃ taken, httpClientSendAuth request user s = .error ⟨.outside, taken⟩ := by
  obtain ⟨rc, next, hnext⟩ := getInfo_taken (ascii "Authorization: Basic ") hwrites hwrite hfront
  have hover : (authbSize + 3) * 4 / 3 + 1 <
      (HttpCredentials.padded (HttpCredentials.packed 0 0 (request.credentials user)) ++
        [0]).length + 1 := by
    rw [List.length_append, HttpCredentials.padded_length, h]
    decide
  simp only [httpClientSendAuth, hnext, encoded_credentials, hover, if_true]
  exact ⟨_, rfl⟩

end Credentials

section Header
variable {request : Request}

theorem requestLine_short : (passed request.requestLine).length < sendBufSize := by
  rw [passed, Request.requestLine, printed, List.length_take, List.length_take]
  have : 0 < sendBufSize := by decide
  omega

theorem text_eq :
    request.text = passed request.requestLine ++ (request.further.map passed).flatten := by
  rw [Request.text, Request.pieces, List.map_cons, List.flatten_cons]

/-- Behind a URL that is parsed, what is sent. -/
theorem sendHeader_eq (hfits : request.urlFits) (hcode : request.parsed.code = .success)
    (writes : List Write) :
    httpClientSendHeader request writes =
      match sendFields request ⟨passed request.requestLine, [], writes⟩ with
      | .error exit => exit
      | .ok s => writeRest s := by
  have hinside : ¬ (maxHostLen < request.parsed.host.length ∨
      maxUrlLen < request.parsed.path.length) := by
    rw [not_or, Nat.not_lt, Nat.not_lt]
    exact hfits
  have hline : httpClientGetInfo request.requestLine ⟨[], [], writes⟩ =
      .ok (0, ⟨passed request.requestLine, [], writes⟩) :=
    getInfo_short (by simpa using requestLine_short)
  rw [httpClientSendHeader, if_neg hinside, hcode]
  simp only [hline, ne_eq, not_true_eq_false, if_false]

/-- A header that is shorter than the buffer is written once. -/
theorem sendHeader_short (hfits : request.urlFits) (hcode : request.parsed.code = .success)
    (hcred : request.credentialsFit) (hlen : request.text.length < sendBufSize)
    (writes : List Write) :
    httpClientSendHeader request writes = writeRest ⟨request.text, [], writes⟩ := by
  have hsend : sendPieces request.further ⟨passed request.requestLine, [], writes⟩ =
      .ok ⟨request.text, [], writes⟩ := by
    rw [text_eq, List.length_append] at hlen
    rw [text_eq]
    exact sendPieces_short (s := ⟨passed request.requestLine, [], writes⟩) hlen
  rw [sendHeader_eq hfits hcode, sendFields_eq hcred, hsend]

theorem further_eq (request : Request) :
    ∃ texts, request.further = texts ++ [ascii "\r\n"] := by
  rw [Request.further, Request.fields, ← List.append_assoc]
  exact ⟨_, rfl⟩

theorem text_long (request : Request) : 2 ≤ request.text.length := by
  obtain ⟨texts, htexts⟩ := further_eq request
  have hend : passed (ascii "\r\n") = ascii "\r\n" := by decide
  have hlen : (ascii "\r\n").length = 2 := by decide
  rw [text_eq, htexts, List.map_append, List.flatten_append, List.length_append,
    List.length_append]
  simp only [List.map_cons, List.map_nil, List.flatten_cons, List.flatten_nil, List.append_nil,
    hend, hlen]
  omega

/-- A header that just fills the buffer is written, and then its first bytes once more. -/
theorem sendHeader_full (hfits : request.urlFits) (hcode : request.parsed.code = .success)
    (hcred : request.credentialsFit) (hlen : request.text.length = sendBufSize) {write : Write}
    (hwrite : sendBufSize ≤ write.size) :
    (httpClientSendHeader request [write, write]).taken =
      request.text ++ request.text.take (sendBufSize - 2) := by
  obtain ⟨texts, htexts⟩ := further_eq request
  have hend : passed (ascii "\r\n") = ascii "\r\n" := by decide
  have htwo : (ascii "\r\n").length = 2 := by decide
  generalize hfront : passed request.requestLine ++ (texts.map passed).flatten = front
  have htext : request.text = front ++ ascii "\r\n" := by
    rw [text_eq, htexts, List.map_append, List.flatten_append, ← List.append_assoc, hfront]
    simp [hend]
  have hcount : front.length + 2 = sendBufSize := by
    rw [htext, List.length_append, htwo] at hlen
    exact hlen
  have hmost : sendPieces texts ⟨passed request.requestLine, [], [write, write]⟩ =
      .ok ⟨front, [], [write, write]⟩ := by
    have hfrontLen := congrArg List.length hfront
    rw [List.length_append] at hfrontLen
    rw [sendPieces_short, hfront]
    change (passed request.requestLine).length + _ < _
    omega
  have hroom : sendBufSize - front.length = 2 := by omega
  have hwhole : (front ++ ascii "\r\n").take write.size = front ++ ascii "\r\n" :=
    List.take_of_length_le (by rw [List.length_append, htwo]; omega)
  have hrest : front.take write.size = front := List.take_of_length_le (by omega)
  have hpos : 0 < (front ++ ascii "\r\n").length := by
    rw [List.length_append, htwo]
    omega
  have hlast : sendPieces [ascii "\r\n"] ⟨front, [], [write, write]⟩ =
      .ok ⟨front, front ++ ascii "\r\n", [write]⟩ := by
    simp only [sendPieces, httpClientGetInfo, hroom, hend, htwo, lt_irrefl, if_false, writeFull,
      List.take_of_length_le (Nat.le_of_eq htwo), hwhole, hpos, if_true, List.nil_append]
  have htake : request.text.take (sendBufSize - 2) = front := by
    rw [htext, ← hcount, Nat.add_sub_cancel, List.take_left]
  rw [sendHeader_eq hfits hcode, sendFields_eq hcred, htexts, sendPieces_append, hmost]
  simp only [hlast, writeRest, hrest, htake]
  rw [htext]

/-- What is asked for a request: whatever the network takes, the header is right, and sending it
comes to an end. -/
structure RequestRight (request : Request) (partWrites : Bool) : Prop where
  right : ∀ writes, (∀ write ∈ writes, Allowed partWrites write) →
    HeaderRight request (httpClientSendHeader request writes)
  ends : ∀ schedule : ℕ → Write, (∀ n, Allowed partWrites (schedule n)) →
    ∃ n, (httpClientSendHeader request ((List.range n).map schedule)).outcome ≠ .waiting

theorem requestRight_of_refused {partWrites : Bool} (hfits : request.urlFits)
    (hcode : request.parsed.code = .httpParse) : RequestRight request partWrites := by
  have hexit (writes : List Write) :
      httpClientSendHeader request writes = ⟨.returned .httpParse, []⟩ := by
    have hinside : ¬ (maxHostLen < request.parsed.host.length ∨
        maxUrlLen < request.parsed.path.length) := by
      rw [not_or, Nat.not_lt, Nat.not_lt]
      exact hfits
    rw [httpClientSendHeader, if_neg hinside, hcode]
  constructor
  · intro writes _
    rw [hexit]
    exact ⟨by decide, List.nil_prefix, fun h => (by cases h)⟩
  · intro schedule _
    refine ⟨0, ?_⟩
    rw [hexit]
    decide

theorem requestRight_of_short (hfits : request.urlFits) (hcode : request.parsed.code = .success)
    (hcred : request.credentialsFit) (hlen : request.text.length < sendBufSize) :
    RequestRight request false := by
  constructor
  · intro writes hwrites
    rw [sendHeader_short hfits hcode hcred hlen]
    cases writes with
    | nil => exact ⟨by simp [writeRest], List.nil_prefix, fun h => (by cases h)⟩
    | cons write writes =>
        simp only [writeRest, List.nil_append]
        refine ⟨by simp, List.take_prefix _ _, fun h => ?_⟩
        rcases hwrites write (List.mem_cons_self ..) with hpart | hzero | hall
        · cases hpart
        · simp [hzero] at h
        · exact List.take_of_length_le (by omega)
  · intro schedule _
    refine ⟨1, ?_⟩
    rw [sendHeader_short hfits hcode hcred hlen]
    simp [writeRest, List.range_succ]

/-- A part of the header is reported as a success. -/
theorem sendHeader_part (hfits : request.urlFits) (hcode : request.parsed.code = .success)
    (hcred : request.credentialsFit) (hlen : request.text.length < sendBufSize) :
    ¬ HeaderRight request (httpClientSendHeader request [⟨1, 0⟩]) := by
  intro h
  have hlong := text_long request
  have hone : (request.text.take 1).length = 1 := by
    rw [List.length_take]
    omega
  have hwhole := h.whole
  rw [sendHeader_short hfits hcode hcred hlen] at hwhole
  simp only [writeRest, hone, Nat.zero_lt_one, if_true, List.nil_append] at hwhole
  rw [← hwhole trivial] at hlong
  omega

/-- Whatever the network takes, the header is right and sending it ends exactly for the requests
that are sendable. -/
theorem request_right_iff (request : Request) (partWrites : Bool) :
    RequestRight request partWrites ↔ Sendable request partWrites := by
  constructor
  · intro h
    have hfits : request.urlFits := by
      by_contra hover
      have houtside : httpClientSendHeader request [] = ⟨.outside, []⟩ := by
        rw [httpClientSendHeader, if_pos]
        rw [Request.urlFits, not_and_or, Nat.not_le, Nat.not_le] at hover
        exact hover
      have hinside := (h.right [] (fun w hw => absurd hw List.not_mem_nil)).inside
      rw [houtside] at hinside
      exact hinside rfl
    refine ⟨hfits, ?_⟩
    cases hcode : request.parsed.code with
    | httpParse => exact .inl rfl
    | success =>
        right
        have hwhole : Allowed partWrites ⟨sendBufSize, 0⟩ := .inr (.inr (le_refl _))
        have hcred : request.credentialsFit := by
          intro user huser
          by_contra hlong
          have hlen : (request.credentials user).length = authbSize + 2 := by
            have hle : (request.credentials user).length ≤ authbSize + 2 := credentials_length
            omega
          obtain ⟨taken, hsend⟩ := sendAuth_outside hlen
            (s := ⟨passed request.requestLine, [], [⟨sendBufSize, 0⟩]⟩) rfl (by decide)
            requestLine_short
          have hinside := (h.right [⟨sendBufSize, 0⟩]
            (fun w hw => by rw [List.mem_singleton.mp hw]; exact hwhole)).inside
          rw [sendHeader_eq hfits hcode, sendFields, huser] at hinside
          simp only [hsend] at hinside
          exact hinside rfl
        have hlen : request.text.length < sendBufSize := by
          by_contra hlong
          rcases Nat.lt_or_eq_of_le (Nat.not_lt.mp hlong) with hover | hfull
          · -- a network that takes nothing
            obtain ⟨n, hn⟩ := h.ends (fun _ => ⟨0, 0⟩) (fun _ => .inr (.inl rfl))
            apply hn
            have hline : (passed request.requestLine).length < sendBufSize := requestLine_short
            rw [text_eq, List.length_append] at hover
            have hwaits : sendPieces request.further
                ⟨passed request.requestLine, [], (List.range n).map fun _ => ⟨0, 0⟩⟩ =
                  .error ⟨.waiting, []⟩ := by
              refine sendPieces_waits (Nat.le_of_lt hline) hover ?_
              intro write hwrite
              obtain ⟨i, -, rfl⟩ := List.mem_map.mp hwrite
              rfl
            rw [sendHeader_eq hfits hcode, sendFields_eq hcred, hwaits]
          · -- a network that takes everything
            have hright := h.right [⟨sendBufSize, 0⟩, ⟨sendBufSize, 0⟩] (by
              intro write hwrite
              simp only [List.mem_cons, List.not_mem_nil, or_false, or_self] at hwrite
              rw [hwrite]
              exact hwhole)
            have hfront := hright.front.length_le
            rw [sendHeader_full hfits hcode hcred hfull.symm (le_refl _), List.length_append,
              List.length_take, ← hfull] at hfront
            simp only [sendBufSize] at hfront
            omega
        refine ⟨hcred, hlen, ?_⟩
        cases hpart : partWrites with
        | false => rfl
        | true =>
            have hright := h.right [⟨1, 0⟩] (fun _ _ => .inl hpart)
            exact absurd hright (sendHeader_part hfits hcode hcred hlen)
  · rintro ⟨hfits, hcode | ⟨hcred, hlen, rfl⟩⟩
    · exact requestRight_of_refused hfits hcode
    · cases hcode : request.parsed.code with
      | httpParse => exact requestRight_of_refused hfits hcode
      | success => exact requestRight_of_short hfits hcode hcred hlen

/-- A thousand bytes of header lines: the network takes 1024 bytes, the rest of the lines is lost,
and the first bytes are sent once more. -/
theorem request_garbled :
    ¬ ∀ (request : Request) (partWrites : Bool), RequestRight request partWrites := by
  intro h
  have hright := (h ⟨⟨ascii "http://h/", by decide⟩, fun _ => 0, .get, none, none,
    some ⟨List.replicate 1000 0x78, fun hmem => absurd (List.eq_of_mem_replicate hmem) (by decide)⟩,
    none, none⟩ false).right [⟨1024, 0⟩, ⟨1024, 0⟩] (by decide)
  have hfront := hright.front
  revert hfront
  decide +kernel

end Header

end IotExplorer.HttpRequest
