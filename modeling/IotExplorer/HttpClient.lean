import IotExplorer.TemplateJson

/-!
The receiving side of the HTTP client: the header of a response and its body, which
comes with a length, in chunks, or up to the end of the connection. The network
delivers the bytes of the response in reads of any sizes. A text handed over in
the response buffer has a NUL behind it.
-/
namespace IotExplorer.HttpClient

open TemplateJson

section Texts

def cr : UInt8 := 0x0D
def lf : UInt8 := 0x0A
def crlf : List UInt8 := [cr, lf]

/-- The size of the local buffer, `HTTP_CLIENT_CHUNK_SIZE`. -/
def chunkSize : ℕ := 1025

/-- A text in memory up to its NUL. -/
def cstr (text : List UInt8) : List UInt8 := text.takeWhile fun c => c != 0

/-- The place where a text first begins in another. -/
def indexOf (needle : List UInt8) : List UInt8 → Option ℕ
  | [] => if needle.isEmpty then some 0 else none
  | c :: text =>
      if needle.isPrefixOf (c :: text) then some 0 else (indexOf needle text).map (· + 1)

def strstr (text needle : List UInt8) : Option ℕ := indexOf needle (cstr text)

def atoi (text : List UInt8) : ℤ :=
  match scanSigned (scanDigits 10) (cstr text) with
  | none => 0
  | some value => (max (-2 ^ 63) (min (2 ^ 63 - 1) value)).bmod (2 ^ 32)

/-- The digits of `strtoul` in base 16, behind a prefix if digits follow it. -/
def scanHex : List UInt8 → Option ℕ
  | 0x30 :: 0x78 :: text => (scanDigits 16 text).orElse fun _ => some 0
  | 0x30 :: 0x58 :: text => (scanDigits 16 text).orElse fun _ => some 0
  | text => scanDigits 16 text

/-- `strtoul` in base 16, as a `uint32_t`. -/
def strtoul16 (text : List UInt8) : ℕ :=
  match scanSigned scanHex (cstr text) with
  | none => 0
  | some value => ((if value.natAbs < 2 ^ 64 then value else 2 ^ 64 - 1) % 2 ^ 32).toNat

end Texts

section Reads

/-- What a read of the network stack returns. -/
inductive ReadCode
  | success
  | nothingToRead
  | readTimeout
  | peerShutdown
  | failure
  deriving DecidableEq, Repr

/-- A read of the network: how many bytes there are for it at most, what it returns, and whether
the timer has run out behind it. -/
structure Read where
  size : ℕ
  code : ReadCode
  late : Bool
  deriving DecidableEq, Repr

def Read.bytes (read : Read) (maxLen : ℕ) (stream : List UInt8) : List UInt8 :=
  stream.take (min read.size maxLen)

inductive HttpCode
  | success
  | retrieveMoreData
  | http
  | auth
  | notFound
  | unresolvedDns
  | timeout
  | failure
  | conn
  | network (code : ReadCode)
  deriving DecidableEq, Repr

/-- What the caller keeps from one call to the next; `connected` tells whether the network has a
handle. -/
structure ClientData where
  isMore : Bool
  isChunked : Bool
  retrieveLen : ℤ
  responseContentLen : ℤ
  connected : Bool
  deriving DecidableEq, Repr

/-- A call at work: the local buffer up to `len`, the response buffer up to `count`, and the bytes
that are still to come. -/
structure Call where
  data : List UInt8
  text : List UInt8
  client : ClientData
  stream : List UInt8
  deriving DecidableEq, Repr

/-- How a call ends: it returns, it waits for reads that do not come, or it looks at a byte that no
read has put there. -/
inductive Outcome
  | returned (code : HttpCode)
  | waiting
  | outside
  deriving DecidableEq, Repr

structure Exit where
  outcome : Outcome
  call : Call
  reads : List Read
  deriving DecidableEq, Repr

/-- The code of `_http_client_recv` for a read of so many bytes. -/
def recvCode (read : Read) (readLen : ℕ) (retrieveLen : ℤ) : HttpCode :=
  match read.code with
  | .success => .success
  | .nothingToRead => .success
  | .readTimeout =>
      if readLen = retrieveLen ∨ retrieveLen = 0 then .success else .network .readTimeout
  | .peerShutdown => if 0 < readLen then .success else .network .peerShutdown
  | .failure => .network .failure

/-- `_http_client_recv`: the code, the bytes, and the call behind it. A peer that shuts down behind
the last bytes is disconnected. -/
def httpClientRecv (maxLen : ℕ) (read : Read) (call : Call) : HttpCode × List UInt8 × Call :=
  let bytes := read.bytes maxLen call.stream
  let closes := read.code == .peerShutdown && !bytes.isEmpty
  (recvCode read bytes.length call.client.retrieveLen, bytes,
    { call with
      stream := call.stream.drop bytes.length
      client := { call.client with connected := call.client.connected && !closes } })

end Reads

section Content
variable (bufLen : ℕ)

/-- The body up to the end of the connection. -/
def readUntilClosed : List Read → Call → Exit
  | reads, call =>
      if call.text.length + call.data.length < bufLen - 1 then
        let call := { call with text := call.text ++ call.data }
        match reads with
        | [] => ⟨.waiting, call, []⟩
        | read :: reads =>
            match httpClientRecv (min (chunkSize - 1) (bufLen - 1 - call.text.length))
              read call with
            | (code, bytes, call) =>
                if code ≠ .success then ⟨.returned code, call, reads⟩
                else if read.late then ⟨.returned .timeout, call, reads⟩
                else if bytes.isEmpty then
                  ⟨.returned .success, { call with client := { call.client with isMore := false } },
                    reads⟩
                else readUntilClosed reads { call with data := bytes }
      else
        ⟨.returned .retrieveMoreData,
          { call with text := call.text ++ call.data.take (bufLen - 1 - call.text.length) }, reads⟩

/-- The place of a CRLF behind which there is a further byte. -/
def findCrlf : List UInt8 → Option ℕ
  | c :: c' :: c'' :: rest =>
      if c = cr ∧ c' = lf then some 0 else (findCrlf (c' :: c'' :: rest)).map (· + 1)
  | _ => none

/-- The loop that reads until the size line of a chunk has ended; the place of its end. -/
def readChunkHeader : List Read → Call → Except Exit (ℕ × List Read × Call)
  | reads, call =>
      match findCrlf call.data with
      | some crlfPos => .ok (crlfPos, reads, call)
      | none =>
          if call.data.length < chunkSize then
            match reads with
            | [] => .error ⟨.waiting, call, []⟩
            | read :: reads =>
                match httpClientRecv (chunkSize - call.data.length - 1) read call with
                | (code, bytes, call) =>
                    if code ≠ .success then .error ⟨.returned code, call, reads⟩
                    else readChunkHeader reads { call with data := call.data ++ bytes }
          else .error ⟨.returned .http, call, reads⟩

/-- The start of a round: how many bytes of the chunk or body are still to be taken. -/
def beginRound (reads : List Read) (call : Call) : Except Exit (ℕ × List Read × Call) :=
  if call.client.isChunked ∧ call.client.retrieveLen ≤ 0 then
    match readChunkHeader reads call with
    | .error exit => .error exit
    | .ok (crlfPos, reads, call) =>
        let readLen := strtoul16 (call.data.take crlfPos)
        let retrieveLen := (readLen : ℤ).bmod (2 ^ 32)
        let client := { call.client with
          retrieveLen := retrieveLen
          responseContentLen := call.client.responseContentLen + retrieveLen }
        if readLen = 0 then
          .error ⟨.returned .success,
            { call with client := { client with isMore := false } }, reads⟩
        else .ok (readLen, reads,
          { call with data := call.data.drop (crlfPos + 2), client := client })
  else .ok ((call.client.retrieveLen % 2 ^ 32).toNat, reads, call)

/-- The loop that takes the bytes of a chunk or body. -/
def takeContent : List Read → ℕ → Call → Except Exit (List Read × Call)
  | reads, readLen, call =>
      let templen := min call.data.length readLen
      if call.text.length + templen < bufLen - 1 then
        let call := { call with
          text := call.text ++ call.data.take templen
          client := { call.client with retrieveLen := call.client.retrieveLen - templen } }
        if readLen < call.data.length then
          .ok (reads, { call with
            data := call.data.drop readLen, client := { call.client with retrieveLen := 0 } })
        else if readLen - call.data.length = 0 then .ok (reads, call)
        else
          match reads with
          | [] => .error ⟨.waiting, call, []⟩
          | read :: reads =>
              let maxLen := min (min (chunkSize - 1) (bufLen - 1 - call.text.length))
                (readLen - call.data.length)
              match httpClientRecv maxLen read call with
              | (code, bytes, call') =>
                  if code ≠ .success then .error ⟨.returned code, call', reads⟩
                  else if read.late then .error ⟨.returned .timeout, call', reads⟩
                  else takeContent reads (readLen - call.data.length) { call' with data := bytes }
      else
        let room := bufLen - 1 - call.text.length
        .error ⟨.returned .retrieveMoreData, { call with
          text := call.text ++ call.data.take room
          client := { call.client with retrieveLen := call.client.retrieveLen - room } }, reads⟩

/-- A CRLF in front of the data is removed. -/
def stripCrlf (reads : List Read) (call : Call) : Except Exit (List Read × Call) :=
  match call.data with
  | c :: c' :: rest =>
      if c ≠ cr ∨ c' ≠ lf then .error ⟨.returned .unresolvedDns, call, reads⟩
      else .ok (reads, { call with data := rest })
  | _ => .error ⟨.outside, call, reads⟩

/-- The two bytes behind a chunk; one read is made for those that are missing. -/
def endChunk (reads : List Read) (call : Call) : Except Exit (List Read × Call) :=
  if call.data.length < 2 then
    match reads with
    | [] => .error ⟨.waiting, call, []⟩
    | read :: reads =>
        match httpClientRecv (chunkSize - call.data.length - 1) read call with
        | (code, bytes, call) =>
            if code ≠ .success ∨ read.late = true then .error ⟨.returned code, call, reads⟩
            else stripCrlf reads { call with data := call.data ++ bytes }
  else stripCrlf reads call

/-- The rounds of the outer loop, at most so many. Every round that is followed by another takes
two bytes at least. -/
def retrieveRounds : ℕ → List Read → Call → Exit
  | 0, reads, call => ⟨.waiting, call, reads⟩
  | rounds + 1, reads, call =>
      match beginRound reads call with
      | .error exit => exit
      | .ok (readLen, reads, call) =>
          match takeContent bufLen reads readLen call with
          | .error exit => exit
          | .ok (reads, call) =>
              if call.client.isChunked then
                match endChunk reads call with
                | .error exit => exit
                | .ok (reads, call) => retrieveRounds rounds reads call
              else
                ⟨.returned .success, { call with client := { call.client with isMore := false } },
                  reads⟩

def httpClientRetrieveContent (reads : List Read) (call : Call) : Exit :=
  let call := { call with text := [], client := { call.client with isMore := true } }
  if call.client.responseContentLen = -1 ∧ call.client.isChunked = false then
    readUntilClosed bufLen reads call
  else retrieveRounds bufLen (call.data.length + call.stream.length + 1) reads call

end Content

section Response
variable (bufLen : ℕ)

/-- The fields of the header and the body, whose first bytes are in the local buffer. -/
def parseFields (reads : List Read) (call : Call) (bodyEnd : ℕ) : Exit :=
  let body := { call with data := call.data.drop (bodyEnd + 4) }
  match strstr call.data (ascii "Content-Length") with
  | some pos =>
      let len := atoi (call.data.drop (pos + (ascii "Content-Length: ").length))
      httpClientRetrieveContent bufLen reads
        { body with client := { body.client with responseContentLen := len, retrieveLen := len } }
  | none =>
      match strstr call.data (ascii "Transfer-Encoding") with
      | some pos =>
          let chunkValue := (call.data.drop (pos + (ascii "Transfer-Encoding: ").length)).take 7
          if chunkValue = ascii "Chunked" ∨ chunkValue = ascii "chunked" then
            httpClientRetrieveContent bufLen reads
              { body with client := { body.client with
                isChunked := true, responseContentLen := 0, retrieveLen := 0 } }
          else httpClientRetrieveContent bufLen reads body
      | none => ⟨.returned .http, call, reads⟩

/-- The header behind the status line; one read is made for what is missing. -/
def parseHeader (reads : List Read) (call : Call) : Exit :=
  match strstr call.data (crlf ++ crlf) with
  | some bodyEnd => parseFields bufLen reads call bodyEnd
  | none =>
      match reads with
      | [] => ⟨.waiting, call, []⟩
      | read :: reads =>
          match httpClientRecv (chunkSize - call.data.length - 1) read call with
          | (code, bytes, call) =>
              if code ≠ .success then ⟨.returned code, call, reads⟩
              else
                let call := { call with data := call.data ++ bytes }
                match strstr call.data (crlf ++ crlf) with
                | some bodyEnd => parseFields bufLen reads call bodyEnd
                | none => ⟨.returned .failure, call, reads⟩

def httpClientResponseParse (reads : List Read) (call : Call) : Exit :=
  let call := { call with client := { call.client with responseContentLen := -1 } }
  match strstr call.data crlf with
  | none => ⟨.returned .unresolvedDns, call, reads⟩
  | some crlfPos =>
      let responseCode := atoi ((call.data.set crlfPos 0).drop 9)
      if responseCode = 403 then ⟨.returned .auth, call, reads⟩
      else if responseCode = 404 then ⟨.returned .notFound, call, reads⟩
      else parseHeader bufLen reads { call with
        data := call.data.drop (crlfPos + 2)
        client := { call.client with isChunked := false } }

def httpClientRecvResponse (reads : List Read) (client : ClientData) (stream : List UInt8) : Exit :=
  let call := { data := [], text := [], client := client, stream := stream : Call }
  if !client.connected then ⟨.returned .conn, call, reads⟩
  else if client.isMore then httpClientRetrieveContent bufLen reads call
  else
    let call := { call with client := { call.client with isMore := true } }
    match reads with
    | [] => ⟨.waiting, call, []⟩
    | read :: reads =>
        match httpClientRecv (chunkSize - 1) read call with
        | (code, bytes, call) =>
            if code ≠ .success then ⟨.returned code, call, reads⟩
            else if bytes.isEmpty then ⟨.returned code, call, reads⟩
            else httpClientResponseParse bufLen reads { call with data := bytes }

/-- `qcloud_http_recv_data`: a failure closes the connection, and more data to retrieve is a
success. -/
def qcloudHttpRecvData (reads : List Read) (client : ClientData) (stream : List UInt8) : Exit :=
  if bufLen = 0 then ⟨.returned .success, ⟨[], [], client, stream⟩, reads⟩
  else
    let exit := httpClientRecvResponse bufLen reads client stream
    match exit.outcome with
    | .returned .success => exit
    | .returned .retrieveMoreData => { exit with outcome := .returned .success }
    | .returned _ => { exit with call := { exit.call with
        client := { exit.call.client with connected := false } } }
    | _ => exit

end Response

end IotExplorer.HttpClient
