import IotExplorer.HttpClient

/-!
The client of the AT commands of a modem, with a thread of its own for the parser of
the lines. A command waits on a semaphore for its response, while the parser handles one
line after another; the parser's offset and its count of lines are locals that outlive a
command. The lines are those that the reader delivers.
-/
namespace IotExplorer.AtClient

open TemplateJson HttpClient

section Responses

/-- `at_response`: the buffer, the number of lines that end the response, or 0, and the lines that
were counted. -/
structure Response where
  buf : List UInt8
  lineNum : ℕ
  lineCounts : ℕ
  deriving DecidableEq, Repr

inductive RespStatus
  | ok
  | error
  | timeout
  | buffFull
  deriving DecidableEq, Repr

/-- A prefix and a suffix of unsolicited lines. -/
structure Urc where
  cmdPrefix : List UInt8
  cmdSuffix : List UInt8
  deriving DecidableEq, Repr

/-- The test of `get_urc_obj` for a line. -/
def Urc.fits (line : List UInt8) (urc : Urc) : Bool :=
  urc.cmdPrefix.length + urc.cmdSuffix.length ≤ line.length &&
    (urc.cmdPrefix.isPrefixOf line && urc.cmdSuffix.isSuffixOf line)

def getUrcObj (table : List Urc) (line : List UInt8) : Option Urc := table.find? (Urc.fits line)

end Responses

section Clients

/-- Where the thread of a command is: outside, at the semaphore, or behind it, woken or not. -/
inductive Phase
  | idle
  | waiting
  | leaving (woken : Bool)
  deriving DecidableEq, Repr

/-- `at_client`, with the thread of the commands and the locals of the parser. The object is that of
the last command, to which `resp` points or not. -/
structure Client where
  endSign : UInt8
  urcTable : List Urc
  object : Response
  resp : Bool
  respStatus : RespStatus
  respSem : ℕ
  phase : Phase
  respBufLen : ℕ
  lineCounts : ℕ
  deriving DecidableEq, Repr

/-- What is seen of the client: a line is copied, a command returns with its object. -/
inductive Event
  | stored (text : List UInt8)
  | returned (object : Response) (success : Bool)
  deriving DecidableEq, Repr

/-- A line as it is copied. -/
def terminated (line : List UInt8) : List UInt8 := line.dropLast ++ [0]

/-- `memcpy` to a place in a buffer. -/
def copyTo (buf : List UInt8) (place : ℕ) (text : List UInt8) : List UInt8 :=
  buf.take place ++ (text ++ buf.drop (place + text.length))

/-- The copy of a response line, if there is room for it. -/
def storeLine (text : List UInt8) (client : Client) : Client × List Event :=
  if client.respBufLen + text.length < client.object.buf.length then
    ({ client with
      object := { client.object with buf := copyTo client.object.buf client.respBufLen text }
      respBufLen := client.respBufLen + text.length
      lineCounts := client.lineCounts + 1 }, [.stored text])
  else ({ client with respStatus := .buffFull }, [])

def complete (client : Client) : Client :=
  { client with
    object := { client.object with lineCounts := client.lineCounts }
    resp := false
    respBufLen := 0
    lineCounts := 0
    respSem := client.respSem + 1 }

/-- What a response line tells of the response. -/
def lineResult (text : List UInt8) (client : Client) : Option RespStatus :=
  if (ascii "OK").isPrefixOf text ∧ client.object.lineNum = 0 then some .ok
  else if (strstr text (ascii "ERROR")).isSome ∨ (ascii "FAIL").isPrefixOf text then some .error
  else if client.lineCounts = client.object.lineNum ∧ client.object.lineNum ≠ 0 then some .ok
  else none

/-- The part of `client_parser` on a line of a response. -/
def parseResponse (line : List UInt8) (client : Client) : Client × List Event :=
  let stored := storeLine (terminated line) client
  match lineResult (terminated line) stored.1 with
  | none => stored
  | some status => (complete { stored.1 with respStatus := status }, stored.2)

/-- A round of `client_parser`. -/
def clientParser (line : List UInt8) (client : Client) : Client × List Event :=
  if line = [] then (client, [])
  else if (getUrcObj client.urcTable line).isSome then (client, [])
  else if !client.resp then (client, [])
  else if client.endSign ≠ 0 then
    if line.getLast? = some client.endSign then (complete client, []) else (client, [])
  else parseResponse line client

/-- `at_obj_exec_cmd` up to its wait; another thread waits for the lock. -/
def execCmd (resp : Response) (client : Client) : Client :=
  if client.phase = .idle then
    { client with
      object := { resp with lineCounts := 0 }, resp := true, respStatus := .ok, phase := .waiting }
  else client

/-- The end of `at_obj_exec_cmd`. -/
def exitCmd (woken : Bool) (client : Client) : Client × List Event :=
  ({ client with resp := false, phase := .idle },
    [.returned client.object (woken && client.respStatus == .ok)])

end Clients

section Steps

/-- What happens: a command is executed, a line arrives, the wait of the command is over, because of
the semaphore or of the time, the command returns, or the end sign is set. -/
inductive Step
  | execCmd (resp : Response)
  | line (line : List UInt8)
  | wake
  | timeOut
  | exit
  | setEndSign (ch : UInt8)

def step : Step → Client → Client × List Event
  | .execCmd resp, client => (AtClient.execCmd resp client, [])
  | .line line, client => clientParser line client
  | .wake, client =>
      if client.phase = .waiting ∧ client.respSem ≠ 0 then
        ({ client with phase := .leaving true, respSem := client.respSem - 1 }, [])
      else (client, [])
  | .timeOut, client =>
      if client.phase = .waiting ∧ client.respSem = 0 then
        ({ client with phase := .leaving false }, [])
      else (client, [])
  | .exit, client =>
      match client.phase with
      | .leaving woken => exitCmd woken client
      | _ => (client, [])
  | .setEndSign ch, client => ({ client with endSign := ch }, [])

end Steps

end IotExplorer.AtClient
