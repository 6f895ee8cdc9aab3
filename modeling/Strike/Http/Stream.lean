/-
**The server side of an HTTP connection** (`pkg/stream/http/v1/stream.go`).

`OnDecodeDone` hands a decoded request to the stream's receiver (`handleRequest`), waits until the
response has been sent and asks the codec to stop. `dispatch` is `Dispatch` on the connection buffer,
and `run` a connection on which chunks arrive one after another, each appended to the buffer and
dispatched.

The receiver is taken to answer every request, and the stream's reads not to be disabled, so that
`OnDecodeDone` calls the receiver once and returns.
-/

import Strike.Http.Codec

namespace Strike.Http

variable {Form : Type}

def strikeHeaderHostKey : Bytes := ascii "x-strike-host"

def strikeHeaderPathKey : Bytes := ascii "x-strike-path"

def strikeHeaderMethod : Bytes := ascii "x-strike-method"

def istioHeaderHostKey : Bytes := ascii "authority"

/-- The arguments of `OnReceive` that differ between requests. The map is the list of its entries in
the order they were first set. -/
structure Received where
  header : List ArgsKV
  buf : Option Bytes
  deriving DecidableEq, Repr

/-- `decodeReqHeader`: the copied header afterwards, and the map. `in.Len()` visits the headers for the
first time. -/
def decodeReqHeader (h : RequestHeader) : Except Panic (RequestHeader × List ArgsKV) := do
  let (h, _) ← h.visitAll
  let (h, pairs) ← h.visitAll
  return (h, pairs.foldl (fun out kv => setArg out kv.1 kv.2) [])

/-- `handleRequest`. -/
def handleRequest (mp : Multipart Form) (order : RangeOrder) (req : Request Form) : Except Panic Received := do
  let (copied, header) ← decodeReqHeader req.header
  -- The copy shares the memory of the header lines, in which the names are normalised by now.
  let h := { req.header with rawHeaders := copied.rawHeaders }
  let (h, host) ← h.getHost
  let header := setArg header strikeHeaderHostKey host
  let (h, host) ← h.getHost
  let header := setArg header istioHeaderHostKey host
  let header := setArg header strikeHeaderMethod h.getMethod
  let header := setArg header strikeHeaderPathKey h.getRequestURI
  let buf ← (if h.noBody then .ok none else (req.getBody mp order).map some : Except Panic (Option Bytes))
  return ⟨header, buf⟩

/-- `OnDecodeDone`. -/
def onDecodeDone (mp : Multipart Form) (order : RangeOrder) (req : Request Form) :
    Except Panic (Received × FilterStatus) := do
  let received ← handleRequest mp order req
  return (received, .stop)

/-- `Dispatch`. -/
def dispatch (mp : Multipart Form) (order : RangeOrder) (answers : Nat → Recycled Form) :
    BufM (List (Call Received)) :=
  decode mp ⟨onDecodeDone mp order⟩ answers

/-- A chunk that arrives, the memory its `Append` may get, the order in which a form in it is written, and what
the pools hand out while it is dispatched. -/
structure Arrival (Form : Type) where
  data : Bytes
  pool : Pool
  order : RangeOrder
  answers : Nat → Recycled Form

/-- The calls of `decodeHttpReq` on a connection, each with the number of bytes that had arrived. -/
def run (mp : Multipart Form) : List (Arrival Form) → Nat → BufM (List (Nat × Call Received))
  | [], _ => return []
  | arrival :: rest, arrived => do
    IoBuffer.append arrival.pool arrival.data
    let arrived := arrived + arrival.data.length
    let calls ← dispatch mp arrival.order arrival.answers
    let later ← run mp rest arrived
    return calls.map (fun call => (arrived, call)) ++ later

/-- The requests the receiver got. -/
def handed (calls : List (Nat × Call Received)) : List Received :=
  calls.filterMap fun call => call.2.outcome.toOption

end Strike.Http
