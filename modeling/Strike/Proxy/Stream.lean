/-
**A proxied stream** (`downstream.go`, `upstream.go`, `streamfilter.go`, `buffer.go`).

`downStream` and `upstreamRequest` are one pooled object. Their methods are programs over it: every
access to the object is a step of its own, `Give` puts the zeroed object back into its pool, and the
filters, the connection pool and the request sender are calls. A nil pointer panics, and the panic
ends the handler.

* `reactor`: the callbacks and event handlers of one stream. Handlers run one at a time, each to its
  end; the callbacks come at any time, also inside a call.
* The trace notes what the stream does outside: what the response sender gets, what the filters are
  shown and answer, and what the upstream request is handed.

The timers are left out, because nothing sets `timeout`; so are `setupRetry` and `upstreamReset`,
which nothing sets either, and the sender filters, which nothing runs.
-/

import Strike.Lib.Calls
import Strike.Protocol.CommonHeader

namespace Strike.Proxy

open Strike.Lib

/-! ### The object and what is around it -/

/-- What a proxy is configured with: the protocols, and those that have a connection pool. -/
structure Config where
  downstreamProtocol : String
  upstreamProtocol : String
  serverStreamConn : Option String := none
  connPoolFactories : List String
  deriving Repr, DecidableEq

namespace Config

/-- `protocol.Auto`. -/
def auto : String := "Auto"

/-- `getDownstreamProtocol`. -/
def getDownstreamProtocol (c : Config) : String := c.serverStreamConn.getD c.downstreamProtocol

/-- `getUpstreamProtocol`. -/
def getUpstreamProtocol (c : Config) : String :=
  if c.upstreamProtocol = auto then c.getDownstreamProtocol else c.upstreamProtocol

/-- `initializeUpstreamConnectionPool`: whether there is a pool. -/
def hasConnPool (c : Config) : Bool := c.connPoolFactories.contains c.getUpstreamProtocol

end Config

/-- `downStream`; its default is the zero value. A pointer that is only called or compared with nil is
a `Bool`, and `receiverFilters` is the length of the chain. -/
structure DownStream where
  proxy : Option Config := none
  element : Bool := false
  context : Bool := false
  responseSender : Bool := false
  upstreamRequest : Bool := false
  downstreamReqHeaders : Option CommonHeader := none
  downstreamReqDataBuf : Option Bytes := none
  downstreamReqTrailers : Option CommonHeader := none
  downstreamRespHeaders : Option CommonHeader := none
  downstreamRespDataBuf : Option Bytes := none
  downstreamRespTrailers : Option CommonHeader := none
  downstreamResponseStarted : Bool := false
  downstreamRecvDone : Bool := false
  upstreamRequestSent : Bool := false
  upstreamProcessDone : Bool := false
  filterStage : UInt64 := 0
  downstreamReset : Bool := false
  downstreamCleaned : Bool := false
  reuseBuffer : Bool := false
  receiverFilters : Nat := 0

/-- `upstreamRequest`. -/
structure UpstreamRequest where
  downStream : Bool := false
  requestSender : Bool := false
  connPool : Bool := false
  sendComplete : Bool := false
  dataSent : Bool := false
  trailerSent : Bool := false

/-- `proxyBuffers`, the pooled object. -/
structure ProxyBuffers where
  stream : DownStream := {}
  request : UpstreamRequest := {}

/-- `activeStreamFilter`, which is not pooled. -/
structure ActiveStreamFilter where
  stopped : Bool := false
  stoppedNoBuf : Bool := false
  headersContinued : Bool := false

/-- The queued events. -/
inductive Event where
  | recv
  | recvHeader (headers : Option CommonHeader) (endStream : Bool)
  | recvData (endStream : Bool)
  | recvTrailer (trailers : Option CommonHeader)
  | reset
  deriving Repr, DecidableEq

/-- The parts of a message. -/
inductive Part where
  | headers
  | data
  | trailers
  deriving Repr, DecidableEq

/-- The status a filter returns. -/
inductive Status where
  | continue_
  | stop
  deriving Repr, DecidableEq

/-- What a stream does outside. -/
inductive Effect where
  | appendHeaders (headers : Option CommonHeader) (endStream : Bool)
  | appendData (data : Option Bytes) (endStream : Bool)
  | appendTrailers (trailers : Option CommonHeader)
  | resetUpstream
  | reset
  | cleaned
  | shown (index : Nat) (part : Part)
  | answered (index : Nat) (status : Status)
  | continued (index : Nat)
  | handed (part : Part)
  deriving Repr, DecidableEq

/-- How much of the request the server stream has delivered. -/
inductive Arrived where
  | nothing
  | begun
  | whole
  deriving Repr, DecidableEq

/-- What a stream has besides its object. `asked` and `owed`: a connection pool has been asked, and it or
the sender it gave still owes an answer. -/
structure Env where
  filters : Nat → ActiveStreamFilter := fun _ => {}
  down : List Event := []
  up : List Event := []
  arrived : Arrived := .nothing
  asked : Bool := false
  owed : Bool := false
  trace : List Effect := []

/-- A stream and its object. -/
structure World extends ProxyBuffers, Env

/-- The calls: of a receiver filter, of the connection pool and of the request sender. -/
inductive Site where
  | onReceiveHeaders (index : Nat) (headers : Option CommonHeader) (endStream : Bool)
  | onReceiveTrailers (index : Nat) (trailers : Option CommonHeader)
  | newStream
  | appendHeaders (headers : Option CommonHeader) (endStream : Bool)
  | appendData (data : Option Bytes) (endStream : Bool)
  | appendTrailers (trailers : Option CommonHeader)
  deriving Repr, DecidableEq

/-- A program of the proxy. -/
abbrev Program : Type → Type := Prog World Site Status

/-- One more effect. -/
def World.emit (w : World) (e : Effect) : World := { w with trace := w.trace ++ [e] }

open Prog (get set access ask giveBack when)

/-- `NoHealthUpstreamCode`. -/
def noHealthUpstreamCode : Nat := 502

/-- `UpstreamOverFlowCode`. -/
def upstreamOverFlowCode : Nat := 503

/-! ### The end of a stream -/

/-- `processDone`. -/
def processDone : Program Bool := do
  if ← get (·.stream.upstreamProcessDone) then return true
  if ← get (·.stream.downstreamReset) then return true
  get (·.stream.downstreamCleaned)

/-- `upstreamRequest.resetStream`. -/
def Upstream.resetStream : Program Unit := do
  when (← get (·.request.requestSender)) do set (·.emit .resetUpstream)

/-- `cleanUp`. -/
def cleanUp : Program Unit := do
  when (← get (·.stream.upstreamRequest)) do set fun w => { w with request.requestSender := false }

/-- `giveStream`, with `proxyBufferCtx.Reset`. -/
def giveStream : Program Unit := do
  if !(← get (·.stream.reuseBuffer)) then return
  if ← get (·.stream.downstreamReset) then return
  let _ ← get (·.stream.downstreamReqDataBuf)
  when (← get (·.stream.context)) do giveBack fun w => { w with toProxyBuffers := {} }

/-- `cleanStream` behind its compare-and-swap; `OnDestroy` of the filters does nothing here. -/
def release : Program Unit := do
  when (← get (·.stream.upstreamRequest)) do
    when (!(← get (·.stream.upstreamProcessDone))) do
      set fun w => { w with stream.upstreamProcessDone := true }
      Upstream.resetStream
  cleanUp
  let _ ← get (·.stream.receiverFilters)
  let _ ← get (·.stream.element)
  giveStream

/-- `cleanStream`. -/
def cleanStream : Program Unit := do
  if ← access (·.stream.downstreamCleaned)
      fun w => if w.stream.downstreamCleaned then w else { w.emit .cleaned with stream.downstreamCleaned := true }
    then return
  release

/-- `endStream`. -/
def endStream : Program Unit := do
  when (← get (·.stream.responseSender)) do
    when (!(← get (·.stream.downstreamRecvDone))) do set fun w => { w with stream.reuseBuffer := false }
  cleanStream

/-! ### Replies -/

/-- A call of the response sender. -/
def send (e : Effect) : Program Unit := do
  when (!(← access (·.stream.responseSender) fun w => if w.stream.responseSender then w.emit e else w)) .panic

/-- `doAppendHeaders`. -/
def doAppendHeaders (headers : Option CommonHeader) (endOfStream : Bool) : Program Unit := do
  send (.appendHeaders headers endOfStream)
  when endOfStream endStream

/-- `doAppendData`. -/
def doAppendData (data : Option Bytes) (endOfStream : Bool) : Program Unit := do
  send (.appendData data endOfStream)
  when endOfStream endStream

/-- `doAppendTrailers`. -/
def doAppendTrailers (trailers : Option CommonHeader) : Program Unit := do
  send (.appendTrailers trailers)
  endStream

/-- `appendHeaders` of the stream. -/
def appendHeaders (headers : Option CommonHeader) (endOfStream : Bool) : Program Unit := do
  set fun w => { w with stream.upstreamProcessDone := endOfStream }
  doAppendHeaders headers endOfStream

/-- `appendData` of the stream. -/
def appendData (data : Option Bytes) (endOfStream : Bool) : Program Unit := do
  set fun w => { w with stream.upstreamProcessDone := endOfStream }
  doAppendData data endOfStream

/-- `appendTrailers` of the stream. -/
def appendTrailers (trailers : Option CommonHeader) : Program Unit := do
  set fun w => { w with stream.upstreamProcessDone := true }
  doAppendTrailers trailers

/-- `sendHijackReply`. -/
def sendHijackReply (code : Nat) (headers : Option CommonHeader) : Program Unit :=
  appendHeaders (some ((headers.getD .empty).set headerStatus (itoa code))) true

/-! ### The upstream request -/

namespace Upstream

/-- `r.downStream`, for a use of it; `f` is what is noted then. -/
def deref (f : World → World) : Program Unit := do
  when (!(← access (·.request.downStream) f)) .panic

/-- `appendHeaders`. -/
def appendHeaders (endOfStream : Bool) : Program Unit := do
  deref (·.emit (.handed .headers))
  if ← processDone then return
  set fun w => { w with request.sendComplete := endOfStream }
  when (!(← access (·.request.connPool) fun w => { w with asked := true, owed := true })) .panic
  let _ ← ask .newStream

/-- `appendData`. -/
def appendData (data : Option Bytes) (endOfStream : Bool) : Program Unit := do
  deref (·.emit (.handed .data))
  if ← processDone then return
  set fun w => { w with request.sendComplete := endOfStream }
  set fun w => { w with request.dataSent := true }
  if !(← get (·.request.requestSender)) then
    set fun w => { w with stream.upstreamProcessDone := true }
    sendHijackReply upstreamOverFlowCode (← get (·.stream.downstreamReqHeaders))
    return
  when (!(← get (·.request.requestSender))) .panic
  let _ ← ask (.appendData data endOfStream)

/-- `appendTrailers`. -/
def appendTrailers (trailers : Option CommonHeader) : Program Unit := do
  deref (·.emit (.handed .trailers))
  if ← processDone then return
  set fun w => { w with request.sendComplete := true }
  set fun w => { w with request.trailerSent := true }
  when (!(← get (·.request.requestSender))) .panic
  let _ ← ask (.appendTrailers trailers)

end Upstream

/-- `s.upstreamRequest`, for a use of it. -/
def upstreamRequest : Program Unit := do
  when (!(← get (·.stream.upstreamRequest))) .panic

/-- `onUpstreamRequestSent`. -/
def onUpstreamRequestSent : Program Unit := set fun w => { w with stream.upstreamRequestSent := true }

/-! ### The receiver filters -/

/-- `DecodeHeaders`, the first of the stages. -/
def decodeHeaders : UInt64 := 0

/-- `DecodeTrailers`. -/
def decodeTrailers : UInt64 := 2

/-- The filter at `index`, changed. -/
def World.onFilter (w : World) (index : Nat) (f : ActiveStreamFilter → ActiveStreamFilter) : World :=
  { w with filters := Function.update w.filters index (f (w.filters index)) }

/-- A write to the filter at `index`. -/
def setFilter (index : Nat) (f : ActiveStreamFilter → ActiveStreamFilter) : Program Unit := set (·.onFilter index f)

/-- A filter is called at a stage: what is noted of it, and its status. -/
def callFilter (index : Nat) (part : Part) (stage : UInt64) (site : Site) : Program Status := do
  set fun w => { w.emit (.shown index part) with stream.filterStage := w.stream.filterStage ||| stage }
  let status ← ask site
  set fun w => { w.emit (.answered index status) with stream.filterStage := w.stream.filterStage &&& ~~~stage }
  return status

/-- `handleHeaderStatus`. -/
def handleHeaderStatus (index : Nat) : Status → Program Bool
  | .stop => do
    setFilter index fun f => { f with stopped := true }
    return true
  | .continue_ => do
    setFilter index fun f => { f with headersContinued := true }
    return false

/-- `runReceiveHeadersFilters` from `index` on, with the filters that are `left`. -/
def runReceiveHeadersFilters (headers : Option CommonHeader) (endOfStream : Bool) : (left index : Nat) → Program Bool
  | 0, index => do
    let _ ← get fun w => decide (index < w.stream.receiverFilters)
    return false
  | left + 1, index => do
    if ← get fun w => decide (index < w.stream.receiverFilters) then
      let status ← callFilter index .headers decodeHeaders (.onReceiveHeaders index headers endOfStream)
      if ← handleHeaderStatus index status then return true
      runReceiveHeadersFilters headers endOfStream left (index + 1)
    else return false

/-- `doReceiveHeaders` with a connection pool. -/
def requestUpstream (endOfStream : Bool) : Program Unit := do
  set fun w => { w with stream.upstreamRequest := true }
  set fun w => { w with request.downStream := true }
  set fun w => { w with request.connPool := true }
  upstreamRequest
  Upstream.appendHeaders endOfStream
  when endOfStream onUpstreamRequestSent

/-- `doReceiveHeaders`, from the filter at `index` on. -/
def doReceiveHeaders (left index : Nat) (headers : Option CommonHeader) (endOfStream : Bool) : Program Unit := do
  if ← runReceiveHeadersFilters headers endOfStream left index then return
  match ← get (·.stream.proxy) with
  | none => .panic
  | some config =>
    if !config.hasConnPool then
      sendHijackReply noHealthUpstreamCode (← get (·.stream.downstreamReqHeaders))
    else requestUpstream endOfStream

/-- `doReceiveData`. -/
def doReceiveData (data : Option Bytes) (endOfStream : Bool) : Program Unit := do
  when endOfStream onUpstreamRequestSent
  upstreamRequest
  Upstream.appendData data endOfStream
  when (← get (·.stream.upstreamProcessDone)) cleanStream

/-- `doReceiveTrailers` behind the filters. -/
def doReceiveTrailers (filters : Option CommonHeader → Program Bool) (trailers : Option CommonHeader) :
    Program Unit := do
  if ← filters trailers then return
  set fun w => { w with stream.downstreamReqTrailers := trailers }
  onUpstreamRequestSent
  upstreamRequest
  Upstream.appendTrailers trailers
  when (← get (·.stream.upstreamProcessDone)) cleanStream

/-- The headers part of `doContinue`. -/
def continueHeaders (left index : Nat) (hasBuffedData hasTrailer : Bool) : Program Unit := do
  when (!(← get fun w => (w.filters index).headersContinued)) do
    setFilter index fun f => { f with headersContinued := true }
    let recvDone ← get (·.stream.downstreamRecvDone)
    doReceiveHeaders left (index + 1) (← get (·.stream.downstreamReqHeaders))
      (recvDone && !hasBuffedData && !hasTrailer)

/-- The data part of `doContinue`. -/
def continueData (index : Nat) (hasBuffedData hasTrailer : Bool) : Program Unit := do
  let stoppedNoBuf ← get fun w => (w.filters index).stoppedNoBuf
  when (hasBuffedData || stoppedNoBuf) do
    set fun w => if stoppedNoBuf || w.stream.downstreamReqDataBuf.isNone then
      { w with stream.downstreamReqDataBuf := some [] } else w
    let recvDone ← get (·.stream.downstreamRecvDone)
    doReceiveData (← get (·.stream.downstreamReqDataBuf)) (recvDone && !hasTrailer)

/-- `doContinue` of the filter at `index`; `filters` runs the later ones over the trailers. -/
def doContinue (left index : Nat) (filters : Option CommonHeader → Program Bool) : Program Unit := do
  if ← access (·.stream.upstreamProcessDone) (·.emit (.continued index)) then return
  setFilter index fun f => { f with stopped := false }
  let hasBuffedData ← get (·.stream.downstreamReqDataBuf.isSome)
  let hasTrailer ← get (·.stream.downstreamReqTrailers.isSome)
  continueHeaders left index hasBuffedData hasTrailer
  continueData index hasBuffedData hasTrailer
  when hasTrailer do doReceiveTrailers filters (← get (·.stream.downstreamReqTrailers))

/-- `handleTrailerStatus`. -/
def handleTrailerStatus (index : Nat) (continues : Program Unit) : Status → Program Bool
  | .stop => return true
  | .continue_ => do
    if ← get fun w => (w.filters index).stopped then
      continues
      return true
    return false

/-- The loop of `runReceiveTrailersFilters`. -/
def trailersLoop : (left index : Nat) → Option CommonHeader → Program Bool
  | 0, index, _ => do
    let _ ← get fun w => decide (index < w.stream.receiverFilters)
    return false
  | left + 1, index, trailers => do
    if ← get fun w => decide (index < w.stream.receiverFilters) then
      let status ← callFilter index .trailers decodeTrailers (.onReceiveTrailers index trailers)
      let continues := doContinue left index fun trailers => do
        if ← get (·.stream.upstreamProcessDone) then return false
        trailersLoop left (index + 1) trailers
      if ← handleTrailerStatus index continues status then return true
      trailersLoop left (index + 1) trailers
    else return false

/-- `runReceiveTrailersFilters`. -/
def runReceiveTrailersFilters (left index : Nat) (trailers : Option CommonHeader) : Program Bool := do
  if ← get (·.stream.upstreamProcessDone) then return false
  trailersLoop left index trailers

/-! ### The events of the request; `n` is the length of the chain -/

/-- `ReceiveHeaders`. -/
def receiveHeaders (n : Nat) (headers : Option CommonHeader) (endOfStream : Bool) : Program Unit := do
  set fun w => { w with stream.downstreamRecvDone := endOfStream }
  doReceiveHeaders n 0 headers endOfStream

/-- `ReceiveData`. -/
def receiveData (data : Option Bytes) (endOfStream : Bool) : Program Unit := do
  if ← processDone then return
  set fun w => { w with stream.downstreamRecvDone := endOfStream }
  doReceiveData data endOfStream

/-- `ReceiveTrailers`. -/
def receiveTrailers (n : Nat) (trailers : Option CommonHeader) : Program Unit := do
  if ← processDone then return
  set fun w => { w with stream.downstreamRecvDone := true }
  doReceiveTrailers (runReceiveTrailersFilters n 0) trailers

/-- `Receive`. -/
def receive (n : Nat) : Program Unit := do
  let hasBody ← get (·.stream.downstreamReqDataBuf.isSome)
  let hasTrailer ← get (·.stream.downstreamReqTrailers.isSome)
  receiveHeaders n (← get (·.stream.downstreamReqHeaders)) !hasBody
  when hasBody do receiveData (← get (·.stream.downstreamReqDataBuf)) !hasTrailer
  when hasTrailer do receiveTrailers n (← get (·.stream.downstreamReqTrailers))

/-- The handler of a downstream event; `ResetStream` is `cleanStream`. -/
def handleDown (n : Nat) : Event → Program Unit
  | .recv => receive n
  | .recvHeader headers endOfStream => receiveHeaders n headers endOfStream
  | .recvData endOfStream => do receiveData (← get (·.stream.downstreamReqDataBuf)) endOfStream
  | .recvTrailer trailers => receiveTrailers n trailers
  | .reset => cleanStream

/-! ### The events of the response -/

/-- `onUpstreamResponseRecvFinished`. -/
def onUpstreamResponseRecvFinished : Program Unit := do
  when (!(← get (·.stream.upstreamRequestSent))) do
    upstreamRequest
    Upstream.resetStream
  cleanUp

/-- `onUpstreamHeaders`. -/
def onUpstreamHeaders (headers : Option CommonHeader) (endOfStream : Bool) : Program Unit := do
  set fun w => { w with stream.downstreamRespHeaders := headers }
  set fun w => { w with stream.downstreamResponseStarted := true }
  when endOfStream onUpstreamResponseRecvFinished
  appendHeaders headers endOfStream

/-- `onUpstreamData`. -/
def onUpstreamData (data : Option Bytes) (endOfStream : Bool) : Program Unit := do
  when endOfStream onUpstreamResponseRecvFinished
  appendData data endOfStream

/-- `onUpstreamTrailers`. -/
def onUpstreamTrailers (trailers : Option CommonHeader) : Program Unit := do
  onUpstreamResponseRecvFinished
  appendTrailers trailers

namespace Upstream

/-- `ReceiveHeaders`. -/
def receiveHeaders (headers : Option CommonHeader) (endOfStream : Bool) : Program Unit := do
  deref id
  onUpstreamHeaders headers endOfStream

/-- `ReceiveData`. -/
def receiveData (data : Option Bytes) (endOfStream : Bool) : Program Unit := do
  deref id
  if ← processDone then return
  onUpstreamData data endOfStream

/-- `ReceiveTrailers`. -/
def receiveTrailers (trailers : Option CommonHeader) : Program Unit := do
  deref id
  if ← processDone then return
  onUpstreamTrailers trailers

/-- `Receive`. -/
def receive : Program Unit := do
  deref id
  if ← processDone then return
  let hasBody ← get (·.stream.downstreamRespDataBuf.isSome)
  let hasTrailer ← get (·.stream.downstreamRespTrailers.isSome)
  receiveHeaders (← get (·.stream.downstreamRespHeaders)) !hasBody
  when hasBody do
    deref id
    receiveData (← get (·.stream.downstreamRespDataBuf)) !hasTrailer
  when hasTrailer do
    deref id
    receiveTrailers (← get (·.stream.downstreamRespTrailers))

/-- `ResetStream`: `onUpstreamReset` is commented out. -/
def resetByPeer : Program Unit := set fun w => { w with request.requestSender := false, owed := false }

/-- The handler of an upstream event. -/
def handleUp : Event → Program Unit
  | .recv => receive
  | .recvHeader headers endOfStream => receiveHeaders headers endOfStream
  | .recvData endOfStream => do
    deref id
    receiveData (← get (·.stream.downstreamRespDataBuf)) endOfStream
  | .recvTrailer trailers => receiveTrailers trailers
  | .reset => resetByPeer

end Upstream

/-! ### Callbacks -/

/-- What a server stream or a client stream calls. -/
inductive Delivery where
  | onReceive (headers : Option CommonHeader) (data : Option Bytes) (trailers : Option CommonHeader)
  | onReceiveHeaders (headers : Option CommonHeader) (endStream : Bool)
  | onReceiveData (data : Bytes) (endStream : Bool)
  | onReceiveTrailers (trailers : Option CommonHeader)
  | onResetStream
  deriving Repr, DecidableEq

/-- How much of the request has arrived with one more part. -/
def Arrived.more (last : Bool) (_ : Arrived) : Arrived := if last then .whole else .begun

/-- `Offer` of a downstream event, from the server stream; `note` is what has arrived with it. -/
def offerDown (e : Event) (note : Arrived → Arrived) : Program Unit :=
  set fun w => { w with down := w.down ++ [e], arrived := note w.arrived }

/-- `Offer` of an upstream event: its source is a value of the context. -/
def offerUp (e : Event) : Program Unit := do
  Upstream.deref id
  when (!(← get (·.stream.context))) .panic
  set fun w => { w with up := w.up ++ [e] }

/-- The listener of the server stream. -/
def onDownstream : Delivery → Program Unit
  | .onReceive headers data trailers => do
    set fun w => { w with stream.downstreamReqHeaders := headers }
    when data.isSome do set fun w => { w with stream.downstreamReqDataBuf := data }
    set fun w => { w with stream.downstreamReqTrailers := trailers }
    offerDown .recv (.more true)
  | .onReceiveHeaders headers endOfStream => do
    set fun w => { w with stream.downstreamReqHeaders := headers }
    offerDown (.recvHeader headers endOfStream) (.more endOfStream)
  | .onReceiveData data endOfStream => do
    set fun w => { w with stream.downstreamReqDataBuf := some data }
    offerDown (.recvData endOfStream) (.more endOfStream)
  | .onReceiveTrailers trailers => offerDown (.recvTrailer trailers) (.more true)
  | .onResetStream => do
    if ← access (·.stream.downstreamReset)
        fun w => if w.stream.downstreamReset then w else { w.emit .reset with stream.downstreamReset := true }
      then return
    when (!(← get (·.stream.context))) .panic
    offerDown .reset id

/-- The client stream owes nothing more behind the last part. -/
def World.answer (w : World) (last : Bool) : World := { w with owed := w.owed && !last }

/-- The listener of the client stream. -/
def onUpstream : Delivery → Program Unit
  | .onReceive headers data trailers => do
    Upstream.deref (·.answer true)
    set fun w => { w with stream.downstreamRespHeaders := headers }
    when data.isSome do
      Upstream.deref id
      set fun w => { w with stream.downstreamRespDataBuf := data }
    Upstream.deref id
    set fun w => { w with stream.downstreamRespTrailers := trailers }
    offerUp .recv
  | .onReceiveHeaders headers endOfStream => do
    Upstream.deref (·.answer endOfStream)
    offerUp (.recvHeader headers endOfStream)
  | .onReceiveData data endOfStream => do
    Upstream.deref (·.answer endOfStream)
    set fun w => { w with stream.downstreamRespDataBuf := some data }
    offerUp (.recvData endOfStream)
  | .onReceiveTrailers trailers => do
    Upstream.deref (·.answer true)
    offerUp (.recvTrailer trailers)
  | .onResetStream => do
    Upstream.deref (·.answer true)
    offerUp .reset

/-- `OnReady`. -/
def onReady : Program Unit := do
  set fun w => { w with request.requestSender := true }
  let sendComplete ← get (·.request.sendComplete)
  let dataSent ← get (·.request.dataSent)
  let trailerSent ← get (·.request.trailerSent)
  when (!(← get (·.request.requestSender))) .panic
  Upstream.deref id
  let _ ← ask (.appendHeaders (← get (·.stream.downstreamReqHeaders)) (sendComplete && !dataSent && !trailerSent))

/-- `OnFailure`: the same as a reset, whatever the reason. -/
def onFailure : Program Unit := Upstream.resetByPeer

/-- What a filter calls of its handler. -/
inductive HandlerCall where
  | continueReceiving
  | appendHeaders (headers : Option CommonHeader) (endStream : Bool)
  | appendData (buf : Option Bytes) (endStream : Bool)
  | appendTrailers (trailers : Option CommonHeader)
  | sendHijackReply (code : Nat) (headers : Option CommonHeader)
  deriving Repr, DecidableEq

/-- `activeStreamReceiverFilter`, of the filter at `index` in a chain of `n`. -/
def onHandler (n index : Nat) : HandlerCall → Program Unit
  | .continueReceiving =>
    doContinue (n - (index + 1)) index (runReceiveTrailersFilters (n - (index + 1)) (index + 1))
  | .appendHeaders headers endOfStream => do
    set fun w => { w with stream.downstreamRespHeaders := headers }
    doAppendHeaders headers endOfStream
  | .appendData buf endOfStream => doAppendData buf endOfStream
  | .appendTrailers trailers => do
    set fun w => { w with stream.downstreamRespTrailers := trailers }
    doAppendTrailers trailers
  | .sendHijackReply code headers => sendHijackReply code headers

/-! ### One stream -/

/-- What can be entered: a callback, or the handler of the next event of a direction. -/
inductive Entry where
  | downstream (d : Delivery)
  | upstream (d : Delivery)
  | onReady
  | onFailure
  | filter (index : Nat) (c : HandlerCall)
  | down
  | up
  deriving Repr, DecidableEq

/-- The first event of a queue is handled. -/
def handleFirst (handle : Event → Program Unit) : List Event → Program Unit
  | [] => pure ()
  | e :: _ => handle e

/-- The program of an entry. -/
def program (n : Nat) : Entry → Program Unit
  | .downstream d => onDownstream d
  | .upstream d => onUpstream d
  | .onReady => onReady
  | .onFailure => onFailure
  | .filter index c => onHandler n index c
  | .down => do handleFirst (handleDown n) (← access (·.down) fun w => { w with down := w.down.tail })
  | .up => do handleFirst Upstream.handleUp (← access (·.up) fun w => { w with up := w.up.tail })

/-- A server stream delivers one request, in order. -/
def Arrived.allows : Arrived → Delivery → Bool
  | _, .onResetStream => true
  | .nothing, .onReceive _ _ _ => true
  | .nothing, .onReceiveHeaders _ _ => true
  | .begun, .onReceiveData _ _ => true
  | .begun, .onReceiveTrailers _ => true
  | _, _ => false

section Allows

variable {arrived : Arrived}

theorem Arrived.allows_onReceive {headers data trailers} :
    arrived.allows (.onReceive headers data trailers) = true ↔ arrived = .nothing := by
  cases arrived <;> simp [Arrived.allows]

theorem Arrived.allows_onReceiveHeaders {headers last} :
    arrived.allows (.onReceiveHeaders headers last) = true ↔ arrived = .nothing := by
  cases arrived <;> simp [Arrived.allows]

theorem Arrived.allows_onReceiveData {data last} :
    arrived.allows (.onReceiveData data last) = true ↔ arrived = .begun := by
  cases arrived <;> simp [Arrived.allows]

theorem Arrived.allows_onReceiveTrailers {trailers} :
    arrived.allows (.onReceiveTrailers trailers) = true ↔ arrived = .begun := by
  cases arrived <;> simp [Arrived.allows]

end Allows

/-- When an entry is possible. The upstream request is known to nobody before a pool is asked. -/
def allows (n : Nat) (w : World) (idle : Bool) : Entry → Bool
  | .downstream d => w.arrived.allows d
  | .upstream _ => w.asked
  | .onReady => w.asked
  | .onFailure => w.asked
  | .filter index _ => index < n
  | .down => idle && !w.down.isEmpty
  | .up => idle && !w.up.isEmpty

/-- **One stream with a chain of `n` filters.** -/
def reactor (n : Nat) : Reactor World Site Status Entry := ⟨program n, allows n⟩

/-- `newActiveStream` and `NewStreamDetect`. -/
def newStream (config : Config) (n : Nat) : World :=
  { stream := {
      proxy := some config
      element := true
      context := true
      responseSender := true
      reuseBuffer := true
      receiverFilters := n } }

end Strike.Proxy
