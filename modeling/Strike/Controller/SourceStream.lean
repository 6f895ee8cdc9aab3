/-
**A request at the controller** (`sourcestream.go`, `streamfilter.go`).

`onReceive` runs the receiver filters over the headers, looks up the emitter and emits. What the stream
does outside is its `trace`: what the response sender is given, the emitted actions and the filters
destroyed.

* `runReceiveHeadersFilters_continue`, `runReceiveHeadersFilters_stop`: a chain that continues only
  hands the headers on; one that stops has sent the reply of one filter.
* `answeredOnce_iff`: the request is answered once and emitted only when allowed, unless it has a body
  and a filter stopped it.
-/

import Strike.Http.Stream
import Strike.Protocol.CommonHeader

namespace Strike.Controller

/-- `admin.Emitter`: the error of `Emit` for an action and its arguments, if it has one. -/
def Emitter : Type := Bytes → List Bytes → Option String

/-- The scope of a controller, and `Load` of the listeners by name. -/
structure Scope where
  names : List Bytes
  findListenerByName : Bytes → Option (Bytes → Option Emitter)

/-- `GetTargetEmitter`: the first listener of the scope that has the topic. -/
def Scope.getTargetEmitter (c : Scope) (topic : Bytes) : Option Emitter :=
  c.names.findSome? fun name => (c.findListenerByName name).bind fun load => load topic

/-- What a stream does outside. -/
inductive Effect where
  | appendHeaders (headers : CommonHeader) (endStream : Bool)
  | appendData (data : Bytes) (endStream : Bool)
  | appendTrailers (trailers : CommonHeader)
  | emit (action : Bytes) (args : List Bytes)
  | onDestroy (index : Nat)
  deriving Repr, DecidableEq

namespace Effect

/-- The response sender is told that the stream ends. -/
def ends : Effect → Bool
  | .appendHeaders _ endStream => endStream
  | .appendData _ endStream => endStream
  | .appendTrailers _ => true
  | .emit _ _ => false
  | .onDestroy _ => false

/-- An action is emitted. -/
def emits : Effect → Bool
  | .emit _ _ => true
  | _ => false

end Effect

/-- `sourceStream`. The header maps are kept by value: the only key written through a second name of a
map is the status, which the stream never reads. -/
structure SourceStream where
  filters : Nat
  reqHeaders : CommonHeader
  reqDataBuf : Option Bytes
  reqTrailers : Option CommonHeader
  respHeaders : Option CommonHeader := none
  respTrailers : Option CommonHeader := none
  recvDone : Bool := false
  controlProcessDone : Bool := false
  emitter : Option Emitter := none
  cleaned : Bool := false
  reuseBuffer : Bool := true
  given : Bool := false
  trace : List Effect := []

/-! ### Replies -/

namespace SourceStream

/-- `giveStream`. -/
def giveStream (s : SourceStream) : SourceStream := if s.reuseBuffer then { s with given := true } else s

/-- `cleanStream`. -/
def cleanStream (s : SourceStream) : SourceStream :=
  if s.cleaned then s
  else
    giveStream { s with
      cleaned := true
      trace := s.trace ++ (List.range s.filters).map .onDestroy }

/-- `endStream`. -/
def endStream (s : SourceStream) : SourceStream :=
  cleanStream (if s.recvDone then s else { s with reuseBuffer := false })

/-- `doAppendHeaders`. -/
def doAppendHeaders (s : SourceStream) (headers : CommonHeader) (endOfStream : Bool) : SourceStream :=
  let s := { s with trace := s.trace ++ [.appendHeaders headers endOfStream] }
  if endOfStream then s.endStream else s

/-- `doAppendData`. -/
def doAppendData (s : SourceStream) (data : Bytes) (endOfStream : Bool) : SourceStream :=
  let s := { s with trace := s.trace ++ [.appendData data endOfStream] }
  if endOfStream then s.endStream else s

/-- `doAppendTrailers`. -/
def doAppendTrailers (s : SourceStream) (trailers : CommonHeader) : SourceStream :=
  endStream { s with trace := s.trace ++ [.appendTrailers trailers] }

/-- `sendHijackReply`, with `appendHeaders`. -/
def sendHijackReply (s : SourceStream) (code : Nat) (headers : Option CommonHeader) : SourceStream :=
  let headers := (headers.getD .empty).set headerStatus (itoa code)
  doAppendHeaders { s with controlProcessDone := true } headers true

/-- `doEmit`. -/
def doEmit (s : SourceStream) (args : List Bytes) : SourceStream :=
  match s.emitter with
  | none => s.sendHijackReply routerUnavailableCode s.respHeaders
  | some emit =>
    let (s, err) := match s.reqHeaders.get Http.strikeHeaderMethod with
      | some action => ({ s with trace := s.trace ++ [Effect.emit action args] }, emit action args)
      | none => (s, some "no method found in request header")
    match err with
    | some _ => s.sendHijackReply routerUnavailableCode s.respHeaders
    | none => s.sendHijackReply successCode s.respHeaders

end SourceStream

/-! ### Filters -/

/-- What a filter may call of its handler. -/
inductive HandlerCall where
  | appendHeaders (headers : CommonHeader) (endStream : Bool)
  | appendData (buf : Bytes) (endStream : Bool)
  | appendTrailers (trailers : CommonHeader)
  | sendHijackReply (code : Nat) (headers : Option CommonHeader)
  deriving Repr, DecidableEq

/-- The call ends the stream. -/
def HandlerCall.ends : HandlerCall → Bool
  | .appendHeaders _ endStream => endStream
  | .appendData _ endStream => endStream
  | .appendTrailers _ => true
  | .sendHijackReply _ _ => true

/-- **A reply**: calls of which the last one, and only it, ends the stream. -/
structure Reply where
  calls : List HandlerCall
  last : HandlerCall
  goesOn : ∀ call ∈ calls, call.ends = false
  ends : last.ends = true

/-- The answer of `OnReceiveHeaders`, with the headers as the filter leaves them. -/
inductive Verdict where
  | continue_ (headers : CommonHeader)
  | stop (headers : CommonHeader) (reply : Reply)

/-- `StreamReceiverFilter`, as far as the controller calls it. -/
def Filter : Type := CommonHeader → Bool → Verdict

namespace SourceStream

/-- The handler of a filter. -/
def call (s : SourceStream) : HandlerCall → SourceStream
  | .appendHeaders headers endOfStream =>
    doAppendHeaders { s with respHeaders := some headers } headers endOfStream
  | .appendData buf endOfStream => s.doAppendData buf endOfStream
  | .appendTrailers trailers => doAppendTrailers { s with respTrailers := some trailers } trailers
  | .sendHijackReply code headers => s.sendHijackReply code headers

/-- A reply sent through the handler. -/
def send (s : SourceStream) (reply : Reply) : SourceStream := (reply.calls.foldl call s).call reply.last

/-- `runReceiveHeadersFilters`; `true` when a filter stopped. -/
def runReceiveHeadersFilters : List Filter → SourceStream → Bool → SourceStream × Bool
  | [], s, _ => (s, false)
  | f :: filters, s, endOfStream =>
    match f s.reqHeaders endOfStream with
    | .continue_ headers => runReceiveHeadersFilters filters { s with reqHeaders := headers } endOfStream
    | .stop headers reply => (send { s with reqHeaders := headers } reply, true)

/-- The emitter of the topic that the path names. -/
def findEmitter (c : Scope) (s : SourceStream) : SourceStream :=
  match s.reqHeaders.get Http.strikeHeaderPathKey with
  | some path => { s with emitter := c.getTargetEmitter (path.dropWhile (· = 47)) }
  | none => s

/-- `doReceiveHeaders`. -/
def doReceiveHeaders (c : Scope) (filters : List Filter) (s : SourceStream) (endOfStream : Bool) : SourceStream :=
  match runReceiveHeadersFilters filters s endOfStream with
  | (s, true) => s
  | (s, false) => if endOfStream then (findEmitter c s).doEmit [] else findEmitter c s

/-- `doReceiveData`. -/
def doReceiveData (s : SourceStream) (data : Bytes) (endOfStream : Bool) : SourceStream :=
  if endOfStream then s.doEmit [data] else s

/-- `doReceive`; `doReceiveTrailers` does nothing. -/
def doReceive (c : Scope) (filters : List Filter) (s : SourceStream) : SourceStream :=
  let headed := doReceiveHeaders c filters s s.reqDataBuf.isNone
  match s.reqDataBuf with
  | some data => headed.doReceiveData data s.reqTrailers.isNone
  | none => headed

end SourceStream

/-- `OnReceive` of a new stream. -/
def onReceive (c : Scope) (filters : List Filter) (headers : CommonHeader) (data : Option Bytes)
    (trailers : Option CommonHeader) : SourceStream :=
  SourceStream.doReceive c filters
    { filters := filters.length, reqHeaders := headers, reqDataBuf := data, reqTrailers := trailers }

/-! ### The filters of the repository -/

/-- `authRuleFilter.OnReceiveHeaders` and `commmonRuleFilter.OnReceiveHeaders`: they differ in the code
with which they refuse. -/
def ruleFilter (code : Nat) (invoke : CommonHeader → CommonHeader × Bool) : Filter := fun headers _ =>
  match invoke headers with
  | (headers, true) => .continue_ headers
  | (headers, false) =>
    let headers := headers.set headerStatus (itoa code)
    .stop headers ⟨[], .appendHeaders headers true, nofun, rfl⟩

/-- `authRuleFilter`. -/
def authRuleFilter : (CommonHeader → CommonHeader × Bool) → Filter := ruleFilter unauthorized

/-- `commmonRuleFilter`. -/
def commmonRuleFilter : (CommonHeader → CommonHeader × Bool) → Filter := ruleFilter limitExceededCode

/-! ### What a chain does -/

/-- Every filter answers continue. -/
def allContinue : List Filter → CommonHeader → Bool → Bool
  | [], _, _ => true
  | f :: filters, headers, endOfStream =>
    match f headers endOfStream with
    | .continue_ headers => allContinue filters headers endOfStream
    | .stop _ _ => false

/-- The end-of-stream replies of a trace. -/
def replies (trace : List Effect) : Nat := trace.countP Effect.ends

/-- **Answered once, acted on when allowed.** -/
structure AnsweredOnce (allowed : Bool) (s : SourceStream) : Prop where
  once : replies s.trace ≤ 1
  allowed : s.trace.any Effect.emits = true → allowed = true

@[simp] theorem replies_append (first second : List Effect) :
    replies (first ++ second) = replies first + replies second := List.countP_append

theorem replies_onDestroy (indices : List Nat) : replies (indices.map .onDestroy) = 0 := by
  rw [replies, List.countP_map]
  exact List.countP_eq_zero.mpr fun _ _ => Bool.false_ne_true

/-- What a part of the code adds to a stream: replies, and no emitted action and no emitter. -/
structure Adds (n : Nat) (s s' : SourceStream) : Prop where
  replies : replies s'.trace = replies s.trace + n
  emits : s'.trace.any Effect.emits = s.trace.any Effect.emits
  emitter : s'.emitter = s.emitter

theorem Adds.trans {n m : Nat} {s s' s'' : SourceStream} (first : Adds n s s') (second : Adds m s' s'') :
    Adds (n + m) s s'' :=
  ⟨by rw [second.replies, first.replies, Nat.add_assoc], second.emits.trans first.emits,
    second.emitter.trans first.emitter⟩

namespace SourceStream

theorem endStream_adds (s : SourceStream) : Adds 0 s s.endStream := by
  have cleaned : ∀ s : SourceStream, Adds 0 s s.cleanStream := by
    intro s
    unfold cleanStream giveStream
    split_ifs
    · exact ⟨rfl, rfl, rfl⟩
    all_goals
      refine ⟨?_, ?_, rfl⟩
      · show replies (s.trace ++ _) = _
        rw [replies_append, replies_onDestroy]
      · show (s.trace ++ _).any _ = _
        rw [List.any_append, List.any_map]
        simp [Function.comp_def, Effect.emits]
  unfold endStream
  split_ifs
  · exact cleaned s
  · exact ⟨(cleaned _).replies, (cleaned _).emits, (cleaned _).emitter⟩

/-- A message to the response sender, with the end of the stream behind it. -/
theorem message_adds {s s' : SourceStream} (effect : Effect) (silent : effect.emits = false)
    (sent : s'.trace = s.trace ++ [effect]) (emitter : s'.emitter = s.emitter) :
    Adds effect.ends.toNat s (if effect.ends then s'.endStream else s') := by
  have sends : Adds effect.ends.toNat s s' := by
    refine ⟨?_, ?_, emitter⟩
    · rw [sent, replies_append]
      cases ends : effect.ends <;> simp [replies, ends]
    · rw [sent, List.any_append]
      simp [silent]
  split_ifs with ends
  · exact sends.trans (endStream_adds s')
  · exact sends

theorem call_adds (s : SourceStream) (call : HandlerCall) : Adds call.ends.toNat s (s.call call) := by
  cases call with
  | appendHeaders headers endOfStream =>
    exact message_adds (.appendHeaders headers endOfStream) rfl rfl rfl
  | appendData buf endOfStream => exact message_adds (.appendData buf endOfStream) rfl rfl rfl
  | appendTrailers trailers => exact message_adds (.appendTrailers trailers) rfl rfl rfl
  | sendHijackReply code headers => exact message_adds (.appendHeaders _ true) rfl rfl rfl

/-- **A reply is one reply.** -/
theorem send_adds (s : SourceStream) (reply : Reply) : Adds 1 s (s.send reply) := by
  have calls : ∀ (calls : List HandlerCall), (∀ call ∈ calls, call.ends = false) →
      ∀ s : SourceStream, Adds 0 s (calls.foldl call s) := by
    intro calls
    induction calls with
    | nil => exact fun _ s => ⟨rfl, rfl, rfl⟩
    | cons first rest ih =>
      intro goesOn s
      obtain ⟨here, later⟩ := List.forall_mem_cons.mp goesOn
      have added := call_adds s first
      rw [here] at added
      exact added.trans (ih later (s.call first))
  have last := call_adds (reply.calls.foldl call s) reply.last
  rw [reply.ends] at last
  exact (calls reply.calls reply.goesOn s).trans last

theorem sendHijackReply_adds (s : SourceStream) (code : Nat) (headers : Option CommonHeader) :
    Adds 1 s (s.sendHijackReply code headers) :=
  message_adds (.appendHeaders _ true) rfl rfl rfl

theorem runReceiveHeadersFilters_continue (filters : List Filter) {endOfStream : Bool} :
    ∀ {s : SourceStream}, allContinue filters s.reqHeaders endOfStream = true →
      ∃ headers, runReceiveHeadersFilters filters s endOfStream = ({ s with reqHeaders := headers }, false) := by
  induction filters with
  | nil => exact fun {s} _ => ⟨s.reqHeaders, rfl⟩
  | cons f filters ih =>
    intro s all
    unfold allContinue at all
    unfold runReceiveHeadersFilters
    cases verdict : f s.reqHeaders endOfStream with
    | continue_ headers =>
      rw [verdict] at all
      exact ih (s := { s with reqHeaders := headers }) all
    | stop headers reply =>
      rw [verdict] at all
      cases all

theorem runReceiveHeadersFilters_stop (filters : List Filter) {endOfStream : Bool} :
    ∀ {s : SourceStream}, allContinue filters s.reqHeaders endOfStream = false →
      ∃ s', runReceiveHeadersFilters filters s endOfStream = (s', true) ∧ Adds 1 s s' := by
  induction filters with
  | nil => exact fun no => nomatch no
  | cons f filters ih =>
    intro s some
    unfold allContinue at some
    unfold runReceiveHeadersFilters
    cases verdict : f s.reqHeaders endOfStream with
    | continue_ headers =>
      rw [verdict] at some
      obtain ⟨s', ran, added⟩ := ih (s := { s with reqHeaders := headers }) some
      exact ⟨s', ran, ⟨added.replies, added.emits, added.emitter⟩⟩
    | stop headers reply =>
      have sent := send_adds { s with reqHeaders := headers } reply
      exact ⟨_, rfl, ⟨sent.replies, sent.emits, sent.emitter⟩⟩

/-- **`doEmit` sends one reply**, and emits nothing without an emitter. -/
theorem doEmit_spec (s : SourceStream) (args : List Bytes) : replies (s.doEmit args).trace = replies s.trace + 1 ∧
      (s.emitter = none → (s.doEmit args).trace.any Effect.emits = s.trace.any Effect.emits) := by
  have hijacks := fun s : SourceStream => fun code => (sendHijackReply_adds s code s.respHeaders).replies
  unfold doEmit
  cases found : s.emitter with
  | none =>
    have hijack := sendHijackReply_adds s routerUnavailableCode s.respHeaders
    exact ⟨hijack.replies, fun _ => hijack.emits⟩
  | some emit =>
    refine ⟨?_, fun no => nomatch no⟩
    dsimp only
    cases s.reqHeaders.get Http.strikeHeaderMethod with
    | none => exact hijacks s routerUnavailableCode
    | some action =>
      have emitted : replies (s.trace ++ [Effect.emit action args]) = replies s.trace := by
        rw [replies_append]
        rfl
      dsimp only
      cases emit action args with
      | none => rw [hijacks, emitted]
      | some err => rw [hijacks, emitted]

theorem findEmitter_trace (c : Scope) (s : SourceStream) : (findEmitter c s).trace = s.trace := by
  unfold findEmitter
  split <;> rfl

end SourceStream

open SourceStream

/-- The chain continues: the request is answered by `doEmit`, or not at all. -/
theorem replies_of_continue (c : Scope) {filters : List Filter} {headers : CommonHeader}
    {data : Option Bytes} (trailers : Option CommonHeader)
    (all : allContinue filters headers data.isNone = true) :
    replies (onReceive c filters headers data trailers).trace ≤ 1 := by
  obtain ⟨headers', ran⟩ := runReceiveHeadersFilters_continue filters
    (s := { filters := filters.length, reqHeaders := headers, reqDataBuf := data, reqTrailers := trailers }) all
  have found : ∀ s : SourceStream, s.trace = [] → replies (findEmitter c s).trace = 0 := by
    intro s fresh
    rw [findEmitter_trace, fresh]
    rfl
  have emits : ∀ (s : SourceStream) (args : List Bytes), s.trace = [] →
      replies ((findEmitter c s).doEmit args).trace ≤ 1 := by
    intro s args fresh
    rw [(doEmit_spec _ args).1, found s fresh]
  unfold onReceive doReceive doReceiveHeaders
  rw [ran]
  cases data with
  | none => exact emits _ [] rfl
  | some data =>
    cases trailers with
    | none => exact emits _ [data] rfl
    | some trailers => exact (found _ rfl).le.trans (Nat.zero_le 1)

/-- The chain stops: one reply by then, one more with the body, and nothing emitted. -/
theorem replies_of_stop (c : Scope) {filters : List Filter} {headers : CommonHeader}
    {data : Option Bytes} (trailers : Option CommonHeader)
    (stopped : allContinue filters headers data.isNone = false) :
    replies (onReceive c filters headers data trailers).trace =
        (if data.isSome && trailers.isNone then 2 else 1) ∧
      (onReceive c filters headers data trailers).trace.any Effect.emits = false := by
  obtain ⟨s, ran, added⟩ := runReceiveHeadersFilters_stop filters
    (s := { filters := filters.length, reqHeaders := headers, reqDataBuf := data, reqTrailers := trailers })
    stopped
  have one : replies s.trace = 1 := added.replies
  have silent : s.trace.any Effect.emits = false := added.emits
  unfold onReceive doReceive doReceiveHeaders
  rw [ran]
  cases data with
  | none => exact ⟨one, silent⟩
  | some data =>
    dsimp only [doReceiveData]
    cases trailers with
    | none =>
      -- No emitter was looked up, so the body is answered as a request without a route.
      have emitted := doEmit_spec s [data]
      exact ⟨by simpa [one] using emitted.1, by simpa [silent] using emitted.2 added.emitter⟩
    | some trailers => exact ⟨one, silent⟩

/-- **When a request is answered once.** For every controller, chain and request: there is at most one
end-of-stream reply and an action is emitted only if every filter continued, exactly if the request is
not one with a body, without trailers, that some filter stops. -/
theorem answeredOnce_iff (c : Scope) (filters : List Filter) (headers : CommonHeader)
    (data : Option Bytes) (trailers : Option CommonHeader) :
    AnsweredOnce (allContinue filters headers data.isNone) (onReceive c filters headers data trailers) ↔
      ¬ (data.isSome = true ∧ trailers.isNone = true ∧
        allContinue filters headers data.isNone = false) := by
  cases verdict : allContinue filters headers data.isNone with
  | true =>
    have once := replies_of_continue c trailers verdict
    exact ⟨fun _ no => (nomatch no.2.2), fun _ => ⟨once, fun _ => rfl⟩⟩
  | false =>
    obtain ⟨count, silent⟩ := replies_of_stop c trailers verdict
    constructor
    · rintro answered ⟨body, noTrailers, -⟩
      have once := answered.once
      rw [count, body, noTrailers] at once
      exact absurd once (by decide)
    · intro fine
      refine ⟨?_, fun emitted => ?_⟩
      · rw [count]
        split
        · next both =>
            obtain ⟨body, noTrailers⟩ := Bool.and_eq_true_iff.mp both
            exact absurd ⟨body, noTrailers, rfl⟩ fine
        · exact le_rfl
      · rw [silent] at emitted
        cases emitted

/-- A request that carries no token, and a filter that refuses it. -/
def refused : CommonHeader :=
  ((CommonHeader.empty.set Http.strikeHeaderMethod (ascii "POST")).set Http.strikeHeaderPathKey (ascii "/job"))

/-- **A refused body is answered twice**, first by the filter and then as a request without a route. -/
theorem refused_twice : ¬ AnsweredOnce (allContinue [authRuleFilter fun h => (h, false)] refused false)
      (onReceive ⟨[], fun _ => none⟩ [authRuleFilter fun h => (h, false)] refused (some (ascii "x")) none) := by
  intro answered
  have stopped : allContinue [authRuleFilter fun h => (h, false)] refused (some (ascii "x")).isNone = false := rfl
  have count := (replies_of_stop ⟨[], fun _ => none⟩ none stopped).1
  have once := answered.once
  rw [count] at once
  exact absurd once (by decide)

end Strike.Controller
