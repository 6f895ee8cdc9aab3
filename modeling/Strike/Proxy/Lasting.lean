/-
**What lasts in a stream.**

The trace of a stream only grows. What that keeps is kept by every access of every program (`Lasting.program`),
whatever the filters, the pool and the sender do.
-/

import Strike.Proxy.Stream

namespace Strike.Proxy

open Strike.Lib

/-- A property that lasts while the trace grows. -/
def Lasting (P : World → Prop) : Prop := ∀ ⦃w v : World⦄, w.trace <+: v.trace → P w → P v

namespace Lasting

variable {P : World → Prop} (lasting : Lasting P)

include lasting in
theorem same {w v : World} (trace : v.trace = w.trace) : P w → P v := lasting (trace ▸ List.prefix_rfl)

include lasting in
theorem note {w v : World} {e : Effect} (trace : v.trace = w.trace ++ [e]) : P w → P v :=
  lasting (trace ▸ List.prefix_append _ _)

/-! ### The end of a stream, and replies -/

theorem processDone : (processDone : Program Bool).Within P :=
  .bind .get fun _ => .ite .pure (.bind .get fun _ => .ite .pure .get)

include lasting

theorem resetStream : Upstream.resetStream.Within P := .bind .get fun _ => .when (.set (lasting.note rfl))

theorem cleanUp : cleanUp.Within P := .bind .get fun _ => .when (.set (lasting.same rfl))

theorem giveStream : giveStream.Within P :=
  .bind .get fun _ => .ite .pure (.bind .get fun _ => .ite .pure (.bind .get fun _ => .bind .get fun _ =>
    .when ⟨fun _ => lasting.same rfl, trivial⟩))

theorem release : release.Within P :=
  .bind .get fun _ => .bind (.when (.bind .get fun _ => .when (.bind (.set (lasting.same rfl))
    fun _ => lasting.resetStream))) fun _ => .bind lasting.cleanUp fun _ => .bind .get fun _ => .bind .get fun _ =>
    lasting.giveStream

theorem cleanStream : cleanStream.Within P := by
  refine .bind (.access fun {w} holds => ?_) fun _ => .ite .pure lasting.release
  split
  · exact holds
  · exact lasting.note rfl holds

theorem endStream : endStream.Within P :=
  .bind .get fun _ => .bind (.when (.bind .get fun _ => .when (.set (lasting.same rfl)))) fun _ =>
    lasting.cleanStream

theorem send {e : Effect} : (send e).Within P := by
  refine .bind (.access fun {w} holds => ?_) fun _ => .when .panic
  split
  · exact lasting.note rfl holds
  · exact holds

variable {headers : Option CommonHeader} {last : Bool} {data : Option Bytes} {trailers : Option CommonHeader}

theorem doAppendHeaders : (doAppendHeaders headers last).Within P :=
  .bind lasting.send fun _ => .when lasting.endStream

theorem doAppendData : (doAppendData data last).Within P := .bind lasting.send fun _ => .when lasting.endStream

theorem doAppendTrailers : (doAppendTrailers trailers).Within P := .bind lasting.send fun _ => lasting.endStream

theorem appendHeaders : (appendHeaders headers last).Within P :=
  .bind (.set (lasting.same rfl)) fun _ => lasting.doAppendHeaders

theorem appendData : (appendData data last).Within P := .bind (.set (lasting.same rfl)) fun _ => lasting.doAppendData

theorem appendTrailers : (appendTrailers trailers).Within P :=
  .bind (.set (lasting.same rfl)) fun _ => lasting.doAppendTrailers

theorem sendHijackReply {code : Nat} : (sendHijackReply code headers).Within P := lasting.appendHeaders

/-! ### The request -/

omit lasting in
theorem deref {f : World → World} (kept : ∀ {w}, P w → P (f w)) : (Upstream.deref f).Within P :=
  .bind (.access kept) fun _ => .when .panic

omit lasting in
theorem upstreamRequest : (upstreamRequest : Program Unit).Within P := .bind .get fun _ => .when .panic

theorem onUpstreamRequestSent : onUpstreamRequestSent.Within P := .set (lasting.same rfl)

theorem upstreamAppendHeaders : (Upstream.appendHeaders last).Within P :=
  .bind (deref (lasting.note rfl)) fun _ => .bind processDone fun _ => .ite .pure
    (.bind (.set (lasting.same rfl)) fun _ => .bind (.access (lasting.same rfl))
      fun _ => .bind (.when .panic) fun _ => .bind .ask fun _ => .pure)

theorem upstreamAppendData : (Upstream.appendData data last).Within P :=
  .bind (deref (lasting.note rfl)) fun _ => .bind processDone fun _ => .ite .pure
    (.bind (.set (lasting.same rfl)) fun _ => .bind (.set (lasting.same rfl))
      fun _ => .bind .get fun _ => .ite (.bind (.set (lasting.same rfl)) fun _ =>
        .bind .get fun _ => .bind lasting.sendHijackReply fun _ => .pure)
        (.bind .get fun _ => .bind (.when .panic) fun _ => .bind .ask fun _ => .pure))

theorem upstreamAppendTrailers : (Upstream.appendTrailers trailers).Within P :=
  .bind (deref (lasting.note rfl)) fun _ => .bind processDone fun _ => .ite .pure
    (.bind (.set (lasting.same rfl)) fun _ => .bind (.set (lasting.same rfl))
      fun _ => .bind .get fun _ => .bind (.when .panic) fun _ => .bind .ask fun _ => .pure)

variable {index : Nat}

theorem setFilter {f : ActiveStreamFilter → ActiveStreamFilter} : (setFilter index f).Within P :=
  .set (lasting.same rfl)

theorem callFilter {part : Part} {stage : UInt64} {site : Site} : (callFilter index part stage site).Within P :=
  .bind (.set (lasting.note rfl)) fun _ => .bind .ask fun _ =>
    .bind (.set (lasting.note rfl)) fun _ => .pure

theorem handleHeaderStatus (status : Status) : (handleHeaderStatus index status).Within P := by
  cases status with
  | continue_ => exact .bind lasting.setFilter fun _ => .pure
  | stop => exact .bind lasting.setFilter fun _ => .pure

theorem runReceiveHeadersFilters : ∀ left index : Nat,
    (runReceiveHeadersFilters headers last left index).Within P := by
  intro left
  induction left with
  | zero => exact fun index => .bind .get fun _ => .pure
  | succ left ih =>
    exact fun index => .bind .get fun _ => .ite (.bind lasting.callFilter fun status =>
      .bind (lasting.handleHeaderStatus status) fun _ => .ite .pure (ih (index + 1))) .pure

theorem requestUpstream : (requestUpstream last).Within P :=
  .bind (.set (lasting.same rfl)) fun _ => .bind (.set (lasting.same rfl)) fun _ =>
    .bind (.set (lasting.same rfl)) fun _ => .bind upstreamRequest fun _ =>
    .bind lasting.upstreamAppendHeaders fun _ => .when lasting.onUpstreamRequestSent

theorem doReceiveHeaders {left index : Nat} : (doReceiveHeaders left index headers last).Within P := by
  refine .bind (lasting.runReceiveHeadersFilters left index) fun _ => .ite .pure (.bind .get fun proxy => ?_)
  cases proxy with
  | none => exact .panic
  | some config => exact .ite (.bind .get fun _ => lasting.sendHijackReply) lasting.requestUpstream

theorem doReceiveData : (doReceiveData data last).Within P :=
  .bind (.when lasting.onUpstreamRequestSent) fun _ => .bind upstreamRequest fun _ =>
    .bind lasting.upstreamAppendData fun _ => .bind .get fun _ => .when lasting.cleanStream

theorem doReceiveTrailers {filters : Option CommonHeader → Program Bool}
    (within : ∀ trailers, (filters trailers).Within P) : (doReceiveTrailers filters trailers).Within P :=
  .bind (within trailers) fun _ => .ite .pure (.bind (.set (lasting.same rfl)) fun _ =>
    .bind lasting.onUpstreamRequestSent fun _ => .bind upstreamRequest fun _ =>
    .bind lasting.upstreamAppendTrailers fun _ => .bind .get fun _ => .when lasting.cleanStream)

theorem continueHeaders {left index : Nat} {hasBuffedData hasTrailer : Bool} :
    (continueHeaders left index hasBuffedData hasTrailer).Within P :=
  .bind .get fun _ => .when (.bind lasting.setFilter fun _ => .bind .get fun _ => .bind .get fun _ =>
    lasting.doReceiveHeaders)

theorem continueData {hasBuffedData hasTrailer : Bool} : (continueData index hasBuffedData hasTrailer).Within P := by
  refine .bind .get fun _ => .when (.bind (.set fun {w} holds => ?_) fun _ => .bind .get fun _ => .bind .get fun _ =>
    lasting.doReceiveData)
  split
  · exact lasting.same (w := w) rfl holds
  · exact holds

theorem doContinue {left index : Nat} {filters : Option CommonHeader → Program Bool}
    (within : ∀ trailers, (filters trailers).Within P) : (doContinue left index filters).Within P :=
  .bind (.access (lasting.note rfl)) fun _ => .ite .pure (.bind lasting.setFilter fun _ =>
    .bind .get fun _ => .bind .get fun _ => .bind lasting.continueHeaders fun _ => .bind lasting.continueData fun _ =>
    .when (.bind .get fun _ => lasting.doReceiveTrailers within))

omit lasting in
theorem handleTrailerStatus {continues : Program Unit} (within : continues.Within P)
    (status : Status) : (handleTrailerStatus index continues status).Within P := by
  cases status with
  | continue_ => exact .bind .get fun _ => .ite (.bind within fun _ => .pure) .pure
  | stop => exact .pure

theorem trailersLoop : ∀ (left index : Nat) (trailers : Option CommonHeader),
    (trailersLoop left index trailers).Within P := by
  intro left
  induction left with
  | zero => exact fun index trailers => .bind .get fun _ => .pure
  | succ left ih =>
    intro index trailers
    refine .bind .get fun _ => .ite (.bind lasting.callFilter fun status => .bind
      (handleTrailerStatus (lasting.doContinue fun later => ?_) status) fun _ =>
      .ite .pure (ih (index + 1) trailers)) .pure
    exact .bind .get fun _ => .ite .pure (ih (index + 1) later)

theorem runReceiveTrailersFilters (left index : Nat) (trailers : Option CommonHeader) :
    (runReceiveTrailersFilters left index trailers).Within P :=
  .bind .get fun _ => .ite .pure (lasting.trailersLoop left index trailers)

theorem receiveHeaders {n : Nat} : (receiveHeaders n headers last).Within P :=
  .bind (.set (lasting.same rfl)) fun _ => lasting.doReceiveHeaders

theorem receiveData : (receiveData data last).Within P :=
  .bind processDone fun _ => .ite .pure (.bind (.set (lasting.same rfl)) fun _ =>
    lasting.doReceiveData)

theorem receiveTrailers {n : Nat} : (receiveTrailers n trailers).Within P :=
  .bind processDone fun _ => .ite .pure (.bind (.set (lasting.same rfl)) fun _ =>
    lasting.doReceiveTrailers (lasting.runReceiveTrailersFilters n 0))

theorem receive {n : Nat} : (receive n).Within P :=
  .bind .get fun _ => .bind .get fun _ => .bind .get fun _ => .bind lasting.receiveHeaders fun _ =>
    .bind (.when (.bind .get fun _ => lasting.receiveData)) fun _ =>
    .when (.bind .get fun _ => lasting.receiveTrailers)

theorem handleDown {n : Nat} (e : Event) : (handleDown n e).Within P := by
  cases e with
  | recv => exact lasting.receive
  | recvHeader headers last => exact lasting.receiveHeaders
  | recvData last => exact .bind .get fun _ => lasting.receiveData
  | recvTrailer trailers => exact lasting.receiveTrailers
  | reset => exact lasting.cleanStream

/-! ### The response -/

theorem onUpstreamResponseRecvFinished : onUpstreamResponseRecvFinished.Within P :=
  .bind .get fun _ => .bind (.when (.bind upstreamRequest fun _ => lasting.resetStream)) fun _ => lasting.cleanUp

theorem onUpstreamHeaders : (onUpstreamHeaders headers last).Within P :=
  .bind (.set (lasting.same rfl)) fun _ => .bind (.set (lasting.same rfl)) fun _ =>
    .bind (.when lasting.onUpstreamResponseRecvFinished) fun _ => lasting.appendHeaders

theorem onUpstreamData : (onUpstreamData data last).Within P :=
  .bind (.when lasting.onUpstreamResponseRecvFinished) fun _ => lasting.appendData

theorem onUpstreamTrailers : (onUpstreamTrailers trailers).Within P :=
  .bind lasting.onUpstreamResponseRecvFinished fun _ => lasting.appendTrailers

theorem upstreamReceiveHeaders : (Upstream.receiveHeaders headers last).Within P :=
  .bind (deref fun holds => holds) fun _ => lasting.onUpstreamHeaders

theorem upstreamReceiveData : (Upstream.receiveData data last).Within P :=
  .bind (deref fun holds => holds) fun _ => .bind processDone fun _ => .ite .pure lasting.onUpstreamData

theorem upstreamReceiveTrailers : (Upstream.receiveTrailers trailers).Within P :=
  .bind (deref fun holds => holds) fun _ => .bind processDone fun _ => .ite .pure lasting.onUpstreamTrailers

theorem upstreamReceive : Upstream.receive.Within P :=
  .bind (deref fun holds => holds) fun _ => .bind processDone fun _ => .ite .pure (.bind .get fun _ =>
    .bind .get fun _ => .bind .get fun _ => .bind lasting.upstreamReceiveHeaders fun _ =>
    .bind (.when (.bind (deref fun holds => holds) fun _ => .bind .get fun _ => lasting.upstreamReceiveData)) fun _ =>
    .when (.bind (deref fun holds => holds) fun _ => .bind .get fun _ => lasting.upstreamReceiveTrailers))

theorem handleUp (e : Event) : (Upstream.handleUp e).Within P := by
  cases e with
  | recv => exact lasting.upstreamReceive
  | recvHeader headers last => exact lasting.upstreamReceiveHeaders
  | recvData last => exact .bind (deref fun holds => holds) fun _ => .bind .get fun _ => lasting.upstreamReceiveData
  | recvTrailer trailers => exact lasting.upstreamReceiveTrailers
  | reset => exact .set (lasting.same rfl)

/-! ### The callbacks -/

theorem offerDown {e : Event} {note : Arrived → Arrived} : (offerDown e note).Within P := .set (lasting.same rfl)

theorem offerUp {e : Event} : (offerUp e).Within P :=
  .bind (deref fun holds => holds) fun _ => .bind .get fun _ => .bind (.when .panic) fun _ =>
    .set (lasting.same rfl)

theorem onDownstream (d : Delivery) : (onDownstream d).Within P := by
  cases d with
  | onReceive headers data trailers =>
    exact .bind (.set (lasting.same rfl)) fun _ =>
      .bind (.when (.set (lasting.same rfl))) fun _ =>
      .bind (.set (lasting.same rfl)) fun _ => lasting.offerDown
  | onReceiveHeaders headers last =>
    exact .bind (.set (lasting.same rfl)) fun _ => lasting.offerDown
  | onReceiveData data last => exact .bind (.set (lasting.same rfl)) fun _ => lasting.offerDown
  | onReceiveTrailers trailers => exact lasting.offerDown
  | onResetStream =>
    refine .bind (.access fun {w} holds => ?_) fun _ => .ite .pure (.bind .get fun _ => .bind (.when .panic) fun _ =>
      lasting.offerDown)
    split
    · exact holds
    · exact lasting.note rfl holds

theorem onUpstream (d : Delivery) : (onUpstream d).Within P := by
  have answers : ∀ {last}, (Upstream.deref (·.answer last)).Within P :=
    deref (lasting.same rfl)
  cases d with
  | onReceive headers data trailers =>
    exact .bind answers fun _ => .bind (.set (lasting.same rfl)) fun _ =>
      .bind (.when (.bind (deref fun holds => holds) fun _ => .set (lasting.same rfl))) fun _ =>
      .bind (deref fun holds => holds) fun _ => .bind (.set (lasting.same rfl)) fun _ =>
      lasting.offerUp
  | onReceiveHeaders headers last => exact .bind answers fun _ => lasting.offerUp
  | onReceiveData data last =>
    exact .bind answers fun _ => .bind (.set (lasting.same rfl)) fun _ => lasting.offerUp
  | onReceiveTrailers trailers => exact .bind answers fun _ => lasting.offerUp
  | onResetStream => exact .bind answers fun _ => lasting.offerUp

theorem onReady : onReady.Within P :=
  .bind (.set (lasting.same rfl)) fun _ => .bind .get fun _ => .bind .get fun _ => .bind .get fun _ =>
    .bind .get fun _ => .bind (.when .panic) fun _ => .bind (deref fun holds => holds) fun _ => .bind .get fun _ =>
    .bind .ask fun _ => .pure

theorem onHandler {n index : Nat} (c : HandlerCall) : (onHandler n index c).Within P := by
  cases c with
  | continueReceiving => exact lasting.doContinue (lasting.runReceiveTrailersFilters _ _)
  | appendHeaders headers last =>
    exact .bind (.set (lasting.same rfl)) fun _ => lasting.doAppendHeaders
  | appendData buf last => exact lasting.doAppendData
  | appendTrailers trailers =>
    exact .bind (.set (lasting.same rfl)) fun _ => lasting.doAppendTrailers
  | sendHijackReply code headers => exact lasting.sendHijackReply

/-- **Every access of every program keeps what lasts.** -/
theorem program {n : Nat} (e : Entry) : (program n e).Within P := by
  cases e with
  | downstream d => exact lasting.onDownstream d
  | upstream d => exact lasting.onUpstream d
  | onReady => exact lasting.onReady
  | onFailure => exact .set (lasting.same rfl)
  | filter index c => exact lasting.onHandler c
  | down =>
    refine .bind (.access (lasting.same rfl)) fun queue => ?_
    cases queue with
    | nil => exact .pure
    | cons e rest => exact lasting.handleDown e
  | up =>
    refine .bind (.access (lasting.same rfl)) fun queue => ?_
    cases queue with
    | nil => exact .pure
    | cons e rest => exact lasting.handleUp e

end Lasting

end Strike.Proxy
