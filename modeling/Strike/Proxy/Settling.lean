/-
**A settled stream, and an unsettled one.**

* `Settled`: the response sender got the end of the stream, or the downstream reset it. `Lasting` keeps it.
* `Live`: what an unsettled stream is like once its headers are handled; `Up`: who still has to act for
  it, be it the pool or the sender, an upstream event, or the rest of the body.
* `contract`: what the programs keep of it while the filters continue.
-/

import Strike.Proxy.Lasting
import Strike.Proxy.Replies

namespace Strike.Proxy

open Strike.Lib Contract

/-! ### The property -/

/-- The request is answered for good, or the downstream resets the stream. -/
def Effect.settles : Effect → Bool
  | .appendHeaders _ endStream => endStream
  | .appendData _ endStream => endStream
  | .appendTrailers _ => true
  | .reset => true
  | _ => false

/-- The stream is settled. -/
def Settled (w : World) : Prop := w.trace.any Effect.settles = true

instance (w : World) : Decidable (Settled w) := inferInstanceAs (Decidable (_ = true))

/-- Nothing is queued, handled or owed, and the request has arrived. -/
def Quiet (c : Reactor.Config World Site Status) : Prop :=
  c.stack = [] ∧ c.world.down = [] ∧ c.world.up = [] ∧ c.world.arrived = .whole ∧ c.world.owed = false

namespace Event

/-- An event with a part of the body. -/
def ofData : Event → Bool
  | .recvData _ => true
  | _ => false

/-- An event behind the headers of a request. -/
def plain : Event → Bool
  | .recvData _ => true
  | .recvTrailer _ => true
  | _ => false

/-- An event with the headers of a request. -/
def starts : Event → Bool
  | .recv => true
  | .recvHeader _ _ => true
  | _ => false

/-- The last event of an upstream. -/
def last : Event → Bool
  | .recvHeader _ endStream => endStream
  | .recvData endStream => endStream
  | _ => true

end Event

/-- A part of the body is still to be handled: it is queued, or it is buffered and not sent. -/
def World.bodyLeft (w : World) : Bool :=
  w.down.any Event.ofData || (w.stream.downstreamReqDataBuf.isSome && !w.request.dataSent)

/-- **The condition on a move.** The filters continue, and a pool that has answered is not ready again.
The pool fails, and a reset of the upstream is handled, when the stream is done or a part of the body is
left. -/
def Obliging (c : Reactor.Config World Site Status) : Reactor.Move Entry Status → Prop
  | .enter (.filter _ call) => call ≠ .continueReceiving
  | .enter .onReady => c.world.owed = true
  | .enter .onFailure => c.world.done = true ∨ c.world.bodyLeft = true
  | .enter .up => c.world.up.head? = some .reset → c.world.done = true ∨ c.world.bodyLeft = true
  | .enter _ => True
  | .answer .continue_ => True
  | .answer .stop => ∀ frame ∈ c.stack.head?, frame.1.ofFilter = false

namespace Settling

/-! ### The invariant -/

/-- What a reply depends on. -/
structure Core where
  proxy : Option Config
  context : Bool
  responseSender : Bool
  done : Bool
  filters : Nat → ActiveStreamFilter

/-- What the invariant reads of an unsettled stream. -/
structure View extends Core where
  upstreamRequest : Bool
  downStream : Bool
  requestSender : Bool
  body : Bool
  dataSent : Bool
  down : List Event
  up : List Event
  arrived : Arrived
  asked : Bool
  owed : Bool

/-- The view of a stream. -/
def view (w : World) : View where
  proxy := w.stream.proxy
  context := w.stream.context
  responseSender := w.stream.responseSender
  done := w.done
  filters := w.filters
  upstreamRequest := w.stream.upstreamRequest
  downStream := w.request.downStream
  requestSender := w.request.requestSender
  body := w.stream.downstreamReqDataBuf.isSome
  dataSent := w.request.dataSent
  down := w.down
  up := w.up
  arrived := w.arrived
  asked := w.asked
  owed := w.owed

/-- The stream can still reply, and no filter holds it. -/
structure Base (c : Core) : Prop where
  proxy : c.proxy.isSome = true
  context : c.context = true
  responseSender : c.responseSender = true
  going : c.done = false
  free : ∀ i, (c.filters i).stopped = false

/-- The headers are handled, or being handled. -/
structure Live (v : View) : Prop where
  base : Base v.toCore
  begun : v.arrived ≠ .nothing
  plain : ∀ e ∈ v.down, e.plain = true
  linked : v.asked = true → v.upstreamRequest = true ∧ v.downStream = true

/-- `World.bodyLeft`. -/
def View.bodyLeft (v : View) : Bool := v.down.any Event.ofData || (v.body && !v.dataSent)

/-- Who still has to act: the pool or the sender, an upstream event, or the rest of the body. -/
def Up (v : View) : Prop := v.owed = true ∨ v.up.any Event.last = true ∨ v.requestSender = false ∧ v.bodyLeft = true

/-- What is left of the body is queued. -/
def Covered (v : View) : Prop := v.bodyLeft = true → v.down.any Event.ofData = true

/-- The headers are not handled yet. -/
structure Waiting (v : View) : Prop where
  base : Base v.toCore
  fresh : v.asked = false
  quiet : v.up = []
  queue : (v.arrived = .nothing ∧ v.down = [] ∧ v.body = false) ∨
    v.arrived ≠ .nothing ∧ ∃ e rest, v.down = e :: rest ∧ e.starts = true ∧ (∀ e ∈ rest, e.plain = true) ∧
      (e = .recv ∨ Covered v)

/-- An unsettled stream. `on`: the pool was asked; `safe`: what is left of the body is queued. -/
structure Ready (on : Bool) (safe : Prop) (v : View) : Prop where
  live : Live v
  asked : v.asked = on
  up : on = true → Up v
  covered : safe → Covered v

/-- A stream that is settled or ready. -/
def Phase (on : Bool) (safe : Prop) (w : World) : Prop := Settled w ∨ Ready on safe (view w)

/-- What may change during a call. -/
def Kept (s t : View) : Prop := t.asked = s.asked ∧ (Covered s → Covered t)

/-- What every program keeps. During a call the headers are no longer queued. -/
def contract : Contract World Site Status where
  rest w := Waiting (view w) ∨ Phase true True w
  inv w := Phase w.asked False w
  change w v := Settled v ∨ ¬ Settled w ∧ Kept (view w) (view v)
  refl w := (Classical.em (Settled w)).imp id fun unsettled => ⟨unsettled, rfl, id⟩
  trans := by
    rintro s t u first (settled | ⟨unsettled, second⟩)
    · exact .inl settled
    · rcases first with settled | ⟨fresh, first⟩
      · exact absurd settled unsettled
      · exact .inr ⟨fresh, second.1.trans first.1, fun covered => second.2 (first.2 covered)⟩
  answers _ site status := site.ofFilter = true → status = .continue_

variable {on : Bool} {safe : Prop} {w v : World}

theorem settled_mono (grows : w.trace <+: v.trace) (settled : Settled w) : Settled v := by
  obtain ⟨e, there, settles⟩ := List.any_eq_true.mp settled
  exact List.any_eq_true.mpr ⟨e, grows.subset there, settles⟩

namespace Phase

theorem same (phase : Phase on safe w) (grows : w.trace <+: v.trace) (blind : view v = view w) : Phase on safe v :=
  phase.imp (settled_mono grows) fun ready => blind ▸ ready

theorem call (phase : Phase on safe w) (inv : contract.inv v) (change : contract.change w v) : Phase on safe v := by
  rcases change with settled | ⟨unsettled, same, still⟩
  · exact .inl settled
  · have ready : Ready on safe (view w) := phase.resolve_left unsettled
    rcases inv with settled | later
    · exact .inl settled
    · have known : v.asked = on := same.trans ready.asked
      exact .inr ⟨later.live, known, fun yes => later.up (known.trans yes), fun ask => still (ready.covered ask)⟩

theorem inv (phase : Phase on safe w) : contract.inv w :=
  phase.imp id fun ready => ⟨ready.live, rfl, fun yes => ready.up (ready.asked.symm.trans yes), False.elim⟩

theorem onFilter {index : Nat} {g : ActiveStreamFilter → ActiveStreamFilter}
    (free : ∀ f, f.stopped = false → (g f).stopped = false) (phase : Phase on safe w) :
    Phase on safe (w.onFilter index g) := by
  refine phase.imp id fun ready => ⟨⟨⟨ready.live.base.proxy, ready.live.base.context, ready.live.base.responseSender,
    ready.live.base.going, fun i => ?_⟩, ready.live.begun, ready.live.plain, ready.live.linked⟩, ready.asked, ready.up,
    ready.covered⟩
  show (Function.update w.filters index (g (w.filters index)) i).stopped = false
  rw [Function.update_apply]
  split
  · exact free _ (ready.live.base.free index)
  · exact ready.live.base.free i

end Phase

/-! ### A settled stream -/

theorem lasting : Lasting Settled := fun _ _ => settled_mono

theorem keeps_settled {α : Type} {p : Program α} (within : p.Within Settled) : contract.Keeps Settled p := by
  refine Keeps.of_within (fun settled => .inr (.inl settled)) (fun settled => .inl settled) ?_ within
  rintro s t settled (later | ⟨unsettled, _⟩)
  · exact later
  · exact absurd settled unsettled

/-- What is left to show of a program is what it does to an unsettled stream. -/
theorem wp_of_ready {α : Type} {p : Program α} {post : α → World → Prop} (phase : Phase on safe w)
    (within : p.Within Settled) (settled : ∀ value v, Settled v → post value v)
    (ready : Ready on safe (view w) → contract.wp p post w) : contract.wp p post w := by
  rcases phase with done | going
  · exact wp_mono settled (keeps_settled within w done)
  · exact ready going

theorem keeps_of_ready {α : Type} {p : Program α} (within : p.Within Settled)
    (ready : ∀ {w}, Ready on safe (view w) → contract.wp p (fun _ => Phase on safe) w) :
    contract.Keeps (Phase on safe) p :=
  fun _ phase => wp_of_ready phase within (fun _ _ settled => .inl settled) ready

theorem ask_keeps {site : Site} : contract.Keeps (Phase on safe) (.ask site) :=
  fun _ phase => wp_ask.mpr ⟨phase.inv, fun _ _ inv change _ => phase.call inv change⟩

variable {f : World → World} {post : Unit → World → Prop} {last : Bool} {headers : Option CommonHeader}

theorem set_keeps (grows : ∀ w, w.trace <+: (f w).trace) (blind : ∀ w, view (f w) = view w) :
    contract.Keeps (Phase on safe) (.set f) :=
  .set fun phase => phase.same (grows _) (blind _)

/-! ### Replies -/

/-- The response sender got something: the end of the stream, or nothing else has changed. -/
def Replied (last : Bool) (w v : World) : Prop := Settled v ∨ last = false ∧ view v = view w

theorem settled_emit {e : Effect} (settles : e.settles = true) : Settled (w.emit e) :=
  List.any_eq_true.mpr ⟨e, List.mem_append_right _ (List.mem_singleton_self e), settles⟩

theorem send_wp {e : Effect} (sender : w.stream.responseSender = true)
    (holds : post () (w.emit e)) : contract.wp (send e) post w := by
  unfold send
  rw [wp_bind, wp_access, if_pos sender, sender]
  exact holds

/-- `send`, and the end of the stream with it. -/
theorem sendEnd_wp {e : Effect} (same : e.settles = last) (sender : w.stream.responseSender = true) :
    contract.wp (send e >>= fun _ => .when last endStream) (fun _ => Replied last w) w := by
  rw [wp_bind]
  refine send_wp sender ?_
  cases last with
  | false => exact .inr ⟨rfl, rfl⟩
  | true => exact wp_mono (fun _ _ settled => .inl settled) (keeps_settled lasting.endStream _ (settled_emit same))

theorem doAppendHeaders_wp (sender : w.stream.responseSender = true) :
    contract.wp (doAppendHeaders headers last) (fun _ => Replied last w) w := sendEnd_wp rfl sender

variable {data : Option Bytes} {trailers : Option CommonHeader}

theorem doAppendData_wp (sender : w.stream.responseSender = true) :
    contract.wp (doAppendData data last) (fun _ => Replied last w) w := sendEnd_wp rfl sender

theorem doAppendTrailers_wp (sender : w.stream.responseSender = true) :
    contract.wp (doAppendTrailers trailers) (fun _ => Replied true w) w :=
  sendEnd_wp (e := .appendTrailers trailers) rfl sender

/-- An unsettled stream is not done, so that `upstreamProcessDone` can be cleared. -/
theorem view_cleared (going : w.done = false) : view { w with stream.upstreamProcessDone := false } = view w := by
  have parts := going
  unfold World.done at parts
  rw [Bool.or_eq_false_iff, Bool.or_eq_false_iff] at parts
  have cleared : World.done { w with stream.upstreamProcessDone := false } = w.done := by
    rw [going]
    show (false || w.stream.downstreamReset || w.stream.downstreamCleaned) = false
    rw [parts.1.2, parts.2]
    rfl
  unfold view
  rw [cleared]

theorem Replied.marked (replied : Replied last { w with stream.upstreamProcessDone := last } v)
    (going : w.done = false) : Replied last w v := by
  rcases replied with settled | ⟨rfl, same⟩
  · exact .inl settled
  · exact .inr ⟨rfl, same.trans (view_cleared going)⟩

variable (base : Base (view w).toCore)
include base

theorem appendHeaders_wp : contract.wp (appendHeaders headers last) (fun _ => Replied last w) w :=
  wp_mono (fun _ _ replied => replied.marked base.going)
    (doAppendHeaders_wp (w := { w with stream.upstreamProcessDone := last }) base.responseSender)

theorem appendData_wp : contract.wp (appendData data last) (fun _ => Replied last w) w :=
  wp_mono (fun _ _ replied => replied.marked base.going)
    (doAppendData_wp (w := { w with stream.upstreamProcessDone := last }) base.responseSender)

theorem appendTrailers_wp : contract.wp (appendTrailers trailers) (fun _ => Replied true w) w :=
  wp_mono (fun _ _ replied => replied.marked base.going)
    (doAppendTrailers_wp (w := { w with stream.upstreamProcessDone := true }) base.responseSender)

omit base in
theorem sendHijackReply_wp {code : Nat} (sender : w.stream.responseSender = true) :
    contract.wp (sendHijackReply code headers) (fun _ => Settled) w := by
  refine wp_mono (fun _ v (replied : Replied true _ v) => ?_)
    (doAppendHeaders_wp (w := { w with stream.upstreamProcessDone := true }) sender)
  exact replied.resolve_right fun no => (nomatch no.1)

omit base

/-! ### The upstream request -/

theorem deref_wp (linked : w.request.downStream = true)
    (holds : post () (f w)) : contract.wp (Upstream.deref f) post w := by
  unfold Upstream.deref
  rw [wp_bind, wp_access, linked]
  exact holds

theorem upstreamRequest_wp (linked : w.stream.upstreamRequest = true)
    (holds : post () w) : contract.wp upstreamRequest post w := by
  unfold upstreamRequest
  rw [wp_bind, wp_get, linked]
  exact holds

/-- A program behind a look at `processDone`, in a stream that is not done. -/
theorem going_wp {p : Program Unit} (going : w.done = false) (holds : contract.wp p post w) : contract.wp (do
      if ← processDone then return
      p) post w := by
  rw [wp_bind, wp_processDone, wp_ite, going, if_neg Bool.false_ne_true]
  exact holds

theorem panic_keeps {α : Type} : contract.Keeps (Phase true True) (.panic : Program α) := .panic fun phase => .inr phase

theorem deref_keeps (grows : ∀ w, w.trace <+: (f w).trace) (blind : ∀ w, view (f w) = view w) :
    contract.Keeps (Phase true True) (Upstream.deref f) :=
  .bind (.access fun phase => phase.same (grows _) (blind _)) fun _ => .when panic_keeps

theorem processDone_keeps : contract.Keeps (Phase on safe) processDone :=
  .bind .get fun _ => .ite .pure (.bind .get fun _ => .ite .pure .get)

theorem onUpstreamRequestSent_keeps : contract.Keeps (Phase on safe) onUpstreamRequestSent :=
  set_keeps (fun _ => List.prefix_rfl) fun _ => rfl

/-- The pool is asked: from then on somebody owes an answer. -/
theorem upstreamAppendHeaders_wp (ready : Ready false safe (view w))
    (linked : w.stream.upstreamRequest = true ∧ w.request.downStream = true) (pool : w.request.connPool = true) :
    contract.wp (Upstream.appendHeaders last) (fun _ => Phase true safe) w := by
  unfold Upstream.appendHeaders
  rw [wp_bind]
  refine deref_wp linked.2 ?_
  refine going_wp ready.live.base.going ?_
  rw [wp_bind, wp_set, wp_bind, wp_access, wp_bind, wp_when]
  refine ⟨fun no => absurd (congrArg not pool) (ne_of_eq_of_ne no (by decide)), fun _ => ?_⟩
  refine (Keeps.bind ask_keeps fun _ => .pure) _ (.inr ⟨⟨ready.live.base, ready.live.begun, ready.live.plain, ?_⟩, rfl, ?_,
    ready.covered⟩)
  · exact fun _ => linked
  · exact fun _ => .inl rfl

theorem requestUpstream_wp (ready : Ready false safe (view w)) :
    contract.wp (requestUpstream last) (fun _ => Phase true safe) w := by
  unfold requestUpstream
  rw [wp_bind, wp_set, wp_bind, wp_set, wp_bind, wp_set, wp_bind]
  refine upstreamRequest_wp rfl ?_
  rw [wp_bind]
  refine wp_mono (fun _ v phase => Keeps.when onUpstreamRequestSent_keeps v phase) (upstreamAppendHeaders_wp ?_ ?_ ?_)
  · exact ⟨⟨ready.live.base,
      ready.live.begun, ready.live.plain, fun yes => absurd (yes.symm.trans ready.asked) (by decide)⟩, ready.asked,
      nofun, ready.covered⟩
  · exact ⟨rfl, rfl⟩
  · rfl

/-- The body is handed on: there is a sender, or a reply says that there is none. -/
structure Sending (v : View) : Prop where
  live : Live v
  asked : v.asked = true
  up : Up v ∨ v.requestSender = false

theorem upstreamAppendData_wp (sending : Sending (view w)) :
    contract.wp (Upstream.appendData data last) (fun _ => Phase true True) w := by
  unfold Upstream.appendData
  rw [wp_bind]
  refine deref_wp (sending.live.linked sending.asked).2 ?_
  refine going_wp sending.live.base.going ?_
  rw [wp_bind, wp_set, wp_bind, wp_set, wp_bind, wp_get, wp_ite]
  split
  · rw [wp_bind, wp_set, wp_bind, wp_get, wp_bind]
    exact wp_mono (fun _ v settled => .inl settled) (sendHijackReply_wp sending.live.base.responseSender)
  · next sender =>
      have sender : w.request.requestSender = true :=
        Bool.eq_true_of_not_eq_false fun no => sender (congrArg not no)
      refine (Keeps.bind .get fun _ => .bind (.when panic_keeps) fun _ => .bind ask_keeps fun _ => .pure) _
        (.inr ⟨⟨sending.live.base, sending.live.begun, sending.live.plain, sending.live.linked⟩, sending.asked, ?_, ?_⟩)
      · intro _
        rcases sending.up with (owed | final | ⟨no, _⟩) | no
        · exact .inl owed
        · exact .inr (.inl final)
        · exact absurd (no.symm.trans sender) (by decide)
        · exact absurd (no.symm.trans sender) (by decide)
      · intro _ left
        -- the body is sent, so that only a queued part of it is left
        have left : (w.down.any Event.ofData || (w.stream.downstreamReqDataBuf.isSome && !true)) = true := left
        rwa [Bool.not_true, Bool.and_false, Bool.or_false] at left

theorem finish_keeps : contract.Keeps (Phase on safe) (do
    Prog.when (← Prog.get (·.stream.upstreamProcessDone)) cleanStream) := by
  refine keeps_of_ready (.bind .get fun _ => .when lasting.cleanStream) fun {w} ready => ?_
  have parts : w.done = false := ready.live.base.going
  unfold World.done at parts
  rw [Bool.or_eq_false_iff, Bool.or_eq_false_iff] at parts
  rw [wp_bind, wp_get, parts.1.1]
  exact .inr ready

theorem doReceiveData_wp (sending : Sending (view w)) :
    contract.wp (doReceiveData data last) (fun _ => Phase true True) w := by
  refine Keeps.andThen (P := fun w => Sending (view w)) ?_ sending fun _ v sending => ?_
  · exact .when fun _ sending => sending
  rw [wp_bind]
  refine upstreamRequest_wp (sending.live.linked sending.asked).1 ?_
  rw [wp_bind]
  exact wp_mono (fun _ u phase => finish_keeps u phase) (upstreamAppendData_wp sending)

theorem upstreamAppendTrailers_keeps : contract.Keeps (Phase true True) (Upstream.appendTrailers trailers) :=
  .bind (deref_keeps (fun _ => List.prefix_append _ _) fun _ => rfl) fun _ => .bind processDone_keeps fun _ =>
    .ite .pure (.bind (set_keeps (fun _ => List.prefix_rfl) fun _ => rfl) fun _ =>
      .bind (set_keeps (fun _ => List.prefix_rfl) fun _ => rfl) fun _ => .bind .get fun _ =>
      .bind (.when panic_keeps) fun _ => .bind ask_keeps fun _ => .pure)

theorem doReceiveTrailers_keeps {filters : Option CommonHeader → Program Bool}
    (keeps : ∀ trailers, contract.Keeps (Phase true True) (filters trailers)) :
    contract.Keeps (Phase true True) (doReceiveTrailers filters trailers) :=
  .bind (keeps trailers) fun _ => .ite .pure (.bind (set_keeps (fun _ => List.prefix_rfl) fun _ => rfl) fun _ =>
    .bind onUpstreamRequestSent_keeps fun _ => .bind (.bind .get fun _ => .when panic_keeps) fun _ =>
    .bind upstreamAppendTrailers_keeps fun _ => finish_keeps)

/-! ### The filters, all of which continue -/

theorem callFilter_wp {index : Nat} {part : Part} {stage : UInt64} {site : Site} (filter : site.ofFilter = true)
    (phase : Phase on safe w) : contract.wp (callFilter index part stage site)
      (fun status v => status = .continue_ ∧ Phase on safe v) w := by
  unfold callFilter
  rw [wp_bind, wp_set, wp_bind, wp_ask]
  have shown : Phase on safe { w.emit (.shown index part) with
      stream.filterStage := w.stream.filterStage ||| stage } := phase.same (List.prefix_append _ _) rfl
  refine ⟨shown.inv, fun v status inv change answers => ?_⟩
  rw [wp_bind, wp_set, wp_pure]
  exact ⟨answers filter, (shown.call inv change).same (List.prefix_append _ _) rfl⟩

theorem runReceiveHeadersFilters_wp : ∀ (left index : Nat) {w : World}, Phase on safe w →
      contract.wp (runReceiveHeadersFilters headers last left index)
        (fun stopped v => stopped = false ∧ Phase on safe v) w := by
  intro left
  induction left with
  | zero => exact fun index w phase => ⟨rfl, phase⟩
  | succ left ih =>
    intro index w phase
    unfold runReceiveHeadersFilters
    rw [wp_bind, wp_get, wp_ite]
    split
    · rw [wp_bind]
      refine wp_mono (fun status v called => ?_) (callFilter_wp rfl phase)
      obtain ⟨rfl, phase⟩ := called
      exact ih (index + 1) (phase.onFilter fun _ free => free)
    · exact ⟨rfl, phase⟩

/-- The headers go through, and the pool is asked or a reply says that there is none. -/
theorem doReceiveHeaders_wp {left index : Nat} (phase : Phase false safe w) :
    contract.wp (doReceiveHeaders left index headers last) (fun _ => Phase true safe) w := by
  have settles : ∀ {p : Program Unit} {v}, p.Within Settled → Settled v →
      contract.wp p (fun _ => Phase true safe) v := fun within settled =>
    wp_mono (fun _ _ settled => .inl settled) (keeps_settled within _ settled)
  unfold doReceiveHeaders
  rw [wp_bind]
  refine wp_mono (fun stopped v passed => ?_) (runReceiveHeadersFilters_wp left index phase)
  obtain ⟨rfl, phase⟩ := passed
  rw [wp_ite, if_neg Bool.false_ne_true, wp_bind, wp_get]
  rcases phase with settled | ready
  · split
    · exact .inr (.inl settled)
    · rw [wp_ite]
      split
      · exact settles (.bind .get fun _ => lasting.sendHijackReply) settled
      · exact settles lasting.requestUpstream settled
  · obtain ⟨config, known⟩ := Option.isSome_iff_exists.mp ready.live.base.proxy
    rw [show v.stream.proxy = some config from known]
    dsimp only
    rw [wp_ite]
    split
    · exact wp_mono (fun _ _ settled => .inl settled) (sendHijackReply_wp ready.live.base.responseSender)
    · exact requestUpstream_wp ready

theorem handleTrailerStatus_keeps {index : Nat} {continues : Program Unit} (within : continues.Within Settled)
    (status : Status) : contract.Keeps (Phase on safe) (handleTrailerStatus index continues status) := by
  refine keeps_of_ready (Lasting.handleTrailerStatus within status) fun {w} ready => ?_
  cases status with
  | stop => exact .inr ready
  | continue_ =>
    unfold handleTrailerStatus
    rw [wp_bind, wp_get, show (w.filters index).stopped = false from ready.live.base.free index]
    exact .inr ready

theorem trailersLoop_keeps : ∀ (left index : Nat) (trailers : Option CommonHeader),
    contract.Keeps (Phase on safe) (trailersLoop left index trailers) := by
  intro left
  induction left with
  | zero => exact fun index trailers => .bind .get fun _ => .pure
  | succ left ih =>
    intro index trailers
    refine .bind .get fun _ => .ite (.bind (fun w phase => wp_mono (fun _ _ called => called.2)
      (callFilter_wp rfl phase)) fun status => .bind (handleTrailerStatus_keeps (lasting.doContinue fun later => ?_)
        status) fun _ => .ite .pure (ih (index + 1) trailers)) .pure
    exact .bind .get fun _ => .ite .pure (lasting.trailersLoop left (index + 1) later)

theorem runReceiveTrailersFilters_keeps (left index : Nat) (trailers : Option CommonHeader) :
    contract.Keeps (Phase on safe) (runReceiveTrailersFilters left index trailers) :=
  .bind .get fun _ => .ite .pure (trailersLoop_keeps left index trailers)

/-! ### The events of the request -/

variable {n : Nat}

theorem receiveHeaders_wp (phase : Phase false safe w) :
    contract.wp (receiveHeaders n headers last) (fun _ => Phase true safe) w :=
  doReceiveHeaders_wp (w := { w with stream.downstreamRecvDone := last }) (phase.same List.prefix_rfl rfl)

theorem receiveData_wp (sending : Sending (view w)) :
    contract.wp (receiveData data last) (fun _ => Phase true True) w :=
  going_wp sending.live.base.going (doReceiveData_wp (w := { w with stream.downstreamRecvDone := last }) sending)

theorem receiveTrailers_keeps : contract.Keeps (Phase true True) (receiveTrailers n trailers) :=
  .bind processDone_keeps fun _ => .ite .pure (.bind (set_keeps (fun _ => List.prefix_rfl) fun _ => rfl) fun _ =>
    doReceiveTrailers_keeps (runReceiveTrailersFilters_keeps n 0))

theorem covered_of_no_body (none : w.stream.downstreamReqDataBuf.isSome = false) : Covered (view w) := by
  intro left
  have left : (w.down.any Event.ofData || (w.stream.downstreamReqDataBuf.isSome && _)) = true := left
  rwa [none, Bool.false_and, Bool.or_false] at left

theorem receive_wp (live : Live (view w)) (fresh : w.asked = false) :
    contract.wp (receive n) (fun _ => Phase true True) w := by
  have trailers : ∀ {hasTrailer : Bool}, contract.Keeps (Phase true True) (do
      Prog.when hasTrailer do
        receiveTrailers n (← Prog.get (·.stream.downstreamReqTrailers))) :=
    .when (.bind .get fun _ => receiveTrailers_keeps)
  unfold receive
  rw [wp_bind, wp_get, wp_bind, wp_get, wp_bind, wp_get, wp_bind]
  cases body : w.stream.downstreamReqDataBuf.isSome with
  | false =>
    refine wp_mono (fun _ v phase => trailers v phase) (receiveHeaders_wp (.inr ⟨live, fresh, ?_, ?_⟩))
    · exact nofun
    · exact fun _ => covered_of_no_body body
  | true =>
    refine wp_mono (fun _ v (phase : Phase true False v) => ?_) (receiveHeaders_wp (.inr ⟨live, fresh, ?_, False.elim⟩))
    · rw [wp_bind]
      refine wp_of_ready phase (.when (.bind .get fun _ => lasting.receiveData)) ?_ fun ready => ?_
      · exact fun _ u settled => trailers u (.inl settled)
      · rw [wp_when]
        refine ⟨fun _ => ?_, nofun⟩
        rw [wp_bind, wp_get]
        exact wp_mono (fun _ u phase => trailers u phase)
          (receiveData_wp ⟨ready.live, ready.asked, .inl (ready.up rfl)⟩)
    · exact nofun

variable {rest : List Event}

theorem Waiting.pop {e : Event} (waiting : Waiting (view w)) (queued : w.down = e :: rest) :
    Live (view { w with down := rest }) ∧ e.starts = true ∧ (e = .recv ∨ Covered (view { w with down := rest })) := by
  rcases waiting.queue with ⟨_, empty, _⟩ | ⟨begun, first, others, split, starts, plain, covered⟩
  · exact absurd (queued.symm.trans empty) (List.cons_ne_nil _ _)
  · obtain ⟨rfl, rfl⟩ : e = first ∧ rest = others := List.cons.inj (queued.symm.trans split)
    refine ⟨⟨waiting.base, begun, plain, ?_⟩,
      starts, covered.imp id fun covered left => ?_⟩
    · exact fun yes => absurd (yes.symm.trans waiting.fresh) (by decide)
    · have other : e.ofData = false := by cases e <;> first | rfl | cases starts
      have same : w.down.any Event.ofData = rest.any Event.ofData := by
        rw [queued, List.any_cons, other, Bool.false_or]
      unfold Covered View.bodyLeft at covered
      rw [show (view w).down = w.down from rfl, same] at covered
      exact covered left

/-- A later event is taken off the queue: without a part of the body nothing is lost. -/
theorem Ready.pop {e : Event} (ready : Ready true True (view w)) (queued : w.down = e :: rest) :
    Sending (view { w with down := rest }) ∧ e.plain = true ∧
      (e.ofData = false → Ready true True (view { w with down := rest })) := by
  have plain : ∀ a ∈ e :: rest, a.plain = true := fun a there => ready.live.plain a (queued.symm ▸ there : a ∈ w.down)
  have live : Live (view { w with down := rest }) :=
    ⟨ready.live.base, ready.live.begun, fun a there => plain a (List.mem_cons_of_mem _ there), ready.live.linked⟩
  refine ⟨⟨live, ready.asked, ?_⟩, ?_, fun other => ?_⟩
  · rcases ready.up rfl with owed | final | ⟨no, _⟩
    · exact .inl (.inl owed)
    · exact .inl (.inr (.inl final))
    · exact .inr no
  · exact plain e List.mem_cons_self
  · have same : w.down.any Event.ofData = rest.any Event.ofData := by
      rw [queued, List.any_cons, other, Bool.false_or]
    have left : (view { w with down := rest }).bodyLeft = (view w).bodyLeft :=
      congrArg (· || (w.stream.downstreamReqDataBuf.isSome && !w.request.dataSent)) same.symm
    refine ⟨live, ready.asked, fun _ => ?_, fun _ more => ?_⟩
    · rcases ready.up rfl with owed | final | ⟨no, more⟩
      · exact .inl owed
      · exact .inr (.inl final)
      · exact .inr (.inr ⟨no, left.trans more⟩)
    · exact same ▸ ready.covered trivial (left.symm.trans more)

/-- **An event of the request is handled.** -/
theorem handleDown_wp {e : Event} (holds : contract.rest w) (queued : w.down = e :: rest) :
    contract.wp (handleDown n e) (fun _ => contract.rest) { w with down := rest } := by
  suffices kept : contract.wp (handleDown n e) (fun _ => Phase true True) { w with down := rest } from
    wp_mono (fun _ _ phase => .inr phase) kept
  rcases holds with waiting | settled | ready
  · obtain ⟨live, starts, covered⟩ := Waiting.pop waiting queued
    cases e with
    | recv => exact receive_wp live waiting.fresh
    | recvHeader headers last =>
      refine receiveHeaders_wp (.inr ⟨live, waiting.fresh, nofun, fun _ => ?_⟩)
      exact covered.resolve_left nofun
    | recvData last => cases starts
    | recvTrailer trailers => cases starts
    | reset => cases starts
  · exact wp_mono (fun _ _ settled => .inl settled) (keeps_settled (lasting.handleDown e) _ settled)
  · obtain ⟨sending, plain, kept⟩ := Ready.pop ready queued
    cases e with
    | recvData last => exact receiveData_wp sending
    | recvTrailer trailers => exact receiveTrailers_keeps _ (.inr (kept rfl))
    | recv => cases plain
    | recvHeader headers last => cases plain
    | reset => cases plain

/-! ### The events of the response -/

/-- The response finishes: the sender is forgotten, but the stream can still reply. -/
theorem onUpstreamResponseRecvFinished_wp (live : Live (view w)) (asked : w.asked = true) :
    contract.wp onUpstreamResponseRecvFinished (fun _ v => Base (view v).toCore) w := by
  unfold onUpstreamResponseRecvFinished
  rw [wp_bind, wp_get, wp_bind]
  have cleans : contract.Keeps (fun w => Base (view w).toCore) cleanUp := by
    intro w base
    unfold cleanUp
    rw [wp_bind, wp_get, wp_when]
    exact ⟨fun _ => base, fun _ => base⟩
  rw [wp_when]
  refine ⟨fun _ => ?_, fun _ => cleans w live.base⟩
  rw [wp_bind]
  refine upstreamRequest_wp (live.linked asked).1 ?_
  unfold Upstream.resetStream
  rw [wp_bind, wp_get, wp_when]
  exact ⟨fun _ => cleans (w.emit .resetUpstream) live.base, fun _ => cleans w live.base⟩

theorem respond_wp {p : Program Unit} (live : Live (view w)) (asked : w.asked = true)
    (replies : ∀ {w}, Base (view w).toCore → contract.wp p (fun _ => Replied last w) w) :
    contract.wp (Prog.when last onUpstreamResponseRecvFinished >>= fun _ => p) (fun _ => Replied last w) w := by
  rw [wp_bind, wp_when]
  refine ⟨?_, fun _ => replies live.base⟩
  rintro rfl
  refine wp_mono (fun _ v base => ?_) (onUpstreamResponseRecvFinished_wp live asked)
  exact wp_mono (fun _ u replied => .inl (replied.resolve_right fun no => (nomatch no.1))) (replies base)

theorem upstreamReceiveHeaders_wp (live : Live (view w))
    (asked : w.asked = true) : contract.wp (Upstream.receiveHeaders headers last) (fun _ => Replied last w) w := by
  unfold Upstream.receiveHeaders
  rw [wp_bind]
  refine deref_wp (live.linked asked).2 ?_
  unfold onUpstreamHeaders
  rw [wp_bind, wp_set, wp_bind, wp_set]
  exact respond_wp (w := { w with stream.downstreamRespHeaders := headers, stream.downstreamResponseStarted := true })
    live asked fun base => appendHeaders_wp base

theorem upstreamReceiveData_wp (live : Live (view w)) (asked : w.asked = true) :
    contract.wp (Upstream.receiveData data last) (fun _ => Replied last w) w := by
  unfold Upstream.receiveData
  rw [wp_bind]
  exact deref_wp (live.linked asked).2 (going_wp live.base.going (respond_wp live asked fun base => appendData_wp base))

theorem upstreamReceiveTrailers_wp (live : Live (view w)) (asked : w.asked = true) :
    contract.wp (Upstream.receiveTrailers trailers) (fun _ => Settled) w := by
  unfold Upstream.receiveTrailers
  rw [wp_bind]
  refine deref_wp (live.linked asked).2 (going_wp live.base.going ?_)
  refine wp_mono (fun _ v (replied : Replied true w v) => ?_) (respond_wp live asked fun base => appendTrailers_wp base)
  exact replied.resolve_right fun no => (nomatch no.1)

theorem Replied.wp {p : Program Unit} (replied : Replied last w v) (live : Live (view w))
    (asked : w.asked = true) (within : p.Within Settled)
    (more : last = false → Live (view v) → v.asked = true → contract.wp p (fun _ => Settled) v) :
    contract.wp p (fun _ => Settled) v := by
  rcases replied with settled | ⟨goes, same⟩
  · exact keeps_settled within v settled
  · exact more goes (same ▸ live) ((congrArg View.asked same).trans asked)

theorem upstreamReceive_wp (live : Live (view w)) (asked : w.asked = true) :
    contract.wp Upstream.receive (fun _ => Settled) w := by
  have derefs : (Upstream.deref id).Within Settled := Lasting.deref fun settled => settled
  unfold Upstream.receive
  rw [wp_bind]
  refine deref_wp (live.linked asked).2 (going_wp live.base.going ?_)
  rw [wp_bind, wp_get, wp_bind, wp_get, wp_bind, wp_get, wp_bind]
  refine wp_mono (fun _ v replied => ?_) (upstreamReceiveHeaders_wp live asked)
  have trailers : ∀ {hasTrailer : Bool}, (Prog.when hasTrailer do
      Upstream.deref id
      Upstream.receiveTrailers (← Prog.get (·.stream.downstreamRespTrailers))).Within Settled :=
    .when (.bind derefs fun _ => .bind .get fun _ => lasting.upstreamReceiveTrailers)
  refine replied.wp live asked (.bind (.when (.bind derefs fun _ => .bind .get fun _ => lasting.upstreamReceiveData))
    fun _ => trailers) fun body live asked => ?_
  rw [wp_bind, wp_when]
  refine ⟨fun _ => ?_, fun no => absurd (body.symm.trans (congrArg not no)) (by decide)⟩
  rw [wp_bind]
  refine deref_wp (live.linked asked).2 ?_
  rw [wp_bind, wp_get]
  refine wp_mono (fun _ u replied => ?_) (upstreamReceiveData_wp live asked)
  refine replied.wp live asked trailers fun more live asked => ?_
  rw [wp_when]
  refine ⟨fun _ => ?_, fun no => absurd (more.symm.trans (congrArg not no)) (by decide)⟩
  rw [wp_bind]
  refine deref_wp (live.linked asked).2 ?_
  rw [wp_bind, wp_get]
  exact upstreamReceiveTrailers_wp live asked

theorem ready_fail {s : View} (live : Live s) (asked : s.asked = true) (covered : safe → Covered s)
    (left : s.done = true ∨ s.bodyLeft = true) : Ready true safe { s with requestSender := false, owed := false } :=
  have left : s.bodyLeft = true := left.resolve_left fun done => absurd (done.symm.trans live.base.going) (by decide)
  ⟨⟨live.base, live.begun, live.plain, live.linked⟩, asked,
    fun _ => .inr (.inr ⟨rfl, left⟩), covered⟩

/-- **An event of the response is handled.** -/
theorem handleUp_wp {e : Event} (ready : Ready true True (view w)) (queued : w.up = e :: rest)
    (left : e = .reset → w.done = true ∨ w.bodyLeft = true) :
    contract.wp (Upstream.handleUp e) (fun _ => Phase true True) { w with up := rest } := by
  have live : Live (view { w with up := rest }) :=
    ⟨ready.live.base,
      ready.live.begun, ready.live.plain, ready.live.linked⟩
  have more : e.last = false → Ready true True (view { w with up := rest }) := by
    refine fun goes => ⟨live, ready.asked, fun _ => ?_, ready.covered⟩
    rcases ready.up rfl with owed | final | body
    · exact .inl owed
    · have final : w.up.any Event.last = true := final
      rw [queued, List.any_cons, goes, Bool.false_or] at final
      exact .inr (.inl final)
    · exact .inr (.inr body)
  have replied : ∀ {last : Bool} {v}, e.last = last → Replied last { w with up := rest } v → Phase true True v := by
    rintro last v same (settled | ⟨goes, blind⟩)
    · exact .inl settled
    · exact .inr (blind ▸ more (same.trans goes))
  cases e with
  | recv => exact wp_mono (fun _ _ settled => .inl settled) (upstreamReceive_wp live ready.asked)
  | recvHeader headers last => exact wp_mono (fun _ _ => replied rfl) (upstreamReceiveHeaders_wp live ready.asked)
  | recvData last =>
    unfold Upstream.handleUp
    rw [wp_bind]
    refine deref_wp (live.linked ready.asked).2 ?_
    rw [wp_bind, wp_get]
    exact wp_mono (fun _ _ => replied rfl) (upstreamReceiveData_wp live ready.asked)
  | recvTrailer trailers =>
    exact wp_mono (fun _ _ settled => .inl settled) (upstreamReceiveTrailers_wp live ready.asked)
  | reset => exact .inr (ready_fail live ready.asked ready.covered (left rfl))

end Settling

end Strike.Proxy
