/-
**Callbacks beside the handlers of a stream.**

All streams of a proxy, with their handlers and callbacks interleaved at every access.

* `Careful`: what keeps a stream from harm, said of the state before each turn, up to the end of the reply.
* `Queued`: what the queues of a stream say of its request and its reply.
* `Beside`: what callbacks may do beside a handler. `onDownstream_beside`, `onUpstream_beside`,
  `onReady_beside`: they do no more.
-/

import Strike.Lib.Threads
import Strike.Proxy.Settling

namespace Strike.Proxy

open Strike.Lib Reactor

/-! ### All streams -/

/-- A stream of the proxy, with its handlers and callbacks in progress. -/
structure Stream where
  config : Config
  filters : Nat
  running : Running World Site Status Entry

/-- A new stream, or a turn of one. -/
inductive StreamMove where
  | create (config : Config) (filters : Nat)
  | on (k : Nat) (turn : Turn Entry Status)
  deriving Repr, DecidableEq

/-- One move. -/
def stepStreams (streams : List Stream) : StreamMove → Option (List Stream)
  | .create config filters => some (streams ++ [⟨config, filters, { world := newStream config filters }⟩])
  | .on k turn => do
    let stream ← streams[k]?
    let running ← (reactor stream.filters).turn stream.running turn
    return streams.set k { stream with running }

/-- **The streams of a proxy.** -/
def streams : System (List Stream) StreamMove := ⟨stepStreams⟩

/-- The move touches an object that was given back. -/
def Touches (all : List Stream) : StreamMove → Prop
  | .create _ _ => False
  | .on k turn => ∃ stream ∈ all[k]?, stream.running.Touches turn

/-- The handlers of events, and what filters call; the other entries are callbacks. -/
def Entry.handles : Entry → Bool
  | .filter _ _ => true
  | .down => true
  | .up => true
  | _ => false

/-- A part of the request is delivered. -/
def Entry.part : Entry → Bool
  | .downstream d => d ≠ .onResetStream
  | _ => false

/-- A request without body and trailers, or a reset. -/
def Delivery.bare : Delivery → Bool
  | .onReceive _ data trailers => data.isNone && trailers.isNone
  | .onReceiveHeaders _ _ => true
  | .onReceiveData _ _ => false
  | .onReceiveTrailers _ => false
  | .onResetStream => true

/-- Not a response in one piece with trailers. -/
def Delivery.untrailed : Delivery → Bool
  | .onReceive _ _ trailers => trailers.isNone
  | _ => true

/-- An upstream request has its sender, or the stream is done. -/
def World.ready (w : World) : Bool := !w.request.downStream || w.request.requestSender || w.done

/-- The last part of a reply. -/
def Effect.ends : Effect → Bool
  | .appendHeaders _ last => last
  | .appendData _ last => last
  | .appendTrailers _ => true
  | _ => false

/-- The reply has ended. -/
def World.ended (w : World) : Bool := w.trace.any Effect.ends

/-- What the end of a reply spares: a part of the request, and a reset that is marked. -/
def World.spares (w : World) : Entry → Bool
  | .downstream d => d ≠ .onResetStream || w.stream.downstreamReset
  | _ => false

/-- **An entry that does no harm.** Without a connection pool requests have headers only, and no filter
continues; with one the pool does not fail. Responses in one piece have no trailers. The request sender is
there when more of the request is handled. -/
def Stream.fits (stream : Stream) : Entry → Bool
  | .downstream d => stream.config.hasConnPool || d.bare
  | .upstream d => d.untrailed
  | .onReady => true
  | .onFailure => false
  | .filter _ .continueReceiving => stream.config.hasConnPool && stream.running.world.ready
  | .filter _ _ => true
  | .down => stream.running.world.ready
  | .up => true

/-- The thread waits for a stream of the pool. -/
def asksPool : Program Unit → Bool
  | .call .newStream _ => true
  | _ => false

/-- Entries that are not in progress at the same time: two handlers, and two parts of the request. -/
def Clash (e e' : Entry) : Prop := e.handles = true ∧ e'.handles = true ∨ e.part = true ∧ e'.part = true

/-- **A careful turn.** Handlers run one at a time, and the parts of the request come one at a time. Behind the
end of the reply only what it spares is entered, and queued events of the request are handled. Where the reply
ends no event of the response is queued, and what else is in progress is spared. A pool that returns has given
the request sender. -/
def Stream.Careful (stream : Stream) : Turn Entry Status → Prop
  | .enter e => stream.fits e = true ∧ (∀ thread ∈ stream.running.threads, ¬ Clash thread.1 e) ∧
      (stream.running.world.ended = true → stream.running.world.spares e = true ∨ e = .down)
  | .step i => ∀ thread ∈ stream.running.threads[i]?,
      (thread.2.after stream.running.world).ended = true → stream.running.world.ended = false →
      stream.running.world.up = [] ∧
        ∀ other ∈ stream.running.threads.eraseIdx i, other.2.Ended ∨ stream.running.world.spares other.1 = true
  | .answer i _ => ∀ thread ∈ stream.running.threads[i]?, asksPool thread.2 = true → stream.running.world.ready = true
  | .unwind _ => True

/-- The move is a careful turn of its stream. -/
def Careful (all : List Stream) : StreamMove → Prop
  | .create _ _ => True
  | .on k turn => ∀ stream ∈ all[k]?, stream.Careful turn

/-! ### The queues -/

namespace Pooled

/-- The last part of a request. -/
def completes : Event → Bool
  | .recvHeader _ last => last
  | .recvData last => last
  | .reset => false
  | _ => true

/-- The queues of a stream, and what they are kept in step with. -/
structure Line where
  down : List Event
  up : List Event
  arrived : Arrived
  reset : Bool
  recvDone : Bool
  ended : Bool

/-- All of the request has been taken. -/
structure Drained (l : Line) : Prop where
  arrived : l.arrived = .whole
  down : ∀ e ∈ l.down, e = .reset

/-- **What the queues say.** A queued reset is marked, behind the last part of a request there are only resets,
and `downstreamRecvDone` is set when that part has been taken. -/
structure Queued (l : Line) : Prop where
  marked : Event.reset ∈ l.down → l.reset = true
  whole : ∀ e ∈ l.down, completes e = true → l.arrived = .whole
  ordered : l.down.Pairwise fun e later => completes e = true → later = .reset
  done : l.recvDone = true → Drained l
  answered : l.ended = true → l.up = []

section

variable {l : Line}

theorem Queued.offer (queued : Queued l) {e : Event} {arrived : Arrived} (part : e ≠ .reset) (more : l.arrived ≠ .whole)
    (whole : completes e = true → arrived = .whole) : Queued { l with down := l.down ++ [e], arrived } where
  marked there := queued.marked ((List.mem_append.mp there).resolve_right fun last =>
    part (List.mem_singleton.mp last).symm)
  whole e' there last := by
    rcases List.mem_append.mp there with there | there
    · exact absurd (queued.whole e' there last) more
    · exact whole (List.mem_singleton.mp there ▸ last)
  ordered := by
    refine List.pairwise_append.mpr ⟨queued.ordered, List.pairwise_singleton _ _, fun e' there _ _ last => ?_⟩
    exact absurd (queued.whole e' there last) more
  done yes := absurd (queued.done yes).arrived more
  answered := queued.answered

theorem Drained.offerReset (drained : Drained l) : Drained { l with down := l.down ++ [.reset] } where
  arrived := drained.arrived
  down e there := (List.mem_append.mp there).elim (drained.down e) List.mem_singleton.mp

theorem Queued.offerReset (queued : Queued l) (marked : l.reset = true) : Queued { l with down := l.down ++ [.reset] } where
  marked _ := marked
  whole e there last := by
    rcases List.mem_append.mp there with there | there
    · exact queued.whole e there last
    · rw [List.mem_singleton.mp there] at last
      cases last
  ordered := by
    refine List.pairwise_append.mpr ⟨queued.ordered, List.pairwise_singleton _ _, fun _ _ later same _ => ?_⟩
    exact List.mem_singleton.mp same
  done yes := (queued.done yes).offerReset
  answered := queued.answered

theorem Queued.take (queued : Queued l) {e : Event} {down : List Event} (first : l.down = e :: down) :
    Queued { l with down } ∧ (completes e = true → Drained { l with down }) := by
  have ordered := queued.ordered
  rw [first, List.pairwise_cons] at ordered
  have mem {e'} (there : e' ∈ down) : e' ∈ l.down := first ▸ List.mem_cons_of_mem e there
  refine ⟨⟨fun there => queued.marked (mem there), fun e' there => queued.whole e' (mem there), ordered.2, fun yes => ?_,
    queued.answered⟩, fun last => ⟨queued.whole e (first ▸ List.mem_cons_self) last,
      fun e' there => ordered.1 e' there last⟩⟩
  exact ⟨(queued.done yes).arrived, fun e' there => (queued.done yes).down e' (mem there)⟩

/-- **Nothing is queued** where the request and the reply have ended and the stream is not reset. -/
theorem Queued.empty (queued : Queued l) (drained : Drained l) (unmarked : l.reset = false) (ended : l.ended = true) :
    l.down = [] ∧ l.up = [] := by
  refine ⟨List.eq_nil_iff_forall_not_mem.mpr fun e there => ?_, queued.answered ended⟩
  rw [drained.down e there] at there
  exact absurd (unmarked.symm.trans (queued.marked there)) (by decide)

end

/-! ### What callbacks leave -/

/-- What the argument reads of a stream. -/
structure View extends Line where
  proxy : Option Config
  responseSender : Bool
  processDone : Bool
  cleaned : Bool
  reuse : Bool
  downStream : Bool
  sender : Bool
  body : Option Bytes
  trailers : Option CommonHeader
  respTrailers : Option CommonHeader

/-- The view of a stream. -/
def view (w : World) : View where
  down := w.down
  up := w.up
  arrived := w.arrived
  reset := w.stream.downstreamReset
  recvDone := w.stream.downstreamRecvDone
  ended := w.ended
  proxy := w.stream.proxy
  responseSender := w.stream.responseSender
  processDone := w.stream.upstreamProcessDone
  cleaned := w.stream.downstreamCleaned
  reuse := w.stream.reuseBuffer
  downStream := w.request.downStream
  sender := w.request.requestSender
  body := w.stream.downstreamReqDataBuf
  trailers := w.stream.downstreamReqTrailers
  respTrailers := w.stream.downstreamRespTrailers

variable {w : World} {e : Effect}

theorem view_emit (mid : e.ends = false) : view (w.emit e) = view w := by
  have same : (w.emit e).ended = w.ended := by
    show (w.trace ++ [e]).any Effect.ends = w.trace.any Effect.ends
    rw [List.any_append, List.any_cons, mid, List.any_nil, Bool.or_false, Bool.or_false]
  show { view w with ended := (w.emit e).ended } = view w
  rw [same]
  rfl

/-- The request has headers only. -/
structure Bare (body : Option Bytes) (trailers : Option CommonHeader) (down : List Event) : Prop where
  body : body = none
  trailers : trailers = none
  events : ∀ e ∈ down, e.plain = false

/-- What every access keeps. -/
structure Base (config : Config) (v : View) : Prop where
  proxy : v.proxy = some config
  responseSender : v.responseSender = true
  bare : config.hasConnPool = false → Bare v.body v.trailers v.down
  queued : Queued v.toLine

/-- What holds between handlers: a stream that is done is cleaned. -/
structure Rest (config : Config) (v : View) : Prop extends Base config v where
  done : v.processDone = true → v.cleaned = true
  untrailed : v.respTrailers = none ∨ v.cleaned = true

/-- The guards of `giveStream` hold the object back, or the request and the reply have ended. -/
def Guards (v : View) : Prop := v.reuse = false ∨ v.reset = true ∨ v.ended = true ∧ Drained v.toLine

/-- A cleaned stream. -/
structure Gone (config : Config) (v : View) : Prop extends Base config v where
  cleaned : v.cleaned = true
  guards : Guards v

/-- A stream that has taken an event of the request; `last`, the last one. -/
structure Taken (config : Config) (last : Bool) (v : View) : Prop extends Rest config v where
  drained : last = true → Drained v.toLine

/-- The stream can be handed more of the request. -/
def Ready (v : View) : Prop :=
  v.downStream = true → v.sender = true ∨ v.processDone = true ∨ v.reset = true ∨ v.cleaned = true

/-- A stream that can be handed more of the request. -/
structure Able (config : Config) (last : Bool) (v : View) : Prop extends Taken config last v where
  ready : Ready v

/-- **What a callback may do.** -/
structure Beside (config : Config) (v v' : View) : Prop where
  proxy : v'.proxy = v.proxy
  responseSender : v'.responseSender = v.responseSender
  processDone : v'.processDone = v.processDone
  cleaned : v'.cleaned = v.cleaned
  reuse : v'.reuse = v.reuse
  downStream : v'.downStream = v.downStream
  ended : v'.ended = v.ended
  reset : v.reset = true → v'.reset = true
  calm : v.ended = true → v'.reset = true → v.reset = true
  sender : v.sender = true → v'.sender = true
  respTrailers : v.respTrailers = none → v'.respTrailers = none
  bare : config.hasConnPool = false → Bare v.body v.trailers v.down → Bare v'.body v'.trailers v'.down
  drained : Drained v.toLine → Drained v'.toLine
  queued : Queued v.toLine → Queued v'.toLine

variable {config : Config} {last : Bool} {v v' : View}

variable (config) in
theorem Beside.refl (v : View) : Beside config v v :=
  ⟨rfl, rfl, rfl, rfl, rfl, rfl, rfl, id, fun _ => id, id, id, fun _ => id, id, id⟩

theorem Beside.trans {v'' : View} (first : Beside config v v') (second : Beside config v' v'') : Beside config v v'' where
  proxy := second.proxy.trans first.proxy
  responseSender := second.responseSender.trans first.responseSender
  processDone := second.processDone.trans first.processDone
  cleaned := second.cleaned.trans first.cleaned
  reuse := second.reuse.trans first.reuse
  downStream := second.downStream.trans first.downStream
  ended := second.ended.trans first.ended
  reset := second.reset ∘ first.reset
  calm ended := first.calm ended ∘ second.calm (first.ended.trans ended)
  sender := second.sender ∘ first.sender
  respTrailers := second.respTrailers ∘ first.respTrailers
  bare none_ := second.bare none_ ∘ first.bare none_
  drained := second.drained ∘ first.drained
  queued := second.queued ∘ first.queued

theorem Base.stays (base : Base config v) (beside : Beside config v v') : Base config v' where
  proxy := beside.proxy.trans base.proxy
  responseSender := beside.responseSender.trans base.responseSender
  bare none_ := beside.bare none_ (base.bare none_)
  queued := beside.queued base.queued

theorem Rest.stays (rest : Rest config v) (beside : Beside config v v') : Rest config v' where
  toBase := rest.toBase.stays beside
  done done := beside.cleaned.trans (rest.done (beside.processDone.symm.trans done))
  untrailed := rest.untrailed.imp beside.respTrailers beside.cleaned.trans

theorem Guards.stays (guards : Guards v) (beside : Beside config v v') : Guards v' :=
  guards.imp beside.reuse.trans (Or.imp beside.reset fun ⟨ended, drained⟩ =>
    ⟨beside.ended.trans ended, beside.drained drained⟩)

theorem Gone.stays (gone : Gone config v) (beside : Beside config v v') : Gone config v' where
  toBase := gone.toBase.stays beside
  cleaned := beside.cleaned.trans gone.cleaned
  guards := gone.guards.stays beside

theorem Gone.rest (gone : Gone config v) : Rest config v := ⟨gone.toBase, fun _ => gone.cleaned, .inr gone.cleaned⟩

theorem Taken.stays (taken : Taken config last v) (beside : Beside config v v') : Taken config last v' where
  toRest := taken.toRest.stays beside
  drained yes := beside.drained (taken.drained yes)

theorem Able.stays (able : Able config last v) (beside : Beside config v v') : Able config last v' where
  toTaken := able.toTaken.stays beside
  ready requested := by
    rw [beside.processDone, beside.cleaned]
    exact (able.ready (beside.downStream.symm.trans requested)).imp beside.sender (Or.imp_right (Or.imp_left beside.reset))

/-- An access of a handler leaves what a delivery relies on. -/
def Own (s t : World) : Prop := (t.arrived, t.stream.downstreamReset) = (s.arrived, s.stream.downstreamReset)

variable (config) in
/-- **What a handler relies on**, and where it gives the object back. -/
def rely : Rely World Site Status where
  may s t := Beside config (view s) (view t)
  refl s := .refl config (view s)
  trans := .trans
  holds _ := True
  lasts _ _ := trivial
  rest s := Rest config (view s)
  stays := .stays
  acts s t := t.ended = true → s.ended = false → s.up = []
  does := Own
  quits s t := (Drained (view s).toLine ∧ s.stream.downstreamReset = false ∧ s.ended = true ∧ s.down = [] ∧ s.up = []) ∧
    t = { s with toProxyBuffers := {} }
  answers s site _ := site = .newStream → s.ready = true

variable {P : World → Prop}

theorem steady (stays : ∀ {s t}, P s → Beside config (view s) (view t) → P t)
    (rests : ∀ {s}, P s → Rest config (view s)) : (rely config).Steady P :=
  ⟨stays, fun _ => trivial, rests, fun _ => rfl⟩

theorem steady_rest : (rely config).Steady fun s => Rest config (view s) := steady .stays id

theorem steady_gone : (rely config).Steady fun s => Gone config (view s) := steady .stays Gone.rest

theorem steady_taken : (rely config).Steady fun s => Taken config last (view s) := steady .stays Taken.toRest

theorem steady_able : (rely config).Steady fun s => Able config last (view s) :=
  steady .stays fun able => able.toRest

theorem ready_view (ready : w.ready = true) : Ready (view w) := by
  intro requested
  have requested : w.request.downStream = true := requested
  show w.request.requestSender = true ∨ w.stream.upstreamProcessDone = true ∨ w.stream.downstreamReset = true ∨
    w.stream.downstreamCleaned = true
  simpa [World.ready, World.done, requested, or_assoc] using ready

/-! ### Callbacks -/

section Callbacks

/-- What a callback finds until it has come to its end. -/
structure Going (e : Entry) (w : World) : Prop where
  more : e.part = true → w.arrived ≠ .whole
  spared : w.ended = true → w.spares e = true

variable (config) in
/-- **What a callback relies on**, and what it does. -/
def around (e : Entry) : Rely World Site Status where
  may s t := (Going e s → Going e t) ∧ (s.stream.downstreamReset = true → t.stream.downstreamReset = true)
  refl _ := ⟨id, id⟩
  trans first second := ⟨second.1 ∘ first.1, second.2 ∘ first.2⟩
  holds := Going e
  lasts going may := may.1 going
  rest _ := True
  stays _ _ := trivial
  acts _ _ := True
  does s t := Beside config (view s) (view t) ∧ (e.part = false → t.arrived = s.arrived)
  quits _ _ := False
  answers _ _ _ := True

variable {e : Entry}

theorem steady_going : (around config e).Steady (Going e) :=
  ⟨fun going may => may.1 going, id, fun _ => trivial, fun _ => ⟨.refl config _, fun _ => rfl⟩⟩

theorem steady_marked : (around config e).Steady fun s => Going e s ∧ s.stream.downstreamReset = true :=
  ⟨fun holds may => ⟨may.1 holds.1, may.2 holds.2⟩, And.left, fun _ => trivial, fun _ => ⟨.refl config _, fun _ => rfl⟩⟩

variable {f : World → World}

theorem access_beside {α : Type} {g : World → α}
    (beside : ∀ {s}, Going e s → Beside config (view s) (view (f s))) (own : ∀ s, Own s (f s)) :
    (around config e).Keeps (Going e) (.access g f) := by
  have arrived s := (Prod.mk.inj (own s)).1
  refine .access steady_going (fun going => ⟨beside going, fun _ => arrived _⟩) fun {s} going => ?_
  have ended : (f s).ended = s.ended := (beside going).ended
  refine ⟨fun part => (arrived s).trans_ne (going.more part), fun yes => ?_⟩
  have spared := going.spared (ended.symm.trans yes)
  unfold World.spares at spared ⊢
  rw [(Prod.mk.inj (own s)).2]
  exact spared

theorem unseen_beside {α : Type} {g : World → α} (same : ∀ s, view (f s) = view s) :
    (around config e).Keeps (Going e) (.access g f) :=
  access_beside (fun {s} _ => same s ▸ .refl config _) fun s => congrArg (fun v : View => (v.arrived, v.reset)) (same s)

/-- More of a request, where there is a pool. -/
theorem Beside.request (pool : config.hasConnPool = true) (body : Option Bytes) (trailers : Option CommonHeader) :
    Beside config v { v with body, trailers } :=
  { Beside.refl config v with bare := fun none_ => absurd (pool.symm.trans none_) (by decide) }

theorem Bare.offer {body : Option Bytes} {trailers : Option CommonHeader} {down : List Event} (bare : Bare body trailers down)
    {e : Event} (fits : e.plain = false) : Bare body trailers (down ++ [e]) where
  body := bare.body
  trailers := bare.trailers
  events e' there := (List.mem_append.mp there).elim (bare.events e') fun last => (List.mem_singleton.mp last) ▸ fits

theorem offerDown_leaves {s : World} {event : Event} {note : Arrived → Arrived} (part : e.part = true)
    (fits : config.hasConnPool = true ∨ event.plain = false) (other : event ≠ .reset)
    (whole : completes event = true → ∀ arrived, note arrived = .whole) (going : Going e s) :
    (around config e).Safe (offerDown event note) (Leaves (around config e)) false s := by
  refine Rely.safe_access going fun t may _ => ⟨⟨?_, fun no => absurd (part.symm.trans no) (by decide)⟩, fun _ => trivial⟩
  have more : (view t).arrived ≠ .whole := (may.1 going).more part
  refine { Beside.refl config (view t) with
    bare := fun none_ bare => bare.offer (fits.resolve_left (by rw [none_]; decide))
    drained := fun drained => absurd drained.arrived more
    queued := fun queued => queued.offer other more fun last => whole last _ }

theorem onDownstream_beside {s : World} {d : Delivery} (fits : config.hasConnPool = true ∨ d.bare = true)
    (going : Going (.downstream d) s) :
    (around config (.downstream d)).Safe (onDownstream d) (Leaves (around config (.downstream d))) false s := by
  cases d with
  | onReceive headers data trailers =>
    refine Rely.Keeps.andThen (unseen_beside fun _ => rfl) going fun _ t going => ?_
    have body : (around config (.downstream (.onReceive headers data trailers))).Keeps
        (Going (.downstream (.onReceive headers data trailers)))
        (.when data.isSome (.set fun w => { w with stream.downstreamReqDataBuf := data })) := by
      rcases fits with pool | bare
      · exact .when (access_beside (fun _ => Beside.request pool _ _) fun _ => rfl)
      · obtain ⟨none_, -⟩ := Bool.and_eq_true_iff.mp bare
        rw [Option.isNone_iff_eq_none.mp none_]
        exact .pure
    refine body.andThen going fun _ t going => ?_
    refine Rely.Keeps.andThen (access_beside (fun {s} _ => ?_) fun _ => rfl) going fun _ t going =>
      offerDown_leaves rfl (.inr rfl) nofun (fun _ _ => rfl) going
    rcases fits with pool | bare
    · exact Beside.request pool _ _
    · obtain ⟨-, none_⟩ := Bool.and_eq_true_iff.mp bare
      rw [Option.isNone_iff_eq_none.mp none_]
      exact { Beside.refl config (view s) with
        bare := fun _ was => ⟨was.body, rfl, was.events⟩ }
  | onReceiveHeaders headers last =>
    refine Rely.Keeps.andThen (unseen_beside fun _ => rfl) going fun _ t going => ?_
    exact offerDown_leaves rfl (.inr rfl) nofun (fun yes _ => if_pos yes) going
  | onReceiveData data last =>
    have pool : config.hasConnPool = true := fits.resolve_right Bool.false_ne_true
    refine Rely.Keeps.andThen (access_beside (fun _ => Beside.request pool _ _) fun _ => rfl) going
      fun _ t going => ?_
    exact offerDown_leaves rfl (.inl pool) nofun (fun yes _ => if_pos yes) going
  | onReceiveTrailers trailers =>
    have pool : config.hasConnPool = true := fits.resolve_right Bool.false_ne_true
    exact offerDown_leaves rfl (.inl pool) nofun (fun _ _ => rfl) going
  | onResetStream =>
    refine Rely.safe_bind.mpr (Rely.safe_access going fun t may _ => ?_)
    have going := may.1 going
    cases reset : t.stream.downstreamReset with
    | true => exact ⟨⟨.refl config _, fun _ => rfl⟩, fun _ => trivial⟩
    | false =>
      -- the reply has not ended, because it does not spare a reset that is not marked
      have open_ : t.ended = false := by
        rw [← Bool.not_eq_true]
        exact fun ended => absurd (reset.symm.trans (going.spared ended)) (by decide)
      have seen : view { t.emit .reset with stream.downstreamReset := true } = { view t with reset := true } :=
        congrArg (fun v : View => { v with reset := true }) (view_emit rfl)
      refine ⟨⟨?_, fun _ => rfl⟩, ?_⟩
      · show Beside config (view t) (view { t.emit .reset with stream.downstreamReset := true })
        rw [seen]
        exact { Beside.refl config (view t) with
          reset := fun _ => rfl
          calm := fun ended => absurd (open_.symm.trans ended) (by decide)
          drained := fun drained => ⟨drained.arrived, drained.down⟩
          queued := fun queued => ⟨fun _ => rfl, queued.whole, queued.ordered,
            fun yes => ⟨(queued.done yes).arrived, (queued.done yes).down⟩, queued.answered⟩ }
      · refine (Rely.Keeps.get steady_marked).andThen ⟨⟨nofun, fun _ => rfl⟩, rfl⟩ fun _ t marked => ?_
        refine (Rely.Keeps.when (.panic steady_marked)).andThen marked fun _ t marked => ?_
        refine Rely.safe_access marked.1 fun t may _ => ⟨⟨?_, fun _ => rfl⟩, fun _ => trivial⟩
        exact { Beside.refl config (view t) with
          bare := fun _ bare => bare.offer rfl
          drained := Drained.offerReset
          queued := fun queued => queued.offerReset (may.2 marked.2) }

variable {e : Entry}

theorem deref_beside (same : ∀ s, view (f s) = view s) : (around config e).Keeps (Going e) (Upstream.deref f) :=
  .bind (unseen_beside same) fun _ => .when (.panic steady_going)

theorem offerUp_beside {event : Event} (unspared : ∀ w : World, w.spares e = false) :
    (around config e).Keeps (Going e) (offerUp event) := by
  refine .bind (deref_beside fun _ => rfl) fun _ => .bind (.get steady_going) fun _ =>
    .bind (.when (.panic steady_going)) fun _ => access_beside (fun {s} going => ?_) fun _ => rfl
  have open_ (ended : s.ended = true) : False := absurd ((unspared s).symm.trans (going.spared ended)) (by decide)
  exact { Beside.refl config (view s) with
    drained := fun drained => ⟨drained.arrived, drained.down⟩
    queued := fun queued => ⟨queued.marked, queued.whole, queued.ordered,
      fun yes => ⟨(queued.done yes).arrived, (queued.done yes).down⟩, fun ended => (open_ ended).elim⟩ }

theorem onUpstream_beside {d : Delivery} (untrailed : d.untrailed = true) (unspared : ∀ w : World, w.spares e = false) :
    (around config e).Keeps (Going e) (onUpstream d) := by
  cases d with
  | onReceive headers data trailers =>
    obtain rfl : trailers = none := Option.isNone_iff_eq_none.mp untrailed
    refine .bind (deref_beside fun _ => rfl) fun _ => .bind (unseen_beside fun _ => rfl) fun _ =>
      .bind (.when (.bind (deref_beside fun _ => rfl) fun _ => unseen_beside fun _ => rfl)) fun _ =>
      .bind (deref_beside fun _ => rfl) fun _ =>
      .bind (access_beside (fun {s} _ => ?_) fun _ => rfl) fun _ => offerUp_beside unspared
    exact { Beside.refl config (view s) with respTrailers := fun _ => rfl }
  | onReceiveHeaders headers last => exact .bind (deref_beside fun _ => rfl) fun _ => offerUp_beside unspared
  | onReceiveData data last =>
    exact .bind (deref_beside fun _ => rfl) fun _ => .bind (unseen_beside fun _ => rfl) fun _ => offerUp_beside unspared
  | onReceiveTrailers trailers => exact .bind (deref_beside fun _ => rfl) fun _ => offerUp_beside unspared
  | onResetStream => exact .bind (deref_beside fun _ => rfl) fun _ => offerUp_beside unspared

theorem onReady_beside : (around config e).Keeps (Going e) onReady := by
  have reads {α : Type} {g : World → α} : (around config e).Keeps (Going e) (.get g) := .get steady_going
  refine .bind (access_beside (fun {s} _ => ?_) fun _ => rfl) fun _ => .bind reads fun _ =>
    .bind reads fun _ => .bind reads fun _ => .bind reads fun _ => .bind (.when (.panic steady_going)) fun _ =>
    .bind (deref_beside fun _ => rfl) fun _ => .bind reads fun _ => .bind (.ask steady_going) fun _ => .pure
  exact { Beside.refl config (view s) with sender := fun _ => rfl }

end Callbacks

end Pooled

end Strike.Proxy
