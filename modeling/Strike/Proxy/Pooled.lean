/-
**The pooled object of a stream is left alone** (`giveStream`, `buffer.go`).

`giveStream` comes deep inside calls whose callers go on, and other handlers may be in progress, or events
queued, that have the object too. Two guards keep it from them: an object is not reused if the reply ends
before the request has been handled, and it is not given back if the stream is reset.

* `handleDown_leaves`, `handleUp_leaves`, `onHandler_leaves`: a handler makes no access behind `giveStream`,
  and comes to it only where no callback is in progress and no event is queued (`giveStream_leaves`).
* `recycled_untouched`: in a run of careful turns no object is touched that was given back.
* `touched_in_pool`: a response that overtakes its request, and a filter that replies inside its call.
-/

import Strike.Proxy.Callbacks

namespace Strike.Proxy

open Strike.Lib Reactor

namespace Pooled

variable {w : World} {e : Effect} {config : Config} {last : Bool} {v v' : View} {P : World → Prop}

/-! ### The end of a stream -/

section

open Prog (get set access ask giveBack when)
open Rely

variable {s : World}

variable (config) in
/-- The program comes to its end, with or without the object. -/
abbrev Leave (p : Program Unit) (s : World) : Prop := (rely config).Safe p (Leaves (rely config)) false s

variable (config) in
/-- The program keeps the object, and what is said of it. -/
abbrev Keep {α : Type} (P : View → Prop) (p : Program α) : Prop := (rely config).Keeps (fun s => P (view s)) p

theorem safe_get {α : Type} {g : World → α} {post : α → Bool → World → Prop}
    (each : ∀ t, Beside config (view s) (view t) → post (g t) false t) : (rely config).Safe (get g) post false s :=
  safe_access trivial fun t may _ => ⟨rfl, each t may⟩

theorem safe_set {f : World → World} {post : Unit → Bool → World → Prop} (own : ∀ t, Own t (f t))
    (each : ∀ t, Beside config (view s) (view t) → post () false (f t)) : (rely config).Safe (set f) post false s :=
  safe_access trivial fun t may _ => ⟨own t, each t may⟩

theorem noted {P : View → Prop} (mid : e.ends = false) (holds : P (view w)) : P (view (w.emit e)) :=
  (view_emit mid).symm ▸ holds

/-- A stream that is cleaned is not given back. -/
theorem cleanStream_cleaned (steady : (rely config).Steady P) (holds : P s)
    (cleaned : s.stream.downstreamCleaned = true) :
    (rely config).Safe cleanStream (fun _ given t => given = false ∧ P t) false s := by
  refine safe_bind.mpr (safe_access trivial fun t may _ => ?_)
  have still : t.stream.downstreamCleaned = true := may.cleaned.trans cleaned
  rw [if_pos still, still]
  exact ⟨rfl, rfl, steady.stays holds may⟩

/-- A cleaned stream whose guards let the object go. -/
structure Idle (config : Config) (v : View) : Prop extends Gone config v where
  ended : v.ended = true
  drained : Drained v.toLine
  unmarked : v.reset = false

theorem Idle.stays (idle : Idle config v) (beside : Beside config v v') : Idle config v' where
  toGone := idle.toGone.stays beside
  ended := beside.ended.trans idle.ended
  drained := beside.drained idle.drained
  unmarked := by
    rw [← Bool.not_eq_true]
    exact fun reset => absurd (idle.unmarked.symm.trans (beside.calm idle.ended reset)) (by decide)

/-- **The object is given back only where nothing else can have it.** With `reuseBuffer` the request had been
handled when the reply ended, and the second guard finds no reset. -/
theorem giveStream_leaves (gone : Gone config (view s)) : Leave config giveStream s := by
  have steady : (rely config).Steady fun s => Idle config (view s) := steady .stays fun idle => idle.rest
  refine safe_bind.mpr (safe_get fun t may => ?_)
  have gone := gone.stays may
  cases reuse : t.stream.reuseBuffer with
  | false => exact fun _ => gone.rest
  | true =>
    have guards := gone.guards.resolve_left (by rw [show (view t).reuse = true from reuse]; decide)
    refine safe_bind.mpr (safe_get fun t' may => ?_)
    have gone := gone.stays may
    cases reset : t'.stream.downstreamReset with
    | true => exact fun _ => gone.rest
    | false =>
      have unmarked : (view t').reset = false := reset
      obtain ⟨ended, drained⟩ := guards.resolve_left fun marked =>
        absurd (unmarked.symm.trans (may.reset marked)) (by decide)
      have idle : Idle config (view t') := ⟨gone, may.ended.trans ended, may.drained drained, unmarked⟩
      refine (Keeps.get steady).andThen idle fun _ t idle => (Keeps.get steady).andThen idle fun context t idle => ?_
      cases context with
      | false => exact fun _ => idle.rest
      | true =>
        refine safe_giveBack trivial fun t may => ⟨⟨?_, rfl⟩, nofun⟩
        have idle := idle.stays may
        exact ⟨idle.drained, idle.unmarked, idle.ended,
          idle.queued.empty idle.drained idle.unmarked idle.ended⟩

theorem resetStream_keeps (steady : (rely config).Steady P)
    (kept : ∀ {w}, P w → P (w.emit .resetUpstream)) : (rely config).Keeps P Upstream.resetStream :=
  .bind (.get steady) fun _ => .when (.set steady (fun _ => rfl) kept)

theorem release_leaves (gone : Gone config (view s)) : Leave config release s := by
  have steady : (rely config).Steady fun s => Gone config (view s) := steady_gone
  have resets : Keep config (Gone config) (do
      set fun w => { w with stream.upstreamProcessDone := true }
      Upstream.resetStream : Program Unit) :=
    .bind (.set steady (fun _ => rfl) fun gone => ⟨⟨gone.proxy, gone.responseSender, gone.bare, gone.queued⟩,
      gone.cleaned, gone.guards⟩) fun _ => resetStream_keeps steady (noted rfl)
  have unset : Keep config (Gone config) cleanUp :=
    .bind (.get steady) fun _ => .when (.set steady (fun _ => rfl) fun gone =>
      ⟨⟨gone.proxy, gone.responseSender, gone.bare, gone.queued⟩, gone.cleaned, gone.guards⟩)
  refine (Keeps.get steady).andThen gone fun request t gone => ?_
  refine (Keeps.when (.bind (.get steady) fun _ => .when resets)).andThen gone fun _ t gone => ?_
  refine unset.andThen gone fun _ t gone => (Keeps.get steady).andThen gone fun _ t gone =>
    (Keeps.get steady).andThen gone fun _ t gone => ?_
  exact giveStream_leaves gone

theorem cleanStream_leaves (base : Base config (view s)) (guards : Guards (view s)) :
    Leave config cleanStream s := by
  refine safe_bind.mpr (safe_access trivial fun t may _ => ?_)
  have base := base.stays may
  cases cleaned : t.stream.downstreamCleaned with
  | true => exact ⟨rfl, fun _ => ⟨base, fun _ => cleaned, .inr cleaned⟩⟩
  | false =>
    have base : Base config (view (t.emit .cleaned)) := noted rfl base
    have guards : Guards (view (t.emit .cleaned)) := noted rfl (guards.stays may)
    exact ⟨rfl, release_leaves ⟨⟨base.proxy, base.responseSender, base.bare, base.queued⟩, rfl, guards⟩⟩

/-- **The end of a reply.** The object is reused only if all of the request has been handled. -/
theorem endStream_leaves (base : Base config (view s)) (ended : (view s).ended = true) :
    Leave config endStream s := by
  refine safe_bind.mpr (safe_get fun t may => ?_)
  have base := base.stays may
  rw [show t.stream.responseSender = true from base.responseSender]
  refine safe_bind.mpr (safe_bind.mpr (safe_get fun t' may' => ?_))
  have base := base.stays may'
  cases done : t'.stream.downstreamRecvDone with
  | true =>
    have ended : (view t').ended = true := (may.trans may').ended.trans ended
    exact cleanStream_leaves base (.inr (.inr ⟨ended, base.queued.done done⟩))
  | false =>
    refine safe_set (fun _ => rfl) fun t may => ?_
    have base := base.stays may
    exact cleanStream_leaves ⟨base.proxy, base.responseSender, base.bare, base.queued⟩ (.inl rfl)

/-! ### Replies -/

/-- The response sender is there, and no event of the response is left behind the end of the reply. -/
theorem send_safe {post : Unit → Bool → World → Prop} (base : Base config (view s))
    (each : ∀ t, Beside config (view s) (view t) → Base config (view (t.emit e)) → post () false (t.emit e)) :
    (rely config).Safe (send e) post false s := by
  refine safe_bind.mpr (safe_access trivial fun t may acts => ?_)
  have base := base.stays may
  have there : t.stream.responseSender = true := base.responseSender
  rw [if_pos there] at acts
  rw [if_pos there, there]
  refine ⟨rfl, each t may ⟨base.proxy, base.responseSender, base.bare, ?_⟩⟩
  refine ⟨base.queued.marked, base.queued.whole, base.queued.ordered,
    fun yes => ⟨(base.queued.done yes).arrived, (base.queued.done yes).down⟩, fun ended => ?_⟩
  cases before : t.ended with
  | true => exact base.queued.answered before
  | false => exact acts ended before

theorem last_leaves (last : e.ends = true) (base : Base config (view s)) :
    Leave config (do send e; endStream) s := by
  refine safe_bind.mpr (send_safe base fun t _ base => endStream_leaves base ?_)
  show (t.trace ++ [e]).any Effect.ends = true
  rw [List.any_append, List.any_cons, last, Bool.true_or, Bool.or_true]

theorem send_keeps (mid : e.ends = false) : Keep config (Rest config) (send e) :=
  fun _ rest => send_safe rest.toBase fun _ may _ => ⟨rfl, noted mid (rest.stays may)⟩

variable {headers trailers : Option CommonHeader} {data : Option Bytes}

theorem Base.set_done (base : Base config (view w)) :
    Base config (view { w with stream.upstreamProcessDone := last }) :=
  ⟨base.proxy, base.responseSender, base.bare, base.queued⟩

/-- The last part of a reply, with `upstreamProcessDone` before it. -/
theorem done_leaves (last : e.ends = true) (base : Base config (view s)) : Leave config (do
      set fun w => { w with stream.upstreamProcessDone := true }
      send e
      endStream) s :=
  safe_bind.mpr (safe_set (fun _ => rfl) fun _ may => last_leaves last (base.stays may).set_done)

theorem set_notDone_keeps : Keep config (Rest config)
    (set fun w => { w with stream.upstreamProcessDone := false }) :=
  .set steady_rest (fun _ => rfl) fun rest => ⟨rest.toBase.set_done, nofun, rest.untrailed⟩

theorem appendHeaders_keeps : Keep config (Rest config) (appendHeaders headers false) :=
  .bind set_notDone_keeps fun _ => .bind (send_keeps rfl) fun _ => .pure

theorem appendData_keeps : Keep config (Rest config) (appendData data false) :=
  .bind set_notDone_keeps fun _ => .bind (send_keeps rfl) fun _ => .pure

/-! ### The events of the response -/

theorem deref_keeps (steady : (rely config).Steady P) {f : World → World}
    (own : ∀ s, Own s (f s)) (kept : ∀ {w}, P w → P (f w)) : (rely config).Keeps P (Upstream.deref f) :=
  .bind (.access steady (fun _ => own _) kept) fun _ => .when (.panic steady)

theorem derefs : Keep config (Rest config) (Upstream.deref id) := deref_keeps steady_rest (fun _ => rfl) id

theorem upstreamRequest_keeps (steady : (rely config).Steady P) :
    (rely config).Keeps P upstreamRequest := .bind (.get steady) fun _ => .when (.panic steady)

theorem finished_keeps : Keep config (Rest config) onUpstreamResponseRecvFinished := by
  have steady : (rely config).Steady fun s => Rest config (view s) := steady_rest
  refine .bind (.get steady) fun _ => .bind (.when (.bind (upstreamRequest_keeps steady) fun _ =>
    resetStream_keeps steady (noted rfl))) fun _ => .bind (.get steady) fun _ =>
    .when (.set steady (fun _ => rfl) fun rest => ?_)
  exact ⟨⟨rest.proxy, rest.responseSender, rest.bare, rest.queued⟩, rest.done, rest.untrailed⟩

theorem onUpstreamHeaders_leaves (rest : Rest config (view s)) : (rely config).Safe (onUpstreamHeaders headers last)
      (fun _ given t => (last = false → given = false) ∧ Leaves (rely config) () given t) false s := by
  refine safe_bind.mpr (safe_set (fun _ => rfl) fun t may => safe_bind.mpr
    (safe_set (fun _ => rfl) fun t' may' => ?_))
  have rest : Rest config (view t') := (rest.stays may).stays may'
  cases last with
  | false =>
    refine Keeps.pure.andThen rest fun _ t rest => safe_mono ?_ (appendHeaders_keeps t rest)
    rintro _ given t ⟨rfl, rest⟩
    exact ⟨fun _ => rfl, fun _ => rest⟩
  | true =>
    refine finished_keeps.andThen rest fun _ t rest => safe_mono ?_ (done_leaves rfl rest.toBase)
    exact fun _ given t leaves => ⟨nofun, leaves⟩

theorem onUpstreamData_leaves (rest : Rest config (view s)) : Leave config (onUpstreamData data last) s := by
  cases last with
  | false =>
    refine Keeps.pure.andThen rest fun _ t rest => safe_mono ?_ (appendData_keeps t rest)
    rintro _ given t ⟨rfl, rest⟩
    exact fun _ => rest
  | true => exact finished_keeps.andThen rest fun _ t rest => done_leaves rfl rest.toBase

theorem onUpstreamTrailers_leaves (rest : Rest config (view s)) : Leave config (onUpstreamTrailers trailers) s :=
  finished_keeps.andThen rest fun _ _ rest => done_leaves rfl rest.toBase

theorem processDone_keeps (steady : (rely config).Steady P) : (rely config).Keeps P processDone := by
  refine .bind (.get steady) fun done => ?_
  cases done with
  | true => exact .pure
  | false =>
    refine .bind (.get steady) fun reset => ?_
    cases reset with
    | true => exact .pure
    | false => exact .get steady

/-- A part of a response is handled while the stream goes on. -/
theorem guarded_leaves {p : Program Unit} (leaves : ∀ {t}, Rest config (view t) → Leave config p t)
    (rest : Rest config (view s)) : Leave config (do
      Upstream.deref id
      if ← processDone then return
      p) s := by
  refine derefs.andThen rest fun _ t rest =>
    (processDone_keeps steady_rest).andThen rest fun done t rest => ?_
  cases done with
  | true => exact fun _ => rest
  | false => exact leaves rest

theorem upstreamReceiveData_leaves (rest : Rest config (view s)) :
    Leave config (Upstream.receiveData data last) s := guarded_leaves onUpstreamData_leaves rest

/-- A response that is not cleaned away has no trailers. -/
structure Untrailed (config : Config) (v : View) : Prop extends Rest config v where
  none_ : v.respTrailers = none

theorem steady_untrailed : (rely config).Steady fun s => Untrailed config (view s) :=
  steady (fun untrailed may => ⟨untrailed.toRest.stays may, may.respTrailers untrailed.none_⟩) Untrailed.toRest

/-- `processDone` reads three flags. A reset may come behind its read, and the other two stay. -/
theorem processDone_open {post : Bool → Bool → World → Prop}
    (done : ∀ t, Beside config (view s) (view t) → Ready (view t) → post true false t)
    (going : ∀ t u, Beside config (view s) (view t) → (view t).processDone = false → (view t).reset = false →
      (view t).cleaned = false → Beside config (view t) (view u) → post false false u) :
    (rely config).Safe processDone post false s := by
  refine safe_bind.mpr (safe_get fun t may₁ => ?_)
  cases first : t.stream.upstreamProcessDone with
  | true => exact done t may₁ fun _ => .inr (.inl first)
  | false =>
    refine safe_bind.mpr (safe_get fun t may₂ => ?_)
    cases second : t.stream.downstreamReset with
    | true => exact done t (may₁.trans may₂) fun _ => .inr (.inr (.inl second))
    | false =>
      refine safe_get fun u may₃ => ?_
      cases third : u.stream.downstreamCleaned with
      | true => exact done u ((may₁.trans may₂).trans may₃) fun _ => .inr (.inr (.inr third))
      | false => exact going t u (may₁.trans may₂) (may₂.processDone.trans first) second (may₃.cleaned.symm.trans third) may₃

theorem upstreamReceive_leaves (rest : Rest config (view s)) : Leave config Upstream.receive s := by
  refine derefs.andThen rest fun _ t rest => safe_bind.mpr ?_
  refine processDone_open (fun t may _ _ => rest.stays may) fun t u may _ _ uncleaned later => ?_
  have rest := rest.stays may
  have untrailed : Untrailed config (view u) := steady_untrailed.stays
    (s := t) ⟨rest, rest.untrailed.resolve_right (by rw [uncleaned]; decide)⟩ later
  refine (Keeps.get steady_untrailed).andThen untrailed fun hasBody t untrailed => ?_
  refine safe_bind.mpr (safe_get fun t' may => ?_)
  have untrailed : Untrailed config (view t') := steady_untrailed.stays untrailed may
  have none_ : t'.stream.downstreamRespTrailers.isSome = false := by
    rw [show t'.stream.downstreamRespTrailers = none from untrailed.none_]
    rfl
  rw [none_]
  refine (Keeps.get steady_rest).andThen untrailed.toRest fun headers t rest => ?_
  refine (safe_bind.mpr (derefs.andThen rest fun _ t rest => ?_))
  refine safe_mono ?_ (onUpstreamHeaders_leaves rest)
  rintro _ given t ⟨going, leaves⟩
  cases hasBody with
  | false => exact leaves
  | true =>
    obtain rfl := going rfl
    refine safe_bind.mpr (derefs.andThen (leaves rfl) fun _ t rest => ?_)
    exact (Keeps.get steady_rest).andThen rest fun data t rest => upstreamReceiveData_leaves rest

/-- **Behind the end of a response nothing is done.** -/
theorem handleUp_leaves (e : Event) (rest : Rest config (view s)) : Leave config (Upstream.handleUp e) s := by
  cases e with
  | recv => exact upstreamReceive_leaves rest
  | recvHeader headers last =>
    refine derefs.andThen rest fun _ t rest => safe_mono ?_ (onUpstreamHeaders_leaves rest)
    exact fun _ given t leaves => leaves.2
  | recvData last =>
    refine derefs.andThen rest fun _ t rest =>
      (Keeps.get steady_rest).andThen rest fun data t rest => upstreamReceiveData_leaves rest
  | recvTrailer trailers => exact guarded_leaves onUpstreamTrailers_leaves rest
  | reset =>
    refine safe_set (fun _ => rfl) fun t may _ => ?_
    have rest := rest.stays may
    exact ⟨⟨rest.proxy, rest.responseSender, rest.bare, rest.queued⟩, rest.done, rest.untrailed⟩

/-! ### The events of the request -/

variable {done : Bool}

/-- A stream with a request sender. -/
structure Sending (config : Config) (done : Bool) (v : View) : Prop extends Able config done v where
  sender : v.sender = true

/-- More of a request is handed on only with a request sender. -/
theorem processDone_sending {post : Bool → Bool → World → Prop} (able : Able config done (view s))
    (requested : (view s).downStream = true) (ended : ∀ t, Able config done (view t) → post true false t)
    (going : ∀ t, Sending config done (view t) → post false false t) : (rely config).Safe processDone post false s := by
  refine processDone_open (fun t may _ => ended t (able.stays may)) fun t u may running quiet uncleaned later => ?_
  have able := able.stays may
  refine going u ⟨able.stays later, later.sender ?_⟩
  have ready := able.ready (may.downStream.trans requested)
  rw [running, quiet, uncleaned] at ready
  simpa using ready

/-- **The pool is asked.** What comes back finds a request sender, or a stream that is done. -/
theorem upstreamAppendHeaders_able (taken : Taken config done (view s)) :
    (rely config).Safe (Upstream.appendHeaders last) (fun _ given t => given = false ∧ Able config done (view t)) false s := by
  have handed : Keep config (Taken config done) (Upstream.deref (·.emit (.handed .headers))) :=
    deref_keeps steady_taken (fun _ => rfl) (noted rfl)
  refine handed.andThen taken fun _ t taken => safe_bind.mpr ?_
  refine processDone_open (fun t may ready => ⟨rfl, taken.stays may, ready⟩) fun _ t may _ _ _ later => ?_
  refine safe_bind.mpr (safe_set (fun _ => rfl) fun t₁ may₁ => safe_bind.mpr (safe_access trivial fun t₂ may₂ _ => ?_))
  have taken : Taken config done (view t₂) := (((taken.stays may).stays later).stays may₁).stays may₂
  refine ⟨rfl, (Keeps.when (.panic steady_taken)).andThen taken fun _ t taken => ?_⟩
  exact ⟨rfl, trivial, taken.toRest, fun t _ may ready => ⟨rfl, taken.stays may, ready_view (ready rfl)⟩⟩

theorem upstreamAppendData_keeps : Keep config (Able config done) (Upstream.appendData data last) := by
  intro s able
  refine safe_bind.mpr (safe_bind.mpr (safe_access trivial fun t may _ => ⟨rfl, ?_⟩))
  have able : Able config done (view (t.emit (.handed .data))) := noted rfl (able.stays may)
  cases requested : t.request.downStream with
  | false => exact fun _ => able.toRest
  | true =>
    refine safe_bind.mpr (processDone_sending able requested (fun t able => ⟨rfl, able⟩) fun t sending => ?_)
    refine safe_bind.mpr (safe_set (fun _ => rfl) fun t₁ may₁ => safe_bind.mpr
      (safe_set (fun _ => rfl) fun t₂ may₂ => safe_bind.mpr (safe_get fun t₃ may₃ => ?_)))
    have may : Beside config (view t) (view t₃) := (may₁.trans may₂).trans may₃
    rw [show t₃.request.requestSender = true from may.sender sending.sender]
    exact Keeps.bind (.get steady_able) (fun _ => .bind (.when (.panic steady_able)) fun _ =>
      .bind (.ask steady_able) fun _ => .pure) t₃ (sending.toAble.stays may)

theorem upstreamAppendTrailers_keeps : Keep config (Able config done) (Upstream.appendTrailers trailers) := by
  have steady : (rely config).Steady fun s => Able config done (view s) := steady_able
  refine .bind (deref_keeps steady (fun _ => rfl) (noted rfl)) fun _ => .bind (processDone_keeps steady) fun done => ?_
  cases done with
  | true => exact .pure
  | false =>
    exact .bind (.set steady (fun _ => rfl) id) fun _ => .bind (.set steady (fun _ => rfl) id) fun _ =>
      .bind (.get steady) fun _ => .bind (.when (.panic steady)) fun _ => .bind (.ask steady) fun _ => .pure

theorem onUpstreamRequestSent_keeps : Keep config (Able config done) onUpstreamRequestSent :=
  .set steady_able (fun _ => rfl) id

theorem setFilter_keeps {index : Nat} {f : ActiveStreamFilter → ActiveStreamFilter} :
    Keep config (Able config done) (setFilter index f) :=
  .set steady_able (fun _ => rfl) id

theorem callFilter_keeps {index : Nat} {part : Part} {stage : UInt64} {site : Site} :
    Keep config (Able config done) (callFilter index part stage site) := by
  have notes {e : Effect} (mid : e.ends = false) (f : UInt64 → UInt64) :
      Keep config (Able config done)
        (set fun w => { w.emit e with stream.filterStage := f w.stream.filterStage }) :=
    .set steady_able (fun _ => rfl) fun {w} able =>
      (noted mid able : Able config done (view (w.emit e)))
  exact .bind (notes rfl (· ||| stage)) fun _ => .bind (.ask steady_able) fun _ =>
    .bind (notes rfl (· &&& ~~~stage)) fun _ => .pure

variable {left index : Nat}

theorem runReceiveHeadersFilters_keeps :
    Keep config (Able config done) (runReceiveHeadersFilters headers last left index) := by
  induction left generalizing index with
  | zero => exact .bind (.get steady_able) fun _ => .pure
  | succ left ih =>
    refine .bind (.get steady_able) fun more => ?_
    cases more with
    | false => exact .pure
    | true =>
      refine .bind callFilter_keeps fun status => ?_
      cases status with
      | stop => exact .bind (.bind setFilter_keeps fun _ => .pure) fun _ => .ite .pure ih
      | continue_ => exact .bind (.bind setFilter_keeps fun _ => .pure) fun _ => .ite .pure ih

theorem requestUpstream_able (able : Able config done (view s)) :
    (rely config).Safe (requestUpstream last) (fun _ given t => given = false ∧ Able config done (view t)) false s := by
  have steady : (rely config).Steady fun s => Taken config done (view s) := steady_taken
  have linked : Keep config (Taken config done)
      (set fun w => { w with request.downStream := true }) :=
    .set steady (fun _ => rfl) fun taken =>
      ⟨⟨⟨taken.proxy, taken.responseSender, taken.bare, taken.queued⟩, taken.done, taken.untrailed⟩, taken.drained⟩
  refine Keeps.andThen (.set steady (fun _ => rfl) id) able.toTaken fun _ t taken => linked.andThen taken
    fun _ t taken => Keeps.andThen (.set steady (fun _ => rfl) id) taken fun _ t taken =>
    (upstreamRequest_keeps steady).andThen taken fun _ t taken =>
    safe_bind.mpr (safe_mono ?_ (upstreamAppendHeaders_able taken))
  rintro _ given t ⟨rfl, able⟩
  exact Keeps.when onUpstreamRequestSent_keeps t able

/-- Behind the filters, the headers are handed on where there is a pool, and answered where there is none. -/
theorem doReceiveHeaders_safe {post : Unit → Bool → World → Prop} (able : Able config done (view s))
    (stopped : ∀ t, Able config done (view t) → post () false t)
    (requested : config.hasConnPool = true → ∀ t, Able config done (view t) → post () false t)
    (answered : config.hasConnPool = false → ∀ headers t, Able config done (view t) →
      (rely config).Safe (sendHijackReply noHealthUpstreamCode headers) post false t) :
    (rely config).Safe (doReceiveHeaders left index headers last) post false s := by
  refine runReceiveHeadersFilters_keeps.andThen able fun held t able => ?_
  cases held with
  | true => exact stopped t able
  | false =>
    refine safe_bind.mpr (safe_get fun t may => ?_)
    have able := able.stays may
    rw [show t.stream.proxy = some config from able.proxy]
    show (rely config).Safe (if (!config.hasConnPool) = true then _ else _) _ _ _
    cases pool : config.hasConnPool with
    | false => exact (Keeps.get steady_able).andThen able fun headers t able => answered pool headers t able
    | true =>
      refine safe_mono ?_ (requestUpstream_able able)
      rintro _ given t ⟨rfl, able⟩
      exact requested pool t able

theorem doReceiveHeaders_keeps (pool : config.hasConnPool = true) :
    Keep config (Able config done) (doReceiveHeaders left index headers last) :=
  fun _ able => doReceiveHeaders_safe able (fun _ able => ⟨rfl, able⟩) (fun _ _ able => ⟨rfl, able⟩)
    fun none_ => absurd (pool.symm.trans none_) (by decide)

/-- Without a pool the headers are answered, and nothing comes behind that. -/
theorem doReceiveHeaders_leaves (able : Able config done (view s)) :
    Leave config (doReceiveHeaders left index headers last) s :=
  doReceiveHeaders_safe able (fun _ able _ => able.toRest) (fun _ _ able _ => able.toRest)
    fun _ _ _ able => done_leaves rfl able.toBase

/-- Behind a part of the request: a stream that is done is cleaned already. -/
theorem cleanDone_keeps : Keep config (Able config done)
    (do when (← get (·.stream.upstreamProcessDone)) cleanStream : Program Unit) := by
  intro s able
  refine safe_bind.mpr (safe_get fun t may => ?_)
  have able := able.stays may
  cases finished : t.stream.upstreamProcessDone with
  | false => exact ⟨rfl, able⟩
  | true => exact cleanStream_cleaned steady_able able (able.done finished)

theorem doReceiveData_keeps : Keep config (Able config done) (doReceiveData data last) :=
  .bind (.when onUpstreamRequestSent_keeps) fun _ => .bind (upstreamRequest_keeps steady_able) fun _ =>
    .bind upstreamAppendData_keeps fun _ => cleanDone_keeps

/-- `downstreamRecvDone` is set with the last part of the request. -/
theorem recvDone_keeps (within : last = true → done = true) :
    Keep config (Able config done) (set fun w => { w with stream.downstreamRecvDone := last }) := by
  refine .set steady_able (fun _ => rfl) fun able => ?_
  have drained (yes : done = true) := able.drained yes
  refine ⟨⟨⟨⟨able.proxy, able.responseSender, able.bare, able.queued.marked, able.queued.whole, able.queued.ordered,
    fun yes => ?_, able.queued.answered⟩, able.done, able.untrailed⟩, fun yes => ?_⟩, able.ready⟩
  · exact ⟨(drained (within yes)).arrived, (drained (within yes)).down⟩
  · exact ⟨(drained yes).arrived, (drained yes).down⟩

theorem receiveData_keeps (within : last = true → done = true) :
    Keep config (Able config done) (receiveData data last) := by
  refine .bind (processDone_keeps steady_able) fun finished => ?_
  cases finished with
  | true => exact .pure
  | false => exact .bind (recvDone_keeps within) fun _ => doReceiveData_keeps

section Pool

variable (pool : config.hasConnPool = true)
include pool

theorem doReceiveTrailers_keeps {filters : Option CommonHeader → Program Bool}
    (filtered : ∀ trailers, Keep config (Able config done) (filters trailers)) :
    Keep config (Able config done) (doReceiveTrailers filters trailers) := by
  refine .bind (filtered trailers) fun stopped => ?_
  cases stopped with
  | true => exact .pure
  | false =>
    refine .bind (.set steady_able (fun _ => rfl) fun able =>
      able.stays (Beside.request pool _ trailers)) fun _ => ?_
    exact .bind onUpstreamRequestSent_keeps fun _ => .bind (upstreamRequest_keeps steady_able) fun _ =>
      .bind upstreamAppendTrailers_keeps fun _ => cleanDone_keeps

theorem continueHeaders_keeps {hasBuffedData hasTrailer : Bool} :
    Keep config (Able config done) (continueHeaders left index hasBuffedData hasTrailer) :=
  .bind (.get steady_able) fun _ => .when (.bind setFilter_keeps fun _ => .bind (.get steady_able) fun _ =>
    .bind (.get steady_able) fun _ => doReceiveHeaders_keeps pool)

theorem continueData_keeps {index : Nat} {hasBuffedData hasTrailer : Bool} :
    Keep config (Able config done) (continueData index hasBuffedData hasTrailer) := by
  refine .bind (.get steady_able) fun _ => .when (.bind (.set steady_able (fun _ => ?_) fun able => ?_) fun _ =>
    .bind (.get steady_able) fun _ => .bind (.get steady_able) fun _ => doReceiveData_keeps)
  · split
    · rfl
    · rfl
  · split
    · exact able.stays (Beside.request pool (some []) _)
    · exact able

theorem doContinue_keeps {filters : Option CommonHeader → Program Bool}
    (filtered : ∀ trailers, Keep config (Able config done) (filters trailers)) :
    Keep config (Able config done) (doContinue left index filters) := by
  refine .bind (.access steady_able (fun _ => rfl) (noted rfl)) fun finished => ?_
  cases finished with
  | true => exact .pure
  | false =>
    exact .bind setFilter_keeps fun _ => .bind (.get steady_able) fun _ => .bind (.get steady_able) fun _ =>
      .bind (continueHeaders_keeps pool) fun _ => .bind (continueData_keeps pool) fun _ =>
      .when (.bind (.get steady_able) fun _ => doReceiveTrailers_keeps pool filtered)

/-- The filters over the trailers; the filter that stopped may continue among them. -/
theorem trailersLoop_keeps : Keep config (Able config done) (trailersLoop left index trailers) := by
  induction left generalizing index trailers with
  | zero => exact .bind (.get steady_able) fun _ => .pure
  | succ left ih =>
    refine .bind (.get steady_able) fun more => ?_
    cases more with
    | false => exact .pure
    | true =>
      refine .bind callFilter_keeps fun status => .bind ?_ fun stopped => .ite .pure ih
      cases status with
      | stop => exact .pure
      | continue_ =>
        refine .bind (.get steady_able) fun stopped => .ite (.bind ?_ fun _ => .pure) .pure
        exact doContinue_keeps pool fun trailers => .bind (.get steady_able) fun _ => .ite .pure ih

theorem runReceiveTrailersFilters_keeps :
    Keep config (Able config done) (runReceiveTrailersFilters left index trailers) :=
  .bind (.get steady_able) fun _ => .ite .pure (trailersLoop_keeps pool)

theorem receiveTrailers_keeps {n : Nat} (last : done = true) :
    Keep config (Able config done) (receiveTrailers n trailers) := by
  refine .bind (processDone_keeps steady_able) fun finished => .ite .pure ?_
  exact .bind (recvDone_keeps fun _ => last) fun _ => doReceiveTrailers_keeps pool fun _ => runReceiveTrailersFilters_keeps pool

theorem receive_keeps {n : Nat} : Keep config (Able config true) (receive n) := by
  refine .bind (.get steady_able) fun hasBody => .bind (.get steady_able) fun hasTrailer =>
    .bind (.get steady_able) fun headers =>
    .bind (.bind (recvDone_keeps fun _ => rfl) fun _ => doReceiveHeaders_keeps pool) fun _ =>
    .bind (.when (.bind (.get steady_able) fun data => receiveData_keeps fun _ => rfl)) fun _ => ?_
  exact .when (.bind (.get steady_able) fun trailers => receiveTrailers_keeps pool rfl)

end Pool

theorem receiveHeaders_leaves {n : Nat} (within : last = true → done = true) (able : Able config done (view s)) :
    Leave config (receiveHeaders n headers last) s :=
  (recvDone_keeps within).andThen able fun _ _ able => doReceiveHeaders_leaves able

theorem receive_leaves {n : Nat} (able : Able config true (view s)) : Leave config (receive n) s := by
  cases pool : config.hasConnPool with
  | true => exact leaves_of_keeps steady_able (receive_keeps pool) able
  | false =>
    refine safe_bind.mpr (safe_get fun t may => ?_)
    have able := able.stays may
    rw [show t.stream.downstreamReqDataBuf = none from (able.bare pool).body]
    refine safe_bind.mpr (safe_get fun t may => ?_)
    have able := able.stays may
    rw [show t.stream.downstreamReqTrailers = none from (able.bare pool).trailers]
    refine (Keeps.get steady_able).andThen able fun headers t able => safe_bind.mpr ?_
    exact receiveHeaders_leaves (fun _ => rfl) able

/-- **Behind the end of a request nothing is done.** -/
theorem handleDown_leaves (n : Nat) (e : Event) (able : Able config (completes e) (view s))
    (fits : config.hasConnPool = false → e.plain = false) (marked : e = .reset → (view s).reset = true) :
    Leave config (handleDown n e) s := by
  have pool (plain : e.plain = true) : config.hasConnPool = true := by
    rw [← Bool.not_eq_false]
    exact fun none_ => absurd (plain.symm.trans (fits none_)) (by decide)
  cases e with
  | recv => exact receive_leaves able
  | recvHeader headers last => exact receiveHeaders_leaves id able
  | recvData last =>
    exact (Keeps.get steady_able).andThen able fun data t able =>
      leaves_of_keeps steady_able (receiveData_keeps id) able
  | recvTrailer trailers => exact leaves_of_keeps steady_able (receiveTrailers_keeps (pool rfl) rfl) able
  | reset => exact cleanStream_leaves able.toBase (.inr (.inl (marked rfl)))

/-- **Behind a reply of a filter nothing is done.** -/
theorem onHandler_leaves (n index : Nat) (call : HandlerCall) (rest : Rest config (view s))
    (fits : call = .continueReceiving → config.hasConnPool = true ∧ s.ready = true) :
    Leave config (onHandler n index call) s := by
  cases call with
  | continueReceiving =>
    obtain ⟨pool, ready⟩ := fits rfl
    exact leaves_of_keeps steady_able (doContinue_keeps pool fun _ => runReceiveTrailersFilters_keeps pool)
      (⟨⟨rest, nofun⟩, ready_view ready⟩ : Able config false (view s))
  | appendHeaders headers last =>
    refine safe_bind.mpr (safe_set (fun _ => rfl) fun t may => ?_)
    have rest := rest.stays may
    cases last with
    | true => exact last_leaves rfl rest.toBase
    | false => exact leaves_of_keeps steady_rest (.bind (send_keeps rfl) fun _ => .pure) rest
  | appendData data last =>
    cases last with
    | true => exact last_leaves rfl rest.toBase
    | false => exact leaves_of_keeps steady_rest (.bind (send_keeps rfl) fun _ => .pure) rest
  | appendTrailers trailers =>
    refine safe_bind.mpr (safe_set (fun _ => rfl) fun t may => ?_)
    have base := rest.toBase.stays may
    exact last_leaves rfl ⟨base.proxy, base.responseSender, base.bare, base.queued⟩
  | sendHijackReply code headers => exact done_leaves rfl rest.toBase

end

/-! ### Whole runs -/

variable {e : Entry} {stream : Stream}

theorem program_leaves (fits : stream.fits e = true) (handles : e.handles = true)
    (rest : Rest stream.config (view stream.running.world)) :
    (rely stream.config).Safe (program stream.filters e) (Leaves (rely stream.config)) false stream.running.world := by
  cases e with
  | filter index call =>
    refine onHandler_leaves _ index call rest fun continues => ?_
    subst continues
    exact Bool.and_eq_true_iff.mp fits
  | down =>
    refine Rely.safe_bind.mpr (Rely.safe_access trivial fun t may _ => ⟨rfl, ?_⟩)
    have ready : Ready (view t) := (⟨⟨rest, nofun⟩, ready_view fits⟩ : Able _ false _).stays may |>.ready
    have rest := rest.stays may
    cases first : t.down with
    | nil =>
      have same : { t with down := [] } = t := by rw [← first]
      rw [List.tail_nil, same]
      exact fun _ => rest
    | cons e others =>
      have down : (view t).down = e :: others := first
      have here : e ∈ (view t).down := down ▸ List.mem_cons_self
      have within {e'} (there : e' ∈ others) : e' ∈ (view t).down := down ▸ List.mem_cons_of_mem e there
      obtain ⟨queued, drained⟩ := rest.queued.take first
      have bare (none_ : stream.config.hasConnPool = false) := rest.bare none_
      have base : Base stream.config (view { t with down := others }) :=
        ⟨rest.proxy, rest.responseSender, fun none_ => ⟨(bare none_).body, (bare none_).trailers, fun e' there =>
          (bare none_).events e' (within there)⟩, queued⟩
      exact handleDown_leaves _ e ⟨⟨⟨base, rest.done, rest.untrailed⟩, drained⟩, ready⟩
        (fun none_ => (bare none_).events e here) fun is => rest.queued.marked (is ▸ here)
  | up =>
    refine Rely.safe_bind.mpr (Rely.safe_access trivial fun t may _ => ⟨rfl, ?_⟩)
    have rest := rest.stays may
    have queued : Queued (view { t with up := t.up.tail }).toLine :=
      ⟨rest.queued.marked, rest.queued.whole, rest.queued.ordered,
        fun yes => ⟨(rest.queued.done yes).arrived, (rest.queued.done yes).down⟩,
        fun ended => congrArg List.tail (rest.queued.answered ended)⟩
    have rest : Rest stream.config (view { t with up := t.up.tail }) :=
      ⟨⟨rest.proxy, rest.responseSender, rest.bare, queued⟩, rest.done, rest.untrailed⟩
    cases first : t.up with
    | nil => exact fun _ => first ▸ rest
    | cons e others => exact handleUp_leaves e (first ▸ rest)
  | downstream d => cases handles
  | upstream d => cases handles
  | onReady => cases handles
  | onFailure => cases handles

/-- A callback is safe while the end of the reply spares it. -/
theorem program_beside (fits : stream.fits e = true) (other : e.handles = false)
    (going : Going e stream.running.world) :
    (around stream.config e).Safe (program stream.filters e) (Leaves (around stream.config e)) false stream.running.world := by
  cases e with
  | downstream d => exact onDownstream_beside (Bool.or_eq_true_iff.mp fits) going
  | upstream d => exact leaves_of_keeps steady_going (onUpstream_beside fits fun _ => rfl) going
  | onReady => exact leaves_of_keeps steady_going onReady_beside going
  | onFailure => cases fits
  | filter index call => cases other
  | down => cases other
  | up => cases other

/-- What the end of the reply spares is in progress only where it finds more of the request, or a reset. -/
theorem Going.unfinished (going : Going e w) (other : e.handles = false)
    (drained : Drained (view w).toLine) (unmarked : w.stream.downstreamReset = false) (ended : w.ended = true) : False := by
  have spared := going.spared ended
  cases e with
  | downstream d =>
    refine going.more ?_ drained.arrived
    have spared : (decide (d ≠ .onResetStream) || w.stream.downstreamReset) = true := spared
    rwa [unmarked, Bool.or_false] at spared
  | filter index call => cases other
  | down => cases other
  | up => cases other
  | _ => cases spared

/-- **How the entries of a stream run beside each other.** -/
def terms (config : Config) : Terms World Site Status Entry where
  main := Entry.handles
  own := rely config
  rely e := if e.handles = true then rely config else around config e
  rely_main is := if_pos is
  clash := Clash
  symm clash := clash.imp And.symm And.symm
  clash_main is is' := .inl ⟨is, is'⟩
  beside {e s t} other does := by
    rw [if_neg (Bool.not_eq_true _ ▸ other)] at does
    exact does.1
  gone w := w.arrived = .whole ∧ w.stream.downstreamReset = false ∧ w.down = [] ∧ w.up = [] ∧ w.ended = true
  quits {e s t} quits := by
    cases is : e.handles with
    | false =>
      rw [if_neg (Bool.not_eq_true _ ▸ is)] at quits
      exact quits.elim
    | true =>
      rw [if_pos is] at quits
      obtain ⟨⟨drained, unmarked, ended, down, up⟩, rfl⟩ := quits
      refine ⟨⟨drained.arrived, rfl, down, up, ended⟩, fun {e'} apart holds => ?_⟩
      have other : e'.handles = false := by
        rw [← Bool.not_eq_true]
        exact fun also => apart (.inl ⟨is, also⟩)
      rw [if_neg (Bool.not_eq_true _ ▸ other)] at holds
      exact Going.unfinished holds other drained unmarked ended

theorem terms_around {config : Config} (other : e.handles = false) :
    (terms config).rely e = around config e := if_neg (Bool.not_eq_true _ ▸ other)

/-- Every stream of a proxy is sound. -/
def AllSound (all : List Stream) : Prop := ∀ stream ∈ all, Sound (terms stream.config) stream.running

theorem sound_newStream (config : Config) (filters : Nat) : Sound (terms config) { world := newStream config filters } where
  apart := .nil
  safe _ _ no := by cases no
  rest _ _ := ⟨⟨rfl, rfl, fun _ => ⟨rfl, rfl, fun e no => (by cases no)⟩, nofun, fun e no => (by cases no), .nil,
    nofun, nofun⟩, nofun, .inl rfl⟩
  ended no := by cases no

/-- Behind a whole request only a reset comes. -/
theorem allows_whole {d : Delivery} (allowed : Arrived.whole.allows d = true) : d = .onResetStream := by
  cases d with
  | onResetStream => rfl
  | _ => cases allowed

/-- A callback may be entered where it finds what it relies on. -/
theorem going_of_careful {idle : Bool} (careful : stream.Careful (.enter e))
    (allowed : allows stream.filters stream.running.world idle e = true) (other : e.handles = false) :
    Going e stream.running.world where
  more part := by
    cases e with
    | downstream d =>
      intro whole
      have allowed : stream.running.world.arrived.allows d = true := allowed
      rw [whole] at allowed
      exact of_decide_eq_true part (allows_whole allowed)
    | _ => cases part
  spared ended := (careful.2.2 ended).resolve_right fun is => by
    rw [is] at other
    cases other

/-- **A callback relies on what a handler or another callback does.** -/
theorem Going.stays {config : Config} {e e' : Entry} {s t : World} (going : Going e' s) (apart : ¬ Clash e e')
    (does : ((terms config).rely e).does s t)
    (ends : t.ended = true → s.ended = false → s.spares e' = true) :
    Going e' t ∧ (s.stream.downstreamReset = true → t.stream.downstreamReset = true) := by
  have spares (reset : s.stream.downstreamReset = true → t.stream.downstreamReset = true) (spared : s.spares e' = true) :
      t.spares e' = true := by
    cases e' with
    | downstream d => exact Bool.or_eq_true_iff.mpr ((Bool.or_eq_true_iff.mp spared).imp id reset)
    | _ => cases spared
  have reset : s.stream.downstreamReset = true → t.stream.downstreamReset = true := by
    cases is : e.handles with
    | true =>
      rw [(terms config).rely_main is] at does
      exact (Prod.mk.inj does).2.trans
    | false =>
      rw [terms_around is] at does
      exact does.1.reset
  refine ⟨⟨fun part => ?_, fun ended => spares reset ?_⟩, reset⟩
  · have same : t.arrived = s.arrived := by
      cases is : e.handles with
      | true =>
        rw [(terms config).rely_main is] at does
        exact (Prod.mk.inj does).1
      | false =>
        rw [terms_around is] at does
        refine does.2 ?_
        rw [← Bool.not_eq_true]
        exact fun also => apart (.inr ⟨also, part⟩)
    exact same.trans_ne (going.more part)
  · cases before : s.ended with
    | true => exact going.spared before
    | false => exact ends ended before

/-- **One turn of a stream.** -/
theorem turn_stream {turn : Turn Entry Status} {running : Running World Site Status Entry}
    (sound : Sound (terms stream.config) stream.running) (careful : stream.Careful turn)
    (turned : (reactor stream.filters).turn stream.running turn = some running) :
    Sound (terms stream.config) running := by
  refine turn_sound (fun running turn => Stream.Careful { stream with running } turn) ?_ ?_ ?_ ?_ ?_ ?_ ?_ sound careful
    turned
  · rintro running e idle careful allowed ⟨whole, unmarked, down, up, ended⟩
    have allowed : allows stream.filters running.world idle e = true := allowed
    rcases careful.2.2 ended with spared | rfl
    · cases e with
      | downstream d =>
        have spared : (decide (d ≠ .onResetStream) || running.world.stream.downstreamReset) = true := spared
        have allowed : running.world.arrived.allows d = true := allowed
        rw [unmarked, Bool.or_false] at spared
        rw [whole] at allowed
        exact of_decide_eq_true spared (allows_whole allowed)
      | _ => cases spared
    · have waiting : (idle && !running.world.down.isEmpty) = true := allowed
      rw [down, List.isEmpty_nil, Bool.not_true, Bool.and_false] at waiting
      cases waiting
  · exact fun careful => careful.2.1
  · intro running e idle careful allowed rest
    cases is : e.handles with
    | true =>
      rw [(terms stream.config).rely_main is]
      have leaves := program_leaves careful.1 is (rest is)
      exact leaves
    | false =>
      rw [terms_around is]
      have beside := program_beside careful.1 is (going_of_careful careful allowed is)
      exact beside
  · intro running i e f next careful at_
    cases is : e.handles with
    | true =>
      rw [(terms stream.config).rely_main is]
      exact fun ended before => (careful _ at_ ended before).1
    | false =>
      rw [terms_around is]
      trivial
  · intro running i e f next careful at_ does thread there apart goes holds
    cases is : thread.1.handles with
    | true =>
      rw [(terms stream.config).rely_main is]
      refine (terms stream.config).beside ?_ does
      rw [← Bool.not_eq_true]
      exact fun also => apart (.inl ⟨also, is⟩)
    | false =>
      rw [terms_around is] at holds ⊢
      have stays := Going.stays holds apart does fun ended before =>
        ((careful _ at_ ended before).2 thread there).resolve_left goes
      exact ⟨fun _ => stays.1, stays.2⟩
  · intro e s t other _
    rw [terms_around other]
    trivial
  · intro running i a e site next careful at_
    cases is : e.handles with
    | true =>
      rw [(terms stream.config).rely_main is]
      rintro rfl
      exact careful _ at_ rfl
    | false =>
      rw [terms_around is]
      trivial

/-- **One move.** -/
theorem stepStreams_sound {all all' : List Stream} {move : StreamMove} (sound : AllSound all) (careful : Careful all move)
    (stepped : streams.step all move = some all') : AllSound all' := by
  cases move with
  | create config filters =>
    obtain rfl := Option.some.inj stepped
    intro stream there
    rcases List.mem_append.mp there with there | there
    · exact sound stream there
    · obtain rfl := List.mem_singleton.mp there
      exact sound_newStream config filters
  | on k turn =>
    obtain ⟨stream, at_, later⟩ := Option.bind_eq_some_iff.mp stepped
    obtain ⟨running, turned, same⟩ := Option.bind_eq_some_iff.mp later
    obtain rfl := Option.some.inj same
    intro other there
    rcases List.mem_or_eq_of_mem_set there with there | rfl
    · exact sound other there
    · have kept := turn_stream (sound stream (List.mem_of_getElem? at_)) (careful stream at_) turned
      exact kept

end Pooled

/-- **A recycled object is left alone.** In a run of careful turns, over any number of streams, no object is
touched that was given back. -/
theorem recycled_untouched {moves : List StreamMove} {all : List Stream} (careful : streams.Meets Careful [] moves)
    (ran : streams.run [] moves = some all) (move : StreamMove) : ¬ Touches all move := by
  have sound : Pooled.AllSound all :=
    System.run_keeps Pooled.stepStreams_sound (fun stream no => (by cases no)) careful ran
  cases move with
  | create config filters => exact id
  | on k turn =>
    rintro ⟨stream, at_, touches⟩
    exact (sound stream (List.mem_of_getElem? at_)).untouched turn touches

instance (e e' : Entry) : Decidable (Clash e e') := inferInstanceAs (Decidable (_ ∧ _ ∨ _ ∧ _))

instance (stream : Stream) : ∀ turn, Decidable (stream.Careful turn)
  | .enter _ => inferInstanceAs (Decidable (_ ∧ (∀ thread ∈ stream.running.threads, _) ∧ (_ → _)))
  | .step i => inferInstanceAs (Decidable (∀ thread ∈ stream.running.threads[i]?, _ → _ → _ ∧
      ∀ other ∈ stream.running.threads.eraseIdx i, _))
  | .answer i _ => inferInstanceAs (Decidable (∀ thread ∈ stream.running.threads[i]?, asksPool thread.2 = true → _))
  | .unwind _ => isTrue trivial

instance (all : List Stream) : ∀ move, Decidable (Careful all move)
  | .create _ _ => isTrue trivial
  | .on k turn => inferInstanceAs (Decidable (∀ stream ∈ all[k]?, stream.Careful turn))

/-- The thread at `i` of the first stream goes on, `n` times. -/
def goesOn (i n : Nat) : List StreamMove := List.replicate n (.on 0 (.step i))

/-- A request with headers only, up to the call of the pool; the pool is ready inside that call. -/
def requested : List StreamMove :=
  [.create onePool 0, .on 0 (.enter (.downstream (.onReceive none none none)))] ++ goesOn 0 4 ++
    [.on 0 (.enter .down)] ++ goesOn 0 17 ++ [.on 0 (.enter .onReady)] ++ goesOn 1 7 ++
    [.on 0 (.answer 1 .continue_)] ++ goesOn 1 1

/-- The pool returns, and the request is answered. -/
def answered : List StreamMove :=
  requested ++ [.on 0 (.answer 0 .continue_)] ++ goesOn 0 2 ++
    [.on 0 (.enter (.upstream (.onReceiveHeaders none true)))] ++ goesOn 0 5 ++ [.on 0 (.enter .up)] ++ goesOn 0 23

/-- The theorem at a request that is answered. -/
theorem recycled_untouched_answered : streams.Meets Careful [] answered ∧
      ∃ all, streams.run [] answered = some all ∧ (∃ stream ∈ all, stream.running.given = true) ∧
        ∀ move, ¬ Touches all move := by
  have careful : streams.Meets Careful [] answered := by decide +kernel
  obtain ⟨all, ran, given⟩ : ∃ all, streams.run [] answered = some all ∧ ∃ stream ∈ all, stream.running.given = true := by
    decide +kernel
  exact ⟨careful, all, ran, given, recycled_untouched careful ran⟩

/-- The request is answered before the pool returns: `onUpstreamRequestSent` is left to do. -/
def overtaken : List StreamMove :=
  requested ++ [.on 0 (.enter (.upstream (.onReceiveHeaders none true)))] ++ goesOn 1 5 ++ [.on 0 (.enter .up)] ++
    goesOn 1 27 ++ [.on 0 (.answer 0 .continue_)]

/-- A filter replies inside `OnReceiveHeaders`: its stage is left to reset. -/
def repliedInside : List StreamMove :=
  [.create onePool 1, .on 0 (.enter (.downstream (.onReceive none none none)))] ++ goesOn 0 4 ++
    [.on 0 (.enter .down)] ++ goesOn 0 7 ++ [.on 0 (.enter (.filter 0 (.sendHijackReply 403 none)))] ++
    goesOn 1 15 ++ [.on 0 (.answer 0 .stop)]

instance (all : List Stream) : ∀ move, Decidable (Touches all move)
  | .create _ _ => isFalse id
  | .on k turn => inferInstanceAs (Decidable (∃ stream ∈ all[k]?, stream.running.Touches turn))

/-- **An object in the pool is written**, and one is touched by the caller of the filter that replied. -/
theorem touched_in_pool : (∃ all, streams.run [] overtaken = some all ∧ Touches all (.on 0 (.step 0)) ∧
      (∀ stream ∈ all, stream.running.world.stream.upstreamRequestSent = false) ∧
      ∃ all', streams.step all (.on 0 (.step 0)) = some all' ∧
        ∃ stream ∈ all', stream.running.world.stream.upstreamRequestSent = true) ∧
      ∃ all, streams.run [] repliedInside = some all ∧ Touches all (.on 0 (.step 0)) := by
  decide +kernel

end Strike.Proxy
