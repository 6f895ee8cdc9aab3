/-
**One reply a stream**: the response sender gets one end of stream and nothing behind it, as long as what
the stream does not check by itself comes before it is done.

* `OneReply`: the property of a trace. It also says that nothing follows the cleaning of the stream.
* `Inv`: a closed trace belongs to a cleaned stream, or to an object that was given away.
* `oneReply_of_guarded`: in every run in which the headers of the request and of the response, the calls
  of the filters and their answers to continue come while `processDone` is false, one reply is sent.
* `headers_after_reset`: the headers of the response are not held back by a reset, and two filters can
  both reply.
-/

import Strike.Proxy.Stream

namespace Strike.Proxy

open Strike.Lib Contract

/-! ### The property -/

namespace Effect

/-- The response sender gets something. -/
def replies : Effect → Bool
  | .appendHeaders _ _ => true
  | .appendData _ _ => true
  | .appendTrailers _ => true
  | _ => false

/-- The response sender gets the end of the stream, or the stream is cleaned. -/
def closes : Effect → Bool
  | .appendHeaders _ endStream => endStream
  | .appendData _ endStream => endStream
  | .appendTrailers _ => true
  | .cleaned => true
  | _ => false

end Effect

/-- **One reply**: behind the end of the stream, and behind its cleaning, the response sender gets
nothing. -/
def OneReply (trace : List Effect) : Prop := trace.Pairwise fun e later => e.closes = true → later.replies = false

instance (trace : List Effect) : Decidable (OneReply trace) := inferInstanceAs (Decidable (List.Pairwise _ _))

/-- `processDone`, as a value. -/
def World.done (w : World) : Bool :=
  w.stream.upstreamProcessDone || w.stream.downstreamReset || w.stream.downstreamCleaned

/-- A call of a receiver filter. -/
def Site.ofFilter : Site → Bool
  | .onReceiveHeaders _ _ _ => true
  | .onReceiveTrailers _ _ => true
  | _ => false

/-- The event brings headers that its handler takes without a look at `processDone`. -/
def Event.unchecked : Event → Bool
  | .recvHeader _ _ => true
  | _ => false

/-- **The condition on a move**: what the code does not check comes while `processDone` is false. -/
def Guarded (c : Reactor.Config World Site Status) : Reactor.Move Entry Status → Prop
  | .enter (.filter _ _) => c.world.done = false
  | .enter .down => ∀ e ∈ c.world.down.head?, e = .recv ∨ e.unchecked = true → c.world.done = false
  | .enter .up => ∀ e ∈ c.world.up.head?, e.unchecked = true → c.world.done = false
  | .enter _ => True
  | .answer .stop => True
  | .answer .continue_ => ∀ frame ∈ c.stack.head?, frame.1.ofFilter = true → c.world.done = false

/-! ### The contract -/

/-- A trace that is closed belongs to a stream that was cleaned or given away. -/
structure Inv (w : World) : Prop where
  once : OneReply w.trace
  closed : (∃ e ∈ w.trace, e.closes = true) →
    w.stream.downstreamCleaned = true ∨ w.stream.responseSender = false

/-- The response sender may get something. -/
def Open (w : World) : Prop := (∃ e ∈ w.trace, e.closes = true) → w.stream.responseSender = false

/-- What every program keeps. -/
def replyContract : Contract World Site Status where
  rest := Inv
  inv := Inv
  change _ _ := True
  refl _ := trivial
  trans _ _ := trivial
  answers w site status := status = .continue_ → site.ofFilter = true → w.done = false

theorem Inv.open {w : World} (inv : Inv w) (going : w.done = false) : Open w := by
  intro closed
  rcases inv.closed closed with cleaned | gone
  · unfold World.done at going
    rw [cleaned, Bool.or_true] at going
    cases going
  · exact gone

variable {trace : List Effect} {e : Effect}

theorem OneReply.append (once : OneReply trace) (quiet : e.replies = false) : OneReply (trace ++ [e]) :=
  List.pairwise_append.mpr ⟨once, List.pairwise_singleton _ _, fun _ _ _ same _ =>
    (List.mem_singleton.mp same) ▸ quiet⟩

theorem OneReply.reply (once : OneReply trace) (opened : ¬ ∃ e ∈ trace, e.closes = true) : OneReply (trace ++ [e]) :=
  List.pairwise_append.mpr ⟨once, List.pairwise_singleton _ _, fun a there _ _ closes =>
    absurd ⟨a, there, closes⟩ opened⟩

theorem closed_append (goes : e.closes = false) :
    (∃ a ∈ trace ++ [e], a.closes = true) ↔ ∃ a ∈ trace, a.closes = true := by
  constructor
  · rintro ⟨a, there, closes⟩
    rcases List.mem_append.mp there with old | new
    · exact ⟨a, old, closes⟩
    · rw [List.mem_singleton.mp new, goes] at closes
      cases closes
  · rintro ⟨a, there, closes⟩
    exact ⟨a, List.mem_append_left _ there, closes⟩

theorem Inv.emit {w : World} (inv : Inv w) (quiet : e.replies = false) (goes : e.closes = false) : Inv (w.emit e) :=
  ⟨inv.once.append quiet, fun closed => inv.closed ((closed_append goes).mp closed)⟩

theorem Open.emit {w : World} (opened : Open w) (goes : e.closes = false) : Open (w.emit e) :=
  fun closed => opened ((closed_append goes).mp closed)

/-! ### The end of a stream -/

variable {w : World}

theorem wp_processDone {K : Contract World Site Status} {post : Bool → World → Prop} :
    K.wp processDone post w ↔ post w.done w := by
  unfold processDone World.done
  simp only [wp_bind, wp_get, wp_ite, wp_pure]
  cases w.stream.upstreamProcessDone <;> cases w.stream.downstreamReset <;> simp

/-- A program behind a look at `processDone`. -/
theorem keeps_guarded {p : Program Unit}
    (keeps : ∀ {w}, Inv w → w.done = false → replyContract.wp p (fun _ => Inv) w) :
    replyContract.Keeps Inv (do
      if ← processDone then return
      p) := by
  intro w inv
  rw [wp_bind, wp_processDone, wp_ite]
  split
  · exact inv
  · next going => exact keeps inv (Bool.eq_false_of_not_eq_true going)

theorem resetStream_keeps : replyContract.Keeps Inv Upstream.resetStream :=
  .bind .get fun _ => .when (.set fun inv => inv.emit rfl rfl)

theorem cleanUp_keeps : replyContract.Keeps Inv cleanUp :=
  .bind .get fun _ => .when (.set fun inv => ⟨inv.once, inv.closed⟩)

theorem giveStream_keeps : replyContract.Keeps Inv giveStream :=
  .bind .get fun _ => .ite .pure (.bind .get fun _ => .ite .pure (.bind .get fun _ => .bind .get fun _ =>
    .when (.giveBack fun inv => ⟨inv.once, fun _ => .inr rfl⟩)))

theorem release_keeps : replyContract.Keeps Inv release :=
  .bind .get fun _ => .bind (.when (.bind .get fun _ => .when
    (.bind (.set fun inv => ⟨inv.once, inv.closed⟩) fun _ => resetStream_keeps))) fun _ =>
    .bind cleanUp_keeps fun _ => .bind .get fun _ => .bind .get fun _ => giveStream_keeps

theorem cleanStream_wp (once : OneReply w.trace) : replyContract.wp cleanStream (fun _ => Inv) w := by
  unfold cleanStream
  rw [wp_bind, wp_access, wp_ite]
  by_cases cleaned : w.stream.downstreamCleaned = true
  · rw [if_pos cleaned, if_pos cleaned]
    exact ⟨once, fun _ => .inl cleaned⟩
  · rw [if_neg cleaned, if_neg cleaned]
    exact release_keeps _ ⟨once.append rfl, fun _ => .inl rfl⟩

theorem cleanStream_keeps : replyContract.Keeps Inv cleanStream := fun _ inv => cleanStream_wp inv.once

theorem endStream_wp (once : OneReply w.trace) : replyContract.wp endStream (fun _ => Inv) w := by
  unfold endStream
  rw [wp_bind, wp_get, wp_bind, wp_when]
  refine ⟨fun _ => ?_, fun _ => cleanStream_wp once⟩
  rw [wp_bind, wp_get, wp_when]
  exact ⟨fun _ => cleanStream_wp once, fun _ => cleanStream_wp once⟩

/-! ### Replies -/

theorem send_wp (inv : Inv w) (opened : Open w) :
    replyContract.wp (send e) (fun _ v => OneReply v.trace ∧ (e.closes = false → Inv v)) w := by
  unfold send
  rw [wp_bind, wp_access, wp_when]
  by_cases sender : w.stream.responseSender = true
  · have going : ¬ ∃ e ∈ w.trace, e.closes = true := fun closed => by
      rw [opened closed] at sender
      cases sender
    rw [if_pos sender, sender]
    refine ⟨nofun, fun _ => ⟨inv.once.reply going, fun goes => ⟨inv.once.reply going, ?_⟩⟩⟩
    exact fun closed => absurd ((closed_append goes).mp closed) going
  · rw [if_neg sender, Bool.eq_false_of_not_eq_true sender]
    exact ⟨fun _ => inv, nofun⟩

variable {last : Bool} {headers : Option CommonHeader} {data : Option Bytes} {trailers : Option CommonHeader}

/-- `send`, and the end of the stream with it. -/
theorem sendEnd_wp (same : e.closes = last) (inv : Inv w) (opened : Open w) :
    replyContract.wp (send e >>= fun _ => .when last endStream) (fun _ => Inv) w := by
  rw [wp_bind]
  refine wp_mono (fun _ v sent => ?_) (send_wp inv opened)
  rw [wp_when]
  exact ⟨fun _ => endStream_wp sent.1, fun goes => sent.2 (same.trans goes)⟩

theorem doAppendHeaders_wp (inv : Inv w) (opened : Open w) :
    replyContract.wp (doAppendHeaders headers last) (fun _ => Inv) w := sendEnd_wp rfl inv opened

theorem doAppendData_wp (inv : Inv w) (opened : Open w) :
    replyContract.wp (doAppendData data last) (fun _ => Inv) w := sendEnd_wp rfl inv opened

theorem doAppendTrailers_wp (inv : Inv w) (opened : Open w) :
    replyContract.wp (doAppendTrailers trailers) (fun _ => Inv) w := by
  unfold doAppendTrailers
  rw [wp_bind]
  exact wp_mono (fun _ v sent => endStream_wp sent.1) (send_wp inv opened)

theorem appendHeaders_wp (inv : Inv w) (opened : Open w) :
    replyContract.wp (appendHeaders headers last) (fun _ => Inv) w :=
  doAppendHeaders_wp (w := { w with stream.upstreamProcessDone := last }) ⟨inv.once, inv.closed⟩ opened

theorem appendData_wp (inv : Inv w) (opened : Open w) : replyContract.wp (appendData data last) (fun _ => Inv) w :=
  doAppendData_wp (w := { w with stream.upstreamProcessDone := last }) ⟨inv.once, inv.closed⟩ opened

theorem appendTrailers_wp (inv : Inv w) (opened : Open w) :
    replyContract.wp (appendTrailers trailers) (fun _ => Inv) w :=
  doAppendTrailers_wp (w := { w with stream.upstreamProcessDone := true }) ⟨inv.once, inv.closed⟩ opened

theorem sendHijackReply_wp {code : Nat} (inv : Inv w) (opened : Open w) :
    replyContract.wp (sendHijackReply code headers) (fun _ => Inv) w := appendHeaders_wp inv opened

/-! ### The upstream request -/

theorem deref_keeps {P : World → Prop} (rests : ∀ {w}, P w → Inv w) {f : World → World} (kept : ∀ {w}, P w → P (f w)) :
    replyContract.Keeps P (Upstream.deref f) :=
  .bind (.access kept) fun _ => .when (.panic rests)

theorem upstreamRequest_keeps : replyContract.Keeps Inv upstreamRequest :=
  .bind .get fun _ => .when (.panic fun inv => inv)

theorem onUpstreamRequestSent_keeps : replyContract.Keeps Inv onUpstreamRequestSent :=
  .set fun inv => ⟨inv.once, inv.closed⟩

theorem ask_keeps {site : Site} : replyContract.Keeps Inv (.ask site) :=
  fun _ inv => wp_ask.mpr ⟨inv, fun _ _ later _ _ => later⟩

theorem upstreamAppendHeaders_keeps : replyContract.Keeps Inv (Upstream.appendHeaders last) :=
  .bind (deref_keeps (fun inv => inv) fun inv => inv.emit rfl rfl) fun _ => keeps_guarded fun inv _ =>
    (Keeps.bind (.set fun inv => ⟨inv.once, inv.closed⟩) fun _ =>
      .bind (.access fun inv => ⟨inv.once, inv.closed⟩) fun _ => .bind (.when (.panic fun inv => inv)) fun _ =>
        .bind ask_keeps fun _ => .pure) _ inv

theorem upstreamAppendTrailers_keeps : replyContract.Keeps Inv (Upstream.appendTrailers trailers) :=
  .bind (deref_keeps (fun inv => inv) fun inv => inv.emit rfl rfl) fun _ => keeps_guarded fun inv _ =>
    (Keeps.bind (.set fun inv => ⟨inv.once, inv.closed⟩) fun _ =>
      .bind (.set fun inv => ⟨inv.once, inv.closed⟩) fun _ => .bind .get fun _ =>
        .bind (.when (.panic fun inv => inv)) fun _ => .bind ask_keeps fun _ => .pure) _ inv

/-- `appendData` replies by itself when there is no sender, behind its look at `processDone`. -/
theorem upstreamAppendData_keeps : replyContract.Keeps Inv (Upstream.appendData data last) := by
  refine .bind (deref_keeps (fun inv => inv) fun inv => inv.emit rfl rfl) fun _ => keeps_guarded fun inv going => ?_
  rw [wp_bind, wp_set, wp_bind, wp_set, wp_bind, wp_get, wp_ite]
  have opened := inv.open going
  split
  · rw [wp_bind, wp_set, wp_bind, wp_get, wp_bind]
    exact sendHijackReply_wp ⟨inv.once, inv.closed⟩ opened
  · exact (Keeps.bind .get fun _ => .bind (.when (.panic fun inv => inv)) fun _ => .bind ask_keeps fun _ => .pure) _
      ⟨inv.once, inv.closed⟩

/-! ### The filters -/

theorem callFilter_wp {index : Nat} {part : Part} {stage : UInt64} {site : Site} (filter : site.ofFilter = true)
    (inv : Inv w) : replyContract.wp (callFilter index part stage site)
      (fun status v => Inv v ∧ (status = .continue_ → v.done = false)) w := by
  have shown : Inv (w.emit (.shown index part)) := inv.emit rfl rfl
  unfold callFilter
  rw [wp_bind, wp_set, wp_bind, wp_ask]
  refine ⟨⟨shown.once, shown.closed⟩, fun v status later _ answers => ?_⟩
  have answered : Inv (v.emit (.answered index status)) := later.emit rfl rfl
  rw [wp_bind, wp_set, wp_pure]
  exact ⟨⟨answered.once, answered.closed⟩, fun continues => answers continues filter⟩

theorem runReceiveHeadersFilters_wp : ∀ (left index : Nat) {w : World}, Inv w → w.done = false →
      replyContract.wp (runReceiveHeadersFilters headers last left index)
        (fun stopped v => Inv v ∧ (stopped = false → v.done = false)) w := by
  intro left
  induction left with
  | zero => exact fun index w inv going => ⟨inv, fun _ => going⟩
  | succ left ih =>
    intro index w inv going
    unfold runReceiveHeadersFilters
    rw [wp_bind, wp_get, wp_ite]
    split
    · rw [wp_bind]
      refine wp_mono (fun status v called => ?_) (callFilter_wp rfl inv)
      cases status with
      | stop => exact ⟨⟨called.1.once, called.1.closed⟩, nofun⟩
      | continue_ => exact ih (index + 1) ⟨called.1.once, called.1.closed⟩ (called.2 rfl)
    · exact ⟨inv, fun _ => going⟩

theorem requestUpstream_keeps : replyContract.Keeps Inv (requestUpstream last) :=
  .bind (.set fun inv => ⟨inv.once, inv.closed⟩) fun _ => .bind (.set fun inv => ⟨inv.once, inv.closed⟩) fun _ =>
    .bind (.set fun inv => ⟨inv.once, inv.closed⟩) fun _ => .bind upstreamRequest_keeps fun _ =>
    .bind upstreamAppendHeaders_keeps fun _ => .when onUpstreamRequestSent_keeps

theorem doReceiveHeaders_wp {left index : Nat} (inv : Inv w) (going : w.done = false) :
    replyContract.wp (doReceiveHeaders left index headers last) (fun _ => Inv) w := by
  unfold doReceiveHeaders
  rw [wp_bind]
  refine wp_mono (fun stopped v passed => ?_) (runReceiveHeadersFilters_wp left index inv going)
  rw [wp_ite]
  split
  · exact passed.1
  · next goesOn =>
      have opened : Open v := passed.1.open (passed.2 (Bool.eq_false_of_not_eq_true goesOn))
      rw [wp_bind, wp_get]
      split
      · exact passed.1
      · rw [wp_ite]
        split
        · exact sendHijackReply_wp passed.1 opened
        · exact requestUpstream_keeps v passed.1

theorem doReceiveData_keeps : replyContract.Keeps Inv (doReceiveData data last) :=
  .bind (.when onUpstreamRequestSent_keeps) fun _ => .bind upstreamRequest_keeps fun _ =>
    .bind upstreamAppendData_keeps fun _ => .bind .get fun _ => .when cleanStream_keeps

theorem doReceiveTrailers_keeps {filters : Option CommonHeader → Program Bool}
    (keeps : ∀ trailers, replyContract.Keeps Inv (filters trailers)) :
    replyContract.Keeps Inv (doReceiveTrailers filters trailers) :=
  .bind (keeps trailers) fun _ => .ite .pure (.bind (.set fun inv => ⟨inv.once, inv.closed⟩) fun _ =>
    .bind onUpstreamRequestSent_keeps fun _ => .bind upstreamRequest_keeps fun _ =>
    .bind upstreamAppendTrailers_keeps fun _ => .bind .get fun _ => .when cleanStream_keeps)

theorem continueHeaders_wp {left index : Nat} {hasBuffedData hasTrailer : Bool} (inv : Inv w)
    (going : w.done = false) :
    replyContract.wp (continueHeaders left index hasBuffedData hasTrailer) (fun _ => Inv) w := by
  unfold continueHeaders
  rw [wp_bind, wp_get, wp_when]
  refine ⟨fun _ => ?_, fun _ => inv⟩
  rw [wp_bind, setFilter, wp_set, wp_bind, wp_get, wp_bind, wp_get]
  exact doReceiveHeaders_wp ⟨inv.once, inv.closed⟩ going

theorem continueData_keeps {index : Nat} {hasBuffedData hasTrailer : Bool} :
    replyContract.Keeps Inv (continueData index hasBuffedData hasTrailer) := by
  refine .bind .get fun _ => .when (.bind (.set fun inv => ?_) fun _ => .bind .get fun _ => .bind .get fun _ =>
    doReceiveData_keeps)
  split
  · exact ⟨inv.once, inv.closed⟩
  · exact inv

theorem doContinue_wp {left index : Nat} {filters : Option CommonHeader → Program Bool}
    (keeps : ∀ trailers, replyContract.Keeps Inv (filters trailers)) (inv : Inv w) (going : w.done = false) :
    replyContract.wp (doContinue left index filters) (fun _ => Inv) w := by
  have continued : Inv (w.emit (.continued index)) := inv.emit rfl rfl
  unfold doContinue
  rw [wp_bind, wp_access, wp_ite]
  split
  · exact continued
  · rw [wp_bind, setFilter, wp_set, wp_bind, wp_get, wp_bind, wp_get, wp_bind]
    refine wp_mono (fun _ v inv => ?_) (continueHeaders_wp (w := (w.emit (.continued index)).onFilter index _)
      ⟨continued.once, continued.closed⟩ going)
    refine (Keeps.bind continueData_keeps fun _ => .when (.bind .get fun _ => ?_)) v inv
    exact doReceiveTrailers_keeps keeps

/-- The trailers go through the chain without a reply of the stream itself, unless a filter continues. -/
theorem trailersLoop_keeps : ∀ (left index : Nat) (trailers : Option CommonHeader),
    replyContract.Keeps Inv (trailersLoop left index trailers) := by
  intro left
  induction left with
  | zero => exact fun index trailers => .bind .get fun _ => .pure
  | succ left ih =>
    intro index trailers w inv
    have later : ∀ trailers, replyContract.Keeps Inv (do
        if ← Prog.get (·.stream.upstreamProcessDone) then return false
        trailersLoop left (index + 1) trailers) := fun trailers =>
      .bind .get fun _ => .ite .pure (ih (index + 1) trailers)
    unfold trailersLoop
    rw [wp_bind, wp_get, wp_ite]
    split
    · rw [wp_bind]
      refine wp_mono (fun status v called => ?_) (callFilter_wp rfl inv)
      rw [wp_bind]
      cases status with
      | stop => exact called.1
      | continue_ =>
        unfold handleTrailerStatus
        rw [wp_bind, wp_get, wp_ite]
        split
        · rw [wp_bind]
          exact doContinue_wp later called.1 (called.2 rfl)
        · exact ih (index + 1) trailers v called.1
    · exact inv

theorem runReceiveTrailersFilters_keeps (left index : Nat) (trailers : Option CommonHeader) :
    replyContract.Keeps Inv (runReceiveTrailersFilters left index trailers) :=
  .bind .get fun _ => .ite .pure (trailersLoop_keeps left index trailers)

/-! ### The handlers -/

variable {n : Nat}

theorem receiveHeaders_wp (inv : Inv w) (going : w.done = false) :
    replyContract.wp (receiveHeaders n headers last) (fun _ => Inv) w :=
  doReceiveHeaders_wp (w := { w with stream.downstreamRecvDone := last }) ⟨inv.once, inv.closed⟩ going

theorem receiveData_keeps : replyContract.Keeps Inv (receiveData data last) :=
  keeps_guarded fun inv _ => doReceiveData_keeps _ ⟨inv.once, inv.closed⟩

theorem receiveTrailers_keeps : replyContract.Keeps Inv (receiveTrailers n trailers) :=
  keeps_guarded fun inv _ => doReceiveTrailers_keeps (runReceiveTrailersFilters_keeps n 0) _ ⟨inv.once, inv.closed⟩

theorem receive_wp (inv : Inv w) (going : w.done = false) : replyContract.wp (receive n) (fun _ => Inv) w := by
  unfold receive
  rw [wp_bind, wp_get, wp_bind, wp_get, wp_bind, wp_get, wp_bind]
  refine wp_mono (fun _ v inv => ?_) (receiveHeaders_wp inv going)
  exact (Keeps.bind (.when (.bind .get fun _ => receiveData_keeps)) fun _ =>
    .when (.bind .get fun _ => receiveTrailers_keeps)) v inv

theorem handleDown_wp {e : Event} (inv : Inv w) (going : e = .recv ∨ e.unchecked = true → w.done = false) :
    replyContract.wp (handleDown n e) (fun _ => Inv) w := by
  cases e with
  | recv => exact receive_wp inv (going (.inl rfl))
  | recvHeader headers last => exact receiveHeaders_wp inv (going (.inr rfl))
  | recvData last => exact receiveData_keeps w inv
  | recvTrailer trailers => exact receiveTrailers_keeps w inv
  | reset => exact cleanStream_keeps w inv

/-- The response is open, and stays it. -/
def Answering (w : World) : Prop := Inv w ∧ Open w

theorem resetStream_answering : replyContract.Keeps Answering Upstream.resetStream :=
  .bind .get fun _ => .when (.set fun answering => ⟨answering.1.emit rfl rfl, answering.2.emit rfl⟩)

theorem onUpstreamResponseRecvFinished_keeps : replyContract.Keeps Answering onUpstreamResponseRecvFinished :=
  .bind .get fun _ => .bind (.when (.bind (.bind .get fun _ => .when (.panic fun answering => answering.1)) fun _ =>
    resetStream_answering)) fun _ => .bind .get fun _ =>
    .when (.set fun answering => ⟨⟨answering.1.once, answering.1.closed⟩, answering.2⟩)

theorem onUpstreamHeaders_wp (inv : Inv w) (opened : Open w) :
    replyContract.wp (onUpstreamHeaders headers last) (fun _ => Inv) w := by
  unfold onUpstreamHeaders
  rw [wp_bind, wp_set, wp_bind, wp_set]
  exact Keeps.andThen (.when onUpstreamResponseRecvFinished_keeps) ⟨⟨inv.once, inv.closed⟩, opened⟩
    fun _ _ answering => appendHeaders_wp answering.1 answering.2

theorem onUpstreamData_wp (inv : Inv w) (opened : Open w) :
    replyContract.wp (onUpstreamData data last) (fun _ => Inv) w :=
  Keeps.andThen (.when onUpstreamResponseRecvFinished_keeps) ⟨inv, opened⟩
    fun _ _ answering => appendData_wp answering.1 answering.2

theorem onUpstreamTrailers_wp (inv : Inv w) (opened : Open w) :
    replyContract.wp (onUpstreamTrailers trailers) (fun _ => Inv) w :=
  Keeps.andThen onUpstreamResponseRecvFinished_keeps ⟨inv, opened⟩
    fun _ _ answering => appendTrailers_wp answering.1 answering.2

theorem upstreamReceiveHeaders_wp (inv : Inv w) (opened : Open w) :
    replyContract.wp (Upstream.receiveHeaders headers last) (fun _ => Inv) w :=
  Keeps.andThen (deref_keeps And.left fun answering => answering) ⟨inv, opened⟩
    fun _ _ answering => onUpstreamHeaders_wp answering.1 answering.2

theorem upstreamReceiveData_keeps : replyContract.Keeps Inv (Upstream.receiveData data last) :=
  .bind (deref_keeps (fun inv => inv) fun inv => inv) fun _ =>
    keeps_guarded fun inv going => onUpstreamData_wp inv (inv.open going)

theorem upstreamReceiveTrailers_keeps : replyContract.Keeps Inv (Upstream.receiveTrailers trailers) :=
  .bind (deref_keeps (fun inv => inv) fun inv => inv) fun _ =>
    keeps_guarded fun inv going => onUpstreamTrailers_wp inv (inv.open going)

theorem upstreamReceive_keeps : replyContract.Keeps Inv Upstream.receive := by
  refine .bind (deref_keeps (fun inv => inv) fun inv => inv) fun _ => keeps_guarded fun {w} inv going => ?_
  rw [wp_bind, wp_get, wp_bind, wp_get, wp_bind, wp_get, wp_bind]
  refine wp_mono (fun _ v inv => ?_) (upstreamReceiveHeaders_wp inv (inv.open going))
  exact (Keeps.bind (.when (.bind (deref_keeps (fun inv => inv) fun inv => inv) fun _ => .bind .get fun _ =>
    upstreamReceiveData_keeps)) fun _ => .when (.bind (deref_keeps (fun inv => inv) fun inv => inv) fun _ =>
    .bind .get fun _ => upstreamReceiveTrailers_keeps)) v inv

theorem handleUp_wp {e : Event} (inv : Inv w) (going : e.unchecked = true → w.done = false) :
    replyContract.wp (Upstream.handleUp e) (fun _ => Inv) w := by
  cases e with
  | recv => exact upstreamReceive_keeps w inv
  | recvHeader headers last => exact upstreamReceiveHeaders_wp inv (inv.open (going rfl))
  | recvData last =>
    exact (Keeps.bind (deref_keeps (fun inv => inv) fun inv => inv) fun _ => .bind .get fun _ =>
      upstreamReceiveData_keeps) w inv
  | recvTrailer trailers => exact upstreamReceiveTrailers_keeps w inv
  | reset => exact ⟨inv.once, inv.closed⟩

/-! ### The callbacks -/

theorem offerUp_keeps {e : Event} : replyContract.Keeps Inv (offerUp e) :=
  .bind (deref_keeps (fun inv => inv) fun inv => inv) fun _ => .bind .get fun _ =>
    .bind (.when (.panic fun inv => inv)) fun _ => .set fun inv => ⟨inv.once, inv.closed⟩

theorem onDownstream_keeps (d : Delivery) : replyContract.Keeps Inv (onDownstream d) := by
  cases d with
  | onReceive headers data trailers =>
    exact .bind (.set fun inv => ⟨inv.once, inv.closed⟩) fun _ =>
      .bind (.when (.set fun inv => ⟨inv.once, inv.closed⟩)) fun _ =>
      .bind (.set fun inv => ⟨inv.once, inv.closed⟩) fun _ => .set fun inv => ⟨inv.once, inv.closed⟩
  | onReceiveHeaders headers last =>
    exact .bind (.set fun inv => ⟨inv.once, inv.closed⟩) fun _ => .set fun inv => ⟨inv.once, inv.closed⟩
  | onReceiveData data last =>
    exact .bind (.set fun inv => ⟨inv.once, inv.closed⟩) fun _ => .set fun inv => ⟨inv.once, inv.closed⟩
  | onReceiveTrailers trailers => exact .set fun inv => ⟨inv.once, inv.closed⟩
  | onResetStream =>
    refine .bind (.access fun {w} inv => ?_) fun _ => .ite .pure (.bind .get fun _ =>
      .bind (.when (.panic fun inv => inv)) fun _ => .set fun inv => ⟨inv.once, inv.closed⟩)
    split
    · exact inv
    · have noted : Inv (w.emit .reset) := inv.emit rfl rfl
      exact ⟨noted.once, noted.closed⟩

theorem onUpstream_keeps (d : Delivery) : replyContract.Keeps Inv (onUpstream d) := by
  have answers : ∀ {last}, replyContract.Keeps Inv (Upstream.deref (·.answer last)) :=
    deref_keeps (fun inv => inv) fun inv => ⟨inv.once, inv.closed⟩
  have plain : replyContract.Keeps Inv (Upstream.deref id) := deref_keeps (fun inv => inv) fun inv => inv
  cases d with
  | onReceive headers data trailers =>
    exact .bind answers fun _ => .bind (.set fun inv => ⟨inv.once, inv.closed⟩) fun _ =>
      .bind (.when (.bind plain fun _ => .set fun inv => ⟨inv.once, inv.closed⟩)) fun _ =>
      .bind plain fun _ => .bind (.set fun inv => ⟨inv.once, inv.closed⟩) fun _ => offerUp_keeps
  | onReceiveHeaders headers last => exact .bind answers fun _ => offerUp_keeps
  | onReceiveData data last =>
    exact .bind answers fun _ => .bind (.set fun inv => ⟨inv.once, inv.closed⟩) fun _ => offerUp_keeps
  | onReceiveTrailers trailers => exact .bind answers fun _ => offerUp_keeps
  | onResetStream => exact .bind answers fun _ => offerUp_keeps

theorem onReady_keeps : replyContract.Keeps Inv onReady :=
  .bind (.set fun inv => ⟨inv.once, inv.closed⟩) fun _ => .bind .get fun _ => .bind .get fun _ => .bind .get fun _ =>
    .bind .get fun _ => .bind (.when (.panic fun inv => inv)) fun _ =>
    .bind (deref_keeps (fun inv => inv) fun inv => inv) fun _ => .bind .get fun _ => .bind ask_keeps fun _ => .pure

theorem onHandler_wp {index : Nat} {c : HandlerCall} (inv : Inv w) (going : w.done = false) :
    replyContract.wp (onHandler n index c) (fun _ => Inv) w := by
  have opened : Open w := inv.open going
  cases c with
  | continueReceiving => exact doContinue_wp (runReceiveTrailersFilters_keeps _ _) inv going
  | appendHeaders headers last =>
    exact doAppendHeaders_wp (w := { w with stream.downstreamRespHeaders := headers }) ⟨inv.once, inv.closed⟩ opened
  | appendData buf last => exact doAppendData_wp inv opened
  | appendTrailers trailers =>
    exact doAppendTrailers_wp (w := { w with stream.downstreamRespTrailers := trailers })
      ⟨inv.once, inv.closed⟩ opened
  | sendHijackReply code headers => exact sendHijackReply_wp inv opened

/-! ### Every run -/

theorem program_wp {stack : List (Site × (Status → Program Unit))} {e : Entry} (inv : Inv w)
    (meets : Guarded ⟨w, stack⟩ (.enter e)) : replyContract.wp (program n e) (fun _ => Inv) w := by
  cases e with
  | downstream d => exact onDownstream_keeps d w inv
  | upstream d => exact onUpstream_keeps d w inv
  | onReady => exact onReady_keeps w inv
  | onFailure => exact ⟨inv.once, inv.closed⟩
  | filter index c => exact onHandler_wp inv meets
  | down =>
    show replyContract.wp (handleFirst (handleDown n) w.down) _ _
    have meets : ∀ e ∈ w.down.head?, e = .recv ∨ e.unchecked = true → w.done = false := meets
    cases queued : w.down with
    | nil => exact ⟨inv.once, inv.closed⟩
    | cons e rest =>
      rw [queued] at meets
      exact handleDown_wp ⟨inv.once, inv.closed⟩ (meets e rfl)
  | up =>
    show replyContract.wp (handleFirst Upstream.handleUp w.up) _ _
    have meets : ∀ e ∈ w.up.head?, e.unchecked = true → w.done = false := meets
    cases queued : w.up with
    | nil => exact ⟨inv.once, inv.closed⟩
    | cons e rest =>
      rw [queued] at meets
      exact handleUp_wp ⟨inv.once, inv.closed⟩ (meets e rfl)

theorem inv_newStream (config : Config) (n : Nat) : Inv (newStream config n) :=
  ⟨List.Pairwise.nil, fun ⟨_, there, _⟩ => (nomatch there)⟩

/-- **One reply.** In every run in which what the code does not check comes while the stream is not
done, the response sender gets one end of stream and nothing behind it or behind the cleaning. -/
theorem oneReply_of_guarded {config : Config} {n : Nat} {moves : List (Reactor.Move Entry Status)}
    {c : Reactor.Config World Site Status} (meets : (reactor n).system.Meets Guarded ⟨newStream config n, []⟩ moves)
    (ran : (reactor n).system.run ⟨newStream config n, []⟩ moves = some c) : OneReply c.world.trace := by
  have holds : Reactor.Holds replyContract c.stack c.world := by
    refine Reactor.run_holds ?_ ?_ ?_ (inv_newStream config n) meets ran
    · exact fun inv _ meets => program_wp inv meets
    · exact fun inv _ _ meets => wp_mono (fun _ _ inv => ⟨inv, trivial⟩) (program_wp inv meets)
    · rintro w site next stack status meets rfl filter
      exact meets (site, next) rfl filter
  exact holds.of (P := fun w => OneReply w.trace) (fun inv => inv.once) fun inv => inv.once

instance (c : Reactor.Config World Site Status) : ∀ move, Decidable (Guarded c move)
  | .enter (.filter _ _) => inferInstanceAs (Decidable (c.world.done = false))
  | .enter .down => inferInstanceAs (Decidable (∀ e ∈ c.world.down.head?, _ → _))
  | .enter .up => inferInstanceAs (Decidable (∀ e ∈ c.world.up.head?, _ → _))
  | .enter (.downstream _) => isTrue trivial
  | .enter (.upstream _) => isTrue trivial
  | .enter .onReady => isTrue trivial
  | .enter .onFailure => isTrue trivial
  | .answer .stop => isTrue trivial
  | .answer .continue_ => inferInstanceAs (Decidable (∀ frame ∈ c.stack.head?, _ → _))

/-- A proxy with one pool, for its own protocol. -/
def onePool : Config := { downstreamProtocol := "Http1", upstreamProtocol := "MQ", connPoolFactories := ["MQ"] }

/-- A request without a body; the pool is ready at once, and the sender answers inside `AppendHeaders`. -/
def exchange : List (Reactor.Move Entry Status) :=
  [.enter (.downstream (.onReceive none none none)), .enter .down, .enter .onReady,
    .enter (.upstream (.onReceiveHeaders none true)), .answer .continue_, .answer .continue_]

/-- The theorem at a request that is answered. -/
theorem oneReply_of_guarded_exchange :
    (reactor 0).system.Meets Guarded ⟨newStream onePool 0, []⟩ (exchange ++ [.enter .up]) ∧
      ∃ c, (reactor 0).system.run ⟨newStream onePool 0, []⟩ (exchange ++ [.enter .up]) = some c ∧
        OneReply c.world.trace := by
  have meets : (reactor 0).system.Meets Guarded ⟨newStream onePool 0, []⟩ (exchange ++ [.enter .up]) := by
    decide
  obtain ⟨c, ran⟩ : ∃ c, (reactor 0).system.run ⟨newStream onePool 0, []⟩ (exchange ++ [.enter .up]) = some c :=
    Option.isSome_iff_exists.mp (by decide)
  exact ⟨meets, c, ran, oneReply_of_guarded meets ran⟩

/-- The downstream resets the stream before the answer is handled. -/
def resetFirst : List (Reactor.Move Entry Status) :=
  exchange ++ [.enter (.downstream .onResetStream), .enter .down, .enter .up]

/-- A request with a body, and two filters that reply and continue. -/
def bothReply : List (Reactor.Move Entry Status) :=
  [.enter (.downstream (.onReceive none (some []) none)), .enter .down,
    .enter (.filter 0 (.appendHeaders none true)), .answer .continue_,
    .enter (.filter 1 (.appendHeaders none true))]

/-- **Headers come behind a reset, and two filters reply.** -/
theorem headers_after_reset :
    (∃ c, (reactor 0).system.run ⟨newStream onePool 0, []⟩ resetFirst = some c ∧ ¬ OneReply c.world.trace) ∧
      ∃ c, (reactor 2).system.run ⟨newStream onePool 2, []⟩ bothReply = some c ∧ ¬ OneReply c.world.trace := by
  have fails : ∀ (n : Nat) (moves : List (Reactor.Move Entry Status)) {trace : List Effect},
      ((reactor n).system.run ⟨newStream onePool n, []⟩ moves).map (·.world.trace) = some trace → ¬ OneReply trace →
      ∃ c, (reactor n).system.run ⟨newStream onePool n, []⟩ moves = some c ∧ ¬ OneReply c.world.trace := by
    intro n moves trace ran twice
    obtain ⟨c, reached, rfl⟩ := Option.map_eq_some_iff.mp ran
    exact ⟨c, reached, twice⟩
  constructor
  · exact fails 0 resetFirst rfl (by decide)
  · exact fails 2 bothReply rfl (by decide)

end Strike.Proxy
