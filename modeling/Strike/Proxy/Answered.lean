/-
**No request is forgotten**: when nothing of a stream is queued, handled or owed, its request has been
answered or the stream was reset, as long as the upstream only fails while a part of the body is left.

* `settled_of_obliging`: in every such run, a quiet stream is settled.
* `failure_forgotten`: a failure of the pool, and a reset of the upstream, leave a request without a body
  unanswered, because `onUpstreamReset` is commented out.
-/

import Strike.Proxy.Settling

namespace Strike.Proxy

open Strike.Lib Contract

namespace Settling

variable {on : Bool} {safe : Prop} {w v : World} {n : Nat}

/-! ### The callbacks -/

variable {e : Event} {buffered : Bool} {s : View}

theorem any_snoc {queue : List Event} {f : Event → Bool} (kept : queue.any f = true) :
    (queue ++ [e]).any f = true := by
  rw [List.any_append, kept, Bool.true_or]

/-- One more event behind the headers: a part of the body is queued as it is buffered. -/
theorem covered_snoc (covered : Covered s) (fits : e.ofData = true ∨ buffered = s.body) :
    Covered { s with down := s.down ++ [e], body := buffered } := by
  intro left
  show (s.down ++ [e]).any Event.ofData = true
  rcases fits with data | rfl
  · rw [List.any_append, List.any_cons, data, Bool.true_or, Bool.or_true]
  · have left : ((s.down ++ [e]).any Event.ofData || (s.body && !s.dataSent)) = true := left
    rcases Bool.or_eq_true_iff.mp left with queued | body
    · exact queued
    · exact any_snoc (covered (Bool.or_eq_true_iff.mpr (.inr body)))

theorem Ready.arrive (last : Bool) (ready : Ready on safe s) (plain : e.plain = true)
    (fits : e.ofData = true ∨ buffered = s.body) :
    Ready on safe { s with
      arrived := if last then .whole else .begun, down := s.down ++ [e], body := buffered } := by
  refine ⟨⟨ready.live.base, ?_, ?_,
    ready.live.linked⟩, ready.asked, fun yes => ?_, fun ask => covered_snoc (ready.covered ask) fits⟩
  · cases last <;> exact nofun
  · intro a there
    rcases List.mem_append.mp there with old | new
    · exact ready.live.plain a old
    · exact (List.mem_singleton.mp new) ▸ plain
  · rcases ready.up yes with owed | final | ⟨no, left⟩
    · exact .inl owed
    · exact .inr (.inl final)
    · refine .inr (.inr ⟨no, ?_⟩)
      show ((s.down ++ [e]).any Event.ofData || (buffered && !s.dataSent)) = true
      rcases fits with data | rfl
      · rw [List.any_append, List.any_cons, data, Bool.true_or, Bool.or_true, Bool.true_or]
      · rcases Bool.or_eq_true_iff.mp left with queued | body
        · rw [any_snoc queued, Bool.true_or]
        · rw [body, Bool.or_true]

theorem onResetStream_wp (base : Base (view w).toCore) : contract.wp (onDownstream .onResetStream) (fun _ => Settled) w := by
  have parts : w.done = false := base.going
  unfold World.done at parts
  rw [Bool.or_eq_false_iff, Bool.or_eq_false_iff] at parts
  unfold onDownstream
  rw [wp_bind, wp_access, parts.1.2, wp_ite, if_neg Bool.false_ne_true, if_neg Bool.false_ne_true]
  refine keeps_settled (.bind .get fun _ => .bind (.when .panic) fun _ => lasting.offerDown) _ ?_
  exact settled_emit (w := w) (e := .reset) rfl

theorem onDownstream_wp {d : Delivery} (phase : Phase on safe w) (allowed : w.arrived.allows d = true) :
    contract.wp (onDownstream d) (fun _ => Phase on safe) w := by
  refine wp_of_ready phase (lasting.onDownstream d) (fun _ _ settled => .inl settled) fun ready => ?_
  have begun : w.arrived ≠ .nothing := ready.live.begun
  cases d with
  | onReceive headers data trailers => exact absurd (Arrived.allows_onReceive.mp allowed) begun
  | onReceiveHeaders headers last => exact absurd (Arrived.allows_onReceiveHeaders.mp allowed) begun
  | onReceiveData data last => exact .inr (ready.arrive last (e := .recvData last) rfl (.inl rfl))
  | onReceiveTrailers trailers => exact .inr (ready.arrive true (e := .recvTrailer trailers) rfl (.inr rfl))
  | onResetStream => exact wp_mono (fun _ _ settled => .inl settled) (onResetStream_wp ready.live.base)

theorem Waiting.start (last : Bool) (waiting : Waiting s)
    (nothing : s.arrived = .nothing) (starts : e.starts = true) (fits : e = .recv ∨ buffered = s.body) :
    Waiting { s with
      arrived := if last then .whole else .begun, down := s.down ++ [e], body := buffered } := by
  refine ⟨waiting.base, waiting.fresh, waiting.quiet, .inr ?_⟩
  rcases waiting.queue with ⟨_, empty, none⟩ | ⟨begun, _⟩
  · refine ⟨by cases last <;> exact nofun, e, [], congrArg (· ++ [e]) empty, starts,
      fun _ none => (nomatch none), fits.imp id fun same left => ?_⟩
    have left : ((s.down ++ [e]).any Event.ofData || (buffered && !s.dataSent)) = true := left
    rwa [same, none, Bool.false_and, Bool.or_false] at left
  · exact absurd nothing begun

theorem Waiting.arrive (last : Bool) (waiting : Waiting s)
    (begun : s.arrived ≠ .nothing) (plain : e.plain = true) (fits : e.ofData = true ∨ buffered = s.body) :
    Waiting { s with
      arrived := if last then .whole else .begun, down := s.down ++ [e], body := buffered } := by
  refine ⟨waiting.base, waiting.fresh, waiting.quiet, .inr ?_⟩
  rcases waiting.queue with ⟨nothing, _⟩ | ⟨_, first, rest, queued, starts, others, covered⟩
  · exact absurd nothing begun
  · refine ⟨by cases last <;> exact nofun, first, rest ++ [e], ?_, starts, ?_,
      covered.imp id fun covered => covered_snoc covered fits⟩
    · show s.down ++ [e] = first :: (rest ++ [e])
      rw [queued, List.cons_append]
    · intro a there
      rcases List.mem_append.mp there with old | new
      · exact others a old
      · exact (List.mem_singleton.mp new) ▸ plain

theorem onDownstream_waiting {d : Delivery} (waiting : Waiting (view w)) (allowed : w.arrived.allows d = true) :
    contract.wp (onDownstream d) (fun _ => contract.rest) w := by
  cases d with
  | onReceive headers data trailers =>
    have nothing := Arrived.allows_onReceive.mp allowed
    unfold onDownstream
    rw [wp_bind, wp_set, wp_bind, wp_when]
    exact ⟨fun _ => .inl (waiting.start true nothing rfl (.inl rfl)),
      fun _ => .inl (waiting.start true nothing rfl (.inl rfl))⟩
  | onReceiveHeaders headers last =>
    have nothing := Arrived.allows_onReceiveHeaders.mp allowed
    exact .inl (waiting.start last (e := .recvHeader headers last) nothing rfl (.inr rfl))
  | onReceiveData data last =>
    have begun : w.arrived ≠ .nothing := fun nothing => by
      cases nothing.symm.trans (Arrived.allows_onReceiveData.mp allowed)
    exact .inl (waiting.arrive last (e := .recvData last) begun rfl (.inl rfl))
  | onReceiveTrailers trailers =>
    have begun : w.arrived ≠ .nothing := fun nothing => by
      cases nothing.symm.trans (Arrived.allows_onReceiveTrailers.mp allowed)
    exact .inl (waiting.arrive true (e := .recvTrailer trailers) begun rfl (.inr rfl))
  | onResetStream => exact wp_mono (fun _ _ settled => .inr (.inl settled)) (onResetStream_wp waiting.base)

/-- The client stream delivers: with the last part it owes nothing more, but the part is queued. -/
theorem Ready.offer (ready : Ready true safe s) :
    Ready true safe { s with owed := s.owed && !e.last, up := s.up ++ [e] } := by
  refine ⟨⟨ready.live.base,
    ready.live.begun, ready.live.plain, ready.live.linked⟩, ready.asked, fun _ => ?_, ready.covered⟩
  rcases ready.up rfl with owed | final | body
  · cases last : e.last with
    | false => exact .inl (by rw [owed]; rfl)
    | true =>
      refine .inr (.inl ?_)
      show (s.up ++ [e]).any Event.last = true
      rw [List.any_append, List.any_cons, last, Bool.true_or, Bool.or_true]
  · exact .inr (.inl (any_snoc final))
  · exact .inr (.inr body)

theorem offerUp_wp {post : Unit → World → Prop} (linked : w.request.downStream = true)
    (context : w.stream.context = true) (holds : post () { w with up := w.up ++ [e] }) :
    contract.wp (offerUp e) post w := by
  unfold offerUp
  rw [wp_bind]
  refine deref_wp linked ?_
  rw [wp_bind, wp_get, wp_bind, wp_when]
  exact ⟨fun no => absurd (congrArg not context) (ne_of_eq_of_ne no (by decide)), fun _ => holds⟩

theorem onUpstream_wp {d : Delivery} (ready : Ready true safe (view w)) :
    contract.wp (onUpstream d) (fun _ => Phase true safe) w := by
  have linked : w.request.downStream = true := (ready.live.linked ready.asked).2
  have context : w.stream.context = true := ready.live.base.context
  cases d with
  | onReceive headers data trailers =>
    unfold onUpstream
    rw [wp_bind]
    refine deref_wp linked ?_
    rw [wp_bind, wp_set, wp_bind, wp_when]
    have ends : ∀ {v : World}, v.request.downStream = true → v.stream.context = true →
        view v = view (w.answer true) → contract.wp (do
          Upstream.deref id
          Prog.set fun w => { w with stream.downstreamRespTrailers := trailers }
          offerUp .recv) (fun _ => Phase true safe) v := by
      intro v linked context same
      rw [wp_bind]
      refine deref_wp linked ?_
      rw [wp_bind, wp_set]
      refine offerUp_wp linked context (.inr ?_)
      show Ready true safe { view v with up := (view v).up ++ [Event.recv] }
      rw [same]
      exact ready.offer (e := .recv)
    refine ⟨fun _ => ?_, fun _ => ends linked context rfl⟩
    rw [wp_bind]
    exact deref_wp linked (ends linked context rfl)
  | onReceiveHeaders headers last =>
    unfold onUpstream
    rw [wp_bind]
    exact deref_wp linked (offerUp_wp linked context (.inr (ready.offer (e := .recvHeader headers last))))
  | onReceiveData data last =>
    unfold onUpstream
    rw [wp_bind]
    refine deref_wp linked ?_
    rw [wp_bind, wp_set]
    exact offerUp_wp linked context (.inr (ready.offer (e := .recvData last)))
  | onReceiveTrailers trailers =>
    unfold onUpstream
    rw [wp_bind]
    exact deref_wp linked (offerUp_wp linked context (.inr (ready.offer (e := .recvTrailer trailers))))
  | onResetStream =>
    unfold onUpstream
    rw [wp_bind]
    exact deref_wp linked (offerUp_wp linked context (.inr (ready.offer (e := .reset))))

theorem onReady_wp (ready : Ready true safe (view w)) (owed : w.owed = true) :
    contract.wp onReady (fun _ => Phase true safe) w := by
  unfold onReady
  rw [wp_bind, wp_set, wp_bind, wp_get, wp_bind, wp_get, wp_bind, wp_get, wp_bind, wp_get, wp_bind, wp_when]
  refine ⟨nofun, fun _ => ?_⟩
  rw [wp_bind]
  refine deref_wp (ready.live.linked ready.asked).2 ?_
  rw [wp_bind, wp_get]
  refine (Keeps.bind ask_keeps fun _ => .pure) _ (.inr ⟨⟨ready.live.base, ready.live.begun, ready.live.plain,
    ready.live.linked⟩, ready.asked, fun _ => .inl owed, ready.covered⟩)

/-- A filter replies: the stream is settled, or nothing else has changed. -/
theorem onHandler_wp {index : Nat} {c : HandlerCall} (base : Base (view w).toCore) (reply : c ≠ .continueReceiving) :
    contract.wp (onHandler n index c) (fun _ v => Settled v ∨ view v = view w) w := by
  have replies : ∀ {last : Bool} {v}, Replied last w v → Settled v ∨ view v = view w :=
    fun replied => replied.imp id And.right
  cases c with
  | continueReceiving => exact absurd rfl reply
  | appendHeaders headers last =>
    exact wp_mono (fun _ _ => replies)
      (doAppendHeaders_wp (w := { w with stream.downstreamRespHeaders := headers }) base.responseSender)
  | appendData buf last => exact wp_mono (fun _ _ => replies) (doAppendData_wp base.responseSender)
  | appendTrailers trailers =>
    exact wp_mono (fun _ _ => replies)
      (doAppendTrailers_wp (w := { w with stream.downstreamRespTrailers := trailers }) base.responseSender)
  | sendHijackReply code headers =>
    exact wp_mono (fun _ _ settled => .inl settled) (sendHijackReply_wp base.responseSender)

/-! ### Every run -/

theorem callback_wp {stack : List (Site × (Status → Program Unit))} {e : Entry} (phase : Phase on safe w)
    (allowed : allows n w false e = true) (meets : Obliging ⟨w, stack⟩ (.enter e)) :
    contract.wp (program n e) (fun _ => Phase on safe) w := by
  refine wp_of_ready phase (lasting.program e) (fun _ _ settled => .inl settled) fun ready => ?_
  cases e with
  | downstream d => exact onDownstream_wp (.inr ready) allowed
  | upstream d =>
    obtain rfl : on = true := ready.asked.symm.trans allowed
    exact onUpstream_wp ready
  | onReady =>
    obtain rfl : on = true := ready.asked.symm.trans allowed
    exact onReady_wp ready meets
  | onFailure =>
    obtain rfl : on = true := ready.asked.symm.trans allowed
    exact .inr (ready_fail ready.live ready.asked ready.covered meets)
  | filter index c =>
    refine wp_mono (fun _ v replied => ?_) (onHandler_wp ready.live.base meets)
    exact replied.imp id fun (same : view v = view w) => same ▸ ready
  | down => cases allowed
  | up => cases allowed

/-- **A callback or an event**, while nothing else is handled. -/
theorem program_wp {e : Entry} (holds : contract.rest w) (allowed : allows n w true e = true)
    (meets : Obliging ⟨w, []⟩ (.enter e)) : contract.wp (program n e) (fun _ => contract.rest) w := by
  cases e with
  | down =>
    show contract.wp (handleFirst (handleDown n) w.down) _ { w with down := w.down.tail }
    cases queued : w.down with
    | nil => exact absurd allowed (by rw [allows, queued]; decide)
    | cons e rest => exact handleDown_wp holds queued
  | up =>
    show contract.wp (handleFirst Upstream.handleUp w.up) _ { w with up := w.up.tail }
    have meets : w.up.head? = some .reset → _ := meets
    cases queued : w.up with
    | nil => exact absurd allowed (by rw [allows, queued]; decide)
    | cons e rest =>
      rw [queued] at meets
      suffices kept : contract.wp (Upstream.handleUp e) (fun _ => Phase true True) { w with up := rest } from
        wp_mono (fun _ _ phase => .inr phase) kept
      rcases holds with waiting | settled | ready
      · exact absurd (queued.symm.trans waiting.quiet) (List.cons_ne_nil _ _)
      · exact wp_mono (fun _ _ settled => .inl settled) (keeps_settled (lasting.handleUp e) _ settled)
      · exact handleUp_wp ready queued fun reset => meets (congrArg some reset)
  | downstream d =>
    rcases holds with waiting | phase
    · exact onDownstream_waiting waiting allowed
    · exact wp_mono (fun _ _ phase => .inr phase) (callback_wp phase allowed meets)
  | filter index c =>
    rcases holds with waiting | phase
    · refine wp_mono (fun _ v replied => ?_) (onHandler_wp waiting.base meets)
      exact replied.elim (fun settled => .inr (.inl settled)) fun same => .inl (same ▸ waiting)
    · exact wp_mono (fun _ _ phase => .inr phase) (callback_wp phase allowed meets)
  | upstream d =>
    rcases holds with waiting | phase
    · exact absurd (allowed.symm.trans waiting.fresh) (by decide)
    · exact wp_mono (fun _ _ phase => .inr phase) (callback_wp phase allowed meets)
  | onReady =>
    rcases holds with waiting | phase
    · exact absurd (allowed.symm.trans waiting.fresh) (by decide)
    · exact wp_mono (fun _ _ phase => .inr phase) (callback_wp phase allowed meets)
  | onFailure =>
    rcases holds with waiting | phase
    · exact absurd (allowed.symm.trans waiting.fresh) (by decide)
    · exact wp_mono (fun _ _ phase => .inr phase) (callback_wp phase allowed meets)

theorem inside_wp {stack : List (Site × (Status → Program Unit))} {e : Entry} (inv : contract.inv w)
    (allowed : allows n w false e = true) (meets : Obliging ⟨w, stack⟩ (.enter e)) :
    contract.wp (program n e) (fun _ v => contract.inv v ∧ contract.change w v) w := by
  by_cases settled : Settled w
  · exact wp_mono (fun _ _ later => ⟨.inl later, .inl later⟩) (keeps_settled (lasting.program e) w settled)
  · have ready : Ready w.asked False (view w) := inv.resolve_left settled
    have phase : Phase w.asked (Covered (view w)) w := .inr ⟨ready.live, rfl, ready.up, fun covered => covered⟩
    refine wp_mono (fun _ v later => ⟨later.inv, ?_⟩) (callback_wp phase allowed meets)
    exact later.imp id fun later => ⟨settled, later.asked, later.covered⟩

theorem rest_newStream (config : Config) (n : Nat) : contract.rest (newStream config n) :=
  .inl ⟨⟨rfl, rfl, rfl, rfl, fun _ => rfl⟩, rfl, rfl, .inl ⟨rfl, rfl, rfl⟩⟩

theorem settled_of_quiet {c : Reactor.Config World Site Status} (holds : Reactor.Holds contract c.stack c.world)
    (quiet : Quiet c) : Settled c.world := by
  obtain ⟨idle, down, up, whole, owed⟩ := quiet
  rw [idle] at holds
  rcases (holds : contract.rest c.world) with waiting | settled | ready
  · rcases waiting.queue with ⟨nothing, _⟩ | ⟨_, e, rest, queued, _⟩
    · exact absurd (whole.symm.trans nothing) (by decide)
    · exact absurd (queued.symm.trans down) (List.cons_ne_nil _ _)
  · exact settled
  · rcases ready.up rfl with owes | final | ⟨_, left⟩
    · exact absurd (owes.symm.trans owed) (by decide)
    · have final : c.world.up.any Event.last = true := final
      rw [up] at final
      cases final
    · have queued : c.world.down.any Event.ofData = true := ready.covered trivial left
      rw [down] at queued
      cases queued

end Settling

/-- **No request is forgotten.** In every run in which the filters continue and the upstream fails only
when the stream is done or a part of the body is left, a quiet stream is settled. -/
theorem settled_of_obliging {config : Config} {n : Nat} {moves : List (Reactor.Move Entry Status)}
    {c : Reactor.Config World Site Status} (meets : (reactor n).system.Meets Obliging ⟨newStream config n, []⟩ moves)
    (ran : (reactor n).system.run ⟨newStream config n, []⟩ moves = some c) (quiet : Quiet c) : Settled c.world := by
  refine Settling.settled_of_quiet (Reactor.run_holds ?_ ?_ ?_ (Settling.rest_newStream config n) meets ran) quiet
  · exact fun rest allowed meets => Settling.program_wp rest allowed meets
  · exact fun inv allowed _ meets => Settling.inside_wp inv allowed meets
  · intro w site next stack status meets filter
    cases status with
    | continue_ => rfl
    | stop => exact absurd (filter.symm.trans (meets (site, next) rfl)) (by decide)

instance (c : Reactor.Config World Site Status) : ∀ move, Decidable (Obliging c move)
  | .enter (.filter _ call) => inferInstanceAs (Decidable (call ≠ .continueReceiving))
  | .enter .onReady => inferInstanceAs (Decidable (c.world.owed = true))
  | .enter .onFailure => inferInstanceAs (Decidable (_ ∨ _))
  | .enter .up => inferInstanceAs (Decidable (_ → _ ∨ _))
  | .enter (.downstream _) => isTrue trivial
  | .enter (.upstream _) => isTrue trivial
  | .enter .down => isTrue trivial
  | .answer .continue_ => isTrue trivial
  | .answer .stop => inferInstanceAs (Decidable (∀ frame ∈ c.stack.head?, _))

instance (c : Reactor.Config World Site Status) : Decidable (Quiet c) :=
  decidable_of_iff (c.stack.isEmpty = true ∧ c.world.down = [] ∧ c.world.up = [] ∧ c.world.arrived = .whole ∧
    c.world.owed = false) (and_congr_left fun _ => List.isEmpty_iff)

/-- The theorem at a request that is answered. -/
theorem settled_of_obliging_exchange :
    (reactor 0).system.Meets Obliging ⟨newStream onePool 0, []⟩ (exchange ++ [.enter .up]) ∧
      ∃ c, (reactor 0).system.run ⟨newStream onePool 0, []⟩ (exchange ++ [.enter .up]) = some c ∧ Quiet c ∧
        Settled c.world := by
  have meets : (reactor 0).system.Meets Obliging ⟨newStream onePool 0, []⟩ (exchange ++ [.enter .up]) := by
    decide
  have quiet : ∀ c ∈ (reactor 0).system.run ⟨newStream onePool 0, []⟩ (exchange ++ [.enter .up]), Quiet c := by
    decide
  obtain ⟨c, ran⟩ : ∃ c, (reactor 0).system.run ⟨newStream onePool 0, []⟩ (exchange ++ [.enter .up]) = some c :=
    Option.isSome_iff_exists.mp (by decide)
  exact ⟨meets, c, ran, quiet c ran, settled_of_obliging meets ran (quiet c ran)⟩

/-- A request without a body, and a pool that fails. -/
def poolFails : List (Reactor.Move Entry Status) :=
  [.enter (.downstream (.onReceive none none none)), .enter .down, .enter .onFailure, .answer .continue_]

/-- A request without a body; the pool is ready, and the upstream resets instead of answering. -/
def upstreamResets : List (Reactor.Move Entry Status) :=
  [.enter (.downstream (.onReceive none none none)), .enter .down, .enter .onReady, .answer .continue_,
    .answer .continue_, .enter (.upstream .onResetStream), .enter .up]

/-- **A failure is forgotten, and so is a reset of the upstream.** -/
theorem failure_forgotten :
    (∃ c, (reactor 0).system.run ⟨newStream onePool 0, []⟩ poolFails = some c ∧ Quiet c ∧ ¬ Settled c.world) ∧
      ∃ c, (reactor 0).system.run ⟨newStream onePool 0, []⟩ upstreamResets = some c ∧ Quiet c ∧
        ¬ Settled c.world := by
  have forgotten : ∀ moves ∈ [poolFails, upstreamResets],
      ((reactor 0).system.run ⟨newStream onePool 0, []⟩ moves).isSome = true ∧
        ∀ c ∈ (reactor 0).system.run ⟨newStream onePool 0, []⟩ moves, Quiet c ∧ ¬ Settled c.world := by
    decide
  have reaches : ∀ moves ∈ [poolFails, upstreamResets],
      ∃ c, (reactor 0).system.run ⟨newStream onePool 0, []⟩ moves = some c ∧ Quiet c ∧ ¬ Settled c.world := by
    intro moves listed
    obtain ⟨runs, fails⟩ := forgotten moves listed
    obtain ⟨c, ran⟩ := Option.isSome_iff_exists.mp runs
    exact ⟨c, ran, fails c ran⟩
  exact ⟨reaches poolFails List.mem_cons_self, reaches upstreamResets (List.mem_cons_of_mem _ List.mem_cons_self)⟩

end Strike.Proxy
