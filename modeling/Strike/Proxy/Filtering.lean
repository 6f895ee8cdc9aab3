/-
**The filters hold the stream**: the runs over the chain keep it in order, as long as a filter continues
outside of callbacks and is the first of those that hold the stream.

* `filtered_of_orderly`: the property in every run.
* `handed_while_held`: a filter behind another one continues, and a filter continues twice.
-/

import Strike.Proxy.Holding

namespace Strike.Proxy

open Strike.Lib Contract

/-- **The condition on a move**: a filter continues outside of callbacks, and it is the first of those that
hold the stream. -/
def Orderly (c : Reactor.Config World Site Status) : Reactor.Move Entry Status → Prop
  | .enter (.filter index .continueReceiving) =>
    c.stack.isEmpty = true ∧ held c.world.trace index = true ∧ ∀ j < index, held c.world.trace j = false
  | _ => True

namespace Holding

variable {n i k : Nat} {late : Prop} {Q : Line → Prop} {w v : World}

/-! ### What is noted of the chain -/

namespace Still

theorem see {part : Part} (good : Filtered n w.trace) (alive : Alive n (view n w)) (holds : Q (view n w).toLine)
    (fits : ∀ old ∈ (view n w).sights, Before old (i, part)) :
    Still n (fun l => ∃ old, Q old ∧ l = old.see i part) (w.emit (.shown i part)) := by
  refine ⟨good.snoc (fun sight shown => ?_) nofun nofun, .inr ⟨?_, _, holds, ?_⟩⟩
  · cases shown
    exact fits
  · exact ⟨alive.context, alive.responseSender, alive.filters, alive.linked, alive.queue⟩
  · show Line.mk (sights (w.trace ++ [Effect.shown i part])) (held (w.trace ++ [Effect.shown i part])) _ _ _ _ _ = _
    rw [sights_snoc, held_snoc]
    rfl

theorem hear {e : Effect} (still : Still n Q w) (silent : e.sight = none) (kept : ∀ part, e ≠ .handed part) :
    Still n (fun l => ∃ old, Q old ∧ l = old.hear e) (w.emit e) := by
  refine ⟨Filtered.snoc still.1 (fun sight shown => ?_) (fun part same => absurd same (kept part))
    (fun same => absurd same (kept _)), still.2.imp id fun alive => ⟨?_, _, alive.2, ?_⟩⟩
  · rw [silent] at shown
    cases shown
  · exact ⟨alive.1.context, alive.1.responseSender, alive.1.filters, alive.1.linked, alive.1.queue⟩
  · show Line.mk (sights (w.trace ++ [e])) (held (w.trace ++ [e])) _ _ _ _ _ = _
    rw [sights_snoc, held_snoc, silent, Option.toList_none, List.append_nil]
    rfl

theorem hand {part : Part} (good : Filtered n w.trace) (alive : Alive n (view n w)) (holds : Q (view n w).toLine)
    (free : ∀ j, (view n w).held j = false)
    (seen : part = .headers → ∀ j < n, (j, .headers) ∈ (view n w).sights) :
    Still n Q (w.emit (.handed part)) := by
  have line : (view n (w.emit (.handed part))).toLine = (view n w).toLine := by
    show Line.mk (sights (w.trace ++ [Effect.handed part])) (held (w.trace ++ [Effect.handed part])) _ _ _ _ _ = _
    rw [sights_snoc, held_snoc]
    exact congrArg (fun sights => Line.mk sights _ _ _ _ _ _) (List.append_nil _)
  refine ⟨good.snoc nofun (fun _ _ => free) (fun same => ?_), .inr ⟨?_, line ▸ holds⟩⟩
  · exact seen (Effect.handed.inj same)
  · exact ⟨alive.context, alive.responseSender, alive.filters, alive.linked, alive.queue⟩

theorem onFilter {f : ActiveStreamFilter → ActiveStreamFilter} (still : Still n Q w) :
    Still n (fun l => ∃ old, Q old ∧ l = old.onFilter i f) (w.onFilter i f) :=
  ⟨still.1, still.2.imp id fun alive => ⟨⟨alive.1.context, alive.1.responseSender, alive.1.filters, alive.1.linked,
    alive.1.queue⟩, _, alive.2, rfl⟩⟩

theorem ask (still : Still n Q w) (linked : w.request.downStream = true) :
    Still n (fun l => ∃ old, Q old ∧ l = { old with asked := true }) { w with asked := true, owed := true } :=
  ⟨still.1, still.2.imp id fun alive => ⟨⟨alive.1.context, alive.1.responseSender, alive.1.filters, fun _ => linked,
    alive.1.queue⟩, _, alive.2, rfl⟩⟩

theorem rest (still : Still n Q w) (rests : ∀ l, Q l → Running n l) : (contract n).rest w :=
  still.mono fun l holds => .inr (rests l holds)

end Still

theorem Passing.running {l : Line} (passing : Passing n late i l) : Running n l := by
  obtain ⟨h, pass⟩ := passing
  exact pass.running

theorem onUpstreamRequestSent_keeps : (contract n).Keeps (Still n Q) onUpstreamRequestSent := set_keeps fun _ => rfl

theorem upstreamRequest_wp {post : Unit → World → Prop} (still : Still n Q w) (rests : ∀ l, Q l → Running n l)
    (next : Filtered n w.trace → Alive n (view n w) → Q (view n w).toLine → w.stream.upstreamRequest = true → post () w) :
    (contract n).wp upstreamRequest post w := by
  unfold upstreamRequest
  rw [wp_bind, wp_get, wp_when]
  refine ⟨fun _ => still.rest rests, fun there => ?_⟩
  have requested : w.stream.upstreamRequest = true := (Bool.not_eq_false' ..).mp there
  obtain ⟨good, dead | ⟨alive, holds⟩⟩ := still
  · exact absurd (requested.symm.trans dead.2.2) (by decide)
  · exact next good alive holds requested

theorem deref_wp {f : World → World} {p : Program Unit} (still : Still n Q (f w)) (rests : ∀ l, Q l → Running n l)
    (keeps : (contract n).Keeps (Still n Q) p) :
    (contract n).wp (Upstream.deref f >>= fun _ => p) (fun _ => Still n Q) w := by
  unfold Upstream.deref
  rw [wp_bind, wp_bind, wp_access]
  exact wp_mono (fun _ v still => keeps v still) (Keeps.when (.panic fun still => still.rest rests) _ still)

/-! ### A run over the headers -/

theorem callFilter_wp {part : Part} {stage : UInt64} {site : Site} (good : Filtered n w.trace)
    (alive : Alive n (view n w)) (holds : Q (view n w).toLine)
    (fits : ∀ old ∈ (view n w).sights, Before old (i, part)) :
    (contract n).wp (callFilter i part stage site) (fun status v =>
      Still n (fun l => ∃ old, Q old ∧ l = (old.see i part).hear (.answered i status)) v) w := by
  unfold callFilter
  rw [wp_bind, wp_set, wp_bind, wp_ask]
  have shown : Still n (fun l => ∃ old, Q old ∧ l = old.see i part) { w.emit (.shown i part) with
      stream.filterStage := w.stream.filterStage ||| stage } := (Still.see good alive holds fits).same rfl
  refine ⟨shown.inv, fun v status inv change _ => ?_⟩
  rw [wp_bind, wp_set, wp_pure]
  refine Still.same (((shown.call inv change).hear (e := .answered i status) rfl nofun).mono ?_) rfl
  rintro l ⟨_, ⟨old, holds, rfl⟩, rfl⟩
  exact ⟨old, holds, rfl⟩

variable {headers : Option CommonHeader} {last : Bool}

/-- The run stops at a filter that then holds the stream, or comes to the end of the chain. -/
theorem runReceiveHeadersFilters_wp : ∀ (left h : Nat) {w : World}, n ≤ left + h → Still n (Heading n late i h) w →
      (contract n).wp (runReceiveHeadersFilters headers last left h) (fun stopped v =>
        (stopped = true → Still n (Passing n late i) v) ∧
        (stopped = false → Still n (fun l => ∃ h, Heading n late i h l ∧ n ≤ h) v)) w := by
  intro left
  induction left with
  | zero =>
    intro h w bound still
    exact ⟨fun no => (by cases no), fun _ => still.mono fun l heading => ⟨h, heading, bound.trans_eq (Nat.zero_add h)⟩⟩
  | succ left ih =>
    intro h w bound still
    unfold runReceiveHeadersFilters
    rw [wp_bind, wp_get, wp_ite]
    split
    · next room =>
        have room : h < w.stream.receiverFilters := of_decide_eq_true room
        obtain ⟨good, dead | ⟨alive, heading⟩⟩ := still
        · exact absurd (room.trans_eq dead.2.1) (Nat.not_lt_zero h)
        · have room : h < n := room.trans_eq alive.filters
          rw [wp_bind]
          refine wp_mono (fun status v answered => ?_) (callFilter_wp good alive heading heading.fits)
          cases status with
          | stop =>
            refine ⟨fun _ => answered.onFilter.mono ?_, fun no => (by cases no)⟩
            rintro l ⟨_, ⟨old, heading, rfl⟩, rfl⟩
            exact heading.stop room
          | continue_ =>
            refine ih (h + 1) (by omega) (answered.onFilter.mono ?_)
            rintro l ⟨_, ⟨old, heading, rfl⟩, rfl⟩
            exact heading.go room
    · next full =>
        have full : ¬ h < w.stream.receiverFilters := fun room => full (decide_eq_true room)
        refine ⟨fun no => (by cases no), fun _ => ⟨still.1, still.2.imp id fun alive => ⟨alive.1, h, alive.2, ?_⟩⟩⟩
        exact (show w.stream.receiverFilters = n from alive.1.filters) ▸ Nat.le_of_not_lt full

theorem requestUpstream_wp {h : Nat} (good : Filtered n w.trace) (alive : Alive n (view n w))
    (heading : Heading n late i h (view n w).toLine) (full : n ≤ h) :
    (contract n).wp (requestUpstream last) (fun _ => Still n (Passing n late i)) w := by
  have handed : Still n (fun l => l = { (view n w).toLine with upstreamRequest := true }) (World.emit { w with
      stream.upstreamRequest := true, request.downStream := true, request.connPool := true } (.handed .headers)) := by
    refine Still.hand good ?_ rfl heading.free fun _ j below => (heading.chain.heads j).mpr (below.trans_le full)
    exact ⟨alive.context, alive.responseSender, alive.filters, fun _ => rfl, alive.queue⟩
  unfold requestUpstream
  rw [wp_bind, wp_set, wp_bind, wp_set, wp_bind, wp_set, wp_bind]
  unfold upstreamRequest
  rw [wp_bind, wp_get, wp_when]
  refine ⟨nofun, fun _ => ?_⟩
  rw [wp_bind]
  refine wp_mono (fun _ v still => Keeps.when onUpstreamRequestSent_keeps v still) ?_
  unfold Upstream.appendHeaders Upstream.deref
  rw [wp_bind, wp_bind, wp_access, wp_when]
  refine ⟨nofun, fun _ => ?_⟩
  rw [wp_bind, wp_processDone, wp_ite]
  split
  · exact handed.mono fun l same => same ▸ heading.request full w.asked
  · rw [wp_bind, wp_set, wp_bind, wp_access, wp_bind, wp_when]
    refine ⟨nofun, fun _ => (Keeps.bind ask_keeps fun _ => .pure) _ ?_⟩
    refine Still.same ((handed.ask rfl).mono ?_) rfl
    rintro l ⟨_, rfl, rfl⟩
    exact heading.request full true

theorem doReceiveHeaders_wp {left : Nat} (bound : n ≤ left + i) (still : Still n (Heading n late i i) w) :
    (contract n).wp (doReceiveHeaders left i headers last) (fun _ => Still n (Passing n late i)) w := by
  unfold doReceiveHeaders
  rw [wp_bind]
  refine wp_mono (fun stopped v ran => ?_) (runReceiveHeadersFilters_wp left i bound still)
  cases stopped with
  | true => exact ran.1 rfl
  | false =>
    have still : Still n (fun l => ∃ h, Heading n late i h l ∧ n ≤ h) v := ran.2 rfl
    have passing : Still n (Passing n late i) v := still.mono fun l ⟨h, heading, full⟩ => heading.pass full
    rw [wp_ite, if_neg Bool.false_ne_true, wp_bind, wp_get]
    split
    · exact passing.rest fun l => Passing.running
    · next config known =>
        rw [wp_ite]
        split
        · exact sendHijackReply_keeps v passing
        · obtain ⟨good, dead | ⟨alive, h, heading, full⟩⟩ := still
          · exact absurd (known.symm.trans dead.1) (by simp)
          · exact requestUpstream_wp good alive heading full

/-! ### The body -/

theorem finish_keeps : (contract n).Keeps (Still n Q) (do
    Prog.when (← Prog.get (·.stream.upstreamProcessDone)) cleanStream) :=
  .bind .get fun _ => .when cleanStream_keeps

theorem doReceiveData_keeps {data : Option Bytes} :
    (contract n).Keeps (Still n (Passing n late i)) (doReceiveData data last) := by
  have rests : ∀ l, Passing n late i l → Running n l := fun l => Passing.running
  refine .bind (.when onUpstreamRequestSent_keeps) fun _ w still => ?_
  rw [wp_bind]
  refine upstreamRequest_wp still rests fun good alive passing requested => ?_
  rw [wp_bind]
  refine wp_mono (fun _ v still => finish_keeps v still) ?_
  obtain ⟨h, pass⟩ := passing
  refine deref_wp (Still.hand good alive ⟨h, pass⟩ (pass.free requested) nofun) rests ?_
  exact .bind processDone_keeps fun _ => .ite .pure (.bind (set_keeps fun _ => rfl) fun _ =>
    .bind (set_keeps fun _ => rfl) fun _ => .bind .get fun _ => .ite (.bind (set_keeps fun _ => rfl) fun _ =>
      .bind .get fun _ => .bind sendHijackReply_keeps fun _ => .pure)
      (.bind .get fun _ => .bind (.when (.panic fun still => still.rest rests)) fun _ => .bind ask_keeps fun _ => .pure))

/-! ### A run over the trailers -/

/-- The run was stopped, or nobody holds a stream whose headers were handed on. -/
def Ran (n : Nat) (stopped : Bool) (l : Line) : Prop :=
  Running n l ∧ (stopped = false → l.closed = true ∧ (l.upstreamRequest = true → ∀ j, l.held j = false))

theorem doReceiveTrailers_wp {filters : Option CommonHeader → Program Bool} {trailers : Option CommonHeader}
    (ran : (contract n).wp (filters trailers) (fun stopped => Still n (Ran n stopped)) w) :
    (contract n).wp (doReceiveTrailers filters trailers) (fun _ => Still n (Running n)) w := by
  have rests : ∀ l, Running n l → Running n l := fun _ running => running
  unfold doReceiveTrailers
  rw [wp_bind]
  refine wp_mono (fun stopped v still => ?_) ran
  cases stopped with
  | true => exact still.mono fun l ran => ran.1
  | false =>
    rw [wp_ite, if_neg Bool.false_ne_true, wp_bind, wp_set, wp_bind]
    -- all of the request has been handled, so that the trailers may be set
    have still : Still n (Ran n false) { v with stream.downstreamReqTrailers := trailers } := by
      refine ⟨still.1, still.2.imp id fun alive => ⟨?_, alive.2⟩⟩
      exact ⟨alive.1.context, alive.1.responseSender, alive.1.filters, alive.1.linked,
        alive.1.queue.trail (alive.2.2 rfl).1⟩
    refine wp_mono (fun _ u still => ?_) (onUpstreamRequestSent_keeps _ still)
    rw [wp_bind]
    refine upstreamRequest_wp still (fun l ran => ran.1) fun good alive ran requested => ?_
    rw [wp_bind]
    refine wp_mono (fun _ v still => finish_keeps v still) ?_
    refine deref_wp (Still.hand good alive ran.1 ((ran.2 rfl).2 requested) nofun) rests ?_
    exact .bind processDone_keeps fun _ => .ite .pure (.bind (set_keeps fun _ => rfl) fun _ =>
      .bind (set_keeps fun _ => rfl) fun _ => .bind .get fun _ =>
      .bind (.when (.panic fun still => still.rest rests)) fun _ => .bind ask_keeps fun _ => .pure)

/-! ### A filter continues -/

/-- A filter continues, and is no longer stopped. -/
def Released (n : Nat) (late : Prop) (k : Nat) (l : Line) : Prop :=
  ∃ h old, Resume n k h old ∧ old.held k = false ∧ (late → old.closed = true) ∧
    l = old.onFilter k fun f => { f with stopped := false }

theorem continueHeaders_wp {left : Nat} {hasBuffedData hasTrailer : Bool} (bound : n ≤ left + (k + 1))
    (still : Still n (Released n late k) w) :
    (contract n).wp (continueHeaders left k hasBuffedData hasTrailer)
      (fun _ => Still n (Passing n late (k + 1))) w := by
  unfold continueHeaders
  rw [wp_bind, wp_get, wp_when]
  have continued : ∀ {old : Line}, (view n w).toLine = old.onFilter k (fun f => { f with stopped := false }) →
      (w.filters k).headersContinued = (old.filters k).headersContinued := by
    intro old same
    have filters : w.filters = _ := congrArg Line.filters same
    rw [filters]
    show (Function.update old.filters k _ k).headersContinued = _
    rw [Function.update_self]
  refine ⟨fun no => ?_, fun yes => ?_⟩
  · have no : (w.filters k).headersContinued = false := (Bool.not_eq_true' ..).mp no
    rw [wp_bind, setFilter, wp_set, wp_bind, wp_get, wp_bind, wp_get]
    refine doReceiveHeaders_wp bound ⟨still.1, still.2.imp id fun alive => ⟨?_, ?_⟩⟩
    · exact ⟨alive.1.context, alive.1.responseSender, alive.1.filters, alive.1.linked, alive.1.queue⟩
    · obtain ⟨h, old, resume, free, closed, same⟩ := alive.2
      show Heading n late (k + 1) (k + 1) ((view n w).toLine.onFilter k fun f => { f with headersContinued := true })
      rw [same]
      exact resume.heading free ((continued same).symm.trans no) closed
  · have yes : (w.filters k).headersContinued = true := (Bool.not_eq_false' ..).mp yes
    refine ⟨still.1, still.2.imp id fun alive => ⟨alive.1, ?_⟩⟩
    obtain ⟨h, old, resume, free, closed, same⟩ := alive.2
    rw [same]
    exact resume.proceed free ((continued same).symm.trans yes) closed

theorem continueData_keeps {index : Nat} {hasBuffedData hasTrailer : Bool} :
    (contract n).Keeps (Still n (Passing n late i)) (continueData index hasBuffedData hasTrailer) := by
  refine .bind .get fun _ => .when (.bind (.set fun still => ?_) fun _ => .bind .get fun _ => .bind .get fun _ =>
    doReceiveData_keeps)
  split
  · exact still.same rfl
  · exact still

/-- **A filter continues**: the headers, the body and the trailers go on behind it. -/
theorem doContinue_wp {left : Nat} {filters : Option CommonHeader → Program Bool} (bound : n ≤ left + (k + 1))
    (runs : ∀ trailers {w}, Still n (Passing n True (k + 1)) w →
      (contract n).wp (filters trailers) (fun stopped => Still n (Ran n stopped)) w)
    (still : Still n (fun l => ∃ h, Resume n k h l) w) :
    (contract n).wp (doContinue left k filters) (fun _ => Still n (Running n)) w := by
  have continued : Still n (fun l => ∃ h, Resume n k h l ∧ l.held k = false) (w.emit (.continued k)) := by
    refine (still.hear (e := .continued k) rfl fun _ no => (by cases no)).mono ?_
    rintro l ⟨old, ⟨h, resume⟩, rfl⟩
    exact ⟨h, resume.release, Function.update_self ..⟩
  unfold doContinue
  rw [wp_bind, wp_access, wp_ite]
  split
  · refine continued.mono ?_
    rintro l ⟨h, resume, -⟩
    exact resume.running
  · rw [wp_bind, setFilter, wp_set, wp_bind, wp_get, wp_bind, wp_get, wp_bind]
    -- trailers that are buffered here belong to a request that has come as a whole
    have released : Still n (Released n (w.stream.downstreamReqTrailers.isSome = true) k)
        ((w.emit (.continued k)).onFilter k fun f => { f with stopped := false }) := by
      refine ⟨continued.1, continued.2.imp id fun alive => ⟨?_, ?_⟩⟩
      · exact ⟨alive.1.context, alive.1.responseSender, alive.1.filters, alive.1.linked, alive.1.queue⟩
      · obtain ⟨alive, h, resume, free⟩ := alive
        refine ⟨h, _, resume, free, fun set => ?_, rfl⟩
        obtain ⟨whole, zeros⟩ := alive.queue.streamed set
        have begun : w.arrived ≠ .nothing ∧ 0 ∉ ranks w.down := of_decide_eq_true resume.chain.started
        refine decide_eq_true ⟨whole, List.eq_nil_iff_forall_not_mem.mpr fun r there => ?_⟩
        exact begun.2 (zeros r there ▸ there)
    refine wp_mono (fun _ v still => ?_) (continueHeaders_wp bound released)
    rw [wp_bind]
    refine wp_mono (fun _ u still => ?_) (continueData_keeps v still)
    rw [wp_when]
    refine ⟨fun set => ?_, fun _ => still.mono fun l => Passing.running⟩
    rw [wp_bind, wp_get]
    refine doReceiveTrailers_wp (runs _ (still.mono ?_))
    rintro l ⟨h, pass⟩
    exact ⟨h, pass.chain, pass.full, pass.before, pass.blocked, fun _ => pass.closed set⟩

/-- **A run over the trailers**: a filter that stopped the headers continues with its answer. -/
theorem trailersLoop_wp : ∀ (left i : Nat) (trailers : Option CommonHeader) {w : World}, n ≤ left + i →
    Still n (Passing n True i) w →
    (contract n).wp (trailersLoop left i trailers) (fun stopped => Still n (Ran n stopped)) w := by
  have ends : ∀ {i : Nat} {w : World}, n ≤ i → Still n (Passing n True i) w → Still n (Ran n false) w := by
    intro i w bound still
    refine still.mono ?_
    rintro l ⟨h, pass⟩
    exact ⟨pass.running, fun _ => ⟨pass.closed trivial, fun _ => pass.ended bound⟩⟩
  intro left
  induction left with
  | zero => exact fun i trailers w bound still => ends (bound.trans_eq (Nat.zero_add i)) still
  | succ left ih =>
    intro i trailers w bound still
    unfold trailersLoop
    rw [wp_bind, wp_get, wp_ite]
    split
    · next room =>
        have room : i < w.stream.receiverFilters := of_decide_eq_true room
        obtain ⟨good, dead | ⟨alive, h, pass⟩⟩ := still
        · exact absurd (room.trans_eq dead.2.1) (Nat.not_lt_zero i)
        · have room : i < n := room.trans_eq alive.filters
          have later : n ≤ left + (i + 1) := by omega
          rw [wp_bind]
          refine wp_mono (fun status v answered => ?_) (callFilter_wp good alive pass pass.fits)
          rw [wp_bind]
          cases status with
          | stop =>
            refine answered.mono ?_
            rintro l ⟨old, pass, rfl⟩
            refine ⟨(pass.answered room fun j keeps => ?_).running, fun no => (by cases no)⟩
            rw [Effect.holds, Function.update_apply] at keeps
            split at keeps
            · next same => exact .inl same
            · exact .inr keeps
          | continue_ =>
            unfold handleTrailerStatus
            rw [wp_bind, wp_get, wp_ite]
            split
            · rw [wp_bind]
              refine wp_mono (fun _ u still => ?_) (doContinue_wp later (fun trailers u still => ?_) (answered.mono ?_))
              · exact still.mono fun l running => ⟨running, fun no => (by cases no)⟩
              · rw [wp_bind, wp_get, wp_ite]
                split
                · refine still.mono ?_
                  rintro l ⟨h, pass⟩
                  exact ⟨pass.running, fun _ => ⟨pass.closed trivial, pass.free⟩⟩
                · exact ih (i + 1) trailers later still
              · rintro l ⟨old, pass, rfl⟩
                exact ⟨h, pass.answered room fun j keeps => .inr keeps⟩
            · next going =>
                refine ih (i + 1) trailers later ⟨answered.1, answered.2.imp id fun alive => ⟨alive.1, ?_⟩⟩
                obtain ⟨old, pass, same⟩ := alive.2
                have filters : v.filters = old.filters := congrArg Line.filters same
                have going : (old.filters i).stopped = false := filters ▸ Bool.eq_false_of_not_eq_true going
                rw [same]
                exact ⟨h, (pass.answered (e := .answered i .continue_) room fun j keeps => .inr keeps).next (pass.open going)
                  going pass.closed⟩
    · next full =>
        have full : ¬ i < w.stream.receiverFilters := fun room => full (decide_eq_true room)
        obtain ⟨good, dead | alive⟩ := still
        · exact ⟨good, .inl dead⟩
        · exact ends ((show w.stream.receiverFilters = n from alive.1.filters) ▸ Nat.le_of_not_lt full) ⟨good, .inr alive⟩

theorem runReceiveTrailersFilters_wp {left : Nat} (bound : n ≤ left + i) (trailers : Option CommonHeader)
    (still : Still n (Passing n True i) w) :
    (contract n).wp (runReceiveTrailersFilters left i trailers) (fun stopped => Still n (Ran n stopped)) w := by
  unfold runReceiveTrailersFilters
  rw [wp_bind, wp_get, wp_ite]
  split
  · exact still.mono fun l ⟨h, pass⟩ => ⟨pass.running, fun _ => ⟨pass.closed trivial, pass.free⟩⟩
  · exact trailersLoop_wp left i trailers bound still

/-! ### The events of the request -/

theorem receiveHeaders_wp (still : Still n (Heading n late 0 0) w) :
    (contract n).wp (receiveHeaders n headers last) (fun _ => Still n (Passing n late 0)) w :=
  doReceiveHeaders_wp (w := { w with stream.downstreamRecvDone := last }) le_rfl (still.same rfl)

theorem receiveData_keeps {data : Option Bytes} :
    (contract n).Keeps (Still n (Passing n late i)) (receiveData data last) :=
  .bind processDone_keeps fun _ => .ite .pure (.bind (set_keeps fun _ => rfl) fun _ => doReceiveData_keeps)

theorem receiveTrailers_wp {trailers : Option CommonHeader} (still : Still n (Passing n True 0) w) :
    (contract n).wp (receiveTrailers n trailers) (fun _ => Still n (Running n)) w := by
  unfold receiveTrailers
  rw [wp_bind, wp_processDone, wp_ite]
  split
  · exact still.mono fun l => Passing.running
  · rw [wp_bind, wp_set]
    exact doReceiveTrailers_wp (runReceiveTrailersFilters_wp (Nat.le_add_right n 0) trailers (still.same rfl))

theorem receive_wp (still : Still n (Heading n True 0 0) w) :
    (contract n).wp (receive n) (fun _ => Still n (Running n)) w := by
  unfold receive
  rw [wp_bind, wp_get, wp_bind, wp_get, wp_bind, wp_get, wp_bind]
  refine wp_mono (fun _ v still => ?_) (receiveHeaders_wp still)
  rw [wp_bind]
  refine wp_mono (fun _ u still => ?_) (Keeps.when (.bind .get fun _ => receiveData_keeps) v still)
  rw [wp_when]
  refine ⟨fun _ => ?_, fun _ => still.mono fun l => Passing.running⟩
  rw [wp_bind, wp_get]
  exact receiveTrailers_wp still

variable {rest : List Event}

theorem Still.pop {R : Line → Prop} {e : Event} (still : Still n Q w) (queued : w.down = e :: rest)
    (popped : ∀ l, Q l → Queue (e :: rest) w.arrived w.stream.downstreamReqTrailers.isSome →
      l.started = started (e :: rest) w.arrived → l.closed = closed (e :: rest) w.arrived →
      R { l with started := started rest w.arrived, closed := closed rest w.arrived }) :
    Still n R { w with down := rest } := by
  refine ⟨still.1, still.2.imp id fun alive => ⟨?_, ?_⟩⟩
  · have queue : Queue (e :: rest) w.arrived w.stream.downstreamReqTrailers.isSome := queued ▸ alive.1.queue
    exact ⟨alive.1.context, alive.1.responseSender, alive.1.filters, alive.1.linked, queue.pop⟩
  · exact popped _ alive.2 (queued ▸ alive.1.queue) (congrArg (started · w.arrived) queued)
      (congrArg (closed · w.arrived) queued)

theorem pop_headers {e : Event} (still : (contract n).rest w) (queued : w.down = e :: rest)
    (rank : e.rank = some 0) (whole : late → e = .recv) : Still n (Heading n late 0 0) { w with down := rest } := by
  refine Still.pop still queued fun l resting queue starts closes => ?_
  obtain ⟨begun, none, _⟩ := queue.popped rank
  rcases resting with waiting | ⟨h, chain, _⟩
  · have handled : late → closed rest w.arrived = true := by
      intro late
      obtain ⟨arrived, single⟩ := queue.whole (whole late ▸ List.mem_cons_self)
      refine decide_eq_true ⟨arrived, ?_⟩
      rw [ranks_cons, rank] at single
      exact (List.cons.inj single).2
    have waits : Waiting { l with closed := closed rest w.arrived } :=
      ⟨waiting.sights, waiting.free, waiting.filters, waiting.upstreamRequest, waiting.started⟩
    rw [show started rest w.arrived = true from decide_eq_true ⟨begun, none⟩]
    exact waits.heading handled
  · have started : _ ∧ 0 ∉ ranks (e :: rest) := of_decide_eq_true (starts.symm.trans chain.started)
    refine absurd ?_ started.2
    rw [ranks_cons, rank]
    exact List.mem_cons_self

theorem pop_part {e : Event} {r : Nat} (still : (contract n).rest w) (queued : w.down = e :: rest)
    (rank : e.rank = some (r + 1)) (whole : late → r = 1) : Still n (Passing n late 0) { w with down := rest } := by
  refine Still.pop still queued fun l resting queue starts closes => ?_
  obtain ⟨begun, none, all⟩ := queue.popped rank
  have more : ranks (e :: rest) = (r + 1) :: ranks rest := by
    rw [ranks_cons, rank]
    rfl
  rcases resting with waiting | running
  · have starts : false = started (e :: rest) w.arrived := waiting.started.symm.trans starts
    refine absurd (decide_eq_true ?_) (ne_of_eq_of_ne starts.symm Bool.false_ne_true)
    exact ⟨begun, by simp [more, none]⟩
  · have open_ : l.closed = false := closes.trans (decide_eq_false fun all => by simp [more] at all)
    have passing : Passing n late 0 { l with closed := closed rest w.arrived } :=
      running.pass open_ (closed rest w.arrived) fun late => decide_eq_true (all (congrArg Nat.succ (whole late)))
    obtain ⟨h, pass⟩ := passing
    rw [show started rest w.arrived = l.started from
      (decide_eq_true ⟨begun, none⟩).trans pass.chain.started.symm]
    exact ⟨h, pass⟩

/-- **An event of the request is handled.** -/
theorem handleDown_wp {e : Event} (still : (contract n).rest w) (queued : w.down = e :: rest) :
    (contract n).wp (handleDown n e) (fun _ => (contract n).rest) { w with down := rest } := by
  have running : ∀ {v}, Still n (Running n) v → (contract n).rest v := fun still => still.rest fun _ running => running
  have passing : ∀ {v}, Still n (Passing n False 0) v → (contract n).rest v :=
    fun still => still.rest fun _ => Passing.running
  cases e with
  | recv => exact wp_mono (fun _ _ => running) (receive_wp (pop_headers still queued rfl fun _ => rfl))
  | recvHeader headers last =>
    exact wp_mono (fun _ _ => passing) (receiveHeaders_wp (pop_headers still queued rfl False.elim))
  | recvData last => exact wp_mono (fun _ _ => passing) (receiveData_keeps _ (pop_part still queued rfl False.elim))
  | recvTrailer trailers =>
    exact wp_mono (fun _ _ => running) (receiveTrailers_wp (pop_part still queued rfl fun _ => rfl))
  | reset =>
    refine cleanStream_keeps _ (Still.pop still queued fun l resting _ starts closes => ?_)
    have same : ranks (.reset :: rest) = ranks rest := by rw [ranks_cons]; rfl
    unfold started at starts
    unfold closed at closes
    rw [same] at starts closes
    unfold started closed
    rw [← starts, ← closes]
    exact resting

/-! ### Every run -/

/-- A callback leaves a dead stream dead, and the chain of one that is alive as it is. -/
theorem inside_wp {e : Entry} (inv : (contract n).inv w) (allowed : allows n w false e = true)
    (reply : ∀ index, e ≠ .filter index .continueReceiving) :
    (contract n).wp (program n e) (fun _ v => (contract n).inv v ∧ (contract n).change w v) w := by
  by_cases dead : Dead (view n w)
  · have still : Still n (fun _ => False) w := ⟨inv.1, .inl dead⟩
    refine wp_mono (fun _ v still => ⟨still.inv, .inl ?_⟩) (callback_wp still allowed (fun _ _ => False.elim) reply)
    exact still.2.resolve_right And.right
  · have still : Still n (fun l => l = (view n w).toLine) w := ⟨inv.1, inv.2.imp id fun alive => ⟨alive.1, rfl⟩⟩
    refine wp_mono (fun _ v still => ⟨still.inv, ?_⟩) (callback_wp still allowed (fun asked l same => ?_) reply)
    · exact same ▸ asked
    · exact still.2.imp id fun alive => ⟨dead, alive.2⟩

theorem outside_wp {e : Entry} (still : (contract n).rest w) (allowed : allows n w false e = true)
    (reply : ∀ index, e ≠ .filter index .continueReceiving) :
    (contract n).wp (program n e) (fun _ => (contract n).rest) w :=
  wp_mono (fun _ _ kept => Still.call still kept.1 kept.2) (inside_wp (Still.inv still) allowed reply)

/-- **A callback or an event**, while nothing else is handled. -/
theorem program_wp {e : Entry} (still : (contract n).rest w) (allowed : allows n w true e = true)
    (meets : Orderly ⟨w, []⟩ (.enter e)) : (contract n).wp (program n e) (fun _ => (contract n).rest) w := by
  cases e with
  | downstream d => exact outside_wp still allowed nofun
  | upstream d => exact outside_wp still allowed nofun
  | onReady => exact outside_wp still allowed nofun
  | onFailure => exact outside_wp still allowed nofun
  | filter index c =>
    by_cases continues : c = .continueReceiving
    · subst continues
      have room : index < n := of_decide_eq_true allowed
      have bound : n ≤ n - (index + 1) + (index + 1) := by omega
      refine wp_mono (fun _ v (still : Still n (Running n) v) => still.rest fun _ running => running)
        (doContinue_wp bound (fun trailers _ still => runReceiveTrailersFilters_wp bound trailers still) ?_)
      refine ⟨still.1, still.2.imp id fun alive => ⟨alive.1, ?_⟩⟩
      rcases alive.2 with waiting | running
      · exact absurd (meets.2.1.symm.trans (waiting.free index)) (by decide)
      · exact running.resume meets.2.1 meets.2.2
    · exact outside_wp still allowed fun _ same => continues (Entry.filter.inj same).2
  | down =>
    show (contract n).wp (handleFirst (handleDown n) w.down) _ { w with down := w.down.tail }
    cases queued : w.down with
    | nil => exact absurd allowed (by rw [allows, queued]; decide)
    | cons e rest => exact handleDown_wp still queued
  | up =>
    show (contract n).wp (handleFirst Upstream.handleUp w.up) _ { w with up := w.up.tail }
    cases w.up with
    | nil => exact still
    | cons e rest => exact handleUp_keeps (fun still => still) e { w with up := rest } still

theorem rest_newStream (config : Config) (n : Nat) : (contract n).rest (newStream config n) :=
  ⟨filtered_nil, .inr ⟨⟨rfl, rfl, rfl, nofun, List.Pairwise.nil, fun _ => rfl,
    nofun, nofun, nofun⟩,
    .inl ⟨rfl, fun _ => rfl, fun _ => ⟨rfl, rfl⟩, rfl, rfl⟩⟩⟩

end Holding

/-- **The filters are shown each part once and in order, and hold the stream.** So in every run in which a
filter continues outside of callbacks and is the first of those that hold the stream. -/
theorem filtered_of_orderly {config : Config} {n : Nat} {moves : List (Reactor.Move Entry Status)}
    {c : Reactor.Config World Site Status} (meets : (reactor n).system.Meets Orderly ⟨newStream config n, []⟩ moves)
    (ran : (reactor n).system.run ⟨newStream config n, []⟩ moves = some c) : Filtered n c.world.trace := by
  have holds : Reactor.Holds (Holding.contract n) c.stack c.world := by
    refine Reactor.run_holds ?_ ?_ ?_ (Holding.rest_newStream config n) meets ran
    · exact fun still allowed meets => Holding.program_wp still allowed meets
    · intro w e stack inv allowed nested meets
      refine Holding.inside_wp inv allowed ?_
      rintro index rfl
      exact nested (List.isEmpty_iff.mp meets.1)
    · exact fun _ => trivial
  exact holds.of (P := fun w => Filtered n w.trace) And.left And.left

instance (c : Reactor.Config World Site Status) : ∀ move, Decidable (Orderly c move)
  | .enter (.filter _ .continueReceiving) => inferInstanceAs (Decidable (_ ∧ _ ∧ _))
  | .enter (.filter _ (.appendHeaders _ _)) => isTrue trivial
  | .enter (.filter _ (.appendData _ _)) => isTrue trivial
  | .enter (.filter _ (.appendTrailers _)) => isTrue trivial
  | .enter (.filter _ (.sendHijackReply _ _)) => isTrue trivial
  | .enter (.downstream _) => isTrue trivial
  | .enter (.upstream _) => isTrue trivial
  | .enter .onReady => isTrue trivial
  | .enter .onFailure => isTrue trivial
  | .enter .down => isTrue trivial
  | .enter .up => isTrue trivial
  | .answer _ => isTrue trivial

/-- A request with trailers and no body: the second of two filters stops the headers and the trailers,
and continues. -/
def heldAndContinued : List (Reactor.Move Entry Status) :=
  [.enter (.downstream (.onReceive none none (some .empty))), .enter .down, .answer .continue_, .answer .stop,
    .answer .continue_, .answer .stop, .enter (.filter 1 .continueReceiving), .enter .onReady, .answer .continue_,
    .answer .continue_, .answer .continue_]

/-- The theorem at a filter that stops and continues. -/
theorem filtered_of_orderly_continued : (reactor 2).system.Meets Orderly ⟨newStream onePool 2, []⟩ heldAndContinued ∧
      ∃ c, (reactor 2).system.run ⟨newStream onePool 2, []⟩ heldAndContinued = some c ∧ Filtered 2 c.world.trace := by
  have meets : (reactor 2).system.Meets Orderly ⟨newStream onePool 2, []⟩ heldAndContinued := by decide
  obtain ⟨c, ran⟩ : ∃ c, (reactor 2).system.run ⟨newStream onePool 2, []⟩ heldAndContinued = some c :=
    Option.isSome_iff_exists.mp (by decide)
  exact ⟨meets, c, ran, filtered_of_orderly meets ran⟩

/-- The second filter stops the headers, the first one the trailers, and the second one continues. -/
def secondContinues : List (Reactor.Move Entry Status) :=
  [.enter (.downstream (.onReceive none none (some .empty))), .enter .down, .answer .continue_, .answer .stop,
    .answer .stop, .enter (.filter 1 .continueReceiving)]

/-- The first filter stops the headers and the trailers, and continues twice. -/
def continuesTwice : List (Reactor.Move Entry Status) :=
  [.enter (.downstream (.onReceive none none (some .empty))), .enter .down, .answer .stop, .answer .stop,
    .enter (.filter 0 .continueReceiving), .answer .continue_, .enter .onReady, .answer .continue_, .answer .continue_,
    .answer .continue_, .answer .continue_, .enter (.filter 0 .continueReceiving)]

/-- **The headers are handed on while the first filter holds the stream, and a filter is shown the trailers
twice.** -/
theorem handed_while_held :
    (∃ c, (reactor 2).system.run ⟨newStream onePool 2, []⟩ secondContinues = some c ∧ ¬ Filtered 2 c.world.trace) ∧
      ∃ c, (reactor 2).system.run ⟨newStream onePool 2, []⟩ continuesTwice = some c ∧ ¬ Filtered 2 c.world.trace := by
  have reaches {moves : List (Reactor.Move Entry Status)} {trace : List Effect}
      (ran : ((reactor 2).system.run ⟨newStream onePool 2, []⟩ moves).map (·.world.trace) = some trace)
      (breaks : ¬ Filtered 2 trace) :
      ∃ c, (reactor 2).system.run ⟨newStream onePool 2, []⟩ moves = some c ∧ ¬ Filtered 2 c.world.trace := by
    obtain ⟨c, reached, rfl⟩ := Option.map_eq_some_iff.mp ran
    exact ⟨c, reached, breaks⟩
  refine ⟨@reaches secondContinues _ rfl fun filtered => ?_, @reaches continuesTwice _ rfl fun filtered => ?_⟩
  · exact absurd (filtered.free _ .headers List.prefix_rfl 0) (by decide)
  · exact absurd filtered.order (by decide)

end Strike.Proxy
