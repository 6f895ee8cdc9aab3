/-
**What a chain of filters is kept by**: the contract of a stream with filters, and the programs that leave
the chain alone.

* `Queue`: the events of a request come in order, and each once.
* `contract`: a stream is `Alive`, and then its chain is between two runs, or its object was given away
  (`Dead`), and then no filter is shown anything.
-/

import Strike.Proxy.FilterChain
import Strike.Proxy.Replies

namespace Strike.Proxy

open Strike.Lib Contract

/-- The part of the request an event brings. -/
def Event.rank : Event → Option Nat
  | .recv => some 0
  | .recvHeader _ _ => some 0
  | .recvData _ => some 1
  | .recvTrailer _ => some 2
  | .reset => none

namespace Holding

/-! ### The queue -/

/-- The parts of the request that are queued. -/
def ranks (down : List Event) : List Nat := down.filterMap Event.rank

/-- The headers have been handled. -/
def started (down : List Event) (arrived : Arrived) : Bool := decide (arrived ≠ .nothing ∧ 0 ∉ ranks down)

/-- All of the request has been handled. -/
def closed (down : List Event) (arrived : Arrived) : Bool := decide (arrived = .whole ∧ ranks down = [])

/-- The parts come in order, and `downstreamReqTrailers` is set only when all of them have come. -/
structure Queue (down : List Event) (arrived : Arrived) (trailers : Bool) : Prop where
  sorted : (ranks down).Pairwise fun a b => a < b ∨ a = 1 ∧ b = 1
  fresh : arrived = .nothing → ranks down = []
  going : arrived = .begun → 2 ∉ ranks down
  whole : .recv ∈ down → arrived = .whole ∧ ranks down = [0]
  streamed : trailers = true → arrived = .whole ∧ ∀ r ∈ ranks down, r = 0

variable {down rest : List Event} {arrived : Arrived} {trailers : Bool} {e : Event}

theorem rank_le {r : Nat} (there : r ∈ ranks down) : r ≤ 2 := by
  obtain ⟨e, _, rank⟩ := List.mem_filterMap.mp there
  cases e <;> simp_all [Event.rank] <;> omega

theorem ranks_snoc (down : List Event) (e : Event) : ranks (down ++ [e]) = ranks down ++ e.rank.toList := by
  unfold ranks
  rw [List.filterMap_append]
  cases rank : e.rank <;> simp [rank]

theorem ranks_cons (e : Event) (rest : List Event) : ranks (e :: rest) = e.rank.toList ++ ranks rest := by
  unfold ranks
  rw [List.filterMap_cons]
  cases e.rank <;> rfl

theorem Queue.reset (queue : Queue down arrived trailers) : Queue (down ++ [Event.reset]) arrived trailers := by
  have same : ranks (down ++ [Event.reset]) = ranks down := by
    rw [ranks_snoc]
    exact List.append_nil _
  refine ⟨same ▸ queue.sorted, same ▸ queue.fresh, same ▸ queue.going, fun there => ?_, same ▸ queue.streamed⟩
  rcases List.mem_append.mp there with old | new
  · exact same ▸ queue.whole old
  · cases List.mem_singleton.mp new

variable {later : Arrived}

theorem Queue.start (queue : Queue down arrived trailers) (nothing : arrived = .nothing)
    {set : Bool} (rank : e.rank = some 0) (begun : later ≠ .nothing) (whole : e = .recv → later = .whole)
    (streamed : set = true → later = .whole) : Queue (down ++ [e]) later set := by
  have single : ranks (down ++ [e]) = [0] := by
    rw [ranks_snoc, queue.fresh nothing, rank]
    rfl
  refine ⟨single ▸ List.pairwise_singleton _ _, fun no => absurd no begun, fun _ => single ▸ by decide, fun there => ?_,
    fun on => ⟨streamed on, single ▸ by simp⟩⟩
  rcases List.mem_append.mp there with old | new
  · have listed : 0 ∈ ranks down := List.mem_filterMap.mpr ⟨.recv, old, rfl⟩
    rw [queue.fresh nothing] at listed
    cases listed
  · exact ⟨whole (List.mem_singleton.mp new).symm, single⟩

theorem Queue.more (queue : Queue down arrived trailers) (begun : arrived = .begun) {r : Nat}
    (rank : e.rank = some r) (positive : 0 < r) (known : later ≠ .nothing) (last : later = .begun → r ≠ 2) :
    Queue (down ++ [e]) later trailers := by
  have more : ranks (down ++ [e]) = ranks down ++ [r] := by
    rw [ranks_snoc, rank]
    rfl
  have below : ∀ a ∈ ranks down, a < 2 := fun a there =>
    Nat.lt_of_le_of_ne (rank_le there) fun same => queue.going begun (same ▸ there)
  refine ⟨?_, fun no => absurd no known, fun no there => ?_, fun there => ?_, fun on => ?_⟩
  · rw [more, List.pairwise_append]
    refine ⟨queue.sorted, List.pairwise_singleton _ _, fun a there b same => ?_⟩
    rw [List.mem_singleton] at same
    have := below a there
    omega
  · rw [more, List.mem_append, List.mem_singleton] at there
    exact there.elim (queue.going begun) fun same => last no same.symm
  · rcases List.mem_append.mp there with old | new
    · exact absurd (begun.symm.trans (queue.whole old).1) (by decide)
    · rw [(List.mem_singleton.mp new).symm] at rank
      cases rank
      cases positive
  · exact absurd (begun.symm.trans (queue.streamed on).1) (by decide)

theorem Queue.pop (queue : Queue (e :: rest) arrived trailers) : Queue rest arrived trailers := by
  have more : ranks (e :: rest) = e.rank.toList ++ ranks rest := ranks_cons e rest
  refine ⟨?_, fun nothing => ?_, fun begun there => ?_, fun there => ?_, fun on => ⟨(queue.streamed on).1, fun r there => ?_⟩⟩
  · have sorted := queue.sorted
    rw [more, List.pairwise_append] at sorted
    exact sorted.2.1
  · have empty := queue.fresh nothing
    rw [more] at empty
    exact (List.append_eq_nil_iff.mp empty).2
  · exact queue.going begun (more ▸ List.mem_append_right _ there)
  · obtain ⟨whole, single⟩ := queue.whole (List.mem_cons_of_mem _ there)
    refine ⟨whole, ?_⟩
    have listed : 0 ∈ ranks rest := List.mem_filterMap.mpr ⟨.recv, there, rfl⟩
    rw [more] at single
    cases rank : e.rank with
    | none => rwa [rank] at single
    | some r =>
      rw [rank] at single
      have empty : ranks rest = [] := (List.cons.inj single).2
      rw [empty] at listed
      cases listed
  · exact (queue.streamed on).2 r (more ▸ List.mem_append_right _ there)

/-- When a part is taken off the queue, the headers have been handled with it, and with the trailers all
of the request. -/
theorem Queue.popped {r : Nat} (queue : Queue (e :: rest) arrived trailers) (rank : e.rank = some r) :
    arrived ≠ .nothing ∧ 0 ∉ ranks rest ∧ (r = 2 → arrived = .whole ∧ ranks rest = []) := by
  have more : ranks (e :: rest) = r :: ranks rest := by
    rw [ranks_cons, rank]
    rfl
  have sorted := queue.sorted
  rw [more, List.pairwise_cons] at sorted
  have begun : arrived ≠ .nothing := fun nothing => absurd (queue.fresh nothing) (by simp [more])
  refine ⟨begun, fun there => ?_, ?_⟩
  · have := sorted.1 0 there
    omega
  · rintro rfl
    constructor
    · cases arrived with
      | nothing => exact absurd rfl begun
      | begun => exact absurd (more ▸ List.mem_cons_self) (queue.going rfl)
      | whole => rfl
    · refine List.eq_nil_iff_forall_not_mem.mpr fun b there => ?_
      have above := sorted.1 b there
      have below := rank_le there
      omega

theorem Queue.trail (queue : Queue down arrived trailers) (handled : closed down arrived = true) {set : Bool} :
    Queue down arrived set := by
  have handled : arrived = .whole ∧ ranks down = [] := of_decide_eq_true handled
  refine ⟨queue.sorted, queue.fresh, queue.going, queue.whole, fun _ => ⟨handled.1, fun r there => ?_⟩⟩
  rw [handled.2] at there
  cases there

/-! ### The contract -/

/-- What the contract reads of a stream with `n` filters. -/
structure View extends Line where
  good : Prop
  proxy : Option Config
  receiverFilters : Nat
  context : Bool
  responseSender : Bool
  downStream : Bool
  trailers : Bool
  down : List Event
  arrived : Arrived

/-- The view of a stream. -/
def view (n : Nat) (w : World) : View where
  sights := sights w.trace
  held := held w.trace
  filters := w.filters
  upstreamRequest := w.stream.upstreamRequest
  asked := w.asked
  started := started w.down w.arrived
  closed := closed w.down w.arrived
  good := Filtered n w.trace
  proxy := w.stream.proxy
  receiverFilters := w.stream.receiverFilters
  context := w.stream.context
  responseSender := w.stream.responseSender
  downStream := w.request.downStream
  trailers := w.stream.downstreamReqTrailers.isSome
  down := w.down
  arrived := w.arrived

/-- The object was given away. -/
def Dead (v : View) : Prop := v.proxy = none ∧ v.receiverFilters = 0 ∧ v.upstreamRequest = false

/-- The object is the stream's own. -/
structure Alive (n : Nat) (v : View) : Prop where
  context : v.context = true
  responseSender : v.responseSender = true
  filters : v.receiverFilters = n
  linked : v.asked = true → v.downStream = true
  queue : Queue v.down v.arrived v.trailers

/-- The trace is in order, and the stream is dead, or its chain is as `Q` says. -/
def Holds (n : Nat) (Q : Line → Prop) (v : View) : Prop := v.good ∧ (Dead v ∨ Alive n v ∧ Q v.toLine)

/-- So for a stream. -/
def Still (n : Nat) (Q : Line → Prop) (w : World) : Prop := Holds n Q (view n w)

/-- Between two runs, or before the first. -/
def Resting (n : Nat) (l : Line) : Prop := Waiting l ∨ Running n l

/-- What every program keeps. Nothing of the chain changes during a call. -/
def contract (n : Nat) : Contract World Site Status where
  rest := Still n (Resting n)
  inv := Still n fun _ => True
  change w v := Dead (view n v) ∨ ¬ Dead (view n w) ∧ (view n v).toLine = (view n w).toLine
  refl w := (Classical.em (Dead (view n w))).imp id fun alive => ⟨alive, rfl⟩
  trans := by
    rintro s t u first (dead | ⟨alive, second⟩)
    · exact .inl dead
    · rcases first with dead | ⟨fresh, first⟩
      · exact absurd dead alive
      · exact .inr ⟨fresh, second.trans first⟩
  answers _ _ _ := True

variable {n : Nat} {Q R : Line → Prop} {w v : World}

namespace Still

theorem mono (still : Still n Q w) (weaker : ∀ l, Q l → R l) : Still n R w :=
  ⟨still.1, still.2.imp id fun alive => ⟨alive.1, weaker _ alive.2⟩⟩

theorem same (still : Still n Q w) (blind : view n v = view n w) : Still n Q v := by
  unfold Still
  rw [blind]
  exact still

theorem inv (still : Still n Q w) : (contract n).inv w := still.mono fun _ _ => trivial

theorem call (still : Still n Q w) (inv : (contract n).inv v) (change : (contract n).change w v) : Still n Q v := by
  refine ⟨inv.1, ?_⟩
  rcases change with dead | ⟨alive, line⟩
  · exact .inl dead
  · have holds : Q (view n w).toLine := (still.2.resolve_left alive).2
    exact inv.2.imp id fun later => ⟨later.1, line ▸ holds⟩

theorem lost (still : Still n Q w) (dead : Alive n (view n w) → False) : (contract n).rest w :=
  ⟨still.1, .inl (still.2.resolve_right fun alive => dead alive.1)⟩

/-- An effect that is no business of the chain. -/
theorem emit {e : Effect} (still : Still n Q w) (aside : e.aside = true) : Still n Q (w.emit e) := by
  have line : (view n (w.emit e)).toLine = (view n w).toLine := by
    show Line.mk (sights (w.trace ++ [e])) (held (w.trace ++ [e])) _ _ _ _ _ = _
    rw [sights_aside aside, held_aside aside]
    rfl
  refine ⟨Filtered.aside still.1 aside, still.2.imp id fun alive => ⟨?_, line ▸ alive.2⟩⟩
  exact ⟨alive.1.context, alive.1.responseSender, alive.1.filters, alive.1.linked, alive.1.queue⟩

end Still

theorem set_keeps {f : World → World} (blind : ∀ w, view n (f w) = view n w) :
    (contract n).Keeps (Still n Q) (.set f) := .set fun still => still.same (blind _)

theorem ask_keeps {site : Site} : (contract n).Keeps (Still n Q) (.ask site) :=
  fun _ still => wp_ask.mpr ⟨still.inv, fun _ _ inv change _ => still.call inv change⟩

/-! ### The end of a stream, and replies -/

theorem processDone_keeps : (contract n).Keeps (Still n Q) processDone :=
  .bind .get fun _ => .ite .pure (.bind .get fun _ => .ite .pure .get)

theorem resetStream_keeps : (contract n).Keeps (Still n Q) Upstream.resetStream :=
  .bind .get fun _ => .when (.set fun still => still.emit rfl)

theorem cleanUp_keeps : (contract n).Keeps (Still n Q) cleanUp := .bind .get fun _ => .when (set_keeps fun _ => rfl)

theorem giveStream_keeps : (contract n).Keeps (Still n Q) giveStream :=
  .bind .get fun _ => .ite .pure (.bind .get fun _ => .ite .pure (.bind .get fun _ => .bind .get fun _ =>
    .when (.giveBack fun still => ⟨still.1, .inl ⟨rfl, rfl, rfl⟩⟩)))

theorem release_keeps : (contract n).Keeps (Still n Q) release :=
  .bind .get fun _ => .bind (.when (.bind .get fun _ => .when (.bind (set_keeps fun _ => rfl) fun _ =>
    resetStream_keeps))) fun _ => .bind cleanUp_keeps fun _ => .bind .get fun _ => .bind .get fun _ => giveStream_keeps

theorem cleanStream_keeps : (contract n).Keeps (Still n Q) cleanStream := by
  refine .bind (.access fun still => ?_) fun _ => .ite .pure release_keeps
  split
  · exact still
  · exact (still.emit (e := .cleaned) rfl).same rfl

theorem endStream_keeps : (contract n).Keeps (Still n Q) endStream :=
  .bind .get fun _ => .bind (.when (.bind .get fun _ => .when (set_keeps fun _ => rfl))) fun _ => cleanStream_keeps

/-- Only a dead stream has no response sender. -/
theorem send_keeps {e : Effect} (aside : e.aside = true) : (contract n).Keeps (Still n Q) (send e) := by
  intro w still
  unfold send
  rw [wp_bind, wp_access, wp_when]
  by_cases sender : w.stream.responseSender = true
  · rw [if_pos sender, sender]
    exact ⟨nofun, fun _ => still.emit aside⟩
  · rw [if_neg sender, Bool.eq_false_of_not_eq_true sender]
    exact ⟨fun _ => still.lost fun alive => sender alive.responseSender, nofun⟩

variable {headers : Option CommonHeader} {last : Bool} {data : Option Bytes} {trailers : Option CommonHeader}

theorem doAppendHeaders_keeps : (contract n).Keeps (Still n Q) (doAppendHeaders headers last) :=
  .bind (send_keeps rfl) fun _ => .when endStream_keeps

theorem doAppendData_keeps : (contract n).Keeps (Still n Q) (doAppendData data last) :=
  .bind (send_keeps rfl) fun _ => .when endStream_keeps

theorem doAppendTrailers_keeps : (contract n).Keeps (Still n Q) (doAppendTrailers trailers) :=
  .bind (send_keeps rfl) fun _ => endStream_keeps

theorem appendHeaders_keeps : (contract n).Keeps (Still n Q) (appendHeaders headers last) :=
  .bind (set_keeps fun _ => rfl) fun _ => doAppendHeaders_keeps

theorem appendData_keeps : (contract n).Keeps (Still n Q) (appendData data last) :=
  .bind (set_keeps fun _ => rfl) fun _ => doAppendData_keeps

theorem appendTrailers_keeps : (contract n).Keeps (Still n Q) (appendTrailers trailers) :=
  .bind (set_keeps fun _ => rfl) fun _ => doAppendTrailers_keeps

theorem sendHijackReply_keeps {code : Nat} :
    (contract n).Keeps (Still n Q) (sendHijackReply code headers) := appendHeaders_keeps

/-! ### The response: it does not touch the chain -/

section Response

variable (rests : ∀ {w}, Still n Q w → (contract n).rest w)
include rests

theorem deref_keeps : (contract n).Keeps (Still n Q) (Upstream.deref id) :=
  .bind (.access fun still => still) fun _ => .when (.panic rests)

theorem onUpstreamResponseRecvFinished_keeps : (contract n).Keeps (Still n Q) onUpstreamResponseRecvFinished :=
  .bind .get fun _ => .bind (.when (.bind (.bind .get fun _ => .when (.panic rests)) fun _ => resetStream_keeps)) fun _ =>
    cleanUp_keeps

theorem upstreamReceiveHeaders_keeps : (contract n).Keeps (Still n Q) (Upstream.receiveHeaders headers last) :=
  .bind (deref_keeps rests) fun _ => .bind (set_keeps fun _ => rfl) fun _ => .bind (set_keeps fun _ => rfl) fun _ =>
    .bind (.when (onUpstreamResponseRecvFinished_keeps rests)) fun _ => appendHeaders_keeps

theorem upstreamReceiveData_keeps : (contract n).Keeps (Still n Q) (Upstream.receiveData data last) :=
  .bind (deref_keeps rests) fun _ => .bind processDone_keeps fun _ => .ite .pure
    (.bind (.when (onUpstreamResponseRecvFinished_keeps rests)) fun _ => appendData_keeps)

theorem upstreamReceiveTrailers_keeps : (contract n).Keeps (Still n Q) (Upstream.receiveTrailers trailers) :=
  .bind (deref_keeps rests) fun _ => .bind processDone_keeps fun _ => .ite .pure
    (.bind (onUpstreamResponseRecvFinished_keeps rests) fun _ => appendTrailers_keeps)

theorem upstreamReceive_keeps : (contract n).Keeps (Still n Q) Upstream.receive :=
  .bind (deref_keeps rests) fun _ => .bind processDone_keeps fun _ => .ite .pure (.bind .get fun _ => .bind .get fun _ =>
    .bind .get fun _ => .bind (upstreamReceiveHeaders_keeps rests) fun _ =>
    .bind (.when (.bind (deref_keeps rests) fun _ => .bind .get fun _ => upstreamReceiveData_keeps rests)) fun _ =>
    .when (.bind (deref_keeps rests) fun _ => .bind .get fun _ => upstreamReceiveTrailers_keeps rests))

theorem handleUp_keeps (e : Event) : (contract n).Keeps (Still n Q) (Upstream.handleUp e) := by
  cases e with
  | recv => exact upstreamReceive_keeps rests
  | recvHeader headers last => exact upstreamReceiveHeaders_keeps rests
  | recvData last => exact .bind (deref_keeps rests) fun _ => .bind .get fun _ => upstreamReceiveData_keeps rests
  | recvTrailer trailers => exact upstreamReceiveTrailers_keeps rests
  | reset => exact set_keeps fun _ => rfl

end Response

/-! ### The callbacks -/

section Callbacks

/-- A request sender knows the upstream request, unless the stream is dead. -/
theorem deref_asked (asked : ∀ l, Q l → l.asked = true) {f : World → World} (blind : ∀ w, view n (f w) = view n w) :
    (contract n).Keeps (Still n Q) (Upstream.deref f) := by
  intro w still
  unfold Upstream.deref
  rw [wp_bind, wp_access, wp_when]
  refine ⟨fun no => ?_, fun _ => still.same (blind w)⟩
  refine ⟨(still.same (blind w)).1, .inl (Or.resolve_right (still.same (blind w)).2 fun alive => ?_)⟩
  have linked : (view n (f w)).downStream = true := alive.1.linked (asked _ alive.2)
  rw [blind w] at linked
  exact absurd (no.symm.trans (congrArg not linked)) (by decide)

variable (asked : ∀ l, Q l → l.asked = true)
include asked

theorem offerUp_keeps {e : Event} : (contract n).Keeps (Still n Q) (offerUp e) := by
  refine .bind (deref_asked asked fun _ => rfl) fun _ w still => ?_
  rw [wp_bind, wp_get, wp_bind, wp_when]
  refine ⟨fun no => still.lost fun alive => ?_, fun _ => still.same rfl⟩
  exact absurd (no.symm.trans (congrArg not alive.context)) (by decide)

theorem onUpstream_keeps (d : Delivery) : (contract n).Keeps (Still n Q) (onUpstream d) := by
  have derefs : (contract n).Keeps (Still n Q) (Upstream.deref id) := deref_asked asked fun _ => rfl
  have answers : ∀ {last}, (contract n).Keeps (Still n Q) (Upstream.deref (·.answer last)) :=
    deref_asked asked fun _ => rfl
  cases d with
  | onReceive headers data trailers =>
    exact .bind answers fun _ => .bind (set_keeps fun _ => rfl) fun _ =>
      .bind (.when (.bind derefs fun _ => set_keeps fun _ => rfl)) fun _ =>
      .bind derefs fun _ => .bind (set_keeps fun _ => rfl) fun _ => offerUp_keeps asked
  | onReceiveHeaders headers last => exact .bind answers fun _ => offerUp_keeps asked
  | onReceiveData data last =>
    exact .bind answers fun _ => .bind (set_keeps fun _ => rfl) fun _ => offerUp_keeps asked
  | onReceiveTrailers trailers => exact .bind answers fun _ => offerUp_keeps asked
  | onResetStream => exact .bind answers fun _ => offerUp_keeps asked

theorem onReady_keeps : (contract n).Keeps (Still n Q) onReady := by
  intro w still
  unfold onReady
  rw [wp_bind, wp_set, wp_bind, wp_get, wp_bind, wp_get, wp_bind, wp_get, wp_bind, wp_get, wp_bind, wp_when]
  refine ⟨nofun, fun _ => ?_⟩
  exact (Keeps.bind (deref_asked asked fun _ => rfl) fun _ => .bind .get fun _ => .bind ask_keeps fun _ => .pure) _
    (still.same rfl)

end Callbacks

theorem onHandler_keeps {index : Nat} {c : HandlerCall} (reply : c ≠ .continueReceiving) :
    (contract n).Keeps (Still n Q) (onHandler n index c) := by
  cases c with
  | continueReceiving => exact absurd rfl reply
  | appendHeaders headers last => exact .bind (set_keeps fun _ => rfl) fun _ => doAppendHeaders_keeps
  | appendData buf last => exact doAppendData_keeps
  | appendTrailers trailers => exact .bind (set_keeps fun _ => rfl) fun _ => doAppendTrailers_keeps
  | sendHijackReply code headers => exact sendHijackReply_keeps

theorem Still.deliver (still : Still n Q w) (down : List Event) (later : Arrived) {set : Bool}
    (blind : view n v = { view n w with
      started := started down later, closed := closed down later, down := down, arrived := later, trailers := set })
    (starts : started down later = started w.down w.arrived) (closes : closed down later = closed w.down w.arrived)
    (queue : Queue w.down w.arrived w.stream.downstreamReqTrailers.isSome → Queue down later set) : Still n Q v := by
  rw [starts, closes] at blind
  unfold Still
  rw [blind]
  refine ⟨still.1, still.2.imp id fun alive => ⟨?_, alive.2⟩⟩
  exact ⟨alive.1.context, alive.1.responseSender, alive.1.filters, alive.1.linked, queue alive.1.queue⟩

theorem started_snoc_zero (rank : e.rank = some 0) : started (down ++ [e]) later = false := by
  refine decide_eq_false fun none => none.2 ?_
  rw [ranks_snoc, rank]
  exact List.mem_append_right _ List.mem_cons_self

theorem started_snoc {r : Nat} (rank : e.rank = some (r + 1)) (begun : arrived ≠ .nothing)
    (known : later ≠ .nothing) : started (down ++ [e]) later = started down arrived := by
  unfold started
  rw [ranks_snoc, rank]
  simp [begun, known]

theorem closed_snoc {r : Nat} (rank : e.rank = some r) (open_ : arrived ≠ .whole) :
    closed (down ++ [e]) later = closed down arrived := by
  unfold closed
  rw [ranks_snoc, rank]
  simp [open_]

theorem started_reset : started (down ++ [Event.reset]) arrived = started down arrived := by
  unfold started
  rw [ranks_snoc]
  simp [Event.rank]

theorem closed_reset : closed (down ++ [Event.reset]) arrived = closed down arrived := by
  unfold closed
  rw [ranks_snoc]
  simp [Event.rank]

theorem onDownstream_wp {d : Delivery} (still : Still n Q w) (allowed : w.arrived.allows d = true) :
    (contract n).wp (onDownstream d) (fun _ => Still n Q) w := by
  have known : ∀ last : Bool, (if last then Arrived.whole else .begun) ≠ .nothing := by decide
  cases d with
  | onReceive headers data trailers =>
    have nothing := Arrived.allows_onReceive.mp allowed
    have starts : started (w.down ++ [Event.recv]) .whole = started w.down w.arrived := by
      rw [started_snoc_zero rfl, nothing]
      rfl
    have closes : closed (w.down ++ [Event.recv]) .whole = closed w.down w.arrived := closed_snoc rfl (by simp [nothing])
    have queue : Queue w.down w.arrived w.stream.downstreamReqTrailers.isSome →
        Queue (w.down ++ [Event.recv]) .whole trailers.isSome := fun queue =>
      queue.start nothing rfl (by decide) (fun _ => rfl) fun _ => rfl
    unfold onDownstream
    rw [wp_bind, wp_set, wp_bind, wp_when]
    exact ⟨fun _ => still.deliver (w.down ++ [Event.recv]) .whole rfl starts closes queue,
      fun _ => still.deliver (w.down ++ [Event.recv]) .whole rfl starts closes queue⟩
  | onReceiveHeaders headers last =>
    have nothing := Arrived.allows_onReceiveHeaders.mp allowed
    refine still.deliver (w.down ++ [Event.recvHeader headers last]) (if last then .whole else .begun) rfl ?_
      (closed_snoc rfl (by simp [nothing])) ?_
    · rw [started_snoc_zero rfl, nothing]
      rfl
    · refine fun queue => queue.start nothing rfl (known last) nofun fun on => ?_
      exact absurd ((queue.streamed on).1.symm.trans nothing) (by decide)
  | onReceiveData data last =>
    have begun := Arrived.allows_onReceiveData.mp allowed
    refine still.deliver (w.down ++ [Event.recvData last]) (if last then .whole else .begun) rfl ?_
      (closed_snoc rfl (by simp [begun])) ?_
    · exact started_snoc rfl (by simp [begun]) (known last)
    · exact fun queue => queue.more begun rfl Nat.one_pos (known last) fun _ => by decide
  | onReceiveTrailers trailers =>
    have begun := Arrived.allows_onReceiveTrailers.mp allowed
    refine still.deliver (w.down ++ [Event.recvTrailer trailers]) .whole rfl ?_ (closed_snoc rfl (by simp [begun])) ?_
    · exact started_snoc rfl (by simp [begun]) (by decide)
    · exact fun queue => queue.more begun rfl Nat.two_pos (by decide) nofun
  | onResetStream =>
    refine Keeps.andThen (P := Still n Q) (.access fun still => ?_) still fun already v still => ?_
    · split
      · exact still
      · exact (still.emit (e := .reset) rfl).same rfl
    · rw [wp_ite]
      split
      · exact still
      · rw [wp_bind, wp_get, wp_bind, wp_when]
        refine ⟨fun no => still.lost fun alive => ?_, fun _ => ?_⟩
        · exact absurd (no.symm.trans (congrArg not alive.context)) (by decide)
        · exact still.deliver (v.down ++ [Event.reset]) v.arrived rfl started_reset closed_reset fun queue => queue.reset

theorem callback_wp {e : Entry} (still : Still n Q w)
    (allowed : allows n w false e = true) (asked : w.asked = true → ∀ l, Q l → l.asked = true)
    (reply : ∀ index, e ≠ .filter index .continueReceiving) :
    (contract n).wp (program n e) (fun _ => Still n Q) w := by
  cases e with
  | downstream d => exact onDownstream_wp still allowed
  | upstream d => exact onUpstream_keeps (asked allowed) d w still
  | onReady => exact onReady_keeps (asked allowed) w still
  | onFailure => exact still.same rfl
  | filter index c => exact onHandler_keeps (fun same => reply index (congrArg _ same)) w still
  | down => cases allowed
  | up => cases allowed

end Holding

end Strike.Proxy
