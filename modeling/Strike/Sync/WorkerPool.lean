/-
**The worker pool** (`workerpool.go`).

`Serve` takes an idle worker, makes one where the pool has room, or waits for one. A worker is an object with a
channel; its goroutine receives tasks until it gets a nil one, and the object goes to a cache. The purger and
`Release` tell idle workers to exit.

Sections under the lock are one step each, and so is every atomic access. Only the purger and `Release` send
while they hold the lock: their steps are one for each worker. A sender goes on at once; the sender on an
unbuffered channel would wait, which takes interleavings away.

* `Rule`: what a step moves, from which places to which.
* `step_applies`: every step is an application of a rule.
-/

import Strike.Go.Pools
import Strike.Go.Slice
import Strike.Lib.System
import Strike.Lib.Tokens

namespace Strike.WorkerPool

open Lib

/-- `DEFAULT_CONCURRENCY`. -/
def defaultConcurrency : Int := 256 * 1024

/-- `DEFAULT_PURGE_INTERVAL_TIME`. -/
def defaultPurgeIntervalTime : Int := 5

/-- Where a call of `Serve` stands. -/
inductive Stage where
  /-- Before it loads `release`. -/
  | entering
  /-- It returned `ErrPoolClosed`. -/
  | refused
  /-- Before it takes the lock in `retrieveWorker`. -/
  | retrieving
  /-- There was room: before it asks the cache. -/
  | creating
  /-- Before `incRunning`. -/
  | got (w : Nat)
  /-- Before the goroutine is started. -/
  | counted (w : Nat)
  /-- Before it sends its task. -/
  | holding (w : Nat)
  /-- In `cond.Wait`. -/
  | waiting
  /-- Woken, before it has the lock again. -/
  | notified
  | served
  deriving Repr, DecidableEq

/-- A call of `Serve`, with its task. Tasks are known by their numbers. -/
structure Caller where
  task : Nat
  stage : Stage := .entering
  deriving Repr, DecidableEq

/-- Where the goroutine of a worker stands. -/
inductive Phase where
  | receiving
  | executing (t : Nat)
  /-- Before it loads `release` in `revertWorker`. -/
  | finished
  /-- Before it takes the lock in `revertWorker`. -/
  | recycling (recycleTime : Int)
  /-- It received nil or recovered from a panic: before `decRunning`. -/
  | ending
  /-- Before `workerCache.Put`. -/
  | parking
  | leaving
  /-- `revertWorker` returned false. -/
  | breaking
  | exited
  deriving Repr, DecidableEq

/-- A goroutine of a worker. -/
structure Goroutine where
  worker : Nat
  phase : Phase := .receiving
  deriving Repr, DecidableEq

/-- Where `periodicallyPurge` stands; it holds the lock while it sweeps. -/
inductive Purger where
  | resting
  | ticked (currentTime : Int)
  | sweeping (currentTime : Int)
  | stopped
  deriving Repr, DecidableEq

/-- Where `Release` stands; it holds the lock while it sweeps. -/
inductive Releaser where
  | uncalled
  | closing
  | sweeping
  | returned
  deriving Repr, DecidableEq

/-- What happened to workers and tasks. -/
inductive Event where
  | told (w : Nat)
  | started (w : Nat)
  | sent (w t : Nat)
  | executes (w t : Nat)
  deriving Repr, DecidableEq

/-- `workerPool`, and all that work with it. Worker objects are known by their numbers, `made` of them so far;
the times at which they were recycled stand in the idle list. A message is on the channel of its worker. -/
structure State where
  capacity : Int
  expiryDuration : Int
  running : Int := 0
  release : Bool := false
  workers : List (Nat × Int) := []
  workerCache : List Nat := []
  messages : List (Nat × Option Nat) := []
  callers : List Caller := []
  goroutines : List Goroutine := []
  purger : Purger := .resting
  releaser : Releaser := .uncalled
  made : Nat := 0
  log : List Event := []
  deriving Repr, DecidableEq

/-- `NewWorkerPool`. -/
def newWorkerPool (size expiry : Int) : State :=
  let size := if size ≤ 0 then defaultConcurrency else size
  let expiry := if expiry ≤ 0 then defaultPurgeIntervalTime else expiry
  { capacity := int32 size, expiryDuration := int64 (expiry * 1000000000) }

/-- A step, with what the scheduler and the environment choose: what the cache returns, whether a task panics,
the time, and the caller that `Signal` wakes. -/
inductive Label where
  | serve
  | caller (c : Nat) (choice : Option Nat)
  | worker (g : Nat) (panics : Bool) (now : Int) (waiter : Option Nat)
  | purger (now : Int)
  | releaser
  deriving Repr, DecidableEq

namespace State

variable (s : State)

/-- The purger or `Release` holds the lock. -/
def locked : Bool :=
  match s.purger, s.releaser with
  | .sweeping _, _ => true
  | _, .sweeping => true
  | _, _ => false

/-- A caller goes on. -/
def moveCaller (c : Nat) (caller : Caller) (stage : Stage) : State :=
  { s with callers := s.callers.set c { caller with stage } }

/-- A goroutine goes on. -/
def moveGoroutine (g : Nat) (goroutine : Goroutine) (phase : Phase) : State :=
  { s with goroutines := s.goroutines.set g { goroutine with phase } }

/-- The last idle worker is taken; where there is none, the caller goes to `otherwise`. -/
def takeIdle (c : Nat) (caller : Caller) (otherwise : Stage) : State :=
  match s.workers.getLast? with
  | some (w, _) => { s with workers := s.workers.dropLast }.moveCaller c caller (.holding w)
  | none => s.moveCaller c caller otherwise

/-- `Serve` and `retrieveWorker`. -/
def callerStep (c : Nat) (choice : Option Nat) : Option State := do
  let caller ← s.callers[c]?
  match caller.stage with
  | .entering => return s.moveCaller c caller (if s.release then .refused else .retrieving)
  | .retrieving =>
    if s.locked then none
    else return s.takeIdle c caller (if s.running < s.capacity then .creating else .waiting)
  | .creating => do
    let (v, rest) ← takeOut s.workerCache choice
    match v with
    | some w => return { s with workerCache := rest }.moveCaller c caller (.got w)
    | none => return { s with made := s.made + 1 }.moveCaller c caller (.got s.made)
  | .got w => return { s with running := int32 (s.running + 1) }.moveCaller c caller (.counted w)
  | .counted w =>
    let s : State := { s with goroutines := s.goroutines ++ [{ worker := w }], log := s.log ++ [.started w] }
    return s.moveCaller c caller (.holding w)
  | .holding w =>
    let s : State := { s with
      messages := s.messages ++ [(w, some caller.task)], log := s.log ++ [.sent w caller.task] }
    return s.moveCaller c caller .served
  | .notified => if s.locked then none else return s.takeIdle c caller .waiting
  | .waiting => none
  | .refused => none
  | .served => none

/-- `cond.Signal`: a caller that waits is woken, if there is one. -/
def signal (waiter : Option Nat) : Option State :=
  match waiter with
  | none => if s.callers.any (·.stage = .waiting) then none else some s
  | some c => do
    let caller ← s.callers[c]?
    if caller.stage = .waiting then return s.moveCaller c caller .notified else none

/-- The goroutine of `run`. -/
def workerStep (g : Nat) (panics : Bool) (now : Int) (waiter : Option Nat) : Option State := do
  let goroutine ← s.goroutines[g]?
  let w := goroutine.worker
  match goroutine.phase with
  | .receiving => do
    let (_, task) ← s.messages.find? (·.1 = w)
    let s : State := { s with messages := s.messages.eraseP (·.1 = w) }
    match task with
    | some t =>
      let s : State := { s with log := s.log ++ [.executes w t] }
      return s.moveGoroutine g goroutine (.executing t)
    | none => return s.moveGoroutine g goroutine .ending
  | .executing _ => return s.moveGoroutine g goroutine (if panics then .ending else .finished)
  | .finished => return s.moveGoroutine g goroutine (if s.release then .breaking else .recycling now)
  | .recycling recycleTime =>
    if s.locked then none
    else
      let s : State := { s with workers := s.workers ++ [(w, recycleTime)] }
      (s.moveGoroutine g goroutine .receiving).signal waiter
  | .ending => return { s with running := int32 (s.running - 1) }.moveGoroutine g goroutine .parking
  | .parking => return { s with workerCache := s.workerCache ++ [w] }.moveGoroutine g goroutine .leaving
  | .leaving => return s.moveGoroutine g goroutine .exited
  | .breaking => return s.moveGoroutine g goroutine .exited
  | .exited => none

/-- `w.task <- nil`, for the first idle worker. -/
def tell (w : Nat) (rest : List (Nat × Int)) : State :=
  { s with workers := rest, messages := s.messages ++ [(w, none)], log := s.log ++ [.told w] }

/-- `periodicallyPurge`. -/
def purgerStep (now : Int) : Option State :=
  match s.purger with
  | .resting => some { s with purger := if s.release then .stopped else .ticked now }
  | .ticked currentTime => if s.locked then none else some { s with purger := .sweeping currentTime }
  | .sweeping currentTime =>
    match s.workers with
    | [] => some { s with purger := .resting }
    | (w, recycleTime) :: rest =>
      if currentTime - recycleTime ≤ s.expiryDuration then some { s with purger := .resting }
      else some (s.tell w rest)
  | .stopped => none

/-- `Release`, which is called once. -/
def releaserStep : Option State :=
  match s.releaser with
  | .uncalled => some { s with release := true, releaser := .closing }
  | .closing => if s.locked then none else some { s with releaser := .sweeping }
  | .sweeping =>
    match s.workers with
    | [] => some { s with releaser := .returned }
    | (w, _) :: rest => some (s.tell w rest)
  | .returned => none

/-- One step. -/
def step : Label → Option State
  | .serve => some { s with callers := s.callers ++ [{ task := s.callers.length }] }
  | .caller c choice => s.callerStep c choice
  | .worker g panics now waiter => s.workerStep g panics now waiter
  | .purger now => s.purgerStep now
  | .releaser => s.releaserStep

end State

/-- The pool and all that work with it. -/
def system : System State Label := ⟨State.step⟩

/-! ### Places -/

/-- Where a worker or a task is. -/
inductive Place where
  | idle (w : Nat)
  | cached (w : Nat)
  | message (w : Nat) (task : Option Nat)
  /-- A call that has not sent its task. -/
  | task (t : Nat)
  | creating
  | got (w : Nat)
  | counted (w : Nat)
  | holding (w : Nat)
  | goroutine (w : Nat) (phase : Phase)
  deriving Repr, DecidableEq

/-- The places of a caller. -/
def Caller.places (caller : Caller) : List Place :=
  match caller.stage with
  | .refused => []
  | .served => []
  | .creating => [.task caller.task, .creating]
  | .got w => [.task caller.task, .got w]
  | .counted w => [.task caller.task, .counted w]
  | .holding w => [.task caller.task, .holding w]
  | .entering => [.task caller.task]
  | .retrieving => [.task caller.task]
  | .waiting => [.task caller.task]
  | .notified => [.task caller.task]

/-- The weight of all places. -/
def State.weigh (f : Place → Nat) (s : State) : Nat :=
  tokens (fun idle => f (.idle idle.1)) s.workers + tokens (fun w => f (.cached w)) s.workerCache +
    tokens (fun message => f (.message message.1 message.2)) s.messages +
    tokens (fun caller => tokens f caller.places) s.callers +
    tokens (fun goroutine => f (.goroutine goroutine.worker goroutine.phase)) s.goroutines

theorem State.weigh_add (f g : Place → Nat) (s : State) : s.weigh (fun p => f p + g p) = s.weigh f + s.weigh g := by
  simp only [weigh, tokens_add]
  omega

theorem State.weigh_mono {f g : Place → Nat} (le : ∀ p, f p ≤ g p) (s : State) : s.weigh f ≤ s.weigh g := by
  have idle := tokens_mono (fun idle : Nat × Int => le (.idle idle.1)) s.workers
  have cached := tokens_mono (fun w => le (.cached w)) s.workerCache
  have messages := tokens_mono (fun message : Nat × Option Nat => le (.message message.1 message.2)) s.messages
  have callers := tokens_mono (fun caller : Caller => tokens_mono le caller.places) s.callers
  have goroutines := tokens_mono (fun g : Goroutine => le (.goroutine g.worker g.phase)) s.goroutines
  unfold weigh
  omega

/-- **What a step moves.** -/
inductive Rule where
  | quiet
  | serve (t : Nat)
  | refuse (t : Nat)
  | pass
  | take (w : Nat)
  | fetch (w : Nat)
  | make (w : Nat)
  | count (w : Nat)
  | start (w : Nat)
  | send (w t : Nat)
  | receive (w t : Nat)
  | receiveNil (w : Nat)
  /-- A task ends, or the worker is to be recycled. -/
  | proceed (w : Nat) (phase next : Phase)
  | break_ (w : Nat)
  | recycle (w : Nat) (recycleTime : Int)
  | uncount (w : Nat)
  | put (w : Nat)
  | exit (w : Nat)
  | quit (w : Nat)
  | tell (w : Nat)

/-- The places a rule empties. -/
def Rule.before : Rule → List Place
  | .quiet => []
  | .serve _ => []
  | .refuse t => [.task t]
  | .pass => []
  | .take w => [.idle w]
  | .fetch w => [.creating, .cached w]
  | .make _ => [.creating]
  | .count w => [.got w]
  | .start w => [.counted w]
  | .send w t => [.task t, .holding w]
  | .receive w t => [.goroutine w .receiving, .message w (some t)]
  | .receiveNil w => [.goroutine w .receiving, .message w none]
  | .proceed w phase _ => [.goroutine w phase]
  | .break_ w => [.goroutine w .finished]
  | .recycle w recycleTime => [.goroutine w (.recycling recycleTime)]
  | .uncount w => [.goroutine w .ending]
  | .put w => [.goroutine w .parking]
  | .exit w => [.goroutine w .leaving]
  | .quit w => [.goroutine w .breaking]
  | .tell w => [.idle w]

/-- The places a rule fills. -/
def Rule.after : Rule → List Place
  | .quiet => []
  | .serve t => [.task t]
  | .refuse _ => []
  | .pass => [.creating]
  | .take w => [.holding w]
  | .fetch w => [.got w]
  | .make w => [.got w]
  | .count w => [.counted w]
  | .start w => [.holding w, .goroutine w .receiving]
  | .send w t => [.message w (some t)]
  | .receive w t => [.goroutine w (.executing t)]
  | .receiveNil w => [.goroutine w .ending]
  | .proceed w _ next => [.goroutine w next]
  | .break_ w => [.goroutine w .breaking]
  | .recycle w _ => [.idle w, .goroutine w .receiving]
  | .uncount w => [.goroutine w .parking]
  | .put w => [.cached w, .goroutine w .leaving]
  | .exit w => [.goroutine w .exited]
  | .quit w => [.goroutine w .exited]
  | .tell w => [.message w none]

/-- The events of a rule. -/
def Rule.events : Rule → List Event
  | .start w => [.started w]
  | .send w t => [.sent w t]
  | .receive w t => [.executes w t]
  | .tell w => [.told w]
  | _ => []

/-- `running` behind a rule. -/
def Rule.runs (running : Int) : Rule → Int
  | .count _ => int32 (running + 1)
  | .uncount _ => int32 (running - 1)
  | _ => running

/-- `made` behind a rule. -/
def Rule.makes (made : Nat) : Rule → Nat
  | .make _ => made + 1
  | _ => made

/-- The number of calls behind a rule. -/
def Rule.calls (calls : Nat) : Rule → Nat
  | .serve _ => calls + 1
  | _ => calls

/-- When a rule applies, beyond the places it empties. -/
def Rule.Guard (s : State) (l : Label) : Rule → Prop
  | .serve t => t = s.callers.length
  | .make w => w = s.made
  | .pass => ∃ c choice caller, l = .caller c choice ∧ s.callers[c]? = some caller ∧ caller.stage = .retrieving ∧
      s.workers = [] ∧ s.running < s.capacity
  | .break_ w => ∃ g panics now waiter, l = .worker g panics now waiter ∧ s.goroutines[g]? = some ⟨w, .finished⟩ ∧
      s.release = true
  | .proceed _ phase next => (∃ t, phase = .executing t ∧ (next = .finished ∨ next = .ending)) ∨
      (phase = .finished ∧ ∃ recycleTime, next = .recycling recycleTime)
  | _ => True

/-- **A step applies a rule.** -/
structure Applies (s : State) (l : Label) (rule : Rule) (s' : State) : Prop where
  weigh : ∀ f, s'.weigh f + tokens f rule.before = s.weigh f + tokens f rule.after
  guard : rule.Guard s l
  log : s'.log = s.log ++ rule.events
  running : s'.running = rule.runs s.running
  capacity : s'.capacity = s.capacity
  made : s'.made = rule.makes s.made
  calls : s'.callers.length = rule.calls s.callers.length

/-! ### Every step applies a rule -/

section Moves

variable {s : State} {l : Label} {f : Place → Nat}

theorem weigh_moveCaller {c : Nat} {caller : Caller} (at_ : s.callers[c]? = some caller) (stage : Stage) (f : Place → Nat) :
    (s.moveCaller c caller stage).weigh f + tokens f caller.places =
      s.weigh f + tokens f { caller with stage }.places := by
  have moved := tokens_set (fun caller => tokens f caller.places) at_ { caller with stage }
  simp only [State.weigh, State.moveCaller]
  omega

theorem weigh_moveGoroutine {g : Nat} {goroutine : Goroutine} (at_ : s.goroutines[g]? = some goroutine) (phase : Phase)
    (f : Place → Nat) :
    (s.moveGoroutine g goroutine phase).weigh f + f (.goroutine goroutine.worker goroutine.phase) =
      s.weigh f + f (.goroutine goroutine.worker phase) := by
  have moved := tokens_set (fun goroutine => f (.goroutine goroutine.worker goroutine.phase)) at_ { goroutine with phase }
  simp only [State.weigh, State.moveGoroutine] at moved ⊢
  omega

@[simp] theorem length_moveCaller (c : Nat) (caller : Caller) (stage : Stage) :
    (s.moveCaller c caller stage).callers.length = s.callers.length := List.length_set

theorem takeIdle_cases (c : Nat) (caller : Caller) (otherwise : Stage) :
    (s.workers = [] ∧ s.takeIdle c caller otherwise = s.moveCaller c caller otherwise) ∨
      ∃ w recycleTime rest, s.workers = rest ++ [(w, recycleTime)] ∧
        s.takeIdle c caller otherwise = { s with workers := rest }.moveCaller c caller (.holding w) := by
  rcases List.eq_nil_or_concat s.workers with none_ | ⟨rest, ⟨w, recycleTime⟩, last⟩
  · refine .inl ⟨none_, ?_⟩
    simp only [State.takeIdle, none_, List.getLast?_nil]
  · rw [List.concat_eq_append] at last
    refine .inr ⟨w, recycleTime, rest, last, ?_⟩
    simp only [State.takeIdle, last, List.getLast?_concat, List.dropLast_concat]

theorem applies_take {c : Nat} {caller : Caller} {w : Nat} {recycleTime : Int} {rest : List (Nat × Int)}
    (at_ : s.callers[c]? = some caller) (places : caller.places = [.task caller.task])
    (last : s.workers = rest ++ [(w, recycleTime)]) :
    Applies s l (.take w) ({ s with workers := rest }.moveCaller c caller (.holding w)) := by
  refine ⟨fun f => ?_, trivial, (List.append_nil _).symm, rfl, rfl, rfl, length_moveCaller _ _ _⟩
  have moved := weigh_moveCaller (s := { s with workers := rest }) at_ (.holding w) f
  rw [places] at moved
  simp only [State.weigh, last, Caller.places, Rule.before, Rule.after, tokens_append, tokens_cons, tokens_nil] at *
  omega

theorem applies_quiet {s' : State} (weigh : ∀ f, s'.weigh f = s.weigh f) (log : s'.log = s.log)
    (running : s'.running = s.running) (capacity : s'.capacity = s.capacity) (made : s'.made = s.made)
    (calls : s'.callers.length = s.callers.length) : Applies s l .quiet s' :=
  ⟨fun f => congrArg (· + 0) (weigh f), trivial, log.trans (List.append_nil _).symm, running, capacity, made, calls⟩

theorem callerStep_applies {s' : State} {c : Nat} {choice : Option Nat} (stepped : s.callerStep c choice = some s') :
    ∃ rule, Applies s (.caller c choice) rule s' := by
  obtain ⟨⟨task, stage⟩, at_, stepped⟩ := Option.bind_eq_some_iff.mp stepped
  have moved := fun (t : State) (same : t.callers = s.callers) next f =>
    weigh_moveCaller (s := t) (same ▸ at_) next f
  cases stage with
  | entering =>
    cases stepped
    cases closed : s.release with
    | true =>
      refine ⟨.refuse task, fun f => ?_, trivial, (List.append_nil _).symm, rfl, rfl, rfl, length_moveCaller _ _ _⟩
      exact moved s rfl _ f
    | false =>
      refine ⟨.quiet, applies_quiet (fun f => ?_) rfl rfl rfl rfl (length_moveCaller _ _ _)⟩
      exact Nat.add_right_cancel (moved s rfl .retrieving f)
  | retrieving =>
    obtain ⟨-, stepped⟩ := Option.ite_none_left_eq_some.mp stepped
    cases stepped
    rcases takeIdle_cases (s := s) c ⟨task, .retrieving⟩ (if s.running < s.capacity then .creating else .waiting)
      with ⟨none_, same⟩ | ⟨w, recycleTime, rest, last, same⟩
    · rw [same]
      split
      · next room =>
          refine ⟨.pass, fun f => ?_, ⟨c, choice, _, rfl, at_, rfl, none_, room⟩, (List.append_nil _).symm, rfl, rfl,
            rfl, length_moveCaller _ _ _⟩
          have := moved s rfl .creating f
          simp only [Caller.places, Rule.before, Rule.after, tokens_cons, tokens_nil] at *
          omega
      · refine ⟨.quiet, applies_quiet (fun f => ?_) rfl rfl rfl rfl (length_moveCaller _ _ _)⟩
        exact Nat.add_right_cancel (moved s rfl .waiting f)
    · rw [same]
      exact ⟨.take w, applies_take at_ rfl last⟩
  | creating =>
    obtain ⟨⟨v, rest⟩, got, stepped⟩ := Option.bind_eq_some_iff.mp stepped
    cases got_of_takeOut got with
    | @object w rest split =>
      cases stepped
      refine ⟨.fetch w, fun f => ?_, trivial, (List.append_nil _).symm, rfl, rfl, rfl, length_moveCaller _ _ _⟩
      have := moved { s with workerCache := rest } rfl (.got w) f
      have := tokens_perm (fun w => f (.cached w)) split
      simp only [State.weigh, Caller.places, Rule.before, Rule.after, tokens_cons, tokens_nil] at *
      omega
    | nothing =>
      cases stepped
      refine ⟨.make s.made, fun f => ?_, rfl, (List.append_nil _).symm, rfl, rfl, rfl, length_moveCaller _ _ _⟩
      have := moved { s with made := s.made + 1 } rfl (.got s.made) f
      simp only [State.weigh, Caller.places, Rule.before, Rule.after, tokens_cons, tokens_nil] at *
      omega
  | got w =>
    cases stepped
    refine ⟨.count w, fun f => ?_, trivial, (List.append_nil _).symm, rfl, rfl, rfl, length_moveCaller _ _ _⟩
    have := moved { s with running := int32 (s.running + 1) } rfl (.counted w) f
    simp only [State.weigh, Caller.places, Rule.before, Rule.after, tokens_cons, tokens_nil] at *
    omega
  | counted w =>
    cases stepped
    refine ⟨.start w, fun f => ?_, trivial, rfl, rfl, rfl, rfl, length_moveCaller _ _ _⟩
    have := moved { s with goroutines := s.goroutines ++ [{ worker := w }], log := s.log ++ [Event.started w] } rfl (.holding w) f
    simp only [State.weigh, Caller.places, Rule.before, Rule.after, tokens_append, tokens_cons, tokens_nil] at *
    omega
  | holding w =>
    cases stepped
    refine ⟨.send w task, fun f => ?_, trivial, rfl, rfl, rfl, rfl, length_moveCaller _ _ _⟩
    have := moved { s with messages := s.messages ++ [(w, some task)], log := s.log ++ [Event.sent w task] } rfl .served f
    simp only [State.weigh, Caller.places, Rule.before, Rule.after, tokens_append, tokens_cons, tokens_nil] at *
    omega
  | notified =>
    obtain ⟨-, stepped⟩ := Option.ite_none_left_eq_some.mp stepped
    cases stepped
    rcases takeIdle_cases (s := s) c ⟨task, .notified⟩ .waiting with ⟨none_, same⟩ | ⟨w, recycleTime, rest, last, same⟩
    · rw [same]
      refine ⟨.quiet, applies_quiet (fun f => ?_) rfl rfl rfl rfl (length_moveCaller _ _ _)⟩
      exact Nat.add_right_cancel (moved s rfl .waiting f)
    · rw [same]
      exact ⟨.take w, applies_take at_ rfl last⟩
  | waiting => cases stepped
  | refused => cases stepped
  | served => cases stepped

/-- `Signal` moves neither workers nor tasks. -/
theorem applies_signal {s' : State} {waiter : Option Nat} (signalled : s.signal waiter = some s') :
    Applies s l .quiet s' := by
  cases waiter with
  | none =>
    obtain ⟨-, signalled⟩ := Option.ite_none_left_eq_some.mp signalled
    cases signalled
    exact applies_quiet (fun _ => rfl) rfl rfl rfl rfl rfl
  | some c =>
    obtain ⟨⟨task, stage⟩, at_, signalled⟩ := Option.bind_eq_some_iff.mp signalled
    obtain ⟨rfl, signalled⟩ := Option.ite_none_right_eq_some.mp signalled
    cases signalled
    refine applies_quiet (fun f => ?_) rfl rfl rfl rfl (length_moveCaller _ _ _)
    exact Nat.add_right_cancel (weigh_moveCaller at_ .notified f)

/-- The first message of a worker is taken out. -/
theorem perm_eraseP {w : Nat} {message : Nat × Option Nat} {messages : List (Nat × Option Nat)}
    (found : messages.find? (·.1 = w) = some message) :
    message.1 = w ∧ messages.Perm (message :: messages.eraseP (·.1 = w)) := by
  induction messages with
  | nil => cases found
  | cons first rest ih =>
    by_cases own : first.1 = w
    · rw [List.find?_cons_of_pos (by simpa using own)] at found
      cases found
      exact ⟨own, by rw [List.eraseP_cons_of_pos (by simpa using own)]⟩
    · rw [List.find?_cons_of_neg (by simpa using own)] at found
      obtain ⟨same, split⟩ := ih found
      refine ⟨same, ?_⟩
      rw [List.eraseP_cons_of_neg (by simpa using own)]
      exact (split.cons first).trans (.swap _ _ _)

theorem workerStep_applies {s' : State} {g : Nat} {panics : Bool} {now : Int} {waiter : Option Nat}
    (stepped : s.workerStep g panics now waiter = some s') :
    ∃ rule, Applies s (.worker g panics now waiter) rule s' := by
  obtain ⟨⟨w, phase⟩, at_, stepped⟩ := Option.bind_eq_some_iff.mp stepped
  have moved := fun (t : State) (same : t.goroutines = s.goroutines) next f =>
    weigh_moveGoroutine (s := t) (same ▸ at_) next f
  cases phase with
  | receiving =>
    obtain ⟨⟨w', task⟩, found, stepped⟩ := Option.bind_eq_some_iff.mp stepped
    obtain ⟨own, split⟩ := perm_eraseP found
    obtain rfl : w' = w := own
    cases task with
    | some t =>
      cases stepped
      refine ⟨.receive w' t, fun f => ?_, trivial, rfl, rfl, rfl, rfl, rfl⟩
      have := moved { s with messages := s.messages.eraseP (·.1 = w'), log := s.log ++ [Event.executes w' t] } rfl (.executing t) f
      have := tokens_perm (fun message => f (.message message.1 message.2)) split
      simp only [State.weigh, Rule.before, Rule.after, tokens_cons, tokens_nil] at *
      omega
    | none =>
      cases stepped
      refine ⟨.receiveNil w', fun f => ?_, trivial, (List.append_nil _).symm, rfl, rfl, rfl, rfl⟩
      have := moved { s with messages := s.messages.eraseP (·.1 = w') } rfl .ending f
      have := tokens_perm (fun message => f (.message message.1 message.2)) split
      simp only [State.weigh, Rule.before, Rule.after, tokens_cons, tokens_nil] at *
      omega
  | executing t =>
    cases stepped
    have next : (if panics then Phase.ending else .finished) = .finished ∨ (if panics then Phase.ending else .finished) = .ending := by
      cases panics
      · exact .inl rfl
      · exact .inr rfl
    refine ⟨.proceed w (.executing t) _, fun f => ?_, .inl ⟨t, rfl, next⟩, (List.append_nil _).symm, rfl, rfl, rfl, rfl⟩
    exact moved s rfl _ f
  | finished =>
    cases stepped
    cases closed : s.release with
    | true =>
      refine ⟨.break_ w, fun f => ?_, ⟨g, panics, now, waiter, rfl, at_, closed⟩, (List.append_nil _).symm, rfl, rfl, rfl,
        rfl⟩
      exact moved s rfl .breaking f
    | false =>
      refine ⟨.proceed w .finished (.recycling now), fun f => ?_, .inr ⟨rfl, now, rfl⟩, (List.append_nil _).symm, rfl, rfl, rfl,
        rfl⟩
      exact moved s rfl (.recycling now) f
  | recycling recycleTime =>
    obtain ⟨-, stepped⟩ := Option.ite_none_left_eq_some.mp stepped
    have signalled := applies_signal (l := .worker g panics now waiter) stepped
    refine ⟨.recycle w recycleTime, fun f => ?_, trivial, signalled.log, signalled.running, signalled.capacity,
      signalled.made, signalled.calls⟩
    have := moved { s with workers := s.workers ++ [(w, recycleTime)] } rfl .receiving f
    have := signalled.weigh f
    simp only [State.weigh, Rule.before, Rule.after, tokens_append, tokens_cons, tokens_nil] at *
    omega
  | ending =>
    cases stepped
    refine ⟨.uncount w, fun f => ?_, trivial, (List.append_nil _).symm, rfl, rfl, rfl, rfl⟩
    exact moved { s with running := int32 (s.running - 1) } rfl .parking f
  | parking =>
    cases stepped
    refine ⟨.put w, fun f => ?_, trivial, (List.append_nil _).symm, rfl, rfl, rfl, rfl⟩
    have := moved { s with workerCache := s.workerCache ++ [w] } rfl .leaving f
    simp only [State.weigh, Rule.before, Rule.after, tokens_append, tokens_cons, tokens_nil] at *
    omega
  | leaving =>
    cases stepped
    refine ⟨.exit w, fun f => ?_, trivial, (List.append_nil _).symm, rfl, rfl, rfl, rfl⟩
    exact moved s rfl .exited f
  | breaking =>
    cases stepped
    refine ⟨.quit w, fun f => ?_, trivial, (List.append_nil _).symm, rfl, rfl, rfl, rfl⟩
    exact moved s rfl .exited f
  | exited => cases stepped

theorem applies_tell {w : Nat} {recycleTime : Int} {rest : List (Nat × Int)} (first : s.workers = (w, recycleTime) :: rest) :
    Applies s l (.tell w) (s.tell w rest) := by
  refine ⟨fun f => ?_, trivial, rfl, rfl, rfl, rfl, rfl⟩
  simp only [State.weigh, State.tell, first, Rule.before, Rule.after, tokens_append, tokens_cons, tokens_nil]
  omega

theorem purgerStep_applies {s' : State} {now : Int} (stepped : s.purgerStep now = some s') :
    ∃ rule, Applies s (.purger now) rule s' := by
  have quiet : ∀ purger, Applies s (.purger now) .quiet { s with purger } := fun _ =>
    applies_quiet (fun _ => rfl) rfl rfl rfl rfl rfl
  unfold State.purgerStep at stepped
  split at stepped
  · cases stepped
    exact ⟨.quiet, quiet _⟩
  · obtain ⟨-, stepped⟩ := Option.ite_none_left_eq_some.mp stepped
    cases stepped
    exact ⟨.quiet, quiet _⟩
  · split at stepped
    · cases stepped
      exact ⟨.quiet, quiet _⟩
    · next w recycleTime rest first =>
        split at stepped
        · cases stepped
          exact ⟨.quiet, quiet _⟩
        · cases stepped
          exact ⟨.tell w, applies_tell first⟩
  · cases stepped

theorem releaserStep_applies {s' : State} (stepped : s.releaserStep = some s') : ∃ rule, Applies s .releaser rule s' := by
  unfold State.releaserStep at stepped
  split at stepped
  · cases stepped
    exact ⟨.quiet, applies_quiet (fun _ => rfl) rfl rfl rfl rfl rfl⟩
  · obtain ⟨-, stepped⟩ := Option.ite_none_left_eq_some.mp stepped
    cases stepped
    exact ⟨.quiet, applies_quiet (fun _ => rfl) rfl rfl rfl rfl rfl⟩
  · split at stepped
    · cases stepped
      exact ⟨.quiet, applies_quiet (fun _ => rfl) rfl rfl rfl rfl rfl⟩
    · next w recycleTime rest first =>
        cases stepped
        exact ⟨.tell w, applies_tell first⟩
  · cases stepped

/-- **Every step applies a rule.** -/
theorem step_applies {s' : State} (stepped : s.step l = some s') : ∃ rule, Applies s l rule s' := by
  cases l with
  | serve =>
    cases stepped
    refine ⟨.serve s.callers.length, fun f => ?_, rfl, (List.append_nil _).symm, rfl, rfl, rfl, List.length_append⟩
    simp only [State.weigh, Caller.places, Rule.before, Rule.after, tokens_append, tokens_cons, tokens_nil]
    omega
  | caller c choice => exact callerStep_applies stepped
  | worker g panics now waiter => exact workerStep_applies stepped
  | purger now => exact purgerStep_applies stepped
  | releaser => exact releaserStep_applies stepped

end Moves

end Strike.WorkerPool
