/-
**Open connections are counted** (`handler.go`, `session.go`).

`OnNewConnection` runs the filters of a connection, registers a listener for its end and counts it. `Close`
works once, and tells every listener that is registered when it comes to them. A step of the model is one
access to the close flag, to the listeners or to the counter; filters, agents and the two loops call `Close`
at any time.

What was told is kept in the state, which the code does not look at.

* `numConnections_right`: with no handler running the counter is the number of open connections, where no
  `Close` comes to the listeners before that of the server is one (`Attends`).
* `closed_early`: a filter that closes the connection leaves it counted.
-/

import Strike.Go.Slice
import Strike.Lib.System

namespace Strike.Server

open Lib

/-- `ConnectionEvent`. -/
inductive ConnectionEvent where
  | remoteClose
  | localClose
  | onReadErrClose
  | onWriteErrClose
  | onConnect
  | connected
  | connectTimeout
  | connectFailed
  | onReadTimeout
  deriving Repr, DecidableEq

/-- `IsClose`. -/
def ConnectionEvent.isClose : ConnectionEvent → Bool
  | .localClose | .remoteClose | .onReadErrClose | .onWriteErrClose => true
  | _ => false

/-- A listener of a connection: the `activeConnection`, or one that a filter registered. -/
inductive Callback where
  | activeConnection
  | other
  deriving Repr, DecidableEq

/-- Where `OnNewConnection` stands. -/
inductive Progress where
  /-- In the filters. -/
  | initializing
  /-- At `AddConnectionEventListener`. -/
  | registering
  /-- At `atomic.AddInt64`. -/
  | counting
  /-- At `conn.Start`. -/
  | started
  /-- Behind the `Close` of a connection without filter. -/
  | refused
  /-- A filter panicked. -/
  | panicked
  deriving Repr, DecidableEq

/-- Where the `Close` stands that set the flag. -/
inductive Closing where
  | uncalled
  /-- At the loop over the listeners. -/
  | begun (event : ConnectionEvent)
  /-- In the loop, with those told and those left. -/
  | telling (event : ConnectionEvent) (told left : List Callback)
  | closed (event : ConnectionEvent) (told : List Callback)
  deriving Repr, DecidableEq

/-- A connection, with the number of its filters. -/
structure Conn where
  filters : Nat
  progress : Progress := .initializing
  connCallbacks : List Callback := []
  closing : Closing := .uncalled
  deriving Repr, DecidableEq

/-- What happens to a connection. -/
inductive Event where
  /-- A filter registers a listener. -/
  | listen
  /-- `OnNewConnection` takes a step. -/
  | proceed
  /-- A filter panics. -/
  | panic
  /-- `Close` is called. -/
  | close (event : ConnectionEvent)
  /-- The `Close` that set the flag takes a step. -/
  | tell
  deriving Repr, DecidableEq

namespace Conn

/-- `Close` up to the listeners: only the first call goes on. -/
def close (c : Conn) (event : ConnectionEvent) : Conn :=
  match c.closing with
  | .uncalled => { c with closing := .begun event }
  | _ => c

/-- `OnEvent`: by how much it changes the counter. -/
def onEvent : Callback → ConnectionEvent → Int
  | .activeConnection, event => if event.isClose then -1 else 0
  | .other, _ => 0

/-- A step of `OnNewConnection`, and the change of the counter. -/
def proceed (c : Conn) : Option (Conn × Int) :=
  match c.progress with
  | .initializing =>
    if c.filters = 0 then some ({ c.close .localClose with progress := .refused }, 0)
    else some ({ c with progress := .registering }, 0)
  | .registering =>
    some ({ c with connCallbacks := c.connCallbacks ++ [.activeConnection], progress := .counting }, 0)
  | .counting => some ({ c with progress := .started }, 1)
  | _ => none

/-- A step of `Close`, and the change of the counter. -/
def tell (c : Conn) : Option (Conn × Int) :=
  match c.closing with
  | .begun event => some ({ c with closing := .telling event [] c.connCallbacks }, 0)
  | .telling event told (cb :: left) =>
    some ({ c with closing := .telling event (told ++ [cb]) left }, onEvent cb event)
  | .telling event told [] => some ({ c with closing := .closed event told }, 0)
  | _ => none

/-- A step, and the change of the counter. -/
def step (c : Conn) : Event → Option (Conn × Int)
  | .listen => some ({ c with connCallbacks := c.connCallbacks ++ [.other] }, 0)
  | .proceed => c.proceed
  | .panic => if c.progress = .initializing then some ({ c with progress := .panicked }, 0) else none
  | .close event => some (c.close event, 0)
  | .tell => c.tell

end Conn

/-- The counter of `connHandler`, and the connections it accepted. -/
structure Handler where
  numConnections : Int := 0
  conns : List Conn := []
  deriving Repr, DecidableEq

/-- A connection is accepted, or something happens to one. -/
inductive Move where
  | accept (filters : Nat)
  | on (i : Nat) (event : Event)
  deriving Repr, DecidableEq

namespace Handler

/-- A move. -/
def step (s : Handler) : Move → Option Handler
  | .accept filters => some { s with conns := s.conns ++ [{ filters }] }
  | .on i event => do
    let c ← s.conns[i]?
    let (c', change) ← c.step event
    return { numConnections := s.numConnections + change, conns := s.conns.set i c' }

/-- All runs of the handler. -/
def system : System Handler Move := ⟨step⟩

/-- `NumConnections`: the counter as a `uint64`. -/
def getNumConnections (s : Handler) : Nat := (s.numConnections % 2 ^ 64).toNat

end Handler

/-! ### What a step does -/

namespace Conn

/-- **Everything a step can do.** -/
inductive Steps (c : Conn) : Event → Conn → Int → Prop where
  | listen : Steps c .listen { c with connCallbacks := c.connCallbacks ++ [.other] } 0
  | refuse (at_ : c.progress = .initializing) (bare : c.filters = 0) :
      Steps c .proceed { c.close .localClose with progress := .refused } 0
  | filtered (at_ : c.progress = .initializing) (some_ : c.filters ≠ 0) :
      Steps c .proceed { c with progress := .registering } 0
  | register (at_ : c.progress = .registering) :
      Steps c .proceed { c with connCallbacks := c.connCallbacks ++ [.activeConnection], progress := .counting } 0
  | count (at_ : c.progress = .counting) : Steps c .proceed { c with progress := .started } 1
  | panic (at_ : c.progress = .initializing) : Steps c .panic { c with progress := .panicked } 0
  | close (event : ConnectionEvent) : Steps c (.close event) (c.close event) 0
  | start {event : ConnectionEvent} (at_ : c.closing = .begun event) :
      Steps c .tell { c with closing := .telling event [] c.connCallbacks } 0
  | told {event : ConnectionEvent} {told left : List Callback} {cb : Callback}
      (at_ : c.closing = .telling event told (cb :: left)) :
      Steps c .tell { c with closing := .telling event (told ++ [cb]) left } (onEvent cb event)
  | finish {event : ConnectionEvent} {told : List Callback} (at_ : c.closing = .telling event told []) :
      Steps c .tell { c with closing := .closed event told } 0

theorem step_steps {c c' : Conn} {event : Event} {change : Int} (stepped : c.step event = some (c', change)) :
    Steps c event c' change := by
  cases event with
  | listen =>
    cases stepped
    exact .listen
  | proceed =>
    change c.proceed = _ at stepped
    unfold proceed at stepped
    split at stepped
    · next at_ =>
        split at stepped
        · next bare =>
            cases stepped
            exact .refuse at_ bare
        · next some_ =>
            cases stepped
            exact .filtered at_ some_
    · next at_ =>
        cases stepped
        exact .register at_
    · next at_ =>
        cases stepped
        exact .count at_
    · cases stepped
  | panic =>
    change (if _ then _ else _) = _ at stepped
    split at stepped
    · next at_ =>
        cases stepped
        exact .panic at_
    · cases stepped
  | close event =>
    cases stepped
    exact .close event
  | tell =>
    change c.tell = _ at stepped
    unfold tell at stepped
    split at stepped
    · next at_ =>
        cases stepped
        exact .start at_
    · next at_ =>
        cases stepped
        exact .told at_
    · next at_ =>
        cases stepped
        exact .finish at_
    · cases stepped

theorem close_cases (c : Conn) (event : ConnectionEvent) :
    (c.closing = .uncalled ∧ c.close event = { c with closing := .begun event }) ∨ c.close event = c := by
  unfold close
  split
  · next at_ => exact .inl ⟨at_, rfl⟩
  · exact .inr rfl

end Conn

/-! ### Accounts -/

/-- One for a connection that `OnNewConnection` counted. -/
def Conn.counted (c : Conn) : Int := if c.progress = .started then 1 else 0

/-- The changes of the counter by the listeners that were told. -/
def Closing.undone : Closing → Int
  | .telling event told _ => (told.map (Conn.onEvent · event)).sum
  | .closed event told => (told.map (Conn.onEvent · event)).sum
  | _ => 0

/-- The part of a connection in the counter. -/
def Conn.account (c : Conn) : Int := c.counted + c.closing.undone

theorem Conn.close_undone (c : Conn) (event : ConnectionEvent) : (c.close event).closing.undone = c.closing.undone := by
  rcases c.close_cases event with ⟨at_, begun⟩ | same
  · rw [begun, at_]
    rfl
  · rw [same]

theorem Conn.close_progress (c : Conn) (event : ConnectionEvent) : (c.close event).progress = c.progress := by
  rcases c.close_cases event with ⟨-, begun⟩ | same
  · rw [begun]
  · rw [same]

/-- **A step changes the counter by what it changes in the account of its connection.** -/
theorem Conn.step_account {c c' : Conn} {event : Event} {change : Int} (steps : Steps c event c' change) :
    c'.account = c.account + change := by
  unfold Conn.account Conn.counted
  cases steps with
  | listen => exact (add_zero _).symm
  | refuse at_ bare => simp [at_, c.close_undone]
  | filtered at_ some_ => simp [at_]
  | register at_ => simp [at_]
  | count at_ =>
    simp only [at_]
    simp [add_comm]
  | panic at_ => simp [at_]
  | close event => rw [c.close_undone, c.close_progress, add_zero]
  | start at_ => simp [at_, Closing.undone]
  | told at_ => simp [at_, Closing.undone, add_assoc]
  | finish at_ => simp [at_, Closing.undone]

/-! ### Connections that are attended to -/

namespace Conn

/-- How often the `activeConnection` is registered. -/
def registered (c : Conn) : Nat := if c.progress = .counting ∨ c.progress = .started then 1 else 0

/-- The `activeConnection` is registered, or never will be. -/
def Settled (c : Conn) : Prop := c.progress ≠ .registering ∧ (c.progress = .initializing → c.filters = 0)

instance (c : Conn) : Decidable c.Settled := inferInstanceAs (Decidable (_ ∧ _))

/-- The event of a `Close` that came to the listeners, and those it found. -/
def found (c : Conn) : Option (ConnectionEvent × List Callback) :=
  match c.closing with
  | .telling event told left => some (event, told ++ left)
  | .closed event told => some (event, told)
  | _ => none

/-- **A `Close` that came to the listeners found that of the server**, if there is one, and told it of the
end. -/
structure Attended (c : Conn) : Prop where
  once : c.connCallbacks.count .activeConnection = c.registered
  heard : ∀ event cbs, c.found = some (event, cbs) →
    event.isClose ∧ cbs.count .activeConnection = c.registered ∧ c.Settled

theorem close_found (c : Conn) (event : ConnectionEvent) : (c.close event).found = c.found := by
  rcases c.close_cases event with ⟨at_, begun⟩ | same
  · rw [begun, found, found, at_]
  · rw [same]

theorem close_connCallbacks (c : Conn) (event : ConnectionEvent) : (c.close event).connCallbacks = c.connCallbacks := by
  rcases c.close_cases event with ⟨-, begun⟩ | same
  · rw [begun]
  · rw [same]

theorem close_filters (c : Conn) (event : ConnectionEvent) : (c.close event).filters = c.filters := by
  rcases c.close_cases event with ⟨-, begun⟩ | same
  · rw [begun]
  · rw [same]

/-- A change that keeps the listeners found and how often the server is registered. -/
theorem Attended.of_same {c c' : Conn} (attended : c.Attended)
    (once : c'.connCallbacks.count .activeConnection = c'.registered) (same : c'.found = c.found)
    (registered : c'.registered = c.registered) (settled : c.Settled → c'.Settled) : c'.Attended := by
  refine ⟨once, fun event cbs isFound => ?_⟩
  rw [same] at isFound
  obtain ⟨isClose, number, was⟩ := attended.heard event cbs isFound
  exact ⟨isClose, registered ▸ number, settled was⟩

/-- **A connection that is attended to stays so**, if `Close` comes to the listeners in time. -/
theorem step_attended {c c' : Conn} {event : Event} {change : Int} (attended : c.Attended)
    (intime : ∀ reason, event = .tell → c.closing = .begun reason → reason.isClose ∧ c.Settled)
    (steps : Steps c event c' change) : c'.Attended := by
  cases steps with
  | listen =>
    refine attended.of_same ?_ rfl rfl id
    rw [List.count_append, attended.once]
    rfl
  | refuse at_ bare =>
    have none_ : c.registered = 0 := by simp [registered, at_]
    refine attended.of_same ?_ (c.close_found _) ?_ fun _ => ⟨by simp, by simp⟩
    · rw [c.close_connCallbacks, attended.once, none_]
      rfl
    · rw [none_]
      rfl
  | filtered at_ some_ =>
    -- With filters to run it is not settled yet, so no `Close` came to the listeners.
    have none_ : c.registered = 0 := by simp [registered, at_]
    refine attended.of_same ?_ rfl ?_ fun settled => absurd (settled.2 at_) some_
    · rw [attended.once, none_]
      rfl
    · rw [none_]
      rfl
  | register at_ =>
    have none_ : c.registered = 0 := by simp [registered, at_]
    refine ⟨?_, fun reason cbs isFound => absurd at_ (attended.heard reason cbs isFound).2.2.1⟩
    rw [List.count_append, attended.once, none_]
    rfl
  | count at_ =>
    have one : c.registered = 1 := by simp [registered, at_]
    refine attended.of_same ?_ rfl ?_ fun _ => ⟨by simp, by simp⟩
    · rw [attended.once, one]
      rfl
    · rw [one]
      rfl
  | panic at_ =>
    have none_ : c.registered = 0 := by simp [registered, at_]
    refine attended.of_same ?_ rfl ?_ fun _ => ⟨by simp, by simp⟩
    · rw [attended.once, none_]
      rfl
    · rw [none_]
      rfl
  | close reason =>
    have same : (c.close reason).registered = c.registered := by rw [registered, registered, c.close_progress]
    refine attended.of_same ?_ (c.close_found reason) same fun settled => ?_
    · rw [c.close_connCallbacks, attended.once, same]
    · rw [Settled, c.close_progress, c.close_filters]
      exact settled
  | @start reason at_ =>
    obtain ⟨isClose, settled⟩ := intime reason rfl at_
    refine ⟨attended.once, fun _ _ isFound => ?_⟩
    cases isFound
    exact ⟨isClose, attended.once, settled⟩
  | @told reason told left cb at_ =>
    refine attended.of_same attended.once ?_ rfl id
    rw [found, found, at_]
    simp
  | @finish reason told at_ =>
    refine attended.of_same attended.once ?_ rfl id
    rw [found, found, at_]
    simp

/-! ### With no handler running -/

/-- Neither `OnNewConnection` nor `Close` is running. -/
def Quiet (c : Conn) : Prop :=
  (c.progress = .started ∨ c.progress = .refused ∨ c.progress = .panicked) ∧
    (c.closing = .uncalled ∨ ∃ event told, c.closing = .closed event told)

/-- **The connection has completed its registration and has not been closed.** -/
def isOpen (c : Conn) : Bool := c.progress = .started ∧ c.closing = .uncalled

theorem sum_onEvent {event : ConnectionEvent} (isClose : event.isClose) (cbs : List Callback) :
    (cbs.map (onEvent · event)).sum = -(cbs.count .activeConnection : Int) := by
  induction cbs with
  | nil => rfl
  | cons cb cbs ih =>
    rw [List.map_cons, List.sum_cons, ih]
    cases cb with
    | activeConnection =>
      rw [onEvent, if_pos isClose, List.count_cons_self]
      push_cast
      ring
    | other =>
      rw [onEvent, List.count_cons_of_ne (by decide), zero_add]

theorem Attended.account {c : Conn} (attended : c.Attended) (quiet : c.Quiet) :
    c.account = if c.isOpen then 1 else 0 := by
  obtain ⟨done, uncalled | ⟨event, told, closed⟩⟩ := quiet
  · simp [Conn.account, counted, Closing.undone, isOpen, uncalled]
  · obtain ⟨isClose, number, -⟩ := attended.heard event told (by rw [found, closed])
    have same : (c.registered : Int) = c.counted := by
      rcases done with at_ | at_ | at_ <;> simp [registered, counted, at_]
    rw [Conn.account, closed, Closing.undone, sum_onEvent isClose, number, same, add_neg_cancel, if_neg]
    simp [isOpen, closed]

end Conn

/-- The event of a `Close` that comes to the listeners with its next step. -/
def Conn.arriving (c : Conn) : Option ConnectionEvent :=
  match c.closing with
  | .begun event => some event
  | _ => none

namespace Handler

/-- A `Close` comes to the listeners with an event of the end, and not before that of the server is one. -/
def Attends (s : Handler) : Move → Prop
  | .on i .tell => ∀ c ∈ s.conns[i]?, ∀ event ∈ c.arriving, event.isClose ∧ c.Settled
  | _ => True

instance (s : Handler) : ∀ move, Decidable (s.Attends move)
  | .accept _ => isTrue trivial
  | .on _ .listen => isTrue trivial
  | .on _ .proceed => isTrue trivial
  | .on _ .panic => isTrue trivial
  | .on _ (.close _) => isTrue trivial
  | .on i .tell => inferInstanceAs (Decidable (∀ c ∈ s.conns[i]?, ∀ event ∈ c.arriving, event.isClose ∧ c.Settled))

/-- The counter is the sum of the accounts, and all connections are attended to. -/
structure Right (s : Handler) : Prop where
  counter : s.numConnections = (s.conns.map Conn.account).sum
  attended : ∀ c ∈ s.conns, c.Attended

theorem sum_account_set {c c' : Conn} {i : Nat} (conns : List Conn) (there : conns[i]? = some c) :
    ((conns.set i c').map Conn.account).sum = (conns.map Conn.account).sum + (c'.account - c.account) := by
  induction conns generalizing i with
  | nil => cases there
  | cons first conns ih =>
    cases i with
    | zero =>
      cases there
      rw [List.set_cons_zero, List.map_cons, List.map_cons, List.sum_cons, List.sum_cons]
      ring
    | succ i =>
      rw [List.set_cons_succ, List.map_cons, List.map_cons, List.sum_cons, List.sum_cons, ih there]
      ring

theorem step_right {s s' : Handler} {move : Move} (right : s.Right) (attends : s.Attends move)
    (stepped : s.step move = some s') : s'.Right := by
  cases move with
  | accept filters =>
    cases stepped
    refine ⟨?_, fun c there => ?_⟩
    · rw [List.map_append, List.sum_append, right.counter]
      exact (add_zero _).symm
    · rcases List.mem_append.mp there with old | new
      · exact right.attended c old
      · rw [List.mem_singleton.mp new]
        refine ⟨rfl, fun event cbs isFound => ?_⟩
        cases isFound
  | on i event =>
    obtain ⟨c, there, stepped⟩ := Option.bind_eq_some_iff.mp stepped
    obtain ⟨⟨c', change⟩, moved, same⟩ := Option.bind_eq_some_iff.mp stepped
    cases same
    have steps := Conn.step_steps moved
    refine ⟨?_, fun other inside => ?_⟩
    · rw [sum_account_set s.conns there, Conn.step_account steps, right.counter, add_sub_cancel_left]
    · rcases List.mem_or_eq_of_mem_set inside with old | rfl
      · exact right.attended other old
      · refine Conn.step_attended (right.attended c (List.mem_of_getElem? there)) ?_ steps
        rintro reason rfl begun
        exact attends c there reason (by rw [Conn.arriving, begun]; rfl)

/-- No handler is running. -/
def Quiet (s : Handler) : Prop := ∀ c ∈ s.conns, c.Quiet

/-- How many connections are open. -/
def openCount (s : Handler) : Nat := s.conns.countP Conn.isOpen

theorem sum_account {conns : List Conn} (attended : ∀ c ∈ conns, c.Attended) (quiet : ∀ c ∈ conns, c.Quiet) :
    (conns.map Conn.account).sum = (conns.countP Conn.isOpen : Int) := by
  induction conns with
  | nil => rfl
  | cons c conns ih =>
    obtain ⟨here, later⟩ := List.forall_mem_cons.mp attended
    obtain ⟨still, rest⟩ := List.forall_mem_cons.mp quiet
    rw [List.map_cons, List.sum_cons, here.account still, ih later rest, List.countP_cons]
    push_cast
    ring

/-- **The counter is right** once no handler is running, in every run in which no `Close` comes to the
listeners of a connection before that of the server is one of them. -/
theorem numConnections_right {moves : List Move} {s : Handler} (attends : system.Meets Attends {} moves)
    (ran : system.run {} moves = some s) (quiet : s.Quiet) : s.getNumConnections = s.openCount % 2 ^ 64 := by
  have right : s.Right := System.run_keeps step_right ⟨rfl, fun c no => absurd no List.not_mem_nil⟩ attends ran
  rw [getNumConnections, right.counter, sum_account right.attended quiet, openCount]
  omega

/-- Two connections; the first is closed by both loops. -/
def bothLoops : List Move :=
  [.accept 1, .on 0 .proceed, .on 0 .listen, .accept 2, .on 0 .proceed, .on 1 .proceed, .on 0 .proceed, .on 1 .proceed,
    .on 0 (.close .remoteClose), .on 0 .tell, .on 0 (.close .onWriteErrClose), .on 0 .tell, .on 1 .proceed, .on 0 .tell,
    .on 0 .tell]

theorem numConnections_right_loops :
    ∃ s, system.run {} bothLoops = some s ∧ s.Quiet ∧ s.openCount = 1 ∧ s.getNumConnections = s.openCount % 2 ^ 64 := by
  have quiet : ∀ s ∈ system.run {} bothLoops, s.Quiet := by
    rintro s ⟨⟩ c there
    rcases List.mem_cons.mp there with rfl | later
    · exact ⟨.inl rfl, .inr ⟨_, _, rfl⟩⟩
    · rw [List.mem_singleton.mp later]
      exact ⟨.inl rfl, .inl rfl⟩
  exact ⟨_, rfl, quiet _ rfl, by decide, @numConnections_right bothLoops _ (by decide) rfl (quiet _ rfl)⟩

/-- **A connection that its filter closes stays in the counter.** -/
theorem closed_early : ∃ s, system.run {} [.accept 1, .on 0 (.close .localClose), .on 0 .tell, .on 0 .tell, .on 0 .proceed,
    .on 0 .proceed, .on 0 .proceed] = some s ∧ s.Quiet ∧ s.openCount = 0 ∧ s.getNumConnections = 1 := by
  refine ⟨_, rfl, ?_, by decide, by decide⟩
  intro c only
  rw [List.mem_singleton.mp only]
  exact ⟨.inl rfl, .inr ⟨_, _, rfl⟩⟩

end Handler

end Strike.Server
