/-
**The queue of a shard.**

`squeue` moves jobs from a list to a channel in a loop of its own. An `Offer` inserts at the back of the
list and then signals the loop, unless enough events are pending; the loop clears the events that
piled up, all but one. A step of the model is one access to the list or to a channel, so every
interleaving of the calls, the loop and the worker is a run.

* `Queue.Sound`: where the jobs are, and why the loop is not asleep on a list with jobs.
* `step_sound`, `Sound.not_lost`: no run loses a wake-up.
* `size_falls`, `Sound.out_of_still`: without new insertions every schedule comes to an end, and there
  every job has come out.
-/

import Strike.Lib.System

namespace Strike.Sync

open Lib

/-- `DEFAULT_QUEUE_SIZE`. -/
def defaultQueueSize : Nat := 512

/-- `DEFAULT_MAX_BATCH_SIZE`. -/
def defaultMaxBatchSize : Nat := 10

variable {Job : Type}

/-- `PopFronts`: the values and the list that is left. -/
def popFronts (max : Nat) (list : List Job) : List Job × List Job :=
  let length := if 0 < max ∧ max < list.length then max else list.length
  (list.take length, list.drop length)

/-- Where `startAsyncLoop` stands. -/
inductive Loop (Job : Type) where
  /-- At `<-q.events`. -/
  | wait
  /-- At `q.list.Len()`. -/
  | check
  /-- At `q.list.PopFronts(length)`. -/
  | pop (length : Nat)
  /-- At `q.C <- v`, or at the end of the batch. -/
  | send (values : List Job)
  /-- At `i < len(q.events)-1`. -/
  | clear (i : Nat)
  /-- At the `<-q.events` that clears. -/
  | discard (i : Nat)
  deriving Repr, DecidableEq

/-- The jobs the loop holds. -/
def Loop.batch : Loop Job → List Job
  | .send values => values
  | _ => []

/-- A queue without limit, with the calls of `push` in flight: they differ in where they stand only. -/
structure Queue (Job : Type) where
  list : List Job := []
  events : Nat := 0
  C : List Job := []
  loop : Loop Job := .wait
  /-- Calls behind their insertion, at `len(q.events) < DEFAULT_QUEUE_SIZE`. -/
  checking : Nat := 0
  /-- Calls at `q.events <- struct{}{}`. -/
  signalling : Nat := 0
  /-- All insertions so far. -/
  inserted : List Job := []
  /-- What the worker has received so far. -/
  out : List Job := []
  deriving Repr, DecidableEq

/-- Who moves. -/
inductive Move (Job : Type) where
  /-- A call inserts its job, in front if it is prioritized. -/
  | insert (job : Job) (front : Bool)
  /-- A blocking call sends its job itself. -/
  | direct (job : Job)
  /-- A call looks at the pending events. -/
  | look
  /-- A call sends its event. -/
  | signal
  /-- The loop takes its next step. -/
  | loop
  /-- The worker receives. -/
  | work
  deriving Repr, DecidableEq

namespace Queue

/-- `startAsyncLoop`, one step. -/
def loopStep (q : Queue Job) : Option (Queue Job) :=
  match q.loop with
  | .wait => if q.events = 0 then none else some { q with events := q.events - 1, loop := .check }
  | .check =>
    if 0 < q.list.length then some { q with loop := .pop (min q.list.length defaultMaxBatchSize) }
    else some { q with loop := .clear 0 }
  | .pop length =>
    let (values, list) := popFronts length q.list
    some { q with list, loop := .send values }
  | .send [] => some { q with loop := .check }
  | .send (v :: values) =>
    if q.C.length < defaultQueueSize then some { q with C := q.C ++ [v], loop := .send values }
    else none
  | .clear i =>
    if i + 1 < q.events then some { q with loop := .discard i } else some { q with loop := .wait }
  | .discard i =>
    if q.events = 0 then none else some { q with events := q.events - 1, loop := .clear (i + 1) }

/-- The queue's system. -/
def step (q : Queue Job) : Move Job → Option (Queue Job)
  | .insert job front =>
    some { q with
      list := if front then job :: q.list else q.list ++ [job]
      checking := q.checking + 1
      inserted := q.inserted ++ [job] }
  | .direct job => if q.C.length < defaultQueueSize then some { q with C := q.C ++ [job] } else none
  | .look =>
    if q.checking = 0 then none
    else if q.events < defaultQueueSize then
      some { q with checking := q.checking - 1, signalling := q.signalling + 1 }
    else some { q with checking := q.checking - 1 }
  | .signal =>
    if 0 < q.signalling ∧ q.events < defaultQueueSize + defaultMaxBatchSize then
      some { q with signalling := q.signalling - 1, events := q.events + 1 }
    else none
  | .loop => q.loopStep
  | .work =>
    match q.C with
    | [] => none
    | v :: rest => some { q with C := rest, out := q.out ++ [v] }

/-- An insertion at the back of the list, or no new job. -/
def Plain : Move Job → Prop
  | .insert _ front => front = false
  | .direct _ => False
  | _ => True

/-- All jobs on their way, in the order they will come out. -/
def onTheWay (q : Queue Job) : List Job := q.C ++ q.loop.batch ++ q.list

/-- **A lost wake-up.** The list has jobs, the loop waits for an event, and none is there or will come. -/
def Lost (q : Queue Job) : Prop := q.list ≠ [] ∧ q.loop = .wait ∧ q.events = 0 ∧ q.checking = 0 ∧ q.signalling = 0

/-- The loop will look at the list before it waits. -/
def LooksAgain (q : Queue Job) : Prop := q.loop = .check ∨ (∃ n, q.loop = .pop n) ∨ ∃ vs, q.loop = .send vs

/-- **What every reachable queue satisfies.** -/
structure Sound (q : Queue Job) : Prop where
  conserved : q.inserted = q.out ++ q.onTheWay
  awake : q.list ≠ [] → 0 < q.events ∨ q.LooksAgain ∨ 0 < q.checking ∨ 0 < q.signalling
  -- The loop discards an event only where another one stays.
  spare : ∀ i, q.loop = .discard i → 1 < q.events
  nonempty : ∀ n, q.loop = .pop n → 0 < n ∧ q.list ≠ []

theorem sound_init : ({} : Queue Job).Sound where
  conserved := rfl
  awake := fun no => absurd rfl no
  spare := fun _ no => nomatch no
  nonempty := fun _ no => nomatch no

theorem popFronts_append (max : Nat) (list : List Job) :
    (popFronts max list).1 ++ (popFronts max list).2 = list := List.take_append_drop _ _

theorem length_popFronts {max : Nat} {list : List Job} (some : 0 < max) (jobs : list ≠ []) :
    0 < (popFronts max list).1.length := by
  have some' : 0 < list.length := List.length_pos_iff.mpr jobs
  unfold popFronts
  dsimp only
  rw [List.length_take]
  split <;> omega

variable {q q' : Queue Job}

theorem loopStep_sound (sound : q.Sound) (stepped : q.loopStep = some q') : q'.Sound := by
  obtain ⟨conserved, awake, spare, nonempty⟩ := sound
  unfold loopStep at stepped
  cases here : q.loop with
  | wait =>
    simp only [here, onTheWay, Loop.batch] at stepped conserved
    split at stepped
    · cases stepped
    · cases stepped
      exact ⟨conserved, fun _ => .inr (.inl (.inl rfl)), nofun,
        nofun⟩
  | check =>
    simp only [here, onTheWay, Loop.batch] at stepped conserved
    split at stepped
    · next jobs =>
        cases stepped
        have some : 0 < min q.list.length defaultMaxBatchSize := lt_min jobs (by decide)
        refine ⟨conserved, fun _ => .inr (.inl (.inr (.inl ⟨_, rfl⟩))), nofun, ?_⟩
        intro n same
        cases same
        exact ⟨some, List.length_pos_iff.mp jobs⟩
    · next noJobs =>
        cases stepped
        refine ⟨conserved, fun jobs => ?_, nofun, nofun⟩
        exact absurd (List.length_pos_iff.mpr jobs) noJobs
  | pop n =>
    simp only [here, onTheWay, Loop.batch] at stepped conserved
    cases stepped
    refine ⟨?_, fun _ => .inr (.inl (.inr (.inr ⟨_, rfl⟩))), nofun,
      nofun⟩
    simp only [onTheWay, Loop.batch, List.append_assoc, popFronts_append]
    simpa using conserved
  | send values =>
    cases values with
    | nil =>
      simp only [here, onTheWay, Loop.batch] at stepped conserved
      cases stepped
      exact ⟨conserved, fun _ => .inr (.inl (.inl rfl)), nofun,
        nofun⟩
    | cons v values =>
      simp only [here, onTheWay, Loop.batch] at stepped conserved
      split at stepped
      · cases stepped
        refine ⟨?_, fun _ => .inr (.inl (.inr (.inr ⟨_, rfl⟩))), nofun,
          nofun⟩
        simpa [onTheWay, Loop.batch] using conserved
      · cases stepped
  | clear i =>
    have asleep : ¬ q.LooksAgain := by simp [LooksAgain, here]
    simp only [here, onTheWay, Loop.batch] at stepped conserved
    split at stepped
    · next many =>
        cases stepped
        refine ⟨conserved, fun _ => .inl ?_, fun _ _ => ?_, nofun⟩
        · exact Nat.lt_of_le_of_lt (Nat.zero_le _) many
        · exact Nat.lt_of_le_of_lt (Nat.le_add_left 1 i) many
    · cases stepped
      refine ⟨conserved, fun jobs => ?_, nofun, nofun⟩
      rcases awake jobs with event | again | call
      · exact .inl event
      · exact absurd again asleep
      · exact .inr (.inr call)
  | discard i =>
    have two := spare i here
    simp only [here, onTheWay, Loop.batch] at stepped conserved
    split at stepped
    · cases stepped
    · cases stepped
      exact ⟨conserved, fun _ => .inl (Nat.sub_pos_of_lt two), nofun,
        nofun⟩

variable {move : Move Job}

/-- **Every plain step keeps a queue sound.** -/
theorem step_sound (sound : q.Sound) (plain : Plain move) (stepped : q.step move = some q') : q'.Sound := by
  obtain ⟨conserved, awake, spare, nonempty⟩ := sound
  cases move with
  | direct job => exact plain.elim
  | insert job front =>
    obtain rfl : front = false := plain
    cases stepped
    refine ⟨?_, fun _ => .inr (.inr (.inl (Nat.succ_pos _))), spare, fun n at_ => ⟨(nonempty n at_).1, ?_⟩⟩
    · show q.inserted ++ [job] = _
      rw [conserved]
      simp [onTheWay]
    · exact List.append_ne_nil_of_right_ne_nil _ (List.cons_ne_nil _ _)
  | look =>
    unfold step at stepped
    dsimp only at stepped
    split_ifs at stepped with idle few
    · cases stepped
      exact ⟨conserved, fun _ => .inr (.inr (.inr (Nat.succ_pos _))), spare, nonempty⟩
    · -- The call leaves without a signal because events are pending.
      cases stepped
      refine ⟨conserved, fun _ => .inl ?_, spare, nonempty⟩
      exact Nat.lt_of_lt_of_le (by decide) (Nat.le_of_not_lt few)
  | signal =>
    unfold step at stepped
    dsimp only at stepped
    split_ifs at stepped
    cases stepped
    exact ⟨conserved, fun _ => .inl (Nat.succ_pos _), fun i at_ => Nat.lt_succ_of_lt (spare i at_), nonempty⟩
  | loop => exact loopStep_sound ⟨conserved, awake, spare, nonempty⟩ stepped
  | work =>
    unfold step at stepped
    dsimp only at stepped
    split at stepped
    · cases stepped
    · next v rest some =>
        cases stepped
        refine ⟨?_, awake, spare, nonempty⟩
        rw [conserved]
        simp [onTheWay, some]

theorem Sound.not_lost {q : Queue Job} (sound : q.Sound) : ¬ q.Lost := by
  rintro ⟨jobs, waits, noEvent, noCheck, noSignal⟩
  rcases sound.awake jobs with event | again | check | signal
  · omega
  · simp [LooksAgain, waits] at again
  · omega
  · omega

/-! ### All jobs come out -/

/-- A move of a job, an event, a call or the loop makes this smaller. -/
def size (q : Queue Job) : Nat :=
  30 * q.list.length + 20 * q.loop.batch.length + 10 * q.C.length + 10 * q.events +
    12 * q.checking + 11 * q.signalling +
      match q.loop with
      | .wait => 0
      | .check => 5
      | .pop _ => 4
      | .send _ => 6
      | .clear _ => 3
      | .discard _ => 2

/-- The move brings no new job. -/
def Quiet : Move Job → Prop
  | .insert _ _ => False
  | .direct _ => False
  | _ => True

theorem Quiet.plain (quiet : Quiet move) : Plain move := by
  cases move with
  | insert job front => exact quiet.elim
  | direct job => exact quiet.elim
  | look => exact trivial
  | signal => exact trivial
  | loop => exact trivial
  | work => exact trivial

theorem loopStep_falls (sound : q.Sound) (stepped : q.loopStep = some q') : q'.size < q.size := by
  unfold loopStep at stepped
  cases here : q.loop with
  | wait =>
    simp only [here] at stepped
    split_ifs at stepped with none
    cases stepped
    simp only [size, here, Loop.batch]
    omega
  | check =>
    simp only [here] at stepped
    split_ifs at stepped <;> cases stepped <;> simp only [size, here, Loop.batch] <;> omega
  | pop n =>
    obtain ⟨some, jobs⟩ := sound.nonempty n here
    have moved := length_popFronts some jobs
    have parts := congrArg List.length (popFronts_append n q.list)
    rw [List.length_append] at parts
    simp only [here] at stepped
    cases stepped
    simp only [size, here, Loop.batch, List.length_nil]
    omega
  | send values =>
    cases values with
    | nil =>
      simp only [here] at stepped
      cases stepped
      simp only [size, here, Loop.batch]
      omega
    | cons v values =>
      simp only [here] at stepped
      split_ifs at stepped
      cases stepped
      simp only [size, here, Loop.batch, List.length_append, List.length_cons, List.length_nil]
      omega
  | clear i =>
    simp only [here] at stepped
    split_ifs at stepped <;> cases stepped <;> simp only [size, here, Loop.batch] <;> omega
  | discard i =>
    simp only [here] at stepped
    split_ifs at stepped with none
    cases stepped
    simp only [size, here, Loop.batch]
    omega

/-- **Without insertions every step makes the rest of the work smaller.** -/
theorem size_falls (sound : q.Sound) (quiet : Quiet move) (stepped : q.step move = some q') : q'.size < q.size := by
  cases move with
  | insert job front => exact quiet.elim
  | direct job => exact quiet.elim
  | look =>
    simp only [step] at stepped
    split_ifs at stepped <;> cases stepped <;> simp only [size] <;> omega
  | signal =>
    simp only [step] at stepped
    split_ifs at stepped
    cases stepped
    simp only [size]
    omega
  | loop => exact loopStep_falls sound stepped
  | work =>
    simp only [step] at stepped
    split at stepped
    · cases stepped
    · next v rest some =>
        cases stepped
        simp only [size, some, List.length_cons]
        omega

/-- **Where nothing moves, everything has come out.** -/
theorem Sound.out_of_still {q : Queue Job} (sound : q.Sound)
    (still : ∀ move, Quiet move → q.step move = none) : q.out = q.inserted := by
  have noC : q.C = [] := by
    have stays := still .work trivial
    simp only [step] at stays
    split at stays
    · next none => exact none
    · cases stays
  have noCheck : q.checking = 0 := by
    have stays := still .look trivial
    simp only [step] at stays
    split_ifs at stays with none
    exact none
  obtain ⟨waits, noEvent⟩ : q.loop = .wait ∧ q.events = 0 := by
    have stays := still .loop trivial
    simp only [step, loopStep] at stays
    cases here : q.loop with
    | wait =>
      simp only [here] at stays
      split_ifs at stays with none
      exact ⟨rfl, none⟩
    | check =>
      simp only [here] at stays
      split_ifs at stays
    | pop n => simp [here] at stays
    | send values => cases values <;> simp [here, noC, defaultQueueSize] at stays
    | clear i =>
      simp only [here] at stays
      split_ifs at stays
    | discard i =>
      have two := sound.spare i here
      simp only [here] at stays
      split_ifs at stays
      omega
  have noSignal : q.signalling = 0 := by
    have stays := still .signal trivial
    simp only [step, noEvent] at stays
    split_ifs at stays with room
    by_contra some
    exact room ⟨Nat.pos_of_ne_zero some, by decide⟩
  have noList : q.list = [] := by
    by_contra jobs
    exact sound.not_lost ⟨jobs, waits, noEvent, noCheck, noSignal⟩
  rw [sound.conserved]
  simp [onTheWay, noC, waits, Loop.batch, noList]

theorem inserted_of_quiet (move : Move Job) (quiet : Quiet move)
    (stepped : q.step move = some q') : q'.inserted = q.inserted := by
  cases move with
  | insert job front => exact quiet.elim
  | direct job => exact quiet.elim
  | look =>
    simp only [step] at stepped
    split_ifs at stepped <;> cases stepped <;> rfl
  | signal =>
    simp only [step] at stepped
    split_ifs at stepped
    cases stepped
    rfl
  | loop =>
    simp only [step, loopStep] at stepped
    repeat' split at stepped
    all_goals cases stepped
    all_goals rfl
  | work =>
    simp only [step] at stepped
    split at stepped <;> cases stepped
    rfl

theorem mem_inserted (plain : Plain move) (stepped : q.step move = some q') {job : Job} (there : job ∈ q'.inserted) :
    job ∈ q.inserted ∨ move = .insert job false := by
  cases move with
  | insert new front =>
    obtain rfl : front = false := plain
    cases stepped
    rcases List.mem_append.mp there with old | last
    · exact .inl old
    · rw [List.mem_singleton.mp last]
      exact .inr rfl
  | direct new => exact plain.elim
  | look => exact .inl (inserted_of_quiet .look trivial stepped ▸ there)
  | signal => exact .inl (inserted_of_quiet .signal trivial stepped ▸ there)
  | loop => exact .inl (inserted_of_quiet .loop trivial stepped ▸ there)
  | work => exact .inl (inserted_of_quiet .work trivial stepped ▸ there)

end Queue

end Strike.Sync
