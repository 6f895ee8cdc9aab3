/-
**`Running()` and `Cap()`.**

The capacity is checked under the lock, and the counter goes up outside it, after the worker was fetched. Callers
that pass the check one after the other start more workers than there is room for. A worker that finds the pool
closed after its task exits without counting down.

* `Spare`: a caller passes the check only if there is room for those that passed before it too, and no worker finds
  the pool closed.
* `running_bounded`: in runs like that `Running()` is at most `Cap()`, and is the number of workers when none is
  about to start or to exit.
* `running_exceeds`: two callers at a pool of one worker, a worker that outlives `Release`, and one that is counted
  before it starts.
-/

import Strike.Sync.WorkerPool

namespace Strike.WorkerPool

open Lib

/-- The goroutine was counted up and not down. -/
def Phase.counts : Phase → Bool
  | .parking => false
  | .leaving => false
  | .exited => false
  | _ => true

/-- The goroutine is between its last task and its exit. -/
def Phase.departs : Phase → Bool
  | .ending => true
  | .parking => true
  | .leaving => true
  | .breaking => true
  | _ => false

/-- What is counted in `running`. -/
def counts : Place → Nat
  | .counted _ => 1
  | .goroutine _ phase => if phase.counts then 1 else 0
  | _ => 0

/-- Callers that passed the check and did not count up. -/
def claimed : Place → Nat
  | .creating => 1
  | .got _ => 1
  | _ => 0

/-- Workers that found the pool closed. -/
def broken : Place → Nat
  | .goroutine _ .breaking => 1
  | _ => 0

/-- Goroutines that have not exited. -/
def live : Place → Nat
  | .goroutine _ .exited => 0
  | .goroutine _ _ => 1
  | _ => 0

/-- Callers between `incRunning` and the start of the goroutine. -/
def starting : Place → Nat
  | .counted _ => 1
  | _ => 0

/-- Workers between their last task and their exit. -/
def departing : Place → Nat
  | .goroutine _ phase => if phase.departs then 1 else 0
  | _ => 0

/-- **Room for all that passed the check, and no worker that finds the pool closed.** -/
def Spare (s : State) : Label → Prop
  | .caller c _ => ∀ caller ∈ s.callers[c]?, caller.stage = .retrieving → s.workers = [] → s.running < s.capacity →
      s.running + s.weigh claimed < s.capacity
  | .worker g _ _ _ => ∀ goroutine ∈ s.goroutines[g]?, goroutine.phase = .finished → s.release = false
  | _ => True

instance (s : State) : ∀ l, Decidable (Spare s l)
  | .serve => isTrue trivial
  | .caller c _ => inferInstanceAs (Decidable (∀ caller ∈ s.callers[c]?, caller.stage = .retrieving → s.workers = [] →
      s.running < s.capacity → s.running + s.weigh claimed < s.capacity))
  | .worker g _ _ _ => inferInstanceAs (Decidable (∀ goroutine ∈ s.goroutines[g]?, goroutine.phase = .finished →
      s.release = false))
  | .purger _ => isTrue trivial
  | .releaser => isTrue trivial

/-- **`running` is right.** -/
structure Tallied (s : State) : Prop where
  running : s.running = s.weigh counts
  room : (s.weigh counts : Int) + s.weigh claimed ≤ s.capacity
  whole : s.weigh broken = 0
  high : s.capacity < 2 ^ 31

/-! ### Rules -/

section Rules

variable {s s' : State} {l : Label} {rule : Rule}

theorem counts_rule (guard : rule.Guard s l) (up : ∀ w, rule ≠ .count w) (down : ∀ w, rule ≠ .uncount w)
    (whole : ∀ w, rule ≠ .quit w) :
    tokens counts rule.after = tokens counts rule.before ∧ ∀ running, rule.runs running = running := by
  cases rule with
  | count w => exact absurd rfl (up w)
  | uncount w => exact absurd rfl (down w)
  | quit w => exact absurd rfl (whole w)
  | proceed w phase next =>
    rcases guard with ⟨t, rfl, rfl | rfl⟩ | ⟨rfl, recycleTime, rfl⟩
    all_goals exact ⟨rfl, fun _ => rfl⟩
  | _ => exact ⟨rfl, fun _ => rfl⟩

theorem claimed_rule (guard : rule.Guard s l) (fails : rule ≠ .pass) :
    tokens counts rule.after + tokens claimed rule.after ≤ tokens counts rule.before + tokens claimed rule.before := by
  cases rule with
  | pass => exact absurd rfl fails
  | proceed w phase next =>
    rcases guard with ⟨t, rfl, rfl | rfl⟩ | ⟨rfl, recycleTime, rfl⟩
    all_goals exact le_rfl
  | _ => simp [Rule.before, Rule.after, counts, claimed, Phase.counts]

theorem broken_rule (guard : rule.Guard s l) (open_ : ∀ w, rule ≠ .break_ w) :
    tokens broken rule.after ≤ tokens broken rule.before := by
  cases rule with
  | break_ w => exact absurd rfl (open_ w)
  | proceed w phase next =>
    rcases guard with ⟨t, rfl, rfl | rfl⟩ | ⟨rfl, recycleTime, rfl⟩
    all_goals exact le_rfl
  | _ => simp [Rule.before, Rule.after, broken]

/-- **One step.** -/
theorem step_tallied (tallied : Tallied s) (spare : Spare s l) (stepped : s.step l = some s') : Tallied s' := by
  obtain ⟨rule, applies⟩ := step_applies stepped
  obtain ⟨running, room, whole, high⟩ := tallied
  have counted := applies.weigh counts
  have reserved := applies.weigh claimed
  have breaks := applies.weigh broken
  have not_broken : ∀ w, rule ≠ .break_ w := by
    rintro w rfl
    obtain ⟨g, panics, now, waiter, rfl, at_, closed⟩ := applies.guard
    exact absurd closed (by rw [spare _ at_ rfl]; exact Bool.false_ne_true)
  have not_quit : ∀ w, rule ≠ .quit w := by
    rintro w rfl
    simp only [Rule.before, Rule.after, broken, tokens_cons, tokens_nil] at breaks
    omega
  have whole' : s'.weigh broken = 0 := by
    have := broken_rule applies.guard not_broken
    omega
  have room' : (s'.weigh counts : Int) + s'.weigh claimed ≤ s'.capacity := by
    rw [applies.capacity]
    by_cases passes : rule = .pass
    · subst passes
      obtain ⟨c, choice, caller, rfl, at_, retrieving, none_, below⟩ := applies.guard
      have := spare caller at_ retrieving none_ below
      simp only [Rule.before, Rule.after, counts, claimed, tokens_cons, tokens_nil] at counted reserved
      omega
    · have := claimed_rule applies.guard passes
      omega
  have high' : s'.capacity < 2 ^ 31 := applies.capacity ▸ high
  refine ⟨?_, room', whole', high'⟩
  rw [applies.running]
  by_cases up : ∃ w, rule = .count w
  · obtain ⟨w, rfl⟩ := up
    simp only [Rule.before, Rule.after, counts, tokens_cons, tokens_nil] at counted
    have more : int32 (s.running + 1) = s.running + 1 := int32_of_fits (by omega) (by omega)
    show int32 (s.running + 1) = _
    omega
  · by_cases down : ∃ w, rule = .uncount w
    · obtain ⟨w, rfl⟩ := down
      simp only [Rule.before, Rule.after, counts, Phase.counts, tokens_cons, tokens_nil, if_true, Bool.false_eq_true,
        if_false] at counted
      have less : int32 (s.running - 1) = s.running - 1 := int32_of_fits (by omega) (by omega)
      show int32 (s.running - 1) = _
      omega
    · obtain ⟨same, runs⟩ := counts_rule applies.guard (not_exists.mp up) (not_exists.mp down) not_quit
      rw [runs, running]
      omega

end Rules

theorem counts_le (p : Place) : counts p ≤ live p + starting p := by
  cases p with
  | goroutine w phase => cases phase <;> simp [counts, live, starting, Phase.counts]
  | _ => simp [counts, live, starting]

theorem live_le (p : Place) : live p + starting p ≤ counts p + departing p := by
  cases p with
  | goroutine w phase => cases phase <;> simp [counts, live, starting, departing, Phase.counts, Phase.departs]
  | _ => simp [counts, live, starting, departing]

/-- **`Running()` is bounded by `Cap()` and right** in every run whose steps all find room for those that passed the
check before, and no closed pool: it is at most the capacity in every state reached, and when no worker is between
its last task and its exit it is the number of live goroutines, with those that are about to be started. -/
theorem running_bounded {size expiry : Int} {labels : List Label} {s : State}
    (fits : 0 ≤ (newWorkerPool size expiry).capacity) (spare : system.Meets Spare (newWorkerPool size expiry) labels)
    (ran : system.run (newWorkerPool size expiry) labels = some s) :
    s.running ≤ s.capacity ∧ (s.weigh departing = 0 → s.running = s.weigh live + s.weigh starting) ∧
      (s.weigh departing = 0 → s.weigh starting = 0 → s.running = s.weigh live) := by
  have high : (newWorkerPool size expiry).capacity < 2 ^ 31 := by
    unfold newWorkerPool int32
    exact Int.bmod_lt (by decide)
  have start : Tallied (newWorkerPool size expiry) := ⟨rfl, fits, rfl, high⟩
  have tallied : Tallied s := System.run_keeps (P := Tallied) step_tallied start spare ran
  have room := tallied.room
  have running := tallied.running
  have all := s.weigh_mono counts_le
  have most := s.weigh_mono live_le
  rw [State.weigh_add] at all most
  rw [State.weigh_add] at most
  exact ⟨by omega, fun none_ => by omega, fun none_ started => by omega⟩

/-- A caller is served by the one worker of a pool. -/
def servedOnce : List Label :=
  [.serve, .caller 0 none, .caller 0 none, .caller 0 none, .caller 0 none, .caller 0 none, .caller 0 none,
    .worker 0 false 0 none]

/-- The theorem at a pool of one worker. -/
theorem running_bounded_once :
    system.Meets Spare (newWorkerPool 1 0) servedOnce ∧ ∃ s, system.run (newWorkerPool 1 0) servedOnce = some s ∧
      s.weigh live = 1 ∧ s.running ≤ s.capacity ∧ s.running = s.weigh live := by
  have spare : system.Meets Spare (newWorkerPool 1 0) servedOnce := by decide
  obtain ⟨s, ran, one, departed, started⟩ : ∃ s, system.run (newWorkerPool 1 0) servedOnce = some s ∧ s.weigh live = 1 ∧
      s.weigh departing = 0 ∧ s.weigh starting = 0 := ⟨_, rfl, rfl, rfl, rfl⟩
  obtain ⟨bounded, -, right⟩ := running_bounded (by decide) spare ran
  exact ⟨spare, s, ran, one, bounded, right departed started⟩

/-- Two callers pass the check before either counts up. -/
def bothPass : List Label :=
  [.serve, .serve, .caller 0 none, .caller 1 none, .caller 0 none, .caller 1 none, .caller 0 none, .caller 1 none,
    .caller 0 none, .caller 1 none]

/-- The worker finishes its task after `Release`. -/
def outlives : List Label := servedOnce ++ [.releaser, .worker 0 false 0 none, .worker 0 false 0 none, .worker 0 false 0 none]

/-- The caller has counted up and not started the worker. -/
def countsFirst : List Label := servedOnce.take 5

/-- **`Running()` exceeds `Cap()`** where two callers pass the check of a pool of one worker, stays at one when the
last worker of a closed pool has exited, and is one before the first worker is started. -/
theorem running_exceeds : (∃ s, system.run (newWorkerPool 1 0) bothPass = some s ∧ s.capacity = 1 ∧ s.running = 2) ∧
      (∃ s, system.run (newWorkerPool 1 0) outlives = some s ∧ s.weigh departing = 0 ∧ s.weigh starting = 0 ∧
        s.weigh live = 0 ∧ s.running = 1) ∧
      ∃ s, system.run (newWorkerPool 1 0) countsFirst = some s ∧ s.weigh departing = 0 ∧ s.weigh live = 0 ∧
        s.running = 1 :=
  ⟨⟨_, rfl, by decide, by decide⟩, ⟨_, rfl, by decide, by decide, by decide, by decide⟩, _, rfl, by decide, by decide,
    by decide⟩

end Strike.WorkerPool
