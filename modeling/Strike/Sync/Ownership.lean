/-
**Workers and tasks have one place.**

Every rule of the pool moves a worker from one situation to one other, and so with tasks. The object of a worker
that was told to exit stays with what is left of it until a new goroutine is started for it.

* `worker_alone`: the results, for every run.
-/

import Strike.Sync.WorkerPool

namespace Strike.WorkerPool

open Lib

/-! ### Weights -/

/-- The goroutine has its worker: it is not about to receive, and has not parked it. -/
def Phase.owns : Phase → Bool
  | .receiving => false
  | .leaving => false
  | .exited => false
  | _ => true

/-- The goroutine is in its loop. -/
def Phase.loops : Phase → Bool
  | .receiving => true
  | .executing _ => true
  | .finished => true
  | .recycling _ => true
  | _ => false

/-- The goroutine may still park its worker. -/
def Phase.remains : Phase → Bool
  | .leaving => false
  | .exited => false
  | _ => true

/-- The goroutine was told to exit, or recovered from a panic. -/
def Phase.ends : Phase → Bool
  | .ending => true
  | .parking => true
  | _ => false

/-- **The situations of a worker**: in the idle list, held by a caller or with a message pending, with a goroutine
that executes, recycles or ends, in the cache. -/
def own (w : Nat) : Place → Nat
  | .idle v => mark w v
  | .cached v => mark w v
  | .message v _ => mark w v
  | .got v => mark w v
  | .counted v => mark w v
  | .holding v => mark w v
  | .goroutine v phase => if phase.owns then mark w v else 0
  | .task _ => 0
  | .creating => 0

/-- The goroutines that receive from the channel of a worker. -/
def receives (w : Nat) : Place → Nat
  | .goroutine v phase => if phase.loops then mark w v else 0
  | _ => 0

/-- What may become a goroutine that receives. -/
def runs (w : Nat) : Place → Nat
  | .cached v => mark w v
  | .got v => mark w v
  | .counted v => mark w v
  | .goroutine v phase => if phase.remains then mark w v else 0
  | _ => 0

/-- Where a worker is that was told to exit, until it is started again. -/
def told (w : Nat) : Place → Nat
  | .cached v => mark w v
  | .message v none => mark w v
  | .got v => mark w v
  | .counted v => mark w v
  | .goroutine v phase => if phase.ends then mark w v else 0
  | _ => 0

/-- A task that was not received. -/
def unsent (t : Nat) : Place → Nat
  | .task u => mark t u
  | .message _ (some u) => mark t u
  | _ => 0

/-- How often a task was executed. -/
def executions (t : Nat) (log : List Event) : Nat :=
  tokens (fun event => match event with
    | .executes _ u => mark t u
    | _ => 0) log

/-- The worker was told to exit and not started again. -/
def toldExit (w : Nat) (log : List Event) : Bool :=
  log.foldl (fun told event => event = .told w || (told && event ≠ .started w)) false

theorem toldExit_snoc (w : Nat) (log : List Event) (event : Event) :
    toldExit w (log ++ [event]) = (event = .told w || (toldExit w log && event ≠ .started w)) :=
  List.foldl_concat ..

/-! ### Rules -/

section Rules

variable {s s' : State} {l : Label} {rule : Rule} {w : Nat}

theorem own_rule (guard : rule.Guard s l) (old : rule ≠ .make w) :
    tokens (own w) rule.after ≤ tokens (own w) rule.before := by
  cases rule with
  | make v =>
    have other : v ≠ w := fun same => old (same ▸ rfl)
    simp [Rule.before, Rule.after, own, mark_of_ne other]
  | proceed v phase next =>
    rcases guard with ⟨t, rfl, rfl | rfl⟩ | ⟨rfl, recycleTime, rfl⟩
    all_goals exact le_rfl
  | _ => simp [Rule.before, Rule.after, own, Phase.owns]

theorem runs_rule (guard : rule.Guard s l) (old : rule ≠ .make w) :
    tokens (runs w) rule.after ≤ tokens (runs w) rule.before := by
  cases rule with
  | make v =>
    have other : v ≠ w := fun same => old (same ▸ rfl)
    simp [Rule.before, Rule.after, runs, mark_of_ne other]
  | proceed v phase next =>
    rcases guard with ⟨t, rfl, rfl | rfl⟩ | ⟨rfl, recycleTime, rfl⟩
    all_goals exact le_rfl
  | _ => simp [Rule.before, Rule.after, runs, Phase.remains]

theorem told_rule (guard : rule.Guard s l) (stays : rule ≠ .start w) :
    tokens (told w) rule.before ≤ tokens (told w) rule.after := by
  cases rule with
  | start v =>
    have other : v ≠ w := fun same => stays (same ▸ rfl)
    simp [Rule.before, Rule.after, told, mark_of_ne other]
  | proceed v phase next =>
    rcases guard with ⟨t, rfl, rfl | rfl⟩ | ⟨rfl, recycleTime, rfl⟩
    all_goals exact Nat.zero_le _
  | _ => simp [Rule.before, Rule.after, told, Phase.ends]

theorem unsent_rule {t : Nat} (old : rule ≠ .serve t) :
    tokens (unsent t) rule.after + executions t rule.events ≤ tokens (unsent t) rule.before := by
  cases rule with
  | serve u =>
    have other : u ≠ t := fun same => old (same ▸ rfl)
    simp [Rule.before, Rule.after, Rule.events, unsent, executions, mark_of_ne other]
  | _ => simp [Rule.before, Rule.after, Rule.events, unsent, executions]

end Rules

/-! ### What a step keeps -/

section Steps

variable {s s' : State} {l : Label} {rule : Rule}

theorem made_le (rule : Rule) (made : Nat) : made ≤ rule.makes made := by
  cases rule with
  | make v => exact Nat.le_succ made
  | _ => exact le_rfl

theorem calls_le (rule : Rule) (calls : Nat) : calls ≤ rule.calls calls := by
  cases rule with
  | serve t => exact Nat.le_succ calls
  | _ => exact le_rfl

theorem one_of_rule {f : Nat → Place → Nat} (applies : Applies s l rule s')
    (moves : ∀ {w}, rule ≠ .make w → tokens (f w) rule.after ≤ tokens (f w) rule.before)
    (makes : ∀ w, tokens (f w) (Rule.make w).after ≤ tokens (f w) (Rule.make w).before + 1)
    (one : ∀ w, s.weigh (f w) ≤ 1) (fresh : ∀ w, s.made ≤ w → s.weigh (f w) = 0) :
    (∀ w, s'.weigh (f w) ≤ 1) ∧ ∀ w, s'.made ≤ w → s'.weigh (f w) = 0 := by
  refine one_token one fresh (applies.made ▸ made_le rule s.made) fun w => ?_
  have weighed := applies.weigh (f w)
  by_cases new : rule = .make w
  · subst new
    refine .inr ⟨applies.guard, applies.made ▸ Nat.lt_succ_self _, ?_⟩
    have made := makes w
    omega
  · have moved := moves new
    exact .inl (by omega)

/-- **Workers and tasks have one place.** -/
structure Alone (s : State) : Prop where
  one : ∀ w, s.weigh (own w) ≤ 1
  fresh : ∀ w, s.made ≤ w → s.weigh (own w) = 0
  one_runs : ∀ w, s.weigh (runs w) ≤ 1
  fresh_runs : ∀ w, s.made ≤ w → s.weigh (runs w) = 0
  one_task : ∀ t, s.weigh (unsent t) + executions t s.log ≤ 1
  fresh_task : ∀ t, s.callers.length ≤ t → s.weigh (unsent t) + executions t s.log = 0
  told : ∀ w, toldExit w s.log = true → 0 < s.weigh (told w)
  sends : ∀ before w t after, s.log = before ++ .sent w t :: after → toldExit w before = false

theorem one_of_tasks (applies : Applies s l rule s') (alone : Alone s) :
    (∀ t, s'.weigh (unsent t) + executions t s'.log ≤ 1) ∧
      ∀ t, s'.callers.length ≤ t → s'.weigh (unsent t) + executions t s'.log = 0 := by
  refine one_token alone.one_task alone.fresh_task (applies.calls ▸ calls_le rule _) fun t => ?_
  have weighed := applies.weigh (unsent t)
  have executed : executions t s'.log = executions t s.log + executions t rule.events := by
    rw [applies.log]
    exact tokens_append _ _ _
  by_cases new : rule = .serve t
  · subst new
    refine .inr ⟨applies.guard, applies.calls ▸ Nat.lt_succ_self _, ?_⟩
    simp only [Rule.before, Rule.after, Rule.events, unsent, executions, tokens_cons, tokens_nil, mark_self] at *
    omega
  · have moved := unsent_rule new
    exact .inl (by omega)

theorem toldExit_events {w : Nat} {log : List Event} (other : rule ≠ .tell w)
    (exits : toldExit w (log ++ rule.events) = true) : toldExit w log = true := by
  cases rule with
  | tell v =>
    have different : v ≠ w := fun same => other (same ▸ rfl)
    simpa [Rule.events, toldExit_snoc, different] using exits
  | start v =>
    simp only [Rule.events, toldExit_snoc] at exits
    simp_all
  | send v t => simpa [Rule.events, toldExit_snoc] using exits
  | receive v t => simpa [Rule.events, toldExit_snoc] using exits
  | _ => simpa [Rule.events] using exits

theorem told_of_rule (applies : Applies s l rule s') (alone : Alone s) {w : Nat}
    (exits : toldExit w s'.log = true) : 0 < s'.weigh (told w) := by
  have weighed := applies.weigh (told w)
  rw [applies.log] at exits
  by_cases tells : rule = .tell w
  · subst tells
    simp only [Rule.before, Rule.after, told, tokens_cons, tokens_nil, mark_self] at weighed
    omega
  · have before := alone.told w (toldExit_events tells exits)
    have stays : rule ≠ .start w := by
      rintro rfl
      simp [Rule.events, toldExit_snoc] at exits
    have moved := told_rule applies.guard stays
    omega

/-- A worker that a caller is to send to. -/
def held (w : Nat) : Place → Nat
  | .holding v => mark w v
  | _ => 0

/-- A task is sent to a worker that was not told to exit: the worker is not in two situations. -/
theorem not_told_of_send {w t : Nat} (applies : Applies s l (.send w t) s') (alone : Alone s) : toldExit w s.log = false := by
  by_contra exits
  have exits := alone.told w (Bool.not_eq_false _ ▸ exits)
  have apart : ∀ p, told w p + held w p ≤ own w p := by
    intro p
    cases p with
    | message v task => cases task <;> simp [told, held, own]
    | goroutine v phase => cases phase <;> simp [told, held, own, Phase.ends, Phase.owns]
    | _ => simp [told, held, own]
  have both : s.weigh (told w) + s.weigh (held w) ≤ s.weigh (own w) := s.weigh_add _ _ ▸ s.weigh_mono apart
  have one := alone.one w
  have weighed := applies.weigh (held w)
  simp only [Rule.before, Rule.after, held, tokens_cons, tokens_nil, mark_self] at weighed
  omega

theorem events_cases (rule : Rule) :
    rule.events = [] ∨ ∃ event, rule.events = [event] ∧ ∀ w t, event = .sent w t → rule = .send w t := by
  cases rule with
  | send v u => exact .inr ⟨_, rfl, fun w t same => (by cases same; rfl)⟩
  | start v => exact .inr ⟨_, rfl, fun w t no => (by cases no)⟩
  | receive v u => exact .inr ⟨_, rfl, fun w t no => (by cases no)⟩
  | tell v => exact .inr ⟨_, rfl, fun w t no => (by cases no)⟩
  | _ => exact .inl rfl

theorem sends_of_rule (applies : Applies s l rule s') (alone : Alone s) {before after : List Event} {w t : Nat}
    (sent : s'.log = before ++ .sent w t :: after) : toldExit w before = false := by
  rw [applies.log] at sent
  rcases events_cases rule with none_ | ⟨event, only, sends⟩
  · rw [none_, List.append_nil] at sent
    exact alone.sends before w t after sent
  · rw [only] at sent
    -- the task was sent in this step, or before
    rcases List.eq_nil_or_concat after with rfl | ⟨after, last, rfl⟩
    · obtain ⟨rfl, same⟩ := List.append_inj' sent rfl
      obtain rfl := sends w t (List.cons.inj same).1
      exact not_told_of_send applies alone
    · rw [List.concat_eq_append, ← List.cons_append, ← List.append_assoc] at sent
      exact alone.sends before w t after (List.append_inj' sent rfl).1

/-- **One step.** -/
theorem step_alone (alone : Alone s) (stepped : s.step l = some s') : Alone s' := by
  obtain ⟨rule, applies⟩ := step_applies stepped
  obtain ⟨one, fresh⟩ := one_of_rule applies (own_rule applies.guard) (fun w => by simp [Rule.after, own]) alone.one alone.fresh
  obtain ⟨one_runs, fresh_runs⟩ :=
    one_of_rule applies (runs_rule applies.guard) (fun w => by simp [Rule.after, runs]) alone.one_runs alone.fresh_runs
  obtain ⟨one_task, fresh_task⟩ := one_of_tasks applies alone
  exact ⟨one, fresh, one_runs, fresh_runs, one_task, fresh_task, fun w => told_of_rule applies alone,
    fun before w t after => sends_of_rule applies alone⟩

end Steps

theorem alone_newWorkerPool (size expiry : Int) : Alone (newWorkerPool size expiry) where
  one _ := Nat.zero_le _
  fresh _ _ := rfl
  one_runs _ := Nat.zero_le _
  fresh_runs _ _ := rfl
  one_task _ := Nat.zero_le _
  fresh_task _ _ := rfl
  told _ no := absurd no Bool.false_ne_true
  sends _ _ _ _ no := absurd no.symm (List.append_ne_nil_of_right_ne_nil _ (List.cons_ne_nil _ _))

/-- **Every accepted task runs at most once, on a worker of its own.** In every run a worker is in at most one
situation, at most one goroutine receives from its channel, a task is executed at most once, and none is sent to
a worker that was told to exit and not started again. -/
theorem worker_alone {size expiry : Int} {labels : List Label} {s : State}
    (ran : system.run (newWorkerPool size expiry) labels = some s) :
    (∀ w, s.weigh (own w) ≤ 1) ∧ (∀ w, s.weigh (receives w) ≤ 1) ∧ (∀ t, executions t s.log ≤ 1) ∧
      ∀ before w t after, s.log = before ++ .sent w t :: after → toldExit w before = false := by
  have alone : Alone s := System.run_invariant (P := Alone) step_alone (alone_newWorkerPool size expiry) ran
  refine ⟨alone.one, fun w => ?_, fun t => (Nat.le_add_left _ _).trans (alone.one_task t), alone.sends⟩
  have among : ∀ p, receives w p ≤ runs w p := by
    intro p
    cases p with
    | goroutine v phase => cases phase <;> simp [receives, runs, Phase.loops, Phase.remains]
    | _ => simp [receives, runs]
  exact (s.weigh_mono among).trans (alone.one_runs w)

/-- A task is served by a new worker, which is told to exit then and restarted for a second task. -/
def servedTwice : List Label :=
  [.serve, .caller 0 none, .caller 0 none, .caller 0 none, .caller 0 none, .caller 0 none, .caller 0 none,
    .worker 0 false 0 none, .worker 0 false 0 none, .worker 0 false 0 none, .worker 0 false 0 none,
    .purger 6000000000, .purger 0, .purger 0, .purger 0,
    .worker 0 false 0 none, .worker 0 false 0 none, .worker 0 false 0 none,
    .serve, .caller 1 none, .caller 1 none, .caller 1 (some 0), .caller 1 none, .caller 1 none, .caller 1 none,
    .worker 1 false 0 none]

/-- The theorem at a worker that is used twice. -/
theorem worker_alone_twice : ∃ s, system.run (newWorkerPool 1 0) servedTwice = some s ∧
      s.log = [.started 0, .sent 0 0, .executes 0 0, .told 0, .started 0, .sent 0 1, .executes 0 1] ∧
      s.weigh (own 0) ≤ 1 ∧ executions 1 s.log ≤ 1 := by
  obtain ⟨s, ran, logged⟩ : ∃ s, system.run (newWorkerPool 1 0) servedTwice = some s ∧
      s.log = [.started 0, .sent 0 0, .executes 0 0, .told 0, .started 0, .sent 0 1, .executes 0 1] := ⟨_, rfl, rfl⟩
  obtain ⟨one, -, once, -⟩ := worker_alone ran
  exact ⟨s, ran, logged, one 0, once 1⟩

end Strike.WorkerPool
