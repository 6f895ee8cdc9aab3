/-
**The limiter of calls per period** (`qps.go`).

A period begins with the first call behind the end of the one before, not on a grid. Times are those of
the limiter's own clock (`time.Since(start)`), in exact integers.

* `qps_bounds`: how many granted calls a window holds, and that nobody is refused without cause.
-/

import Strike.Go.Slice
import Strike.Lib.Metering

namespace Strike.Limit

open Strike.Lib

/-- `time.Millisecond`, in nanoseconds. -/
def millisecond : Int := 1000000

/-- `QPSLimiter`. -/
structure QPSLimiter where
  maxAllows : Int
  periodMicros : Int
  nextPeriodMicros : Int
  currentPermits : Int := 0
  deriving Repr, DecidableEq

/-- `NewQPSLimiter`, with the time that has passed since `start`. -/
def newQPSLimiter (maxAllows periodMs since : Int) : Except GoError QPSLimiter :=
  if maxAllows < 0 ∨ periodMs ≤ 0 then
    .error (.new "maxAllows must not be negtive, and periodMs be positive")
  else
    .ok { maxAllows := maxAllows
          periodMicros := periodMs * millisecond
          nextPeriodMicros := since + periodMs * millisecond }

namespace QPSLimiter

/-- `TryAcquire`. -/
def tryAcquire (l : QPSLimiter) (nowMicros : Int) : Bool × QPSLimiter :=
  if l.maxAllows ≤ 0 then (false, l)
  else
    let l :=
      if nowMicros ≥ l.nextPeriodMicros then
        { l with nextPeriodMicros := nowMicros + l.periodMicros, currentPermits := 0 }
      else l
    let l := { l with currentPermits := l.currentPermits + 1 }
    (decide (l.currentPermits ≤ l.maxAllows), l)

/-- The limiter as a machine whose calls are their times. -/
def machine : Machine QPSLimiter Int Bool := ⟨tryAcquire⟩

/-- As `NewQPSLimiter` makes it at time `since`. -/
structure Fresh (l : QPSLimiter) (since : Int) : Prop where
  next : l.nextPeriodMicros = since + l.periodMicros
  unused : l.currentPermits = 0

theorem newQPSLimiter_fresh {maxAllows periodMs since : Int} {l : QPSLimiter}
    (made : newQPSLimiter maxAllows periodMs since = .ok l) :
    l.Fresh since ∧ l.maxAllows = maxAllows ∧ l.periodMicros = periodMs * millisecond ∧ 0 < l.periodMicros := by
  unfold newQPSLimiter at made
  split at made
  · cases made
  · next accepted =>
      cases made
      refine ⟨⟨rfl, rfl⟩, rfl, rfl, mul_pos ?_ (by decide)⟩
      exact not_le.mp fun zero => accepted (.inr zero)

/-! ### One call -/

variable {l : QPSLimiter} {t : Int}

theorem step_settings (l : QPSLimiter) (t : Int) :
    (machine.step l t).2.maxAllows = l.maxAllows ∧ (machine.step l t).2.periodMicros = l.periodMicros := by
  show (l.tryAcquire t).2.maxAllows = _ ∧ (l.tryAcquire t).2.periodMicros = _
  unfold tryAcquire
  split
  · exact ⟨rfl, rfl⟩
  · dsimp only
    split <;> exact ⟨rfl, rfl⟩

theorem run_settings (calls : List Int) : ∀ l : QPSLimiter,
    (machine.run l calls).2.maxAllows = l.maxAllows ∧ (machine.run l calls).2.periodMicros = l.periodMicros := by
  induction calls with
  | nil => exact fun l => ⟨rfl, rfl⟩
  | cons t calls ih =>
    intro l
    obtain ⟨allows, period⟩ := ih (machine.step l t).2
    obtain ⟨allows', period'⟩ := step_settings l t
    exact ⟨allows.trans allows', period.trans period'⟩

theorem step_running (allows : 1 ≤ l.maxAllows) (running : t < l.nextPeriodMicros) : machine.step l t =
      (decide (l.currentPermits + 1 ≤ l.maxAllows), { l with currentPermits := l.currentPermits + 1 }) := by
  show l.tryAcquire t = _
  unfold tryAcquire
  rw [if_neg (by omega), if_neg (by omega)]

theorem step_begins (allows : 1 ≤ l.maxAllows) (ended : l.nextPeriodMicros ≤ t) :
    machine.step l t = (true, { l with nextPeriodMicros := t + l.periodMicros, currentPermits := 1 }) := by
  show l.tryAcquire t = _
  unfold tryAcquire
  rw [if_neg (by omega), if_pos ended]
  exact Prod.ext (decide_eq_true allows) rfl

theorem granted_running (allows : 1 ≤ l.maxAllows) (running : t < l.nextPeriodMicros) :
    machine.granted l [t] = if l.currentPermits + 1 ≤ l.maxAllows then [t] else [] := by
  unfold Machine.granted
  rw [step_running allows running]
  exact if_congr decide_eq_true_iff rfl rfl

theorem granted_begins (allows : 1 ≤ l.maxAllows) (ended : l.nextPeriodMicros ≤ t) : machine.granted l [t] = [t] :=
  Machine.granted_of_true [] (by rw [step_begins allows ended])

/-- The limiter has settings, and has counted. -/
structure Valid (l : QPSLimiter) : Prop where
  allows : 1 ≤ l.maxAllows
  period : 0 < l.periodMicros
  counted : 0 ≤ l.currentPermits

theorem Fresh.valid {since : Int} (fresh : l.Fresh since) (allows : 1 ≤ l.maxAllows) (period : 0 < l.periodMicros) :
    l.Valid :=
  ⟨allows, period, fresh.unused.ge⟩

theorem Valid.step (valid : l.Valid) (t : Int) : (machine.step l t).2.Valid := by
  have counted := valid.counted
  by_cases running : t < l.nextPeriodMicros
  · rw [step_running valid.allows running]
    exact ⟨valid.allows, valid.period, show 0 ≤ l.currentPermits + 1 by omega⟩
  · rw [step_begins valid.allows (not_lt.mp running)]
    exact ⟨valid.allows, valid.period, zero_le_one⟩

/-! ### How many calls are granted -/

/-- The periods that can still begin up to a time. -/
def starts (l : QPSLimiter) (b : Int) : Int :=
  if l.nextPeriodMicros ≤ b then (b - l.nextPeriodMicros) / l.periodMicros + 1 else 0

/-- What is left of the running period. -/
def left (l : QPSLimiter) : Int := max 0 (l.maxAllows - l.currentPermits)

theorem starts_nonneg (period : 0 < l.periodMicros) (b : Int) : 0 ≤ l.starts b := by
  unfold starts
  split
  · next low => exact Int.add_nonneg (Int.ediv_nonneg (sub_nonneg.mpr low) period.le) zero_le_one
  · exact le_rfl

/-- A period that has begun cannot begin again. -/
theorem starts_begins (period : 0 < l.periodMicros) {b : Int} (ended : l.nextPeriodMicros ≤ t) (before : t ≤ b) :
    starts { l with nextPeriodMicros := t + l.periodMicros, currentPermits := 1 } b + 1 ≤ l.starts b := by
  have fewer : (b - t) / l.periodMicros ≤ (b - l.nextPeriodMicros) / l.periodMicros :=
    Int.ediv_le_ediv period (by omega)
  have some_ : 0 ≤ (b - t) / l.periodMicros := Int.ediv_nonneg (by omega) period.le
  unfold starts
  rw [if_pos (ended.trans before)]
  dsimp only
  split
  · have shifted : (b - (t + l.periodMicros)) / l.periodMicros = (b - t) / l.periodMicros - 1 := by
      rw [← sub_sub, Int.sub_ediv_of_dvd _ dvd_rfl, Int.ediv_self period.ne']
    omega
  · omega

/-- The periods that begin in a window, where none begins before it. -/
theorem starts_le (period : 0 < l.periodMicros) {a T : Int} (long : 0 ≤ T) (ahead : a ≤ l.nextPeriodMicros) :
    l.starts (a + T) ≤ T / l.periodMicros + 1 := by
  have some_ : 0 ≤ T / l.periodMicros := Int.ediv_nonneg long period.le
  have fewer : (a + T - l.nextPeriodMicros) / l.periodMicros ≤ T / l.periodMicros :=
    Int.ediv_le_ediv period (by omega)
  unfold starts
  split <;> omega

/-- Behind a call the next period is yet to come, and what was granted is taken from one period. -/
theorem step_ahead (valid : l.Valid) (t : Int) : t < (machine.step l t).2.nextPeriodMicros ∧
      ((machine.granted l [t]).length : Int) + (machine.step l t).2.left ≤ l.maxAllows := by
  have counted := valid.counted
  have allows := valid.allows
  have period := valid.period
  by_cases running : t < l.nextPeriodMicros
  · rw [step_running allows running, granted_running allows running]
    refine ⟨running, ?_⟩
    show _ + max 0 (l.maxAllows - (l.currentPermits + 1)) ≤ _
    split
    · rw [List.length_singleton, Nat.cast_one]
      omega
    · rw [List.length_nil, Nat.cast_zero]
      omega
  · rw [step_begins allows (not_lt.mp running), granted_begins allows (not_lt.mp running)]
    refine ⟨show t < t + l.periodMicros by omega, ?_⟩
    show (1 : Int) + max 0 (l.maxAllows - 1) ≤ _
    omega

/-- **One call takes from what is left, or from a period that begins.** -/
theorem step_left (valid : l.Valid) {b : Int} (before : t ≤ b) :
    ((machine.granted l [t]).length : Int) + ((machine.step l t).2.left + l.maxAllows * (machine.step l t).2.starts b) ≤
      l.left + l.maxAllows * l.starts b := by
  have counted := valid.counted
  have allows := valid.allows
  by_cases running : t < l.nextPeriodMicros
  · rw [step_running allows running, granted_running allows running, ← add_assoc]
    show _ + max 0 (l.maxAllows - (l.currentPermits + 1)) + l.maxAllows * l.starts b ≤ _
    refine add_le_add_left ?_ _
    unfold left
    split
    · rw [List.length_singleton, Nat.cast_one]
      omega
    · rw [List.length_nil, Nat.cast_zero]
      omega
  · have ended := not_lt.mp running
    have fewer := mul_le_mul_of_nonneg_left (starts_begins valid.period ended before) (zero_le_one.trans allows)
    rw [mul_add, mul_one] at fewer
    rw [step_begins allows ended, granted_begins allows ended]
    show (1 : Int) + (max 0 (l.maxAllows - 1) + l.maxAllows *
      starts { l with nextPeriodMicros := t + l.periodMicros, currentPermits := 1 } b) ≤ _
    have nonneg : 0 ≤ l.left := le_max_left _ _
    omega

theorem room_nonneg (valid : l.Valid) (b : Int) : 0 ≤ l.left + l.maxAllows * l.starts b :=
  add_nonneg (le_max_left _ _) (mul_nonneg (zero_le_one.trans valid.allows) (starts_nonneg valid.period b))

/-- **How many calls are granted up to a time.** By induction on the calls. -/
theorem granted_le (b : Int) (calls : List Int) : ∀ {l : QPSLimiter}, l.Valid → calls.Pairwise (· ≤ ·) →
      (((machine.granted l calls).filter (· ≤ b)).length : Int) ≤ l.left + l.maxAllows * l.starts b := by
  induction calls with
  | nil => exact fun valid _ => room_nonneg valid b
  | cons t calls ih =>
    intro l valid ordered
    obtain ⟨later, inner⟩ := List.pairwise_cons.mp ordered
    by_cases before : t ≤ b
    · have rest := ih (valid.step t) inner
      have first := List.length_filter_le (· ≤ b) (machine.granted l [t])
      have paid := step_left valid before
      rw [(step_settings l t).1] at rest
      rw [Machine.granted_cons, List.filter_append, List.length_append, Nat.cast_add]
      omega
    · have none : (machine.granted l (t :: calls)).filter (· ≤ b) = [] := by
        rw [List.filter_eq_nil_iff]
        intro c there
        have low : t ≤ c := by
          rcases List.mem_cons.mp ((machine.granted_sublist _ _).subset there) with rfl | there
          · exact le_rfl
          · exact later c there
        simpa using (not_le.mp before).trans_le low
      rw [none]
      exact room_nonneg valid b

/-- **How many granted calls a window holds.** By induction on the calls before it. -/
theorem within_granted_le {a T : Int} (long : 0 ≤ T) (calls : List Int) :
    ∀ {l : QPSLimiter}, l.Valid → calls.Pairwise (· ≤ ·) →
      ((within a (a + T) (machine.granted l calls)).length : Int) ≤ l.maxAllows * (T / l.periodMicros + 2) := by
  induction calls with
  | nil =>
    intro l valid _
    have some_ : 0 ≤ T / l.periodMicros := Int.ediv_nonneg long valid.period.le
    exact mul_nonneg (zero_le_one.trans valid.allows) (by omega)
  | cons t calls ih =>
    intro l valid ordered
    have inner := (List.pairwise_cons.mp ordered).2
    obtain ⟨sameAllows, samePeriod⟩ := step_settings l t
    rw [Machine.granted_cons, within, List.filter_append, List.length_append, Nat.cast_add]
    by_cases before : t < a
    · have rest := ih (valid.step t) inner
      have none : (machine.granted l [t]).filter (fun c => a ≤ c ∧ c ≤ a + T) = [] := by
        rw [List.filter_eq_nil_iff]
        intro c there
        obtain rfl := List.mem_singleton.mp ((machine.granted_sublist _ _).subset there)
        simpa using fun low => absurd before (not_lt.mpr low)
      rw [sameAllows, samePeriod] at rest
      rw [none, List.length_nil, Nat.cast_zero, zero_add]
      exact rest
    · -- From here on no period begins before the window.
      obtain ⟨ahead, taken⟩ := step_ahead valid t
      have few := starts_le (valid.step t).period long ((not_lt.mp before).trans ahead.le)
      have rest := granted_le (a + T) calls (valid.step t) inner
      have fewer : ((machine.granted (machine.step l t).2 calls).filter fun c => a ≤ c ∧ c ≤ a + T).length ≤
          ((machine.granted (machine.step l t).2 calls).filter (· ≤ a + T)).length :=
        (List.monotone_filter_right _ fun c => by simp).length_le
      have first := List.length_filter_le (fun c => a ≤ c ∧ c ≤ a + T) (machine.granted l [t])
      rw [sameAllows] at rest
      rw [samePeriod] at few
      have all := mul_le_mul_of_nonneg_left few (zero_le_one.trans valid.allows)
      have two : l.maxAllows * (T / l.periodMicros + 2) = l.maxAllows * (T / l.periodMicros + 1) + l.maxAllows := by
        ring
      omega

/-! ### Refusals -/

/-- **What the limiter has counted was granted in the running period**, as far as it allows so much. -/
structure Served (l : QPSLimiter) (log : List Int) (t : Int) : Prop where
  begun : l.nextPeriodMicros - l.periodMicros ≤ t
  served : min l.currentPermits l.maxAllows ≤ (log.filter (l.nextPeriodMicros - l.periodMicros ≤ ·)).length

theorem Fresh.served {since : Int} (fresh : l.Fresh since) : l.Served [] since := by
  refine ⟨by rw [fresh.next]; omega, ?_⟩
  rw [fresh.unused]
  exact min_le_left _ _

theorem Served.step {log : List Int} {s : Int} (valid : l.Valid) (served : l.Served log s) (soon : s ≤ t) :
    (machine.step l t).2.Served (log ++ machine.granted l [t]) t := by
  have begun := served.begun.trans soon
  have count := served.served
  by_cases running : t < l.nextPeriodMicros
  · rw [step_running valid.allows running, granted_running valid.allows running]
    refine ⟨begun, ?_⟩
    show min (l.currentPermits + 1) l.maxAllows ≤
      (((log ++ _).filter (l.nextPeriodMicros - l.periodMicros ≤ ·)).length : Int)
    rw [List.filter_append, List.length_append]
    split
    · rw [List.filter_cons_of_pos (by simpa using begun), List.filter_nil, List.length_singleton]
      omega
    · rw [List.filter_nil, List.length_nil]
      omega
  · rw [step_begins valid.allows (not_lt.mp running), granted_begins valid.allows (not_lt.mp running)]
    refine ⟨(add_sub_cancel_right t _).le, ?_⟩
    show min 1 l.maxAllows ≤ (((log ++ [t]).filter (t + l.periodMicros - l.periodMicros ≤ ·)).length : Int)
    rw [List.filter_append, List.length_append, List.filter_cons_of_pos (by simp), List.filter_nil, List.length_singleton]
    omega

theorem Served.run (calls : List Int) :
    ∀ {l : QPSLimiter} {log : List Int} {s t : Int}, l.Valid → l.Served log s → (s :: calls).Pairwise (· ≤ ·) →
      s ≤ t → (∀ c ∈ calls, c ≤ t) →
        (machine.run l calls).2.Valid ∧ (machine.run l calls).2.Served (log ++ machine.granted l calls) t := by
  induction calls with
  | nil =>
    intro l log s t valid served _ soon _
    refine ⟨valid, served.begun.trans soon, ?_⟩
    exact (List.append_nil log).symm ▸ served.served
  | cons c calls ih =>
    intro l log s t valid served ordered _ before
    obtain ⟨below, inner⟩ := List.pairwise_cons.mp ordered
    have next := served.step valid (below c List.mem_cons_self)
    have rest := ih (valid.step c) next inner (before c List.mem_cons_self) fun d there =>
      before d (List.mem_cons_of_mem c there)
    rw [Machine.granted_cons, ← List.append_assoc]
    exact rest

/-- **Nobody is refused without cause.** -/
theorem Served.refused {log : List Int} (valid : l.Valid) (served : l.Served log t)
    (refused : (machine.step l t).1 = false) :
    l.maxAllows ≤ (log.filter (t - l.periodMicros < ·)).length := by
  have count := served.served
  by_cases running : t < l.nextPeriodMicros
  · rw [step_running valid.allows running] at refused
    have full : ¬ l.currentPermits + 1 ≤ l.maxAllows := of_decide_eq_false refused
    have more : (log.filter (l.nextPeriodMicros - l.periodMicros ≤ ·)).length ≤
        (log.filter (t - l.periodMicros < ·)).length := by
      refine (List.monotone_filter_right _ fun c => ?_).length_le
      rw [decide_eq_true_iff, decide_eq_true_iff]
      omega
    omega
  · rw [step_begins valid.allows (not_lt.mp running)] at refused
    cases refused

/-- **The bounds of the limiter**, over all calls in order: how many granted calls a closed window of
length `T` holds, and how many there are in the period before a refusal. -/
theorem qps_bounds {since : Int} (fresh : l.Fresh since) (allows : 1 ≤ l.maxAllows) (period : 0 < l.periodMicros)
    {calls : List Int} (ordered : (since :: calls).Pairwise (· ≤ ·)) :
    (∀ a T : Int, 0 ≤ T →
      ((within a (a + T) (machine.granted l calls)).length : Int) ≤ l.maxAllows * (T / l.periodMicros + 2)) ∧
    ∀ before t after, calls = before ++ t :: after → ((machine.run l before).2.tryAcquire t).1 = false →
      l.maxAllows ≤ ((machine.granted l before).filter fun c => t - l.periodMicros < c ∧ c ≤ t).length := by
  have valid := fresh.valid allows period
  refine ⟨fun a T long => within_granted_le long calls valid (List.pairwise_cons.mp ordered).2, ?_⟩
  rintro before t after rfl refused
  obtain ⟨below, inner⟩ := List.pairwise_cons.mp ordered
  obtain ⟨front, -, across⟩ := List.pairwise_append.mp inner
  have early : ∀ c ∈ before, c ≤ t := fun c there => across c there t List.mem_cons_self
  obtain ⟨valid', served⟩ := Served.run before valid fresh.served
    (List.pairwise_cons.mpr ⟨fun c there => below c (List.mem_append_left _ there), front⟩)
    (below t (List.mem_append_right _ List.mem_cons_self)) early
  have cause := served.refused valid' refused
  obtain ⟨allows', period'⟩ := run_settings before l
  rw [allows', period'] at cause
  refine cause.trans_eq (congrArg (fun calls : List Int => (calls.length : Int)) (List.filter_congr fun c there => ?_))
  have soon := early c ((machine.granted_sublist _ _).subset there)
  simp [soon]

/-- The theorem at a limiter of one call in ten nanoseconds, which refuses the second of three calls. -/
theorem qps_bounds_three :
    ((within 0 10 (machine.granted ⟨1, 10, 10, 0⟩ [0, 5, 10])).length : Int) ≤ 1 * (10 / 10 + 2) ∧
      (1 : Int) ≤ ((machine.granted ⟨1, 10, 10, 0⟩ [0]).filter fun c => 5 - 10 < c ∧ c ≤ 5).length := by
  obtain ⟨few, cause⟩ := @qps_bounds ⟨1, 10, 10, 0⟩ 0 ⟨rfl, rfl⟩ (by decide) (by decide) [0, 5, 10] (by decide)
  exact ⟨few 0 10 (by decide), cause [0] 5 [10] rfl (by decide)⟩

end QPSLimiter

end Strike.Limit
