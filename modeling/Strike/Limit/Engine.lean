/-
**The limiters behind a rule** (`engine.go` of the limiters).

`NewLimitEngine` picks a limiter by the strategy of the config. The limiters of calls per period and of
a smooth rate measure the time from their own start, the one of the users takes it as it is.

* `limiters`: with any clock, these are limiters in the sense of the rule engines, which know only that a
  limiter that allows nothing grants nothing and that the key matters to the limiter of the users alone.
-/

import Strike.Limit.Rate
import Strike.Limit.UserQPS
import Strike.Rules.Engine

namespace Strike.Limit

open Strike.Rules.Common (LimitConfig LimitStrategy Accepted Limiters)

/-- The limiters (the interface `Limiter`), with the times they started at. -/
inductive LimitEngine (κ : Type) where
  | qps (start : Int) (l : QPSLimiter)
  | rateLimiter (start : Int) (l : RateLimiter)
  | userQPS (l : UserQPSLimiter κ)

variable {κ : Type} (cache : Cache κ)

/-- `NewLimitEngine`, at the time `now`. The text of a strategy that is not known is not kept. -/
def newLimitEngine (config : LimitConfig) (now : Int) : Except GoError (LimitEngine κ) :=
  match config.limitStrategy with
  | .qps => (newQPSLimiter config.maxAllows config.periodMs 0).map (.qps now)
  | .rateLimiter => (newRateLimiter config.maxAllows config.periodMs config.maxBurstRatio 0).map (.rateLimiter now)
  | .userQPS => (newUserQPSLimiter cache config.maxAllows config.periodMs).map .userQPS
  | .other => .error (.new "Unknown LimitStrategy type:")

namespace LimitEngine

variable (round : ℚ → ℚ)

/-- `TryAcquire` of the limiter. -/
def tryAcquire (e : LimitEngine κ) (key : Bytes) (now : Int) : Bool × LimitEngine κ :=
  match e with
  | .qps start l =>
    let (ok, l) := l.tryAcquire (now - start)
    (ok, .qps start l)
  | .rateLimiter start l =>
    let (ok, l) := l.tryAcquire (now - start)
    (ok, .rateLimiter start l)
  | .userQPS l =>
    let (ok, l) := l.tryAcquire cache round key now
    (ok, .userQPS l)

/-- `OverLimit`. -/
def overLimit (e : LimitEngine κ) (key : Bytes) (now : Int) : Bool × LimitEngine κ :=
  let (ok, e) := e.tryAcquire cache round key now
  (!ok, e)

/-- The strategy, and how much is allowed. -/
def settings : LimitEngine κ → LimitStrategy × Int
  | .qps _ l => (.qps, l.maxAllows)
  | .rateLimiter _ l => (.rateLimiter, l.maxAllows)
  | .userQPS l => (.userQPS, l.maxAllows)

variable {cache round}

theorem tryAcquire_settings (e : LimitEngine κ) (key : Bytes) (now : Int) :
    (e.tryAcquire cache round key now).2.settings = e.settings := by
  cases e with
  | qps start l => exact congrArg (Prod.mk _) (QPSLimiter.step_settings l _).1
  | rateLimiter start l =>
    refine congrArg (Prod.mk _) ?_
    show (l.tryAcquire _).2.maxAllows = _
    unfold RateLimiter.tryAcquire
    split
    · rfl
    · split <;> rfl
  | userQPS l =>
    refine congrArg (Prod.mk _) ?_
    show (l.tryAcquire cache round key now).2.maxAllows = _
    exact l.tryAcquire_maxAllows key now

theorem tryAcquire_closed (e : LimitEngine κ) (closed : e.settings.2 ≤ 0) (key : Bytes) (now : Int) :
    (e.tryAcquire cache round key now).1 = false := by
  cases e with
  | qps start l =>
    have closed : l.maxAllows ≤ 0 := closed
    show (l.tryAcquire _).1 = false
    rw [QPSLimiter.tryAcquire, if_pos closed]
  | rateLimiter start l =>
    have closed : l.maxAllows ≤ 0 := closed
    show (l.tryAcquire _).1 = false
    rw [RateLimiter.tryAcquire, if_pos closed]
  | userQPS l =>
    show (l.tryAcquire cache round key now).1 = false
    exact congrArg Prod.fst (if_pos closed)

theorem tryAcquire_blind (e : LimitEngine κ) (blind : e.settings.1 ≠ .userQPS) (key key' : Bytes) (now : Int) :
    e.tryAcquire cache round key now = e.tryAcquire cache round key' now := by
  cases e with
  | qps => rfl
  | rateLimiter => rfl
  | userQPS => exact absurd rfl blind

end LimitEngine

/-- A constructor that refuses what is `bad`. -/
theorem spec_of_ite {L : Type} {config : LimitConfig} {made : Except GoError L} {f : L → LimitEngine κ} {bad : Prop}
    [Decidable bad] {err : GoError} {l : L} (same : made = if bad then .error err else .ok l)
    (accepts : Accepted config ↔ ¬ bad) (settings : (f l).settings = (config.limitStrategy, config.maxAllows)) :
    if Accepted config then ∃ e, made.map f = .ok e ∧ e.settings = (config.limitStrategy, config.maxAllows)
    else ∃ err, made.map f = .error err := by
  by_cases fails : bad
  · rw [if_neg fun accepted => accepts.mp accepted fails, same, if_pos fails]
    exact ⟨err, rfl⟩
  · rw [if_pos (accepts.mpr fails), same, if_neg fails]
    exact ⟨f l, rfl, settings⟩

/-- **`NewLimitEngine` accepts what its constructors accept**, and makes a limiter with these settings. -/
theorem newLimitEngine_spec (cache : Cache κ) (config : LimitConfig) (now : Int) : if Accepted config then
      ∃ e, newLimitEngine cache config now = .ok e ∧ e.settings = (config.limitStrategy, config.maxAllows)
    else ∃ err, newLimitEngine cache config now = .error err := by
  obtain ⟨strategy, burst, period, allows, key⟩ := config
  cases strategy with
  | qps =>
    refine spec_of_ite rfl ?_ rfl
    show 0 ≤ allows ∧ 0 < period ↔ ¬ (allows < 0 ∨ period ≤ 0)
    omega
  | rateLimiter =>
    refine spec_of_ite rfl ?_ rfl
    show 0 ≤ allows ∧ 0 < period ∧ 0 < burst ↔ _
    simp only [not_or, not_lt, not_le]
  | userQPS =>
    refine spec_of_ite rfl ?_ rfl
    show 0 ≤ allows ∧ 0 < period ↔ ¬ (allows < 0 ∨ period ≤ 0)
    omega
  | other =>
    rw [if_neg (show ¬ Accepted ⟨.other, burst, period, allows, key⟩ from id)]
    exact ⟨_, rfl⟩

/-- A limiter with the readings of the clock that are to come. -/
structure Running (κ : Type) where
  engine : LimitEngine κ
  clock : Nat → Int

/-- A call at the next reading. -/
def Running.tryAcquire (round : ℚ → ℚ) (r : Running κ) (key : Bytes) : Bool × Running κ :=
  ((r.engine.tryAcquire cache round key (r.clock 0)).1,
    ⟨(r.engine.tryAcquire cache round key (r.clock 0)).2, fun n => r.clock (n + 1)⟩)

/-- **The limiters behind the rules.** -/
def limiters (round : ℚ → ℚ) (clock : Nat → Int) : Limiters (Running κ) where
  newLimitEngine config := (newLimitEngine cache config (clock 0)).toOption.map fun engine => ⟨engine, fun n => clock (n + 1)⟩
  tryAcquire := Running.tryAcquire cache round
  Fits config r := r.engine.settings = (config.limitStrategy, config.maxAllows)
  accepts config := by
    have spec := newLimitEngine_spec cache config (clock 0)
    by_cases accepted : Accepted config
    · rw [if_pos accepted] at spec
      obtain ⟨e, made, -⟩ := spec
      rw [made]
      exact iff_of_true ⟨_, rfl⟩ accepted
    · rw [if_neg accepted] at spec
      obtain ⟨err, failed⟩ := spec
      rw [failed]
      refine iff_of_false ?_ accepted
      rintro ⟨r, ⟨⟩⟩
  new_fits {config r} made := by
    have spec := newLimitEngine_spec cache config (clock 0)
    split at spec
    · obtain ⟨e, ok, settings⟩ := spec
      rw [ok] at made
      cases made
      exact settings
    · obtain ⟨err, failed⟩ := spec
      rw [failed] at made
      cases made
  tryAcquire_fits fits key := (LimitEngine.tryAcquire_settings _ _ _).trans fits
  closed {config r} fits closed key :=
    LimitEngine.tryAcquire_closed r.engine (by rw [fits]; exact closed) key (r.clock 0)
  blind {config r} fits blind key key' := by
    show (r.engine.tryAcquire cache round key (r.clock 0)).1 = (r.engine.tryAcquire cache round key' (r.clock 0)).1
    rw [LimitEngine.tryAcquire_blind r.engine (by rw [fits]; exact blind) key key' (r.clock 0)]

end Strike.Limit
