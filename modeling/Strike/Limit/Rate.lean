/-
**The limiter of a smooth rate** (`rate.go` of the limiters).

The fields of type `float64` are exact rationals here. Permits are stored while nobody calls; a call that
finds less than one permit makes the next one wait for the rest, rounded down to an integer.

* `meter`: a call finds a credit that is not negative, and pays a permit less what the rounding gives back.
* `rate_bounds`: the stored permits stay in their bounds, and granted calls that follow each other are apart.
-/

import Strike.Limit.QPS

namespace Strike.Limit

open Strike.Lib

/-- `RateLimiter`. -/
structure RateLimiter where
  maxAllows : Int
  maxPermits : ℚ
  stableIntervalMicros : ℚ
  storedPermits : ℚ := 0
  nextFreeTicketMicros : Int
  deriving Repr, DecidableEq

/-- `NewRateLimiter`, with the time that has passed since `start`. -/
def newRateLimiter (maxAllows periodMs : Int) (maxBurstRatio : ℚ) (since : Int) : Except GoError RateLimiter :=
  if maxAllows < 0 ∨ periodMs ≤ 0 ∨ maxBurstRatio ≤ 0 then
    .error (.new "maxAllows must not be negtive, and periodMs be positive, and maxBurstTimes be positive")
  else
    let interval : ℚ := if 0 = maxAllows then millisecond else periodMs * millisecond / maxAllows
    .ok { maxAllows := maxAllows
          maxPermits := maxBurstRatio * maxAllows
          stableIntervalMicros := interval
          nextFreeTicketMicros := since }

/-- The conversion `int64(x)` of a `float64`. -/
def truncate (x : ℚ) : Int := if 0 ≤ x then ⌊x⌋ else ⌈x⌉

namespace RateLimiter

/-- `reserveEarliestAvailable`. -/
def reserveEarliestAvailable (l : RateLimiter) (nowMicros : Int) : RateLimiter :=
  let newPermits := (nowMicros - l.nextFreeTicketMicros : Int) / l.stableIntervalMicros
  let storedPermits := min l.maxPermits (l.storedPermits + newPermits)
  let storedPermitsToSpend := min 1 storedPermits
  let freshPermits := 1 - storedPermitsToSpend
  let waitMicros := truncate (freshPermits * l.stableIntervalMicros)
  { l with
    nextFreeTicketMicros := nowMicros + waitMicros
    storedPermits := storedPermits - storedPermitsToSpend }

/-- `TryAcquire`. -/
def tryAcquire (l : RateLimiter) (nowMicros : Int) : Bool × RateLimiter :=
  if l.maxAllows ≤ 0 then (false, l)
  else if nowMicros ≤ l.nextFreeTicketMicros then (false, l)
  else (true, l.reserveEarliestAvailable nowMicros)

/-- The limiter as a machine whose calls are their times. -/
def machine : Machine RateLimiter Int Bool := ⟨tryAcquire⟩

/-! ### The credit -/

/-- **A limiter with these settings**, whose stored permits are in their bounds. -/
structure Valid (maxAllows : Int) (I M : ℚ) (l : RateLimiter) : Prop where
  allows : l.maxAllows = maxAllows
  interval : l.stableIntervalMicros = I
  permits : l.maxPermits = M
  nonneg : 0 ≤ l.storedPermits
  bounded : l.storedPermits ≤ M

/-- The permits at a time, or what is still owed. -/
def credit (l : RateLimiter) (t : Int) : ℚ :=
  min l.maxPermits (l.storedPermits + (t - l.nextFreeTicketMicros : Int) / l.stableIntervalMicros)

variable {maxAllows : Int} {I M : ℚ} {l : RateLimiter} {t : Int}

theorem step_early (early : t ≤ l.nextFreeTicketMicros) : machine.step l t = (false, l) := by
  show l.tryAcquire t = _
  unfold tryAcquire
  rw [if_pos early, ite_self]

theorem step_grants (allows : 1 ≤ l.maxAllows) (late : l.nextFreeTicketMicros < t) :
    machine.step l t = (true, l.reserveEarliestAvailable t) := by
  show l.tryAcquire t = _
  unfold tryAcquire
  rw [if_neg (by omega), if_neg (not_le.mpr late)]

theorem sub_one_lt_truncate {x : ℚ} (nonneg : 0 ≤ x) : x - 1 < truncate x := by
  rw [truncate, if_pos nonneg]
  exact Int.sub_one_lt_floor x

theorem credit_nonneg (positive : 0 < I) (capped : 0 ≤ M) (valid : l.Valid maxAllows I M)
    (late : l.nextFreeTicketMicros < t) : 0 ≤ l.credit t := by
  have passed : (0 : ℚ) ≤ (t - l.nextFreeTicketMicros : Int) := by
    rw [Int.cast_nonneg_iff]
    omega
  unfold credit
  rw [valid.permits, valid.interval]
  exact le_min capped (add_nonneg valid.nonneg (div_nonneg passed positive.le))

/-- **A granted call takes one permit**, or owes for a part of it, less what the rounding gives back. -/
theorem reserve_spec (positive : 0 < I) (capped : 0 ≤ M) (valid : l.Valid maxAllows I M)
    (late : l.nextFreeTicketMicros < t) :
    (l.reserveEarliestAvailable t).Valid maxAllows I M ∧
      (l.reserveEarliestAvailable t).credit t ≤ l.credit t - (1 - 1 / I) := by
  have nonneg := credit_nonneg positive capped valid late
  have below : l.credit t ≤ M := valid.permits ▸ min_le_left _ _
  -- What is spent of the permits, and how long the call after this one waits for the rest.
  generalize permits : l.credit t = c at *
  have spends : min 1 c ≤ c := min_le_right 1 c
  have some_ : 0 ≤ min 1 c := le_min zero_le_one nonneg
  have fresh : 0 ≤ (1 - min 1 c) * I := mul_nonneg (sub_nonneg.mpr (min_le_left 1 c)) positive.le
  have reserved : l.reserveEarliestAvailable t =
      { l with
        nextFreeTicketMicros := t + truncate ((1 - min 1 c) * I)
        storedPermits := c - min 1 c } := by
    rw [← permits, ← valid.interval]
    rfl
  rw [reserved]
  refine ⟨⟨valid.allows, valid.interval, valid.permits, sub_nonneg.mpr spends, by dsimp only; linarith⟩, ?_⟩
  have waits := sub_one_lt_truncate fresh
  unfold credit
  dsimp only
  rw [valid.permits, valid.interval]
  refine (min_le_right _ _).trans ?_
  have shift : ((t - (t + truncate ((1 - min 1 c) * I)) : Int) : ℚ) = -truncate ((1 - min 1 c) * I) := by
    push_cast
    ring
  have owed : (-(truncate ((1 - min 1 c) * I) : ℚ)) / I ≤ (1 - (1 - min 1 c) * I) / I :=
    div_le_div_of_nonneg_right (by linarith) positive.le
  have split : (1 - (1 - min 1 c) * I) / I = 1 / I - (1 - min 1 c) := by
    rw [sub_div, mul_div_cancel_right₀ _ positive.ne']
  rw [shift]
  linarith

/-- **The limiter has a credit.** -/
theorem meter (positive : 0 < I) (capped : 0 ≤ M) (allows : 1 ≤ maxAllows) :
    Meter machine (fun _ _ => True) (fun l _ => l.Valid maxAllows I M) credit M (1 / I) 0 (1 - 1 / I) where
  later valid _ := valid
  keeps {l t} valid _ := by
    by_cases late : l.nextFreeTicketMicros < t
    · rw [step_grants (valid.allows.symm ▸ allows) late]
      exact (reserve_spec positive capped valid late).1
    · rw [step_early (not_lt.mp late)]
      exact valid
  bounded valid := valid.permits ▸ min_le_left _ _
  grows {l t t'} valid soon := by
    unfold credit
    rw [valid.permits, valid.interval, ← min_add_add_right]
    refine le_min_iff.mpr ⟨(min_le_left _ _).trans (le_add_of_nonneg_right ?_), (min_le_right _ _).trans_eq ?_⟩
    · exact mul_nonneg (one_div_nonneg.mpr positive.le) (sub_nonneg.mpr (Int.cast_le.mpr soon))
    · push_cast
      ring
  finds {l t} valid _ granted := by
    by_cases late : l.nextFreeTicketMicros < t
    · exact credit_nonneg positive capped valid late
    · rw [step_early (not_lt.mp late)] at granted
      cases granted
  pays {l t} valid _ granted := by
    by_cases late : l.nextFreeTicketMicros < t
    · rw [step_grants (valid.allows.symm ▸ allows) late]
      exact (reserve_spec positive capped valid late).2
    · rw [step_early (not_lt.mp late)] at granted
      cases granted
  spares {l t} valid _ refused := by
    by_cases late : l.nextFreeTicketMicros < t
    · rw [step_grants (valid.allows.symm ▸ allows) late] at refused
      cases refused
    · rw [step_early (not_lt.mp late)]

theorem run_valid (positive : 0 < I) (capped : 0 ≤ M) (allows : 1 ≤ maxAllows) (calls : List Int) :
    ∀ {l : RateLimiter}, l.Valid maxAllows I M → (machine.run l calls).2.Valid maxAllows I M := by
  induction calls with
  | nil => exact fun valid => valid
  | cons t calls ih => exact fun valid => ih ((meter positive capped allows).keeps (t := t) valid trivial)

theorem newRateLimiter_valid {maxAllows periodMs since : Int} {maxBurstRatio : ℚ} {l : RateLimiter}
    (made : newRateLimiter maxAllows periodMs maxBurstRatio since = .ok l) (allows : 1 ≤ maxAllows) :
    l.Valid maxAllows (periodMs * millisecond / maxAllows) (maxBurstRatio * maxAllows) ∧
      (0 : ℚ) < periodMs * millisecond / maxAllows ∧ 0 ≤ maxBurstRatio * maxAllows := by
  unfold newRateLimiter at made
  split at made
  · cases made
  · next accepted =>
      obtain ⟨-, period, burst⟩ : ¬ maxAllows < 0 ∧ ¬ periodMs ≤ 0 ∧ ¬ maxBurstRatio ≤ 0 := by
        simpa only [not_or] using accepted
      have some_ : (0 : ℚ) < maxAllows := Int.cast_pos.mpr (by omega)
      have positive : 0 ≤ maxBurstRatio * maxAllows := mul_nonneg (not_le.mp burst).le some_.le
      have interval : (0 : ℚ) < periodMs * millisecond / maxAllows :=
        div_pos (mul_pos (Int.cast_pos.mpr (not_le.mp period)) (Int.cast_pos.mpr (by decide))) some_
      rw [if_neg (by omega)] at made
      cases made
      exact ⟨⟨rfl, rfl, rfl, le_rfl, positive⟩, interval, positive⟩

/-- **The bounds of the limiter**, over all calls in order, with the interval `I` and the most permits
`M` of the settings: the stored permits stay between `0` and `M`, and so many granted calls follow each
other from time `a` to time `b`. -/
theorem rate_bounds {maxAllows periodMs since : Int} {maxBurstRatio : ℚ} {l : RateLimiter}
    (made : newRateLimiter maxAllows periodMs maxBurstRatio since = .ok l) (allows : 1 ≤ maxAllows)
    {calls : List Int} (ordered : (since :: calls).Pairwise (· ≤ ·)) :
    (∀ before after, calls = before ++ after →
      0 ≤ (machine.run l before).2.storedPermits ∧ (machine.run l before).2.storedPermits ≤ l.maxPermits) ∧
    ∀ front run back a b, machine.granted l calls = front ++ (run ++ back) → run.head? = some a → run.getLast? = some b →
      (run.length : ℚ) ≤ 1 + l.maxPermits + (b - a + run.length) / l.stableIntervalMicros := by
  obtain ⟨valid, positive, capped⟩ := newRateLimiter_valid made allows
  constructor
  · rintro before after -
    have kept := run_valid positive capped allows before valid
    exact ⟨kept.nonneg, valid.permits ▸ kept.bounded⟩
  · intro front run back a b split first last
    have apart := (meter positive capped allows).stretch valid ordered (Machine.admits_true calls l) split.symm
      first last
    have paid : (run.length - 1 : ℚ) / (periodMs * millisecond / maxAllows) ≤
        run.length / (periodMs * millisecond / maxAllows) :=
      div_le_div_of_nonneg_right (sub_one_lt _).le positive.le
    rw [valid.permits, valid.interval, add_div]
    rw [mul_one_sub, mul_one_div, one_div_mul_eq_div] at apart
    linarith

/-- The theorem at a limiter of one call in a millisecond, with two calls and one between them. -/
theorem rate_bounds_two : ∃ l, newRateLimiter 1 1 1 0 = .ok l ∧ machine.granted l [1, 2, 1000001] = [1, 1000001] ∧
      ((2 : Nat) : ℚ) ≤ 1 + l.maxPermits + (1000001 - 1 + (2 : Nat)) / l.stableIntervalMicros := by
  have granted : machine.granted ⟨1, 1, 1000000, 0, 0⟩ [1, 2, 1000001] = [1, 1000001] := by decide +kernel
  have made : newRateLimiter 1 1 1 0 = .ok ⟨1, 1, 1000000, 0, 0⟩ := by decide +kernel
  refine ⟨_, made, granted, ?_⟩
  have apart := (rate_bounds made le_rfl (by decide : (0 :: [1, 2, 1000001] : List Int).Pairwise (· ≤ ·))).2 [] [1, 1000001] []
    1 1000001 (granted.trans (List.append_nil _).symm) rfl rfl
  exact_mod_cast apart

end RateLimiter

end Strike.Limit
