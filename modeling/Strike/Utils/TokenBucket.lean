/-
**The token bucket** (`utils/time/rate/rate.go`), as far as `Allow` uses it.

Numbers of type `float64` are exact rationals here, times are nanoseconds. How a number of nanoseconds
becomes a `time.Duration` is a parameter: Go cuts off the fraction, and with nothing cut off (`id`) the
limiter is an exact token bucket.

* `advance_exact`: the tokens grow with the time up to the burst.
* `allow_exact`: an event is allowed when there is a token, and takes it.
-/

import Strike.Go.Slice

namespace Strike.Utils

/-- `Inf`, the limit that allows all events: `math.MaxFloat64`. -/
def inf : ℚ := (2 ^ 53 - 1) * 2 ^ 971

theorem lt_inf : (2 : ℚ) ^ 63 < inf := by
  calc (2 : ℚ) ^ 63 < 2 ^ 971 := pow_lt_pow_right₀ (by norm_num) (by norm_num)
    _ ≤ inf := le_mul_of_one_le_left (by positivity) (by norm_num)

/-- `Limiter`. The last times are missing (`none`) while they are the zero time. -/
structure Limiter where
  limit : ℚ
  burst : Int
  tokens : ℚ := 0
  last : Option Int := none
  lastEvent : Option ℚ := none
  deriving Repr, DecidableEq

/-- `NewLimiter`. -/
def newLimiter (r : ℚ) (b : Int) : Limiter := { limit := r, burst := b }

/-- `Reservation`, without the pointer to its limiter. -/
structure Reservation where
  ok : Bool
  tokens : Int := 0
  timeToAct : Option ℚ := none
  limit : ℚ := 0
  deriving Repr, DecidableEq

section

variable (round : ℚ → ℚ)

/-- `durationFromTokens`. -/
def durationFromTokens (limit tokens : ℚ) : ℚ := round (1000000000 * (tokens / limit))

/-- `tokensFromDuration`. -/
def tokensFromDuration (limit d : ℚ) : ℚ := d / 1000000000 * limit

namespace Limiter

/-- `advance`: the last time and the tokens at `now`. The zero time is too far back for any bucket not
to be full since. -/
def advance (lim : Limiter) (now : Int) : Option Int × ℚ :=
  let last := lim.last.map fun last => if now < last then now else last
  let maxElapsed := durationFromTokens round lim.limit (lim.burst - lim.tokens)
  let elapsed := match last with
    | none => maxElapsed
    | some last => if ((now - last : Int) : ℚ) > maxElapsed then maxElapsed else (now - last : Int)
  let tokens := lim.tokens + tokensFromDuration lim.limit elapsed
  (last, if tokens > lim.burst then lim.burst else tokens)

/-- `reserveN`. -/
def reserveN (lim : Limiter) (now n : Int) (maxFutureReserve : ℚ) : Reservation × Limiter :=
  if lim.limit = inf then ({ ok := true, tokens := n, timeToAct := some now }, lim)
  else
    let (last, tokens) := lim.advance round now
    let tokens := tokens - n
    let waitDuration := if tokens < 0 then durationFromTokens round lim.limit (-tokens) else 0
    if n ≤ lim.burst ∧ waitDuration ≤ maxFutureReserve then
      ({ ok := true, tokens := n, timeToAct := some (now + waitDuration), limit := lim.limit },
        { lim with last := some now, tokens := tokens, lastEvent := some (now + waitDuration) })
    else ({ ok := false, limit := lim.limit }, { lim with last := last })

/-- `AllowN`. -/
def allowN (lim : Limiter) (now n : Int) : Bool × Limiter :=
  let (r, lim) := lim.reserveN round now n 0
  (r.ok, lim)

/-- `Allow`, at the time `now`. -/
def allow (lim : Limiter) (now : Int) : Bool × Limiter := lim.allowN round now 1

end Limiter

end

namespace Limiter

/-! ### The exact bucket -/

/-- **A bucket** that holds at most `burst` tokens, with the time it was last updated. -/
structure Valid (lim : Limiter) (now : Int) : Prop where
  finite : lim.limit ≠ inf
  fills : 0 < lim.limit
  holds : 1 ≤ lim.burst
  nonneg : 0 ≤ lim.tokens
  bounded : lim.tokens ≤ lim.burst
  past : ∀ last ∈ lim.last, last ≤ now

/-- The tokens at a time. -/
def level (lim : Limiter) (now : Int) : ℚ :=
  match lim.last with
  | none => lim.burst
  | some last => min lim.burst (lim.tokens + (now - last : Int) / 1000000000 * lim.limit)

variable {lim : Limiter} {now : Int}

theorem level_le_burst (lim : Limiter) (now : Int) : lim.level now ≤ lim.burst := by
  unfold level
  split
  · exact le_rfl
  · exact min_le_left _ _

theorem tokens_full {limit : ℚ} (fills : 0 < limit) (tokens burst : ℚ) :
    tokens + tokensFromDuration limit (durationFromTokens id limit (burst - tokens)) = burst := by
  unfold durationFromTokens tokensFromDuration
  rw [id, mul_div_cancel_left₀ _ (by norm_num), div_mul_cancel₀ _ fills.ne', add_sub_cancel]

theorem tokensFromDuration_le {limit d d' : ℚ} (fills : 0 < limit) (longer : d ≤ d') :
    tokensFromDuration limit d ≤ tokensFromDuration limit d' :=
  mul_le_mul_of_nonneg_right (div_le_div_of_nonneg_right longer (by norm_num)) fills.le

theorem tokens_elapsed {limit tokens burst elapsed : ℚ} (fills : 0 < limit) : tokens + tokensFromDuration limit
        (if elapsed > durationFromTokens id limit (burst - tokens) then durationFromTokens id limit (burst - tokens)
          else elapsed) =
      min burst (tokens + tokensFromDuration limit elapsed) := by
  have full := tokens_full fills tokens burst
  split
  · next long =>
      have more := tokensFromDuration_le fills long.le
      rw [full, min_eq_left (by linarith)]
  · next short =>
      have less := tokensFromDuration_le fills (not_lt.mp short)
      rw [min_eq_right (by linarith)]

/-- **The tokens grow with the time up to the burst.** -/
theorem advance_exact (valid : lim.Valid now) : lim.advance id now = (lim.last, lim.level now) := by
  have capped : ∀ {tokens : ℚ}, tokens ≤ lim.burst → (if tokens > lim.burst then (lim.burst : ℚ) else tokens) = tokens :=
    fun below => if_neg (not_lt.mpr below)
  unfold advance level
  cases updated : lim.last with
  | none =>
    dsimp only [Option.map_none]
    rw [tokens_full valid.fills, capped le_rfl]
  | some last =>
    dsimp only [Option.map_some]
    rw [if_neg (not_lt.mpr (valid.past last updated)), tokens_elapsed valid.fills, capped (min_le_left _ _)]
    rfl

/-- **An event is allowed when there is a token, and takes it.** -/
theorem allow_exact (valid : lim.Valid now) : lim.allow id now =
      if 1 ≤ lim.level now then
        (true, { lim with last := some now, tokens := lim.level now - 1, lastEvent := some now })
      else (false, lim) := by
  unfold allow allowN reserveN
  rw [if_neg valid.finite, advance_exact valid]
  dsimp only
  by_cases token : 1 ≤ lim.level now
  · have enough : ¬ lim.level now - (1 : Int) < 0 := by
      rw [Int.cast_one]
      linarith
    rw [if_neg enough, if_pos ⟨valid.holds, le_rfl⟩, if_pos token, Int.cast_one, add_zero]
  · have missing : lim.level now - (1 : Int) < 0 := by
      rw [Int.cast_one]
      linarith
    have waits : 0 < durationFromTokens id lim.limit (-(lim.level now - (1 : Int))) :=
      mul_pos (by norm_num) (div_pos (neg_pos.mpr missing) valid.fills)
    rw [if_pos missing, if_neg fun ok => absurd ok.2 (not_le.mpr waits), if_neg token]

theorem Valid.later {now' : Int} (valid : lim.Valid now) (soon : now ≤ now') : lim.Valid now' :=
  ⟨valid.finite, valid.fills, valid.holds, valid.nonneg, valid.bounded,
    fun last there => (valid.past last there).trans soon⟩

theorem Valid.allow (valid : lim.Valid now) : (lim.allow id now).2.Valid now := by
  rw [allow_exact valid]
  split
  · next token =>
      refine ⟨valid.finite, valid.fills, valid.holds, sub_nonneg.mpr token, ?_, ?_⟩
      · exact (sub_le_self _ zero_le_one).trans (level_le_burst lim now)
      · intro last there
        cases there
        exact le_rfl
  · exact valid

theorem allow_settings (valid : lim.Valid now) :
    (lim.allow id now).2.limit = lim.limit ∧ (lim.allow id now).2.burst = lim.burst := by
  rw [allow_exact valid]
  split <;> exact ⟨rfl, rfl⟩

theorem allow_ok (valid : lim.Valid now) : (lim.allow id now).1 = decide (1 ≤ lim.level now) := by
  rw [allow_exact valid]
  split
  · next token => exact (decide_eq_true token).symm
  · next none => exact (decide_eq_false none).symm

theorem level_allow (valid : lim.Valid now) :
    (lim.allow id now).2.level now = if 1 ≤ lim.level now then lim.level now - 1 else lim.level now := by
  rw [allow_exact valid]
  split
  · have below := level_le_burst lim now
    show min (lim.burst : ℚ) (lim.level now - 1 + (now - now : Int) / 1000000000 * lim.limit) = lim.level now - 1
    rw [sub_self, Int.cast_zero, zero_div, zero_mul, add_zero]
    exact min_eq_right (by linarith)
  · rfl

theorem level_grows {now' : Int} (valid : lim.Valid now) (soon : now ≤ now') :
    lim.level now' ≤ lim.level now + lim.limit / 1000000000 * (now' - now) := by
  have passed : (0 : ℚ) ≤ lim.limit / 1000000000 * (now' - now) :=
    mul_nonneg (div_nonneg valid.fills.le (by norm_num)) (sub_nonneg.mpr (Int.cast_le.mpr soon))
  unfold level
  split
  · exact le_add_of_nonneg_right passed
  · rw [← min_add_add_right]
    refine le_min_iff.mpr ⟨(min_le_left _ _).trans (le_add_of_nonneg_right passed), (min_le_right _ _).trans_eq ?_⟩
    push_cast
    ring

end Limiter

end Strike.Utils
