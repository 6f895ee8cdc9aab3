/-
**The shards of the proxy's events** (`event.go`, `proxy.go`).

`initEvent` splits the shards of the worker pool: the last `gap` are for events from upstream, the others for
events from downstream. The gap is a byte and the number of shards is not, so both corrections of the gap
compare and subtract what is left of that number in eight bits.

* `apart_iff`: the two directions have shards of their own unless the number of shards is one more than a
  multiple of 256; then the gap is zero.
-/

import Strike.Sync.ShardWorkerPool

namespace Strike.Proxy.Sharding

open Sync

/-- `direction`. -/
inductive Direction where
  | diFromDownstream
  | diFromUpstream
  deriving Repr, DecidableEq

/-- `event`, without its handler. -/
structure Event where
  dir : Direction
  sid : UInt64
  deriving Repr, DecidableEq

/-- `initEvent`: the gap. `math.Round` rounds three tenths of the number half up, and `uint8` takes the low
bits of that. -/
def initEvent (shardsNum : Nat) : UInt8 :=
  let gap := UInt8.ofNat ((3 * shardsNum + 5) / 10)
  let gap := if gap = 0 then 1 else gap
  if gap ≥ UInt8.ofNat shardsNum then UInt8.ofNat (shardsNum - 1) else gap

/-- `Source`, with the gap. -/
def Event.source (gap : UInt8) (e : Event) (sourceShards : UInt64) : UInt64 × UInt64 × UInt64 :=
  match e.dir with
  | .diFromDownstream => (e.sid, sourceShards - gap.toUInt64, 0)
  | .diFromUpstream => (e.sid, gap.toUInt64, sourceShards - gap.toUInt64)

/-- Events as jobs of the worker pool. -/
@[reducible] def shardJob (gap : UInt8) : ShardJob Event := ⟨Event.source gap⟩

/-- The shard of an event, among `n`, behind `initEvent`. -/
def shardOf (n : Nat) (e : Event) : Nat := @Pool.shardOf Event (shardJob (initEvent n)) n e

/-- **The directions are apart**: one number splits the shards for all connections. -/
def Apart (n : Nat) : Prop :=
  ∃ g, 1 ≤ g ∧ g < n ∧ ∀ sid, shardOf n ⟨.diFromDownstream, sid⟩ < n - g ∧
    n - g ≤ shardOf n ⟨.diFromUpstream, sid⟩ ∧ shardOf n ⟨.diFromUpstream, sid⟩ < n

/-! ### The gap -/

theorem initEvent_toNat (n : Nat) : (initEvent n).toNat =
      let gap := max 1 ((3 * n + 5) / 10 % 256)
      if n % 256 ≤ gap then (n - 1) % 256 else gap := by
  have corrected : (if UInt8.ofNat ((3 * n + 5) / 10) = 0 then 1 else UInt8.ofNat ((3 * n + 5) / 10)).toNat =
      max 1 ((3 * n + 5) / 10 % 256) := by
    have zero : UInt8.ofNat ((3 * n + 5) / 10) = 0 ↔ (3 * n + 5) / 10 % 256 = 0 := by
      rw [← UInt8.toNat_inj, UInt8.toNat_ofNat']
      rfl
    split
    · next none_ =>
        rw [zero.mp none_]
        rfl
    · next some_ =>
        rw [UInt8.toNat_ofNat', max_eq_right]
        exact Nat.one_le_iff_ne_zero.mpr fun no => some_ (zero.mpr no)
  unfold initEvent
  simp only [ge_iff_le, UInt8.le_iff_toNat_le, corrected]
  rw [UInt8.toNat_ofNat']
  split
  · rw [UInt8.toNat_ofNat']
  · exact corrected

theorem initEvent_splits {n : Nat} (two : 2 ≤ n) :
    if n % 256 = 1 then (initEvent n).toNat = 0 else 1 ≤ (initEvent n).toNat ∧ (initEvent n).toNat < n := by
  have gap := initEvent_toNat n
  have byte : (3 * n + 5) / 10 % 256 < 256 := Nat.mod_lt _ (by decide)
  simp only at gap
  split at gap <;> split <;> omega

/-! ### The shards -/

section

variable {n : Nat} (fits : n < 2 ^ 63) (less : (initEvent n).toNat < n)
include fits less

theorem toNat_targetShards : (UInt64.ofNat n - (initEvent n).toUInt64).toNat = n - (initEvent n).toNat := by
  have all : (UInt64.ofNat n).toNat = n := by
    rw [UInt64.toNat_ofNat']
    exact Nat.mod_eq_of_lt (by omega)
  have gap : (initEvent n).toUInt64.toNat = (initEvent n).toNat := UInt8.toNat_toUInt64 _
  rw [UInt64.toNat_sub_of_le _ _ (UInt64.le_iff_toNat_le.mpr (by omega)), all, gap]

theorem shardOf_downstream (sid : UInt64) :
    shardOf n ⟨.diFromDownstream, sid⟩ = sid.toNat % (n - (initEvent n).toNat) := by
  have target := toNat_targetShards fits less
  show (shard sid (UInt64.ofNat n - (initEvent n).toUInt64) 0).toNat = _
  rw [shard, if_neg, UInt64.add_zero, UInt64.toNat_mod, target]
  intro zero
  rw [zero, UInt64.toNat_zero] at target
  omega

theorem shardOf_upstream (some_ : 1 ≤ (initEvent n).toNat) (sid : UInt64) :
    shardOf n ⟨.diFromUpstream, sid⟩ = sid.toNat % (initEvent n).toNat + (n - (initEvent n).toNat) := by
  have target := toNat_targetShards fits less
  have gap : (initEvent n).toUInt64.toNat = (initEvent n).toNat := UInt8.toNat_toUInt64 _
  have source : sid.toNat % (initEvent n).toNat < (initEvent n).toNat := Nat.mod_lt _ some_
  show (shard sid (initEvent n).toUInt64 (UInt64.ofNat n - (initEvent n).toUInt64)).toNat = _
  rw [shard, if_neg, UInt64.toNat_add, UInt64.toNat_mod, target, gap, Nat.mod_eq_of_lt (by omega)]
  intro zero
  rw [zero, UInt64.toNat_zero] at gap
  omega

end

theorem shardOf_upstream_first {n : Nat} (none_ : (initEvent n).toNat = 0) (sid : UInt64) :
    shardOf n ⟨.diFromUpstream, sid⟩ = 0 := by
  have gap : (initEvent n).toUInt64 = 0 := by
    rw [← UInt64.toNat_inj, UInt8.toNat_toUInt64, none_]
    rfl
  show (shard sid (initEvent n).toUInt64 (UInt64.ofNat n - (initEvent n).toUInt64)).toNat = 0
  rw [shard, if_pos gap]
  rfl

/-- **When the directions are apart**: unless the number of shards is one more than a multiple of 256. -/
theorem apart_iff {n : Nat} (two : 2 ≤ n) (fits : n < 2 ^ 63) : Apart n ↔ n % 256 ≠ 1 := by
  have splits := initEvent_splits two
  constructor
  · rintro ⟨g, some_, less, apart⟩ one
    rw [if_pos one] at splits
    have behind := (apart 0).2.1
    rw [shardOf_upstream_first splits] at behind
    omega
  · intro other
    rw [if_neg other] at splits
    obtain ⟨some_, less⟩ := splits
    refine ⟨(initEvent n).toNat, some_, less, fun sid => ?_⟩
    rw [shardOf_downstream fits less, shardOf_upstream fits less some_]
    have down : sid.toNat % (n - (initEvent n).toNat) < n - (initEvent n).toNat := Nat.mod_lt _ (by omega)
    have up : sid.toNat % (initEvent n).toNat < (initEvent n).toNat := Nat.mod_lt _ some_
    omega

/-- The theorem at a number that a byte holds, and at one of several bytes. -/
theorem apart_iff_eight : Apart 8 ∧ Apart 1000 :=
  ⟨(apart_iff (by decide) (by decide)).mpr (by decide), (apart_iff (by decide) (by decide)).mpr (by decide)⟩

/-- **All shards are for events from downstream**, and those from upstream go to the first. -/
theorem shared_shard :
    ¬ Apart 257 ∧ shardOf 257 ⟨.diFromUpstream, 7⟩ = 0 ∧ shardOf 257 ⟨.diFromDownstream, 257⟩ = 0 := by
  refine ⟨?_, by decide, by decide⟩
  rintro ⟨g, some_, less, apart⟩
  have behind := (apart 7).2.1
  have first : shardOf 257 ⟨.diFromUpstream, 7⟩ = 0 := by decide
  omega

end Strike.Proxy.Sharding
