/-
**Reference counts of pooled buffers** (`iobufferpool.go`).

`PutIoBuffer` counts down before it looks at the count. A duplicate is reported and the count stays below
zero, in the pool and out of it: the next `GetIoBuffer` counts up to zero.

* `step_counted`: what a step keeps, where puts are of buffers that are held and counts stay in 32 bits.
* `counts_survive`: so a buffer is in the pool exactly when its count is zero, and one handed out has count
  one.
-/

import Strike.Buffer.IoBuffer
import Strike.Go.Pools
import Strike.Lib.System

namespace Strike

open Lib

namespace IoBuffer

/-- `giveSlice`. -/
def giveSlice (b : IoBuffer) : IoBuffer := if b.pooled then { b with buf := .ofBytes [], pooled := false } else b

/-- `Free`. -/
def free (b : IoBuffer) : IoBuffer := b.reset.giveSlice

/-- `Alloc`. A nil slice has no capacity. -/
def alloc (pool : Pool) (size : Int) (b : IoBuffer) : IoBuffer :=
  let b := if b.buf.cap > 0 then b.free else b
  let size := if size ≤ 0 then defaultSize else size.toNat
  { b with buf := (pool.getBytes size).truncate, pooled := true }

/-- `Count`. -/
def addCount (b : IoBuffer) (count : Int) : IoBuffer := { b with count := int32 (b.count + count) }

@[simp] theorem count_free (b : IoBuffer) : b.free.count = b.count := by
  unfold free giveSlice
  split <;> rfl

@[simp] theorem count_alloc (pool : Pool) (size : Int) (b : IoBuffer) : (b.alloc pool size).count = b.count := by
  show (if b.buf.cap > 0 then b.free else b).count = b.count
  split
  · exact count_free b
  · rfl

end IoBuffer

/-- The buffers that were made, and `ibPool`. A buffer is known by its number. -/
structure IoBufferPool where
  buffers : List IoBuffer := []
  pool : List Nat := []

namespace IoBufferPool

/-- `GetIoBuffer`, with what the `sync.Pool` returns. -/
def getIoBuffer (s : IoBufferPool) (pool : Pool) (size : Int) (choice : Option Nat) : Option (Nat × IoBufferPool) := do
  let (v, rest) ← takeOut s.pool choice
  match v with
  | none => return (s.buffers.length, { s with buffers := s.buffers ++ [.new pool size] })
  | some r =>
    let b ← s.buffers[r]?
    return (r, { buffers := s.buffers.set r ((b.alloc pool size).addCount 1), pool := rest })

/-- The error about a put of a buffer that is not held. -/
def errDuplicate : GoError := .new "PutIoBuffer duplicate"

/-- `PutIoBuffer`. -/
def putIoBuffer (s : IoBufferPool) (r : Nat) : Option (Option GoError × IoBufferPool) := do
  let b ← s.buffers[r]?
  let b := b.addCount (-1)
  let s := { s with buffers := s.buffers.set r b }
  if b.count > 0 then return (none, s)
  else if b.count < 0 then return (some errDuplicate, s)
  else return (none, { buffers := s.buffers.set r b.free, pool := s.pool ++ [r] })

/-- A call. -/
inductive Call where
  | get (pool : Pool) (size : Int) (choice : Option Nat)
  | count (r : Nat)
  | put (r : Nat)

/-- One call. `Count(1)` is for buffers that are held. -/
def step (s : IoBufferPool) : Call → Option IoBufferPool
  | .get pool size choice => (s.getIoBuffer pool size choice).map Prod.snd
  | .count r =>
    if r ∈ s.pool then none else s.buffers[r]?.map fun b => { s with buffers := s.buffers.set r (b.addCount 1) }
  | .put r => (s.putIoBuffer r).map Prod.snd

/-- The calls as a system. -/
def system : System IoBufferPool Call := ⟨step⟩

/-- **A put of a buffer that is held**, and a count that does not overflow. -/
def Proper (s : IoBufferPool) : Call → Prop
  | .get _ _ _ => True
  | .count r => ∀ b ∈ s.buffers[r]?, b.count < 2 ^ 31 - 1
  | .put r => ∀ b ∈ s.buffers[r]?, 0 < b.count

/-- **The counts are right.** -/
structure Counted (s : IoBufferPool) : Prop where
  nodup : s.pool.Nodup
  known : ∀ r ∈ s.pool, r < s.buffers.length
  zero : ∀ (r : Nat) (b : IoBuffer), s.buffers[r]? = some b → (r ∈ s.pool ↔ b.count = 0)
  range : ∀ (r : Nat) (b : IoBuffer), s.buffers[r]? = some b → 0 ≤ b.count ∧ b.count < 2 ^ 31

/-! ### What a call does -/

/-- **Everything `GetIoBuffer` can do.** -/
theorem getIoBuffer_cases {s s' : IoBufferPool} {pool : Pool} {size : Int} {choice : Option Nat} {r : Nat}
    (got : s.getIoBuffer pool size choice = some (r, s')) :
    (r = s.buffers.length ∧ s' = { s with buffers := s.buffers ++ [.new pool size] }) ∨
      ∃ b rest, s.buffers[r]? = some b ∧ s.pool.Perm (r :: rest) ∧
        s' = { buffers := s.buffers.set r ((b.alloc pool size).addCount 1), pool := rest } := by
  obtain ⟨⟨v, rest⟩, took, got⟩ := Option.bind_eq_some_iff.mp got
  cases got_of_takeOut took with
  | nothing =>
    cases got
    exact .inl ⟨rfl, rfl⟩
  | object split =>
    obtain ⟨b, at_, got⟩ := Option.bind_eq_some_iff.mp got
    cases got
    exact .inr ⟨b, _, at_, split, rfl⟩

/-- **Everything `PutIoBuffer` can do.** -/
theorem putIoBuffer_cases {s s' : IoBufferPool} {r : Nat} {err : Option GoError} (put : s.putIoBuffer r = some (err, s')) :
    ∃ b, s.buffers[r]? = some b ∧
      ((0 < int32 (b.count - 1) ∧ err = none ∧ s' = { s with buffers := s.buffers.set r (b.addCount (-1)) }) ∨
        (int32 (b.count - 1) < 0 ∧ err = some errDuplicate ∧ s' = { s with buffers := s.buffers.set r (b.addCount (-1)) }) ∨
        (int32 (b.count - 1) = 0 ∧ err = none ∧
          s' = { buffers := s.buffers.set r (b.addCount (-1)).free, pool := s.pool ++ [r] })) := by
  obtain ⟨b, at_, put⟩ := Option.bind_eq_some_iff.mp put
  refine ⟨b, at_, ?_⟩
  simp only [IoBuffer.addCount, ← sub_eq_add_neg, List.set_set] at put ⊢
  split at put
  · next more =>
      cases put
      exact .inl ⟨more, rfl, rfl⟩
  · next none_ =>
      split at put
      · next less =>
          cases put
          exact .inr (.inl ⟨less, rfl, rfl⟩)
      · next nonneg =>
          cases put
          exact .inr (.inr ⟨by omega, rfl, rfl⟩)

/-! ### What is kept -/

theorem Counted.set {s : IoBufferPool} (counted : s.Counted) {r : Nat} {b b' : IoBuffer} {pool : List Nat}
    (at_ : s.buffers[r]? = some b) (nodup : pool.Nodup) (others : ∀ r' ≠ r, r' ∈ pool ↔ r' ∈ s.pool)
    (own : r ∈ pool ↔ b'.count = 0) (range : 0 ≤ b'.count ∧ b'.count < 2 ^ 31) :
    Counted { buffers := s.buffers.set r b', pool } := by
  obtain ⟨bound, -⟩ := List.getElem?_eq_some_iff.mp at_
  refine ⟨nodup, fun r' there => ?_, fun r' c found => ?_, fun r' c found => ?_⟩
  · rw [List.length_set]
    by_cases same : r' = r
    · exact same ▸ bound
    · exact counted.known r' ((others r' same).mp there)
  · rcases getElem?_set_cases found with ⟨rfl, rfl⟩ | ⟨other, found⟩
    · exact own
    · exact (others r' other).trans (counted.zero r' c found)
  · rcases getElem?_set_cases found with ⟨rfl, rfl⟩ | ⟨-, found⟩
    · exact range
    · exact counted.range r' c found

theorem Counted.get {s s' : IoBufferPool} (counted : s.Counted) {pool : Pool} {size : Int} {choice : Option Nat} {r : Nat}
    (got : s.getIoBuffer pool size choice = some (r, s')) : s'.Counted ∧ ∃ b, s'.buffers[r]? = some b ∧ b.count = 1 := by
  have one : int32 1 = 1 := by decide
  rcases getIoBuffer_cases got with ⟨rfl, rfl⟩ | ⟨b, rest, at_, split, rfl⟩
  · have new : s.buffers.length ∉ s.pool := fun there => (counted.known _ there).false
    have fresh : (IoBuffer.new pool size).count = 1 := rfl
    refine ⟨⟨counted.nodup, fun r there => ?_, fun r b found => ?_, fun r b found => ?_⟩, .new pool size, ?_, rfl⟩
    · rw [List.length_append]
      exact Nat.lt_add_right _ (counted.known r there)
    · rcases getElem?_concat_cases found with found | ⟨rfl, rfl⟩
      · exact counted.zero r b found
      · rw [fresh]
        exact ⟨fun there => absurd there new, fun no => absurd no (by decide)⟩
    · rcases getElem?_concat_cases found with found | ⟨rfl, rfl⟩
      · exact counted.range r b found
      · rw [fresh]
        exact ⟨by decide, by decide⟩
    · simp
  · have pooled : r ∈ s.pool := split.mem_iff.mpr List.mem_cons_self
    have zero : b.count = 0 := (counted.zero r b at_).mp pooled
    obtain ⟨absent, nodup⟩ := List.nodup_cons.mp (split.nodup_iff.mp counted.nodup)
    have counts : ((b.alloc pool size).addCount 1).count = 1 := by
      show int32 ((b.alloc pool size).count + 1) = 1
      rw [IoBuffer.count_alloc, zero]
      exact one
    obtain ⟨bound, -⟩ := List.getElem?_eq_some_iff.mp at_
    refine ⟨counted.set at_ nodup (fun r' other => ?_) ?_ ?_, _, List.getElem?_set_self bound, counts⟩
    · rw [split.mem_iff, List.mem_cons, or_iff_right other]
    · rw [counts]
      exact ⟨fun there => absurd there absent, fun no => absurd no (by decide)⟩
    · rw [counts]
      exact ⟨by decide, by decide⟩

theorem Counted.put {s s' : IoBufferPool} (counted : s.Counted) {r : Nat} {err : Option GoError}
    (proper : Proper s (.put r)) (put : s.putIoBuffer r = some (err, s')) : s'.Counted ∧ err = none := by
  obtain ⟨b, at_, cases_⟩ := putIoBuffer_cases put
  have held : 0 < b.count := proper b at_
  obtain ⟨-, high⟩ := counted.range r b at_
  have less : int32 (b.count - 1) = b.count - 1 := int32_of_fits (by omega) (by omega)
  have counts : (b.addCount (-1)).count = b.count - 1 := less
  have absent : r ∉ s.pool := fun there => absurd ((counted.zero r b at_).mp there) (by omega)
  rw [less] at cases_
  rcases cases_ with ⟨more, rfl, rfl⟩ | ⟨no, -⟩ | ⟨none_, rfl, rfl⟩
  · refine ⟨counted.set at_ counted.nodup (fun _ _ => Iff.rfl) ?_ ?_, rfl⟩
    · rw [counts]
      exact ⟨fun there => absurd there absent, fun no => by omega⟩
    · rw [counts]
      omega
  · omega
  · refine ⟨counted.set at_ ?_ (fun r' other => ?_) ?_ ?_, rfl⟩
    · rw [List.nodup_append]
      exact ⟨counted.nodup, List.nodup_singleton r, fun r' there r'' same => by
        rw [List.mem_singleton.mp same]
        exact fun both => absent (both ▸ there)⟩
    · rw [List.mem_append, List.mem_singleton, or_iff_left other]
    · rw [IoBuffer.count_free, counts]
      exact ⟨fun _ => none_, fun _ => List.mem_append_right _ (List.mem_singleton.mpr rfl)⟩
    · rw [IoBuffer.count_free, counts]
      omega

/-- **One call.** -/
theorem step_counted {s s' : IoBufferPool} {call : Call} (counted : s.Counted) (proper : Proper s call)
    (stepped : s.step call = some s') : s'.Counted := by
  cases call with
  | get pool size choice =>
    obtain ⟨⟨r, s''⟩, got, rfl⟩ := Option.map_eq_some_iff.mp stepped
    exact (counted.get got).1
  | put r =>
    obtain ⟨⟨err, s''⟩, put, rfl⟩ := Option.map_eq_some_iff.mp stepped
    exact (counted.put proper put).1
  | count r =>
    obtain ⟨held, stepped⟩ := Option.ite_none_left_eq_some.mp stepped
    obtain ⟨b, at_, rfl⟩ := Option.map_eq_some_iff.mp stepped
    have small : b.count < 2 ^ 31 - 1 := proper b at_
    obtain ⟨low, -⟩ := counted.range r b at_
    have counts : (b.addCount 1).count = b.count + 1 := int32_of_fits (by omega) (by omega)
    refine counted.set at_ counted.nodup (fun _ _ => Iff.rfl) ?_ ?_
    · rw [counts]
      exact ⟨fun there => absurd there held, fun no => by omega⟩
    · rw [counts]
      omega

/-- **Reference counts survive proper use.** In every run of calls that put only buffers that are held and
count in 32 bits, a buffer is in the pool exactly when its count is zero, every buffer handed out has count
one, and no put reports a duplicate. -/
theorem counts_survive {calls : List Call} {s : IoBufferPool} (proper : system.Meets Proper {} calls)
    (ran : system.run {} calls = some s) :
    (∀ (r : Nat) (b : IoBuffer), s.buffers[r]? = some b → (r ∈ s.pool ↔ b.count = 0)) ∧
      (∀ pool size choice r s', s.getIoBuffer pool size choice = some (r, s') →
        ∃ b, s'.buffers[r]? = some b ∧ b.count = 1) ∧
      ∀ r err s', Proper s (.put r) → s.putIoBuffer r = some (err, s') → err = none := by
  have start : Counted {} :=
    ⟨List.nodup_nil, fun r no => (by cases no), fun r b no => (by cases no), fun r b no => (by cases no)⟩
  have counted : s.Counted := System.run_keeps step_counted start proper ran
  exact ⟨counted.zero, fun _ _ _ _ _ got => (counted.get got).2, fun _ _ _ here put => (counted.put here put).2⟩

instance (s : IoBufferPool) : ∀ call, Decidable (Proper s call)
  | .get _ _ _ => isTrue trivial
  | .count r => inferInstanceAs (Decidable (∀ b ∈ s.buffers[r]?, b.count < 2 ^ 31 - 1))
  | .put r => inferInstanceAs (Decidable (∀ b ∈ s.buffers[r]?, 0 < b.count))

/-- A buffer is taken, shared and given back twice. -/
def shared : List Call := [.get .fresh 8 none, .count 0, .put 0, .put 0]

/-- The theorem at a buffer that is shared. -/
theorem counts_survive_shared : system.Meets Proper {} shared ∧ ∃ s, system.run {} shared = some s ∧ s.pool = [0] ∧
      ∀ pool size choice r s', s.getIoBuffer pool size choice = some (r, s') →
        ∃ b, s'.buffers[r]? = some b ∧ b.count = 1 := by
  have proper : system.Meets Proper {} shared := by decide
  obtain ⟨s, ran, pooled⟩ : ∃ s, system.run {} shared = some s ∧ s.pool = [0] := by decide
  exact ⟨proper, s, ran, pooled, (counts_survive proper ran).2.1⟩

/-- **A duplicate put is counted.** It is reported, the count of the buffer in the pool is below zero then, and
the next `GetIoBuffer` hands the buffer out with count zero. -/
theorem duplicate_counted : ∃ s, system.run {} [.get .fresh 8 none, .put 0] = some s ∧
      ∃ s', s.putIoBuffer 0 = some (some errDuplicate, s') ∧ s'.buffers.map IoBuffer.count = [-1] ∧
        s.buffers.map IoBuffer.count = [0] ∧ s'.pool = [0] ∧
        ∃ s'', s'.getIoBuffer .fresh 8 (some 0) = some (0, s'') ∧ s''.buffers.map IoBuffer.count = [0] ∧ s''.pool = [] := by
  exact ⟨_, rfl, _, rfl, by decide, by decide, rfl, _, rfl, by decide, rfl⟩

end IoBufferPool

end Strike
