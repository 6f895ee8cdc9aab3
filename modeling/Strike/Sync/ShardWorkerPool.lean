/-
**The pool of shards.**

`Offer` picks the queue of the job's shard; everything else happens inside one queue. So a run of the
pool moves one queue at a time (`step_shards`), and what holds of a queue holds of every shard.

* `shard_fifo`: in every run of plain offers the jobs of a shard come out in the order of their
  insertion, none is lost and no wake-up is lost.
-/

import Strike.Sync.Queue

namespace Strike.Sync

open Lib

variable {Job : Type}

/-- `ShardJob`: the source, the target shards and the offset of a job among all shards. -/
class ShardJob (Job : Type) where
  source : Job → UInt64 → UInt64 × UInt64 × UInt64

/-- `Shard`. -/
def shard (source numShards offset : UInt64) : UInt64 := if numShards = 0 then 0 else source % numShards + offset

/-- `shardWorkerPool`. -/
structure Pool (Job : Type) where
  shards : List (Queue Job)
  deriving Repr, DecidableEq

/-- `NewShardWorkerPool`. -/
def newPool (numShards : Nat) : Pool Job := ⟨List.replicate numShards {}⟩

namespace Pool

variable [ShardJob Job]

/-- The index `Offer` computes. -/
def shardOf (numShards : Nat) (job : Job) : Nat :=
  let (source, targetShards, offset) := ShardJob.source job (UInt64.ofNat numShards)
  (shard source targetShards offset).toNat

/-- A new job goes to its own shard. -/
def Directed (numShards i : Nat) : Move Job → Prop
  | .insert job _ => shardOf numShards job = i
  | .direct job => shardOf numShards job = i
  | _ => True

instance (numShards i : Nat) : ∀ move : Move Job, Decidable (Directed numShards i move)
  | .insert job _ => inferInstanceAs (Decidable (shardOf numShards job = i))
  | .direct job => inferInstanceAs (Decidable (shardOf numShards job = i))
  | .look => isTrue trivial
  | .signal => isTrue trivial
  | .loop => isTrue trivial
  | .work => isTrue trivial

/-- One move in one shard. An index outside the shards panics in the caller. -/
def step (p : Pool Job) : Nat × Move Job → Option (Pool Job)
  | (i, move) =>
    if Directed p.shards.length i move then
      (p.shards[i]?.bind fun q => q.step move).map fun q => ⟨p.shards.set i q⟩
    else none

/-- The pool as a system. -/
def system : System (Pool Job) (Nat × Move Job) := ⟨step⟩

/-- **A step of the pool is a step of one shard.** -/
theorem step_shards {p p' : Pool Job} {i : Nat} {move : Move Job} (stepped : p.step (i, move) = some p') :
    Directed p.shards.length i move ∧
      ∃ q q', p.shards[i]? = some q ∧ q.step move = some q' ∧ p'.shards = p.shards.set i q' := by
  unfold step at stepped
  dsimp only at stepped
  split at stepped
  · next directed =>
      obtain ⟨q', moved, rfl⟩ := Option.map_eq_some_iff.mp stepped
      obtain ⟨q, here, moved⟩ := Option.bind_eq_some_iff.mp moved
      exact ⟨directed, q, q', here, moved, rfl⟩
  · cases stepped

/-- The shards of a pool: each is sound and holds its own jobs only. -/
structure Sound (numShards : Nat) (p : Pool Job) : Prop where
  length : p.shards.length = numShards
  sound : ∀ (i : Nat) (q : Queue Job), p.shards[i]? = some q → q.Sound
  own : ∀ (i : Nat) (q : Queue Job), p.shards[i]? = some q → ∀ job ∈ q.inserted, shardOf numShards job = i

theorem sound_newPool (numShards : Nat) : (newPool numShards : Pool Job).Sound numShards where
  length := List.length_replicate
  sound := by
    intro i q here
    rw [List.eq_of_mem_replicate (List.mem_of_getElem? here)]
    exact Queue.sound_init
  own := by
    intro i q here job there
    rw [List.eq_of_mem_replicate (List.mem_of_getElem? here)] at there
    cases there

theorem step_keeps {numShards : Nat} {p p' : Pool Job} {act : Nat × Move Job} (sound : p.Sound numShards)
    (plain : Queue.Plain act.2) (stepped : p.step act = some p') : p'.Sound numShards := by
  obtain ⟨i, move⟩ := act
  obtain ⟨directed, q, q', here, moved, shards⟩ := step_shards stepped
  rw [sound.length] at directed
  have split : ∀ j r, p'.shards[j]? = some r → (j = i ∧ r = q') ∨ p.shards[j]? = some r := by
    intro j r found
    rw [shards, List.getElem?_set] at found
    split_ifs at found with same inside
    · exact .inl ⟨same.symm, (Option.some.inj found).symm⟩
    · exact .inr found
  refine ⟨by rw [shards, List.length_set, sound.length], ?_, ?_⟩
  · intro j r found
    rcases split j r found with ⟨rfl, rfl⟩ | old
    · exact Queue.step_sound (sound.sound j q here) plain moved
    · exact sound.sound j r old
  · intro j r found job there
    rcases split j r found with ⟨rfl, rfl⟩ | old
    · rcases Queue.mem_inserted plain moved there with before | rfl
      · exact sound.own j q here job before
      · exact directed
    · exact sound.own j r old job there

end Pool

/-- The system of one queue. -/
def Queue.system : System (Queue Job) (Move Job) := ⟨Queue.step⟩

/-- In runs without new jobs: the insertions stay, and where nothing moves all have come out. -/
theorem Queue.Sound.drains {q q' : Queue Job} {moves : List (Move Job)} (sound : q.Sound)
    (quiet : ∀ move ∈ moves, Queue.Quiet move) (ran : Queue.system.run q moves = some q')
    (still : ∀ move, Queue.Quiet move → q'.step move = none) : q'.out = q.inserted := by
  have kept : q'.Sound ∧ q'.inserted = q.inserted :=
    System.run_keeps (m := Queue.system) (P := fun r => r.Sound ∧ r.inserted = q.inserted)
      (fun holds quiet stepped => ⟨Queue.step_sound holds.1 quiet.plain stepped,
        (Queue.inserted_of_quiet _ quiet stepped).trans holds.2⟩)
      ⟨sound, rfl⟩ (System.meets_of_forall quiet q) ran
  rw [kept.1.out_of_still still, kept.2]

/-- **A shard is a queue.** In every run of a pool in which all offers are neither prioritized nor
blocking, and in every shard: the jobs inserted so far are those that came out, in this order, followed
by those on their way; no wake-up is lost; and without new offers every schedule comes to an end,
at which all of them have come out. -/
theorem shard_fifo [ShardJob Job] {numShards : Nat} {acts : List (Nat × Move Job)} {p : Pool Job}
    (plain : ∀ act ∈ acts, Queue.Plain act.2) (ran : Pool.system.run (newPool numShards) acts = some p)
    {i : Nat} {q : Queue Job} (here : p.shards[i]? = some q) :
    q.inserted = q.out ++ q.onTheWay ∧ (∀ job ∈ q.inserted, Pool.shardOf numShards job = i) ∧
      ¬ q.Lost ∧
      Acc (fun t s => ∃ move, Queue.Quiet move ∧ Queue.step s move = some t) q ∧
      ∀ (moves : List (Move Job)) (q' : Queue Job), (∀ move ∈ moves, Queue.Quiet move) →
        Queue.system.run q moves = some q' → (∀ move, Queue.Quiet move → q'.step move = none) →
        q'.out = q.inserted := by
  have sound : p.Sound numShards :=
    System.run_keeps (m := Pool.system) (fun holds plain stepped => Pool.step_keeps holds plain stepped)
      (Pool.sound_newPool numShards) (System.meets_of_forall plain _) ran
  have queue := sound.sound i q here
  refine ⟨queue.conserved, sound.own i q here, queue.not_lost, ?_, ?_⟩
  · exact System.acc_of_falls (m := Queue.system) Queue.size
      (fun holds quiet stepped => Queue.step_sound holds quiet.plain stepped)
      (fun holds quiet stepped => Queue.size_falls holds quiet stepped) queue
  · intro moves q' quiet ran still
    exact queue.drains quiet ran still

/-- `TestJob` of the package's test. -/
structure TestJob where
  i : UInt64
  deriving Repr, DecidableEq

instance : ShardJob TestJob := ⟨fun job _ => (job.i, 0, 0)⟩

/-- Two jobs are offered, and the first one comes out. -/
def twoOffers : List (Nat × Move TestJob) :=
  [(0, .insert ⟨7⟩ false), (0, .look), (0, .signal), (0, .loop), (0, .insert ⟨8⟩ false), (0, .loop),
    (0, .loop), (0, .loop), (0, .work)]

/-- The theorem at a run that is under way. -/
theorem shard_fifo_twoOffers : ∃ (p : Pool TestJob) (q : Queue TestJob),
    Pool.system.run (newPool 2) twoOffers = some p ∧ p.shards[0]? = some q ∧ q.out = [⟨7⟩] ∧
      q.inserted = q.out ++ q.onTheWay ∧ ¬ q.Lost := by
  let q : Queue TestJob :=
    { list := [], loop := .send [⟨8⟩], checking := 1, inserted := [⟨7⟩, ⟨8⟩], out := [⟨7⟩] }
  have ran : Pool.system.run (newPool 2) twoOffers = some ⟨[q, {}]⟩ := by decide
  have plain : ∀ act ∈ twoOffers, Queue.Plain act.2 := by
    intro act there
    simp only [twoOffers, List.mem_cons, List.not_mem_nil, or_false] at there
    rcases there with rfl | rfl | rfl | rfl | rfl | rfl | rfl | rfl | rfl <;> trivial
  have holds := shard_fifo plain ran (i := 0) rfl
  exact ⟨⟨[q, {}]⟩, q, ran, rfl, rfl, holds.1, holds.2.2.1⟩

end Strike.Sync
