/-
**Each buffer is a byte queue of its own.**

`Serves` is what a buffer is for, one event at a time: a new buffer holds what it was made with, methods put bytes
in at the end and take them off the front, and `Free` and `Alloc` leave nothing. `serves_of_moves`: a method of a
buffer serves as the queue does, unless it is `Restore`, or a `Cut` or `Drain` past the largest `int`.

* `buffer_is_queue`: so do all buffers of a run, though their arrays pass from one to the other through the pool.
-/

import Strike.Buffer.Fifo
import Strike.Buffer.Isolation

namespace Strike.Shared

open Lib

/-- The method as one of those that a queue has. -/
def Op.asBuf (pool : Pool) : Op → Option BufOp
  | .write p => some (.write pool p)
  | .writeByte p => some (.writeByte pool p)
  | .append data => some (.append pool data)
  | .appendByte data => some (.appendByte pool data)
  | .readFrom reader => some (.readFrom pool reader)
  | .read n => some (.read n)
  | .readByte => some .readByte
  | .peek n => some (.peek n)
  | .drain n => some (.drain n)
  | .writeTo w => some (.writeTo w)
  | .reset => some .reset
  | _ => none

/-- **What a queue answers**, and what it holds then. -/
def Served (q : Bytes) (out : Out) (q' : Bytes) : Op → Prop
  | .cut n => (∃ piece, out = .piece piece ∧
      piece.map IoBuffer.contents = if n ≤ q.length then some (q.take n) else none) ∧
      q' = if n ≤ q.length then q.drop n else q
  | .readOnce _ _ answers => ∃ data rest e, answers.bytes = data ++ rest ∧ out = .plain (.count data.length e) ∧
      q' = q ++ data
  | .mark | .setEOF _ => out = .plain .done ∧ q' = q
  | .count _ => (∃ n, out = .total n) ∧ q' = q
  | .free | .fill _ => out = .plain .done ∧ q' = []
  | op => ∃ call ∈ op.asBuf .fresh, out = .plain (queueMachine.step q call).1 ∧ q' = (queueMachine.step q call).2

/-- What can happen to a queue. -/
def Serves : Option Bytes → Event → Option Bytes → Prop
  | none, .made b, some q => q = b.contents
  | some q, .did _ op out, some q' => Served q out q' op
  | _, _, _ => False

/-- `Restore` is not called, and `Cut` and `Drain` stay below the largest `int`. -/
def Event.plain : Event → Bool
  | .did off (.cut n) _ => off + n < 2 ^ 63
  | .did off (.drain n) _ => off + n < 2 ^ 63
  | .did _ .restore _ => false
  | _ => true

/-- The buffer holds the queue. -/
def Keeping : Option IoBuffer → Option Bytes → Prop
  | none, none => True
  | some b, some q => Holds b q
  | _, _ => False

theorem outcome_observe {α : Type} {op : Op} {pool : Pool} (act : BufM α) (f : α → BufOut)
    (same : body pool op = act >>= fun value => pure (.plain (f value))) (b : IoBuffer) :
    outcome pool op b = (.plain (act.observe f b).1, (act.observe f b).2) := by
  rw [outcome, same, BufM.observe, BufM.bind_apply]
  cases act b <;> rfl

theorem outcome_asBuf {op : Op} {pool : Pool} {call : BufOp} (same : op.asBuf pool = some call) (b : IoBuffer) :
    outcome pool op b = (.plain (bufMachine.step b call).1, (bufMachine.step b call).2) := by
  cases op with
  | write _ | writeByte _ | append _ | appendByte _ | readFrom _ | read _ | readByte | writeTo _ =>
    cases same
    exact outcome_observe _ _ rfl b
  | peek n =>
    cases same
    simp only [outcome, body, bufMachine, BufM.bind_apply, BufM.get_apply]
    cases b.peek n <;> rfl
  | drain n => cases same; rfl
  | reset => cases same; rfl
  | _ => cases same

theorem queue_pool {op : Op} {pool : Pool} {call : BufOp} (same : op.asBuf pool = some call) :
    ∃ call' ∈ op.asBuf .fresh, ∀ q, queueMachine.step q call' = queueMachine.step q call := by
  cases op <;> cases same <;> exact ⟨_, rfl, fun q => rfl⟩

section Served

variable {b b' : IoBuffer} {q : Bytes} {out : Out} {pool : Pool}

theorem served_asBuf {op : Op} {call : BufOp} (holds : Holds b q) (same : op.asBuf pool = some call) (clean : NoWrap b call)
    (moved : outcome pool op b = (out, b')) :
    ∃ q', (∃ call ∈ op.asBuf .fresh, out = .plain (queueMachine.step q call).1 ∧ q' = (queueMachine.step q call).2) ∧
      Holds b' q' := by
  obtain ⟨answers, holds'⟩ := buf_step holds clean
  obtain ⟨call', same', steps⟩ := queue_pool same
  rw [outcome_asBuf same b, Prod.mk.injEq] at moved
  obtain ⟨rfl, rfl⟩ := moved
  exact ⟨_, ⟨call', same', by rw [steps, answers], rfl⟩, by rwa [steps]⟩

theorem served_cut {n : Nat} (holds : Holds b q) (clean : b.off + n < 2 ^ 63) (moved : outcome pool (.cut n) b = (out, b')) :
    ∃ q', Served q out q' (.cut n) ∧ Holds b' q' := by
  rw [← holds.2]
  simp only [outcome, body, BufM.bind_apply, IoBuffer.cut_apply holds.1 clean] at moved
  by_cases inside : n ≤ b.contents.length
  · rw [if_pos inside] at moved
    cases moved
    have piece : (⟨.ofBytes (b.contents.take n), 0, 0, 0, false, false⟩ : IoBuffer).contents = b.contents.take n :=
      (IoBuffer.contents_of_off_zero rfl).trans (Slice.ofBytes_val _)
    refine ⟨_, ⟨⟨_, rfl, ?_⟩, rfl⟩, ?_⟩
    · rw [if_pos inside, Option.map_some, piece]
    · rw [if_pos inside]
      exact (Holds.advance ⟨holds.1, rfl⟩ inside).unmark
  · rw [if_neg inside] at moved
    cases moved
    refine ⟨_, ⟨⟨none, rfl, ?_⟩, rfl⟩, ?_⟩
    · rw [if_neg inside, Option.map_none]
    · rw [if_neg inside]
      exact ⟨holds.1, rfl⟩

theorem served_readOnce {last : GoError} {conn : Bool} {answers : Answers GoError} (holds : Holds b q)
    (moved : outcome pool (.readOnce last conn answers) b = (out, b')) :
    ∃ q', Served q out q' (.readOnce last conn answers) ∧ Holds b' q' := by
  obtain ⟨b'', data, e, rest, ran, holds', split⟩ := IoBuffer.readOnce_holds pool last conn answers holds
  simp only [outcome, body, BufM.bind_apply, ran] at moved
  cases moved
  exact ⟨_, ⟨data, rest.bytes, e, split, rfl, rfl⟩, holds'⟩

theorem holds_free (b : IoBuffer) : Holds b.free [] := by
  rw [IoBuffer.free, IoBuffer.giveSlice]
  split
  · exact ⟨⟨le_rfl, le_rfl⟩, rfl⟩
  · exact Holds.reset b

/-- **A method of a buffer serves as the queue does.** -/
theorem served {op : Op} (holds : Holds b q) (plain : Event.plain (.did b.off op out)) (fits : op.Fits b)
    (moved : outcome pool op b = (out, b')) : ∃ q', Served q out q' op ∧ Holds b' q' := by
  cases op with
  | cut n => exact served_cut holds (of_decide_eq_true plain) moved
  | drain n =>
    refine served_asBuf holds rfl (fun k same => ?_) moved
    cases same
    exact of_decide_eq_true plain
  | readOnce last conn answers => exact served_readOnce holds moved
  | mark => cases moved; exact ⟨q, ⟨rfl, rfl⟩, ⟨holds.1.1, holds.1.2⟩, holds.2⟩
  | setEOF eof => cases moved; exact ⟨q, ⟨rfl, rfl⟩, ⟨holds.1.1, holds.1.2⟩, holds.2⟩
  | count n => cases moved; exact ⟨q, ⟨⟨_, rfl⟩, rfl⟩, ⟨holds.1.1, holds.1.2⟩, holds.2⟩
  | restore => cases plain
  | free => cases moved; exact ⟨[], ⟨rfl, rfl⟩, holds_free b⟩
  | fill size =>
    cases moved
    have start : b.off = 0 := by
      have nonneg := holds.1.off_nonneg
      have le := holds.1.off_le
      have short := b.buf.len_le_cap
      rcases fits with start | empty
      · exact start
      · omega
    refine ⟨[], ⟨rfl, rfl⟩, ⟨start.ge, start.le⟩, ?_⟩
    exact IoBuffer.contents_of_off_zero (b := { b with buf := (pool.getBytes (sized size)).truncate, pooled := true }) start
  | _ => exact served_asBuf holds rfl (fun k no => by cases no) moved

end Served

theorem serves_of_moves {v v' : Option IoBuffer} {event : Event} {q : Option Bytes} (keeping : Keeping v q)
    (plain : event.plain) (move : Moves v event v') : ∃ q', Serves q event q' ∧ Keeping v' q' := by
  cases v with
  | none =>
    cases q with
    | some q => exact keeping.elim
    | none =>
      cases event with
      | did off op out => cases v' <;> exact move.elim
      | made b =>
        cases v' with
        | none => exact move.elim
        | some b' =>
          obtain ⟨rfl, start⟩ := move
          exact ⟨some b'.contents, rfl, ⟨start.ge, start ▸ Int.natCast_nonneg _⟩, rfl⟩
  | some b =>
    cases q with
    | none => exact keeping.elim
    | some q =>
      cases event with
      | made b => cases v' <;> exact move.elim
      | did off op out =>
        cases v' with
        | none => exact move.elim
        | some b' =>
          obtain ⟨rfl, fits, pool, moved⟩ := move
          obtain ⟨q', answered, holds⟩ := served keeping plain fits moved
          exact ⟨some q', answered, holds⟩

/-- **Each buffer is a byte queue of its own.** In every run, whatever is done to other buffers and to the pools,
and also after it was in the pool: what a buffer was asked and answered is a history of a queue, which is empty
again after `Free` and `Alloc`, and `Bytes` returns what that queue holds. -/
theorem buffer_is_queue {m : Memory} {labels : List Label} (ran : system.run {} labels = some m)
    (r : Nat) (plain : ∀ event ∈ own r m.log, event.plain) :
    ∃ q, Follows Serves none (own r m.log) q ∧
      ∀ b, m.view r = some b → ∃ data, q = some data ∧ b.bytes = .ok data := by
  obtain ⟨q, follows, keeping⟩ := Follows.refines (R := Keeping) serves_of_moves
    ((run_keeps_isolated ran).tells r) (a := none) trivial plain
  refine ⟨q, follows, fun b seen => ?_⟩
  rw [seen] at keeping
  cases q with
  | none => exact keeping.elim
  | some data => exact ⟨data, rfl, by rw [IoBuffer.bytes_ok keeping.1, keeping.2]⟩

theorem buffer_is_queue_reuse : ∃ m, system.run {} reuse = some m ∧ (own 0 m.log).all Event.plain ∧
    ∃ q, Follows Serves none (own 0 m.log) q := by
  have plain : ((system.run {} reuse).map fun m => (own 0 m.log).all Event.plain) = some true := by decide +kernel
  obtain ⟨m, ran, plain⟩ := Option.map_eq_some_iff.mp plain
  obtain ⟨q, follows, -⟩ := buffer_is_queue ran 0 (List.all_eq_true.mp plain)
  exact ⟨m, ran, plain, q, follows⟩

end Strike.Shared
