/-
**Reading programs on the I/O buffer.**

The decoders see the buffer through the interface `buffer.IoBuffer`. `IoBuffer` is one
implementation of it, and while it is only read it behaves as a `MarkedQueue`: `Marked b q` says that
`b` holds the unread bytes of `q` and, if the mark is set, the bytes read since.

* `reading_simulation`: every reading program behaves alike on both.
-/

import Strike.Buffer.Fifo
import Strike.Lib.ReadProg

namespace Strike

open Lib

instance : ReadBuffer IoBuffer where
  len := IoBuffer.len
  read := IoBuffer.read
  readByte := IoBuffer.readByte
  mark := IoBuffer.mark
  restore := IoBuffer.restore

/-- The buffer holds the unread bytes of the queue. -/
def SameRest (b : IoBuffer) (q : MarkedQueue) : Prop := Holds b q.rest

/-- The buffer holds the unread bytes of the queue, and behind its mark those read since. -/
structure Marked (b : IoBuffer) (q : MarkedQueue) : Prop where
  holds : Holds b q.rest
  undo : match q.undo with
    | none => b.offMark = resetOffMark
    | some bytes => 0 ≤ b.offMark ∧ b.offMark ≤ b.off ∧
        b.buf.val.drop b.offMark.toNat = bytes ++ q.rest

theorem Marked.advance {b : IoBuffer} {q : MarkedQueue} {k : Nat} (marked : Marked b q)
    (le : k ≤ q.rest.length) : Marked (b.advance k) (q.advance k) := by
  obtain ⟨holds, undo⟩ := marked
  refine ⟨holds.advance le, ?_⟩
  obtain ⟨rest, _ | bytes⟩ := q
  · exact undo
  · obtain ⟨nonneg, passed, stored⟩ := undo
    refine ⟨nonneg, ?_, ?_⟩
    · show b.offMark ≤ b.off + k
      omega
    · show b.buf.val.drop b.offMark.toNat = bytes ++ rest.take k ++ rest.drop k
      rw [stored, List.append_assoc, List.take_append_drop]

theorem Marked.reset (b : IoBuffer) : Marked b.reset .drained := ⟨Holds.reset b, rfl⟩

theorem Marked.mark {b : IoBuffer} {q : MarkedQueue} (holds : SameRest b q) : Marked b.mark ⟨q.rest, some []⟩ :=
  ⟨⟨⟨holds.1.1, holds.1.2⟩, holds.2⟩, holds.1.1, le_rfl, holds.2⟩

theorem Marked.restore {b : IoBuffer} {q : MarkedQueue} (marked : Marked b q) :
    SameRest b.restore (ReadBuffer.restore q) := by
  obtain ⟨holds, undo⟩ := marked
  obtain ⟨rest, _ | bytes⟩ := q
  · rw [IoBuffer.restore, if_neg (not_not.mpr undo)]
    exact holds
  · obtain ⟨nonneg, passed, stored⟩ := undo
    have set : b.offMark ≠ resetOffMark := by
      show b.offMark ≠ -1
      omega
    rw [IoBuffer.restore, if_pos set]
    exact ⟨⟨nonneg, passed.trans holds.1.2⟩, stored⟩

/-- **A buffer that is read is a marked queue.** -/
theorem reading_simulation : Simulation SameRest Marked where
  len := fun holds => by
    show IoBuffer.len _ = (_ : Int)
    rw [← IoBuffer.length_contents holds.1, holds.2]
    rfl
  read := fun {b q} n marked => by
    show SameResult Marked (IoBuffer.read n b) _
    rw [IoBuffer.read_apply marked.holds.1, MarkedQueue.read_eq, marked.holds.2]
    by_cases empty : q.rest = []
    · rw [if_pos empty, if_pos empty]
      exact ⟨rfl, .reset b⟩
    · rw [if_neg empty, if_neg empty]
      refine ⟨rfl, ?_⟩
      have le : (q.rest.take n).length ≤ q.rest.length := List.length_take_le' n q.rest
      have taken := marked.advance le
      have whole : q.advance (q.rest.take n).length = q.advance n := by
        rw [MarkedQueue.advance, MarkedQueue.advance, List.length_take, ← List.drop_eq_drop_min,
          ← List.take_eq_take_min]
      rwa [whole] at taken
  readByte := fun {b q} marked => by
    show SameResult Marked (IoBuffer.readByte b) _
    rw [IoBuffer.readByte_apply marked.holds.1, marked.holds.2]
    obtain ⟨rest, undo⟩ := q
    cases rest with
    | nil => exact ⟨rfl, .reset b⟩
    | cons value rest => exact ⟨rfl, marked.advance (k := 1) (by simp)⟩
  mark := fun holds => Marked.mark holds
  restore := fun marked => marked.restore
  forget := fun marked => marked.holds

end Strike
