/-
**The I/O buffer is a byte queue.**

`queueMachine` is what the buffer is for: a first-in first-out queue of bytes with the buffer's
operations. `bufMachine` runs the operations of `IoBuffer`; a panic is an output like any other, so
that an output of the queue rules slices out of range out.

* `buf_refines_queue`: from a well-formed buffer every operation answers as the queue does and leaves
  a well-formed buffer with the queue's contents, provided the sum of offset and size does not
  wrap in `Cut` and `Drain` (`NoWrap`).
* `actsAsQueue_of_noWrap`: so does every run from `NewIoBuffer`.
* `drain_wraps`: a `Drain` of `2 ^ 63 - 1` bytes with a byte already read leaves a negative offset.
-/

import Strike.Buffer.Storage
import Strike.Lib.Machine

namespace Strike

open Lib

/-- An operation on an I/O buffer, with the pool its allocations are served from. -/
inductive BufOp where
  | write (pool : Pool) (p : Bytes)
  | writeByte (pool : Pool) (p : UInt8)
  | append (pool : Pool) (data : Bytes)
  | appendByte (pool : Pool) (data : UInt8)
  | readFrom (pool : Pool) (r : Reader)
  | read (n : Nat)
  | readByte
  | peek (n : Nat)
  | cut (n : Nat)
  | drain (n : Nat)
  | writeTo (w : Writer)
  | reset

/-- What an operation returns. -/
inductive BufOut where
  | done
  | count (n : Nat) (err : Option GoError)
  | data (bytes : Bytes) (err : Option GoError)
  | byte (value : UInt8) (err : Option GoError)
  | view (bytes : Option Bytes)
  | sent (taken : Bytes) (n : Nat) (err : Option GoError)
  | panicked (cause : Panic)
  deriving DecidableEq, Repr

/-! ### The queue -/

/-- `WriteTo` on a queue: the writer takes bytes off the front until it reports an error, takes
nothing, or has taken all of what it was offered. -/
def Fifo.writeTo : Writer → Bytes → Except Panic (Bytes × Nat × Option GoError) × Bytes
  | [], q => (.ok ([], 0, none), q)
  | (m, err) :: rest, q =>
    if q = [] then (.ok ([], 0, none), q)
    else if m > q.length then (.error (.error errInvalidWriteCount), q)
    else if err.isSome then (.ok (q.take m, m, err), q.drop m)
    else if m = 0 ∨ m = q.length then (.ok (q.take m, m, none), q.drop m)
    else
      let (result, left) := Fifo.writeTo rest (q.drop m)
      (result.map fun sent => (q.take m ++ sent.1, m + sent.2.1, sent.2.2), left)

/-- What `WriteTo` returned, as an output. -/
def sentOut : Except Panic (Bytes × Nat × Option GoError) → BufOut
  | .ok (taken, n, err) => .sent taken n err
  | .error cause => .panicked cause

/-- **The byte queue.** -/
def queueMachine : Machine Bytes BufOp BufOut where
  step q
    | .write _ p => (.count p.length none, q ++ p)
    | .writeByte _ p => (.done, q ++ [p])
    | .append _ data => (.done, q ++ data)
    | .appendByte _ data => (.done, q ++ [data])
    | .readFrom _ r => (.count r.delivers.1.length r.delivers.2, q ++ r.delivers.1)
    | .read n => (.data (q.take n) (if q = [] ∧ n ≠ 0 then some .eof else none), q.drop n)
    | .readByte => (match q with | [] => .byte 0 (some .eof) | value :: _ => .byte value none, q.drop 1)
    | .peek n => (.view (if n ≤ q.length then some (q.take n) else none), q)
    | .cut n => (.view (if n ≤ q.length then some (q.take n) else none),
        if n ≤ q.length then q.drop n else q)
    | .drain n => (.done, if n ≤ q.length then q.drop n else q)
    | .writeTo w => (sentOut (Fifo.writeTo w q).1, (Fifo.writeTo w q).2)
    | .reset => (.done, [])

/-! ### The buffer as a machine -/

/-- The output of a buffer operation, and the buffer after it. -/
def BufM.observe {α : Type} (out : α → BufOut) (op : BufM α) (b : IoBuffer) : BufOut × IoBuffer :=
  match op b with
  | .ok value b' => (out value, b')
  | .error cause b' => (.panicked cause, b')

/-- What the buffer that `Cut` returned holds. -/
def cutOut : Option IoBuffer → BufOut
  | none => .view none
  | some piece => match piece.bytes with
      | .ok bytes => .view (some bytes)
      | .error cause => .panicked cause

/-- **The operations of `IoBuffer`.** -/
def bufMachine : Machine IoBuffer BufOp BufOut where
  step b
    | .write pool p => (IoBuffer.write pool p).observe (fun n => .count n none) b
    | .writeByte pool p => (IoBuffer.writeByte pool p).observe (fun _ => .done) b
    | .append pool data => (IoBuffer.append pool data).observe (fun _ => .done) b
    | .appendByte pool data => (IoBuffer.appendByte pool data).observe (fun _ => .done) b
    | .readFrom pool r => (IoBuffer.readFrom pool r).observe (fun result => .count result.1 result.2) b
    | .read n => (IoBuffer.read n).observe (fun result => .data result.1 result.2) b
    | .readByte => IoBuffer.readByte.observe (fun result => .byte result.1 result.2) b
    | .peek n => match b.peek n with
        | .ok bytes => (.view bytes, b)
        | .error cause => (.panicked cause, b)
    | .cut n => (IoBuffer.cut n).observe cutOut b
    | .drain n => (.done, b.drain n)
    | .writeTo w => (IoBuffer.writeTo w).observe (fun sent => .sent sent.1 sent.2.1 sent.2.2) b
    | .reset => (.done, b.reset)

/-- The size an operation adds to the offset before it looks at the length. -/
def BufOp.jump : BufOp → Option Nat
  | .cut n => some n
  | .drain n => some n
  | _ => none

/-- The sum of offset and size stays below `2 ^ 63` in `Cut` and `Drain`. -/
def NoWrap (b : IoBuffer) (op : BufOp) : Prop := ∀ n ∈ op.jump, b.off + n < 2 ^ 63

instance (b : IoBuffer) (op : BufOp) : Decidable (NoWrap b op) :=
  inferInstanceAs (Decidable (∀ n ∈ op.jump, b.off + n < 2 ^ 63))

/-- The buffer is well formed and holds the queue. -/
def Holds (b : IoBuffer) (q : Bytes) : Prop := b.WF ∧ b.contents = q

namespace IoBuffer

/-! ### Taking bytes off the front -/

/-- The buffer after `n` of its unread bytes were read. -/
def advance (b : IoBuffer) (n : Nat) : IoBuffer := { b with off := b.off + n }

variable {b : IoBuffer}

theorem advance_wf {n : Nat} (wf : b.WF) (le : n ≤ b.contents.length) : (b.advance n).WF := by
  have nonneg := wf.off_nonneg
  have size := length_contents wf
  rw [len] at size
  refine ⟨?_, ?_⟩
  · show 0 ≤ b.off + n
    omega
  · show b.off + n ≤ b.buf.len
    omega

theorem advance_contents (wf : b.WF) (n : Nat) : (b.advance n).contents = b.contents.drop n := by
  have := wf.off_nonneg
  rw [contents, contents, List.drop_drop]
  show b.buf.val.drop (b.off + n).toNat = _
  congr 1
  omega

theorem read_apply (wf : b.WF) (n : Nat) :
    read n b = if b.contents = [] then .ok ([], if n = 0 then none else some .eof) b.reset
      else .ok (b.contents.take n, none) (b.advance (b.contents.take n).length) := by
  by_cases empty : b.contents = []
  · have drained := (contents_eq_nil_iff wf).mp empty
    rw [if_pos empty]
    simp only [read, BufM.bind_apply, BufM.get_apply, BufM.ite_apply, if_pos drained, BufM.set_apply,
      BufM.pure_apply]
    split <;> rfl
  · have more := fun drained => empty ((contents_eq_nil_iff wf).mpr drained)
    rw [if_neg empty]
    simp only [read, BufM.bind_apply, BufM.get_apply, BufM.ite_apply, if_neg more, bytes_ok wf,
      BufM.lift_ok, BufM.set_apply, BufM.pure_apply]
    rfl

theorem readByte_apply (wf : b.WF) : readByte b = match b.contents with
      | [] => .ok (0, some .eof) b.reset
      | value :: _ => .ok (value, none) (b.advance 1) := by
  cases whole : b.contents with
  | nil =>
    have drained := (contents_eq_nil_iff wf).mp whole
    simp only [readByte, BufM.bind_apply, BufM.get_apply, BufM.ite_apply, if_pos drained,
      BufM.set_apply, BufM.pure_apply]
  | cons value rest =>
    have more : ¬ b.off ≥ b.buf.len := fun drained => by
      rw [(contents_eq_nil_iff wf).mpr drained] at whole
      cases whole
    simp only [readByte, BufM.bind_apply, BufM.get_apply, BufM.ite_apply, if_neg more, bytes_ok wf,
      BufM.lift_ok, BufM.pure_apply, whole, BufM.set_apply]
    rfl

theorem slice_front (wf : b.WF) {n : Nat} (le : n ≤ b.contents.length) :
    b.slice b.off (b.off + n) = .ok (b.contents.take n) := by
  have nonneg := wf.off_nonneg
  have size := length_contents wf
  rw [len] at size
  have stop : (b.off + n).toNat - b.off.toNat = n := by omega
  rw [slice_ok nonneg (by omega) (by omega), List.drop_take, stop, contents]

theorem peek_ok (wf : b.WF) (n : Nat) :
    b.peek n = .ok (if n ≤ b.contents.length then some (b.contents.take n) else none) := by
  have size := length_contents wf
  by_cases inside : n ≤ b.contents.length
  · rw [peek, if_neg (by omega), if_pos inside, slice_front wf inside]
    rfl
  · rw [peek, if_pos (by omega), if_neg inside]

theorem cut_apply (wf : b.WF) {n : Nat} (fits : b.off + n < 2 ^ 63) : cut n b = if n ≤ b.contents.length then
        .ok (some ⟨.ofBytes (b.contents.take n), 0, 0, 0, false, false⟩)
          { b.advance n with offMark := resetOffMark }
      else .ok none b := by
  have nonneg := wf.off_nonneg
  have size := length_contents wf
  rw [len] at size
  have exact64 : int64 (b.off + n) = b.off + n := int64_of_fits (by omega) fits
  by_cases inside : n ≤ b.contents.length
  · simp only [cut, BufM.bind_apply, BufM.get_apply, exact64, BufM.ite_apply,
      if_neg (show ¬ b.off + n > b.buf.len by omega), if_neg (show ¬ b.off + n < b.off by omega),
      slice_front wf inside, BufM.lift_ok, BufM.pure_apply, BufM.set_apply, if_pos inside]
    rfl
  · simp only [cut, BufM.bind_apply, BufM.get_apply, exact64, BufM.ite_apply,
      if_pos (show b.off + n > b.buf.len by omega), BufM.pure_apply, if_neg inside]

theorem drain_apply (wf : b.WF) {n : Nat} (fits : b.off + n < 2 ^ 63) :
    b.drain n = if n ≤ b.contents.length then { b.advance n with offMark := resetOffMark } else b := by
  have nonneg := wf.off_nonneg
  have size := length_contents wf
  rw [len] at size
  have exact64 : int64 (b.off + n) = b.off + n := int64_of_fits (by omega) fits
  by_cases inside : n ≤ b.contents.length
  · rw [drain, exact64, if_neg (by omega), if_pos inside]
    rfl
  · rw [drain, exact64, if_pos (by omega), if_neg inside]

end IoBuffer

/-! ### The refinement -/

theorem Holds.len_lt_iff {b : IoBuffer} {q : Bytes} (holds : Holds b q) : b.off < b.buf.len ↔ q ≠ [] := by
  have drained := IoBuffer.contents_eq_nil_iff holds.1
  rw [holds.2] at drained
  rw [ne_eq, drained]
  omega

/-- Reading bytes off the front of the queue. -/
theorem Holds.advance {b : IoBuffer} {q : Bytes} {n : Nat} (holds : Holds b q) (le : n ≤ q.length) :
    Holds (b.advance n) (q.drop n) := by
  obtain ⟨wf, rfl⟩ := holds
  exact ⟨IoBuffer.advance_wf wf le, IoBuffer.advance_contents wf n⟩

theorem Holds.unmark {b : IoBuffer} {q : Bytes} (holds : Holds b q) :
    Holds { b with offMark := resetOffMark } q := ⟨⟨holds.1.1, holds.1.2⟩, holds.2⟩

theorem Holds.reset (b : IoBuffer) : Holds b.reset [] := ⟨b.reset_wf, b.reset_contents⟩

theorem Holds.lands {b b' : IoBuffer} {q data : Bytes} {motion : IoBuffer.Motion} (holds : Holds b q)
    (lands : motion.Lands b data b') : Holds b' (q ++ data) := by
  obtain ⟨wf, rfl⟩ := holds
  exact lands.grows wf

/-- **`WriteTo` takes what the queue gives.** By induction on the writer's answers: each round that
goes on has taken a part of the queue. -/
theorem writeTo_spec (w : Writer) : ∀ {b : IoBuffer} {q : Bytes}, Holds b q →
      ∃ b', Holds b' (Fifo.writeTo w q).2 ∧ IoBuffer.writeTo w b = match (Fifo.writeTo w q).1 with
        | .ok sent => .ok sent b'
        | .error cause => .error cause b' := by
  induction w with
  | nil => exact fun {b q} holds => ⟨b, holds, rfl⟩
  | cons answer rest ih =>
    obtain ⟨m, err⟩ := answer
    intro b q holds
    have data : b.bytes = .ok q := by rw [IoBuffer.bytes_ok holds.1, holds.2]
    by_cases empty : q = []
    · have stop : ¬ b.off < b.buf.len := fun more => holds.len_lt_iff.mp more empty
      refine ⟨b, ?_, ?_⟩
      · rw [Fifo.writeTo, if_pos empty]
        exact holds
      · simp only [IoBuffer.writeTo, Fifo.writeTo, BufM.bind_apply, BufM.get_apply, BufM.ite_apply,
          if_neg stop, if_pos empty, BufM.pure_apply]
    · have more : b.off < b.buf.len := holds.len_lt_iff.mpr empty
      by_cases wild : m > q.length
      · refine ⟨b, ?_, ?_⟩
        · rw [Fifo.writeTo, if_neg empty, if_pos wild]
          exact holds
        · simp only [IoBuffer.writeTo, Fifo.writeTo, BufM.bind_apply, BufM.get_apply, BufM.ite_apply,
            if_pos more, data, BufM.lift_ok, BufM.pure_apply, if_pos wild, if_neg empty,
            BufM.throw_apply]
      · have taken := holds.advance (n := m) (by omega)
        have sent : ({ b with off := b.off + m } : IoBuffer) = b.advance m := rfl
        by_cases failed : err.isSome
        · refine ⟨b.advance m, ?_, ?_⟩
          · rw [Fifo.writeTo, if_neg empty, if_neg wild, if_pos failed]
            exact taken
          · simp only [IoBuffer.writeTo, Fifo.writeTo, BufM.bind_apply, BufM.get_apply,
              BufM.ite_apply, if_pos more, data, BufM.lift_ok, BufM.pure_apply, if_neg wild,
              if_neg empty, BufM.set_apply, sent, if_pos failed]
        · by_cases last : m = 0 ∨ m = q.length
          · refine ⟨b.advance m, ?_, ?_⟩
            · rw [Fifo.writeTo, if_neg empty, if_neg wild, if_neg failed, if_pos last]
              exact taken
            · simp only [IoBuffer.writeTo, Fifo.writeTo, BufM.bind_apply, BufM.get_apply,
                BufM.ite_apply, if_pos more, data, BufM.lift_ok, BufM.pure_apply, if_neg wild,
                if_neg empty, BufM.set_apply, sent, if_neg failed, if_pos last]
          · obtain ⟨b', holds', run⟩ := ih taken
            refine ⟨b', ?_, ?_⟩
            · rw [Fifo.writeTo, if_neg empty, if_neg wild, if_neg failed, if_neg last]
              exact holds'
            · simp only [IoBuffer.writeTo, Fifo.writeTo, BufM.bind_apply, BufM.get_apply,
                BufM.ite_apply, if_pos more, data, BufM.lift_ok, BufM.pure_apply, if_neg wild,
                if_neg empty, BufM.set_apply, sent, if_neg failed, if_neg last, run]
              cases (Fifo.writeTo rest (q.drop m)).1 <;> rfl

theorem cutOut_some (data : Bytes) : cutOut (some ⟨.ofBytes data, 0, 0, 0, false, false⟩) = .view (some data) := by
  have wf : (⟨.ofBytes data, 0, 0, 0, false, false⟩ : IoBuffer).WF := ⟨le_rfl, Int.natCast_nonneg _⟩
  rw [cutOut, IoBuffer.bytes_ok wf, IoBuffer.contents_of_off_zero rfl, Slice.ofBytes_val]

theorem observe_lands {α : Type} {op : BufM α} {value : α} {b : IoBuffer} {q data : Bytes}
    {motion : IoBuffer.Motion} (out : α → BufOut) (holds : Holds b q)
    (lands : ∃ b', op b = .ok value b' ∧ motion.Lands b data b') :
    (op.observe out b).1 = out value ∧ Holds (op.observe out b).2 (q ++ data) := by
  obtain ⟨b', run, lands⟩ := lands
  rw [BufM.observe, run]
  exact ⟨rfl, holds.lands lands⟩

/-- **One operation**: the buffer answers as the queue does and holds what the queue holds. -/
theorem buf_step {b : IoBuffer} {q : Bytes} {op : BufOp} (holds : Holds b q) (clean : NoWrap b op) :
    (bufMachine.step b op).1 = (queueMachine.step q op).1 ∧
      Holds (bufMachine.step b op).2 (queueMachine.step q op).2 := by
  have wf := holds.1
  have whole := holds.2
  cases op with
  | write pool p => exact observe_lands _ holds (IoBuffer.write_lands pool p wf)
  | writeByte pool p => exact observe_lands _ holds (IoBuffer.writeByte_lands pool p wf)
  | append pool data => exact observe_lands _ holds (IoBuffer.append_lands pool data wf)
  | appendByte pool data => exact observe_lands _ holds (IoBuffer.append_lands pool [data] wf)
  | readFrom pool r => exact observe_lands _ holds (IoBuffer.readFrom_lands pool r wf)
  | read n =>
    simp only [bufMachine, queueMachine, BufM.observe, IoBuffer.read_apply wf n, whole]
    by_cases empty : q = []
    · subst empty
      simp only [if_true, List.take_nil, List.drop_nil, true_and]
      exact ⟨by split <;> simp_all, Holds.reset b⟩
    · have le : (q.take n).length ≤ q.length := List.length_take_le' n q
      simp only [empty, false_and, if_false, true_and]
      have taken := holds.advance le
      rwa [List.length_take, ← List.drop_eq_drop_min, ← List.length_take] at taken
  | readByte =>
    simp only [bufMachine, queueMachine, BufM.observe, IoBuffer.readByte_apply wf, whole]
    cases q with
    | nil => exact ⟨rfl, Holds.reset b⟩
    | cons value rest => exact ⟨rfl, holds.advance (n := 1) (by simp)⟩
  | peek n =>
    simp only [bufMachine, queueMachine, IoBuffer.peek_ok wf, whole]
    exact ⟨trivial, holds⟩
  | cut n =>
    simp only [bufMachine, queueMachine, BufM.observe, IoBuffer.cut_apply wf (clean n rfl), whole]
    by_cases inside : n ≤ q.length
    · simp only [if_pos inside]
      exact ⟨cutOut_some _, (holds.advance inside).unmark⟩
    · simp only [if_neg inside]
      exact ⟨rfl, holds⟩
  | drain n =>
    simp only [bufMachine, queueMachine, IoBuffer.drain_apply wf (clean n rfl), whole]
    refine ⟨trivial, ?_⟩
    by_cases inside : n ≤ q.length
    · simp only [if_pos inside]
      exact (holds.advance inside).unmark
    · simp only [if_neg inside]
      exact holds
  | writeTo w =>
    obtain ⟨b', holds', run⟩ := writeTo_spec w holds
    simp only [bufMachine, queueMachine, BufM.observe, run]
    cases result : (Fifo.writeTo w q).1 <;> exact ⟨rfl, holds'⟩
  | reset => exact ⟨rfl, Holds.reset b⟩

/-- **The buffer refines the queue.** -/
theorem buf_refines_queue : bufMachine.Refines queueMachine Holds NoWrap where
  out holds clean := (buf_step holds clean).1
  next holds clean := (buf_step holds clean).2

theorem Fifo.writeTo_panics (w : Writer) : ∀ {q : Bytes} {cause : Panic}, (Fifo.writeTo w q).1 = .error cause →
      cause = .error errInvalidWriteCount := by
  induction w with
  | nil => exact fun failed => nomatch failed
  | cons answer rest ih =>
    intro q cause failed
    simp only [Fifo.writeTo] at failed
    split_ifs at failed
    · exact (Except.error.inj failed).symm
    · cases inner : (Fifo.writeTo rest (q.drop answer.1)).1 with
      | ok sent =>
        rw [inner] at failed
        exact nomatch failed
      | error cause' =>
        rw [inner] at failed
        exact (Except.error.inj failed) ▸ ih inner

theorem queue_no_runtime_panic (text : String) (ops : List BufOp) :
    ∀ q, BufOut.panicked (.runtime text) ∉ (queueMachine.run q ops).1 := by
  have single : ∀ q op, BufOut.panicked (.runtime text) ≠ (queueMachine.step q op).1 := by
    intro q op same
    cases op with
    | readByte => cases q <;> exact nomatch same
    | writeTo w =>
      simp only [queueMachine] at same
      cases result : (Fifo.writeTo w q).1 with
      | ok sent =>
        rw [result] at same
        exact nomatch same
      | error cause =>
        rw [result, Fifo.writeTo_panics w result] at same
        exact nomatch same
    | _ => exact nomatch same
  induction ops with
  | nil => exact fun _ => List.not_mem_nil
  | cons op ops ih =>
    intro q
    rw [Machine.run_cons]
    exact List.not_mem_cons_of_ne_of_not_mem (single q op) (ih _)

/-- **A buffer acts as a queue** on a run from `NewIoBuffer`: after every initial part of the run
the offsets are in order, `Bytes()` is the queue, the results are the queue's, and nothing was sliced
out of range. -/
def ActsAsQueue (pool : Pool) (capacity : Int) (ops : List BufOp) : Prop :=
  ∀ first, first <+: ops →
    let b := (bufMachine.run (.new pool capacity) first).2
    let outs := (bufMachine.run (.new pool capacity) first).1
    (0 ≤ b.off ∧ b.off ≤ b.buf.len ∧ b.buf.len ≤ b.buf.cap) ∧
      b.bytes = .ok (queueMachine.run [] first).2 ∧ outs = (queueMachine.run [] first).1 ∧
      ∀ text, BufOut.panicked (.runtime text) ∉ outs

theorem new_holds (pool : Pool) (capacity : Int) : Holds (.new pool capacity) [] := ⟨⟨le_rfl, le_rfl⟩, rfl⟩

theorem newBytes_holds (data : Bytes) : Holds (.newBytes data) data :=
  ⟨⟨le_rfl, Int.natCast_nonneg _⟩, (IoBuffer.contents_of_off_zero rfl).trans (Slice.ofBytes_val data)⟩

/-- **Every run in which no sum wraps acts as a queue.** -/
theorem actsAsQueue_of_noWrap (pool : Pool) (capacity : Int) (ops : List BufOp)
    (clean : bufMachine.Admits NoWrap (.new pool capacity) ops) : ActsAsQueue pool capacity ops := by
  rintro first ⟨rest, rfl⟩
  obtain ⟨outs, wf, contents⟩ := buf_refines_queue.run first (new_holds pool capacity) clean.front
  refine ⟨⟨wf.off_nonneg, wf.off_le, Slice.len_le_cap _⟩, ?_, outs, fun text => ?_⟩
  · rw [IoBuffer.bytes_ok wf, contents]
  · rw [outs]
    exact queue_no_runtime_panic text first []

/-- The theorem at a run with reads, a `Cut` past the end and a `Drain`. -/
theorem actsAsQueue_of_noWrap_sample :
    ActsAsQueue .fresh 4 [.write .fresh [1, 2, 3, 4, 5], .readByte, .cut 9, .drain 2, .read 7] :=
  actsAsQueue_of_noWrap .fresh 4 _
    ⟨by decide, by decide, by decide, by decide, by decide, trivial⟩

/-- **A drain that wraps.** One byte was read, so `off + (2 ^ 63 - 1)` wraps to `-2 ^ 63`: the test
for the end passes and the offset becomes negative. -/
theorem drain_wraps : ¬ ActsAsQueue .fresh 0 [.write .fresh [1, 2], .readByte, .drain (2 ^ 63 - 1)] := by
  intro acts
  have nonneg := (acts _ List.prefix_rfl).1.1
  have negative : (bufMachine.run (.new .fresh 0)
      [.write .fresh [1, 2], .readByte, .drain (2 ^ 63 - 1)]).2.off < 0 := by decide
  exact absurd nonneg (not_le.mpr negative)

end Strike
