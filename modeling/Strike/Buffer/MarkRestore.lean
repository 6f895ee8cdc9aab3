/-
**Mark and Restore.**

Between `Mark` and `Restore` a buffer is read and written (`SpanOp`). What `Restore` would bring back
is `restorable`: the stored bytes from the mark on, or the unread bytes once the mark is gone.

* `SpanOp.effect`: each operation reads on, starts a drained buffer over, or lands bytes.
* `Effect.Harmless`: reading is harmless while the mark is set, a reset when there is nothing between
  the mark and the end, a move when nothing was read.
* `restore_undoes_iff`: `Restore` brings back the bytes present at `Mark` and all bytes written since
  exactly when every operation in between was harmless.
-/

import Strike.Buffer.Fifo

namespace Strike

open Lib

/-- An operation between `Mark` and `Restore`. -/
inductive SpanOp where
  | read (n : Nat)
  | readByte
  | write (pool : Pool) (p : Bytes)
  | writeByte (pool : Pool) (p : UInt8)
  | append (pool : Pool) (data : Bytes)
  | readFrom (pool : Pool) (r : Reader)

namespace SpanOp

/-- The operation among all operations of the buffer. -/
def toBufOp : SpanOp → BufOp
  | .read n => .read n
  | .readByte => .readByte
  | .write pool p => .write pool p
  | .writeByte pool p => .writeByte pool p
  | .append pool data => .append pool data
  | .readFrom pool r => .readFrom pool r

/-- The bytes an operation writes. -/
def written : SpanOp → Bytes
  | .read _ => []
  | .readByte => []
  | .write _ p => p
  | .writeByte _ p => [p]
  | .append _ data => data
  | .readFrom _ r => r.delivers.1

end SpanOp

/-- The buffer between `Mark` and `Restore`. -/
def spanMachine : Machine IoBuffer SpanOp BufOut where
  step b op := bufMachine.step b op.toBufOp

/-- The bytes `Restore` should bring back. -/
def expectMachine : Machine Bytes SpanOp Unit where
  step expected op := ((), expected ++ op.written)

theorem expectMachine_run (ops : List SpanOp) :
    ∀ expected, (expectMachine.run expected ops).2 = expected ++ ops.flatMap SpanOp.written := by
  induction ops with
  | nil => exact fun expected => (List.append_nil expected).symm
  | cons op ops ih =>
    intro expected
    rw [Machine.run_cons, List.flatMap_cons, ← List.append_assoc]
    exact ih _

/-! ### What one operation does -/

/-- What an operation does to the storage and the offsets. -/
inductive Effect where
  | reads (count : Nat)
  | clears
  | lands (motion : IoBuffer.Motion)
  deriving DecidableEq, Repr

/-- The buffer before and after, with the bytes written. -/
def Effect.Happens (b : IoBuffer) (data : Bytes) (b' : IoBuffer) : Effect → Prop
  | .reads count => data = [] ∧ count ≤ b.contents.length ∧ b' = b.advance count
  | .clears => data = [] ∧ b.contents = [] ∧ b' = b.reset
  | .lands motion =>
    motion.Lands b data b' ∧ (motion = .moved → b.contents ≠ [] ∨ data ≠ [])

/-- What an operation does, from the buffer before it. -/
def SpanOp.effect (b : IoBuffer) : SpanOp → Effect
  | .read n => if b.off ≥ b.buf.len then .clears else .reads (b.contents.take n).length
  | .readByte => if b.off ≥ b.buf.len then .clears else .reads 1
  | .write _ p => .lands (b.writeMotion p.length)
  | .writeByte _ _ => .lands (b.writeMotion 1)
  | .append _ data => .lands (b.appendMotion data.length)
  | .readFrom _ r => .lands (b.readFromMotion r)

variable {b : IoBuffer} {data : Bytes}

theorem writeMotion_moved (moved : b.writeMotion data.length = .moved) : b.contents ≠ [] ∨ data ≠ [] := by
  refine .inr fun empty => ?_
  subst empty
  rw [IoBuffer.writeMotion, List.length_nil, Nat.add_zero, if_pos b.buf.len_le_cap] at moved
  cases moved

theorem moved_of_unread (wf : b.WF) {tight : Prop} [Decidable tight]
    (moved : (if b.off ≥ b.buf.len then IoBuffer.Motion.reset
      else if tight then .moved else .kept) = .moved) : b.contents ≠ [] ∨ data ≠ [] := by
  refine .inl fun empty => ?_
  rw [if_pos ((IoBuffer.contents_eq_nil_iff wf).mp empty)] at moved
  cases moved

theorem observe_effect {α : Type} {op : BufM α} {value : α} {motion : IoBuffer.Motion} (out : α → BufOut)
    (lands : ∃ b', op b = .ok value b' ∧ motion.Lands b data b')
    (filled : motion = .moved → b.contents ≠ [] ∨ data ≠ []) :
    (Effect.lands motion).Happens b data (op.observe out b).2 := by
  obtain ⟨b', run, lands⟩ := lands
  rw [BufM.observe, run]
  exact ⟨lands, filled⟩

/-- **Every operation has its effect.** -/
theorem span_happens (wf : b.WF) (op : SpanOp) : (op.effect b).Happens b op.written (spanMachine.step b op).2 := by
  have drained := IoBuffer.contents_eq_nil_iff wf
  cases op with
  | read n =>
    simp only [spanMachine, SpanOp.toBufOp, bufMachine, BufM.observe, IoBuffer.read_apply wf n,
      SpanOp.effect, drained]
    by_cases stop : b.off ≥ b.buf.len
    · simp only [if_pos stop]
      exact ⟨rfl, drained.mpr stop, rfl⟩
    · simp only [if_neg stop]
      exact ⟨rfl, List.length_take_le' n _, rfl⟩
  | readByte =>
    simp only [spanMachine, SpanOp.toBufOp, bufMachine, BufM.observe, IoBuffer.readByte_apply wf,
      SpanOp.effect, ← drained]
    cases whole : b.contents with
    | nil => exact ⟨rfl, whole, rfl⟩
    | cons value rest =>
      simp only [reduceCtorEq, if_false]
      exact ⟨rfl, by rw [whole]; simp, rfl⟩
  | write pool p => exact observe_effect _ (IoBuffer.write_lands pool p wf) writeMotion_moved
  | writeByte pool p =>
    exact observe_effect _ (IoBuffer.writeByte_lands pool p wf) fun _ => .inr (List.cons_ne_nil _ _)
  | append pool data => exact observe_effect _ (IoBuffer.append_lands pool data wf) (moved_of_unread wf)
  | readFrom pool r => exact observe_effect _ (IoBuffer.readFrom_lands pool r wf) (moved_of_unread wf)

/-! ### What `Restore` would bring back -/

/-- The stored bytes from the mark on; without a mark, the unread bytes. -/
def IoBuffer.restorable (b : IoBuffer) : Bytes :=
  if b.offMark = resetOffMark then b.contents else b.buf.val.drop b.offMark.toNat

/-- There are bytes between the mark and the end that a reset would lose. -/
def IoBuffer.Loses (b : IoBuffer) : Prop := b.offMark ≠ resetOffMark ∧ b.offMark < b.buf.len

instance (b : IoBuffer) : Decidable b.Loses :=
  inferInstanceAs (Decidable (b.offMark ≠ resetOffMark ∧ b.offMark < b.buf.len))

/-- **The effect keeps what `Restore` would bring back.** -/
def Effect.Harmless (b : IoBuffer) : Effect → Prop
  | .reads count => b.offMark ≠ resetOffMark ∨ count = 0
  | .clears => ¬ b.Loses
  | .lands .kept => True
  | .lands .moved => b.offMark = resetOffMark ∨ b.off = 0
  | .lands .reset => ¬ b.Loses

instance (b : IoBuffer) : (effect : Effect) → Decidable (effect.Harmless b)
  | .reads count => inferInstanceAs (Decidable (b.offMark ≠ resetOffMark ∨ count = 0))
  | .clears => inferInstanceAs (Decidable ¬ b.Loses)
  | .lands .kept => .isTrue trivial
  | .lands .moved => inferInstanceAs (Decidable (b.offMark = resetOffMark ∨ b.off = 0))
  | .lands .reset => inferInstanceAs (Decidable ¬ b.Loses)

/-- **Operations that keep what `Restore` would bring back.** -/
def Harmless (b : IoBuffer) (op : SpanOp) : Prop := (op.effect b).Harmless b

instance (b : IoBuffer) (op : SpanOp) : Decidable (Harmless b op) :=
  inferInstanceAs (Decidable ((op.effect b).Harmless b))

/-- The mark is gone, or it is an offset already passed. -/
def IoBuffer.MarkBehind (b : IoBuffer) : Prop := b.offMark = resetOffMark ∨ 0 ≤ b.offMark ∧ b.offMark ≤ b.off

/-- `Restore` would bring back what it should. -/
structure Recalls (b : IoBuffer) (expected : Bytes) : Prop where
  wf : b.WF
  behind : b.MarkBehind
  same : b.restorable = expected

/-- `Restore` cannot bring back what it should: there is too little of it left. -/
structure Forgot (b : IoBuffer) (expected : Bytes) : Prop where
  wf : b.WF
  mark : b.offMark = resetOffMark ∨ 0 ≤ b.offMark
  short : b.restorable.length < expected.length

namespace IoBuffer

theorem restorable_unmarked (gone : b.offMark = resetOffMark) : b.restorable = b.contents := if_pos gone

theorem restorable_marked (set : b.offMark ≠ resetOffMark) :
    b.restorable = b.buf.val.drop b.offMark.toNat := if_neg set

theorem restorable_advance (wf : b.WF) (count : Nat) : (b.advance count).restorable =
      if b.offMark = resetOffMark then b.restorable.drop count else b.restorable := by
  by_cases gone : b.offMark = resetOffMark
  · rw [if_pos gone, restorable_unmarked gone, restorable_unmarked (b := b.advance count) gone,
      advance_contents wf]
  · rw [if_neg gone, restorable_marked gone, restorable_marked (b := b.advance count) gone]
    rfl

theorem restorable_of_not_loses (empty : b.contents = []) (safe : ¬ b.Loses) : b.restorable = [] := by
  by_cases gone : b.offMark = resetOffMark
  · rw [restorable_unmarked gone, empty]
  · have beyond : b.buf.len ≤ b.offMark.toNat := by
      have : ¬ b.offMark < b.buf.len := fun inside => safe ⟨gone, inside⟩
      omega
    rw [restorable_marked gone]
    exact List.drop_eq_nil_of_le (by rw [Slice.length_val]; exact beyond)

theorem length_restorable_marked (set : b.offMark ≠ resetOffMark) :
    b.restorable.length = b.buf.len - b.offMark.toNat := by
  rw [restorable_marked set, List.length_drop, Slice.length_val]

/-- There is never more to restore than there was, and the bytes written. -/
theorem Motion.Lands.length_restorable {motion : Motion} {b b' : IoBuffer} (wf : b.WF)
    (lands : motion.Lands b data b') : b'.restorable.length ≤ b.restorable.length + data.length := by
  have grown := (lands.grows wf).2
  have unread := length_contents_eq b
  cases motion with
  | kept =>
    obtain ⟨val, -, offMark⟩ := lands
    by_cases gone : b.offMark = resetOffMark
    · rw [restorable_unmarked gone, restorable_unmarked (offMark.trans gone), grown,
        List.length_append]
    · rw [restorable_marked gone, restorable_marked (offMark ▸ gone), offMark, val]
      simp only [List.length_drop, List.length_append]
      omega
  | moved =>
    obtain ⟨val, -, offMark⟩ := lands
    by_cases gone : b.offMark = resetOffMark
    · rw [restorable_unmarked gone, restorable_unmarked (offMark.trans gone), grown,
        List.length_append]
    · rw [restorable_marked gone, restorable_marked (offMark ▸ gone), offMark, val]
      simp only [List.length_drop, List.length_append, Slice.length_val]
      omega
  | reset =>
    obtain ⟨empty, val, off, offMark⟩ := lands
    rw [restorable_unmarked offMark, contents_of_off_zero off, val]
    omega

end IoBuffer

variable {expected data : Bytes}

/-- **Harmless effects keep what is expected.** -/
theorem Recalls.step {b b' : IoBuffer} {effect : Effect}
    (recalls : Recalls b expected) (happens : effect.Happens b data b') (harmless : effect.Harmless b) :
    Recalls b' (expected ++ data) := by
  obtain ⟨wf, behind, same⟩ := recalls
  have nonneg := wf.off_nonneg
  have le := wf.off_le
  cases effect with
  | reads count =>
    obtain ⟨rfl, inside, rfl⟩ := happens
    refine ⟨IoBuffer.advance_wf wf inside, ?_, ?_⟩
    · refine behind.imp id fun ⟨low, high⟩ => ⟨low, ?_⟩
      show b.offMark ≤ b.off + count
      omega
    · rw [List.append_nil, ← same, IoBuffer.restorable_advance wf]
      rcases harmless with set | rfl
      · rw [if_neg set]
      · rw [List.drop_zero, ite_self]
  | clears =>
    obtain ⟨rfl, empty, rfl⟩ := happens
    refine ⟨b.reset_wf, .inl rfl, ?_⟩
    rw [List.append_nil, ← same, IoBuffer.restorable_of_not_loses empty harmless]
    rfl
  | lands motion =>
    obtain ⟨lands, -⟩ := happens
    obtain ⟨wf', grown⟩ := lands.grows wf
    subst same
    cases motion with
    | kept =>
      obtain ⟨val, off, offMark⟩ := lands
      refine ⟨wf', by rwa [IoBuffer.MarkBehind, offMark, off], ?_⟩
      by_cases gone : b.offMark = resetOffMark
      · rw [IoBuffer.restorable_unmarked gone, IoBuffer.restorable_unmarked (offMark.trans gone),
          grown]
      · have inside : b.offMark.toNat ≤ b.buf.val.length := by
          have := behind.resolve_left gone
          rw [Slice.length_val]
          omega
        rw [IoBuffer.restorable_marked gone, IoBuffer.restorable_marked (offMark ▸ gone), offMark,
          val, List.drop_append_of_le_length inside]
    | moved =>
      obtain ⟨val, off, offMark⟩ := lands
      by_cases gone : b.offMark = resetOffMark
      · refine ⟨wf', .inl (offMark.trans gone), ?_⟩
        rw [IoBuffer.restorable_unmarked gone, IoBuffer.restorable_unmarked (offMark.trans gone),
          grown]
      · -- Nothing was read, so the mark is at the front and stays there.
        have start : b.off = 0 := harmless.resolve_left gone
        have front : b.offMark = 0 := by
          have := behind.resolve_left gone
          omega
        refine ⟨wf', .inr ⟨by omega, by omega⟩, ?_⟩
        rw [IoBuffer.restorable_marked gone, IoBuffer.restorable_marked (offMark ▸ gone), offMark,
          front, val, IoBuffer.contents_of_off_zero start]
        rfl
    | reset =>
      obtain ⟨empty, val, off, offMark⟩ := lands
      refine ⟨wf', .inl offMark, ?_⟩
      rw [IoBuffer.restorable_of_not_loses empty harmless, IoBuffer.restorable_unmarked offMark,
        grown, empty]

/-- **Any other effect loses something.** -/
theorem Recalls.broken {b b' : IoBuffer} {effect : Effect}
    (recalls : Recalls b expected) (happens : effect.Happens b data b')
    (harm : ¬ effect.Harmless b) : Forgot b' (expected ++ data) := by
  obtain ⟨wf, behind, rfl⟩ := recalls
  have nonneg := wf.off_nonneg
  have le := wf.off_le
  have unread := IoBuffer.length_contents_eq b
  cases effect with
  | reads count =>
    obtain ⟨rfl, inside, rfl⟩ := happens
    obtain ⟨gone, positive⟩ := not_or.mp harm
    rw [not_not] at gone
    refine ⟨IoBuffer.advance_wf wf inside, .inl gone, ?_⟩
    rw [List.append_nil, IoBuffer.restorable_advance wf, if_pos gone,
      IoBuffer.restorable_unmarked gone, List.length_drop]
    omega
  | clears =>
    obtain ⟨rfl, empty, rfl⟩ := happens
    obtain ⟨set, inside⟩ := not_not.mp harm
    obtain ⟨low, high⟩ := behind.resolve_left set
    refine ⟨b.reset_wf, .inl rfl, ?_⟩
    rw [List.append_nil, IoBuffer.length_restorable_marked set]
    show 0 < _
    omega
  | lands motion =>
    obtain ⟨lands, filled⟩ := happens
    obtain ⟨wf', grown⟩ := lands.grows wf
    cases motion with
    | kept => exact absurd trivial harm
    | moved =>
      obtain ⟨val, off, offMark⟩ := lands
      obtain ⟨set, read⟩ := not_or.mp harm
      obtain ⟨low, high⟩ := behind.resolve_left set
      refine ⟨wf', .inr (by omega), ?_⟩
      have more : 0 < b.contents.length + data.length := by
        rcases filled rfl with more | more
        · exact Nat.add_pos_left (List.length_pos_iff.mpr more) _
        · exact Nat.add_pos_right _ (List.length_pos_iff.mpr more)
      rw [List.length_append, IoBuffer.length_restorable_marked set,
        IoBuffer.restorable_marked (offMark ▸ set), offMark, val, List.length_drop,
        List.length_append]
      omega
    | reset =>
      obtain ⟨empty, val, off, offMark⟩ := lands
      obtain ⟨set, inside⟩ := not_not.mp harm
      obtain ⟨low, high⟩ := behind.resolve_left set
      refine ⟨wf', .inl offMark, ?_⟩
      rw [List.length_append, IoBuffer.length_restorable_marked set,
        IoBuffer.restorable_unmarked offMark, IoBuffer.contents_of_off_zero off, val]
      omega

/-- **What is lost stays lost.** -/
theorem Forgot.step {b b' : IoBuffer} {effect : Effect}
    (forgot : Forgot b expected) (happens : effect.Happens b data b') : Forgot b' (expected ++ data) := by
  obtain ⟨wf, mark, short⟩ := forgot
  cases effect with
  | reads count =>
    obtain ⟨rfl, inside, rfl⟩ := happens
    refine ⟨IoBuffer.advance_wf wf inside, mark, ?_⟩
    rw [List.append_nil, IoBuffer.restorable_advance wf]
    split
    · rw [List.length_drop]
      omega
    · exact short
  | clears =>
    obtain ⟨rfl, -, rfl⟩ := happens
    refine ⟨b.reset_wf, .inl rfl, ?_⟩
    rw [List.append_nil]
    show 0 < _
    omega
  | lands motion =>
    obtain ⟨lands, -⟩ := happens
    refine ⟨(lands.grows wf).1, ?_, ?_⟩
    · cases motion with
      | kept => rwa [lands.2.2]
      | moved => rwa [lands.2.2]
      | reset => exact .inl lands.2.2.2
    · have := lands.length_restorable wf
      rw [List.length_append]
      omega

/-! ### `Restore` -/

theorem Recalls.restore {expected : Bytes} (recalls : Recalls b expected) : b.restore.bytes = .ok expected := by
  obtain ⟨wf, behind, rfl⟩ := recalls
  by_cases gone : b.offMark = resetOffMark
  · rw [IoBuffer.restore, if_neg (not_not.mpr gone), IoBuffer.bytes_ok wf,
      IoBuffer.restorable_unmarked gone]
  · obtain ⟨low, high⟩ := behind.resolve_left gone
    have wf' : ({ b with off := b.offMark, offMark := resetOffMark } : IoBuffer).WF :=
      ⟨low, high.trans wf.off_le⟩
    rw [IoBuffer.restore, if_pos gone, IoBuffer.bytes_ok wf', IoBuffer.restorable_marked gone]
    rfl

theorem Forgot.restore {expected : Bytes} (forgot : Forgot b expected) : b.restore.bytes ≠ .ok expected := by
  obtain ⟨wf, mark, short⟩ := forgot
  intro restored
  by_cases gone : b.offMark = resetOffMark
  · rw [IoBuffer.restore, if_neg (not_not.mpr gone), IoBuffer.bytes_ok wf] at restored
    rw [IoBuffer.restorable_unmarked gone, Except.ok.inj restored] at short
    exact lt_irrefl _ short
  · rw [IoBuffer.restore, if_pos gone] at restored
    have wf' := IoBuffer.wf_of_bytes restored
    rw [IoBuffer.bytes_ok wf'] at restored
    rw [IoBuffer.restorable_marked gone, ← Except.ok.inj restored] at short
    exact lt_irrefl _ short

theorem mark_recalls {present : Bytes} (here : b.bytes = .ok present) : Recalls b.mark present := by
  have wf := IoBuffer.wf_of_bytes here
  rw [IoBuffer.bytes_ok wf] at here
  have set : b.off ≠ resetOffMark := by
    have := wf.off_nonneg
    show b.off ≠ -1
    omega
  refine ⟨⟨wf.off_nonneg, wf.off_le⟩, .inr ⟨wf.off_nonneg, le_rfl⟩, ?_⟩
  rw [IoBuffer.restorable_marked (b := b.mark) set, ← Except.ok.inj here]
  rfl

/-- **`Restore` undoes the reads exactly when every operation since `Mark` was harmless.** -/
theorem restore_undoes_iff {b : IoBuffer} {present : Bytes} (here : b.bytes = .ok present) (ops : List SpanOp) :
    (spanMachine.run b.mark ops).2.restore.bytes = .ok (present ++ ops.flatMap SpanOp.written) ↔
      spanMachine.Admits Harmless b.mark ops := by
  obtain ⟨kept, lost⟩ := spanMachine.run_dichotomy expectMachine Recalls Forgot Harmless
    (fun recalls harmless => recalls.step (span_happens recalls.wf _) harmless)
    (fun recalls harm => recalls.broken (span_happens recalls.wf _) harm)
    (fun forgot => forgot.step (span_happens forgot.wf _)) ops (mark_recalls here)
  rw [← expectMachine_run]
  constructor
  · intro restored
    by_contra refused
    exact (lost refused).restore restored
  · intro admitted
    exact (kept admitted).restore

/-- The theorem at a buffer that is written, read and written within its capacity. -/
theorem restore_undoes_iff_sample : (spanMachine.run (IoBuffer.new .fresh 8).mark
      [.write .fresh [1, 2], .readByte, .write .fresh [3]]).2.restore.bytes = .ok [1, 2, 3] :=
  (restore_undoes_iff (b := .new .fresh 8) rfl _).mpr
    ⟨by decide, by decide, by decide, trivial⟩

/-- **A read past the end forgets the mark.** The second `ReadByte` finds the buffer drained and
resets it, so `Restore` brings nothing back. -/
theorem read_past_end_forgets : (IoBuffer.newBytes [7]).bytes = .ok [7] ∧
      (spanMachine.run (IoBuffer.newBytes [7]).mark [.readByte, .readByte]).2.restore.bytes ≠
        .ok [7] := by
  decide

end Strike
