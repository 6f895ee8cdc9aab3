/-
**The read side of a session** (`session.go`).

A round of `startReadLoop` reads from the connection into the read buffer and calls the filters, which take
bytes off its front. The connection's answers, what the pools return and what the filters do are part of the
round. A panic of a filter starts the loop once more.

The bytes the connection handed over and those the filters took are recorded; the code does not look at them.

* `reads_delivered`: along every run nothing is lost, repeated or reordered between the connection and the
  filters, and the filters were called behind the last byte unless the loop ended with an error.
-/

import Strike.Buffer.Counting
import Strike.Buffer.ReadOnce
import Strike.Lib.System

namespace Strike.Network

open Lib

/-- `DefaultBufferReadCapacity`. -/
def defaultBufferReadCapacity : Int := 1 <<< 0

/-- What a read of a connection fails with: a `net.Error` that is a timeout, `io.EOF`, or another error. -/
inductive ReadError where
  | timeout
  | eof
  | other (text : String)
  deriving Repr, DecidableEq

/-- The goroutine of the read loop. -/
inductive ReadLoop where
  | running
  /-- Started again by the deferred function. -/
  | restarted
  | ended
  deriving Repr, DecidableEq

/-- The event `Close` was called with. -/
inductive CloseEvent where
  | remoteClose
  | onReadErrClose
  deriving Repr, DecidableEq

/-- The fields of `Session` the read loop uses. -/
structure ReadSide where
  readBuffer : Option IoBuffer := none
  loop : ReadLoop := .running
  closed : Option CloseEvent := none
  /-- What the connection handed over. -/
  received : Bytes := []
  /-- What the filters took. -/
  consumed : Bytes := []
  /-- How much had been received when the filters were last called. -/
  announced : Nat := 0

/-- One round: the memory, a buffer the pool may return, the connection's answers, and what the filters do when
they are called. -/
structure Round where
  pool : Pool := .fresh
  pooled : Option IoBuffer := none
  answers : Answers ReadError
  filters : List BufOp := []
  panics : Bool := false

namespace ReadSide

/-- `GetIoBuffer(DefaultBufferReadCapacity)`. What the pool holds was freed. -/
def getIoBuffer (r : Round) : IoBuffer :=
  match r.pooled with
  | none => .new r.pool defaultBufferReadCapacity
  | some b => (b.free.alloc r.pool defaultBufferReadCapacity).addCount 1

/-- The read buffer of a round. -/
def buffer (s : ReadSide) (r : Round) : IoBuffer := s.readBuffer.getD (getIoBuffer r)

/-- `ReadOnce` of a round. A connection without an answer runs into its deadline. -/
def readOnce (s : ReadSide) (r : Round) :
    EStateM.Result Panic IoBuffer (Nat × Option ReadError × Answers ReadError) :=
  IoBuffer.readOnce r.pool .timeout true r.answers (s.buffer r)

/-- A panic in the loop. -/
def panicked (s : ReadSide) : ReadSide := { s with loop := if s.loop = .running then .restarted else .ended }

/-- The read buffer is `b`, with what the connection handed over. -/
def receive (s : ReadSide) (r : Round) (rest : Answers ReadError) (b : IoBuffer) : ReadSide :=
  { s with
    readBuffer := some b
    received := s.received ++ r.answers.bytes.take (r.answers.bytes.length - rest.bytes.length) }

/-- `OnRead` of the filters. -/
def onRead (s : ReadSide) (r : Round) (b : IoBuffer) : ReadSide :=
  let b' := (bufMachine.run b r.filters).2
  { s with
    readBuffer := some b'
    consumed := s.consumed ++ b.contents.take (b.contents.length - b'.contents.length)
    announced := s.received.length }

/-- What `startReadLoop` does with the error of `doReadConn`. -/
def handle (s : ReadSide) (r : Round) : Option ReadError → ReadSide
  | none => s
  | some .timeout =>
    { s with readBuffer := s.readBuffer.map fun b =>
        if b.len = 0 then b.free.alloc r.pool defaultBufferReadCapacity else b }
  | some .eof => { s with closed := some .remoteClose, loop := .ended }
  | some (.other _) => { s with closed := some .onReadErrClose, loop := .ended }

/-- The rest of a round, behind `ReadOnce`: `doReadConn` comes to `onRead` unless the error is neither a
timeout nor `io.EOF`, and `onRead` to the filters unless nothing was read. -/
def afterRead (s : ReadSide) (r : Round) (n : Nat) (err : Option ReadError) (b : IoBuffer) : ReadSide :=
  match err with
  | some (.other _) => s.handle r err
  | _ => if n = 0 then s.handle r err else if r.panics then (s.onRead r b).panicked else (s.onRead r b).handle r err

/-- A round of `startReadLoop`, which runs until `Close` stops it. -/
def round (s : ReadSide) (r : Round) : Option ReadSide :=
  if s.loop = .ended then none
  else
    match s.readOnce r with
    | .error _ b => some { s with readBuffer := some b }.panicked
    | .ok (n, err, rest) b => some ((s.receive r rest b).afterRead r n err b)

/-- The rounds as a system. -/
def system : System ReadSide Round := ⟨round⟩

/-- What the filters do to the buffer takes bytes off its front. Filters that read ahead and go back, with `Mark` and
`Restore`, are not among them. -/
def Takes : BufOp → Prop
  | .read _ | .readByte | .peek _ | .cut _ | .drain _ | .writeTo _ => True
  | _ => False

/-- **The filters only take bytes**, for good, and no offset overflows. -/
def Proper (s : ReadSide) (r : Round) : Prop :=
  ∀ result b, s.readOnce r = .ok result b →
    bufMachine.Admits (fun b op => Takes op ∧ NoWrap b op) b r.filters

/-- The bytes in the read buffer. -/
def unread (s : ReadSide) : Bytes := (s.readBuffer.map IoBuffer.contents).getD []

/-! ### What the filters take -/

theorem queue_takes {op : BufOp} (takes : Takes op) (q : Bytes) : (queueMachine.step q op).2 <:+ q := by
  cases op with
  | read n => exact List.drop_suffix n q
  | readByte => exact List.drop_suffix 1 q
  | peek n => exact List.suffix_rfl
  | cut n | drain n =>
    simp only [queueMachine]
    split
    · exact List.drop_suffix n q
    · exact List.suffix_rfl
  | writeTo w =>
    simp only [queueMachine]
    clear takes
    induction w generalizing q with
    | nil => exact List.suffix_rfl
    | cons answer rest ih =>
      obtain ⟨m, err⟩ := answer
      simp only [Fifo.writeTo]
      split
      · exact List.suffix_rfl
      · split
        · exact List.suffix_rfl
        · split
          · exact List.drop_suffix m q
          · split
            · exact List.drop_suffix m q
            · exact (ih (q.drop m)).trans (List.drop_suffix m q)
  | _ => exact takes.elim

/-- **Whatever the filters do**, what is left is the rear of what there was. -/
theorem run_takes (filters : List BufOp) : ∀ {b : IoBuffer} {q : Bytes}, Holds b q →
      bufMachine.Admits (fun b op => Takes op ∧ NoWrap b op) b filters →
      ∃ q', Holds (bufMachine.run b filters).2 q' ∧ q' <:+ q := by
  induction filters with
  | nil => exact fun {b q} holds _ => ⟨q, holds, List.suffix_rfl⟩
  | cons op filters ih =>
    intro b q holds ⟨⟨takes, clean⟩, admitted⟩
    obtain ⟨q', holds', rear⟩ := ih (buf_step holds clean).2 admitted
    refine ⟨q', ?_, rear.trans (queue_takes takes q)⟩
    rw [Machine.run_cons]
    exact holds'

/-! ### Pooled buffers -/

theorem free_off (b : IoBuffer) : b.free.off = 0 := by
  unfold IoBuffer.free IoBuffer.giveSlice
  split <;> rfl

theorem alloc_holds (pool : Pool) (size : Int) {b : IoBuffer} (zero : b.off = 0) : Holds (b.alloc pool size) [] := by
  have off : (b.alloc pool size).off = 0 := by
    show (if b.buf.cap > 0 then b.free else b).off = 0
    split
    · exact free_off b
    · exact zero
  refine ⟨⟨off.ge, by rw [off]; exact Int.natCast_nonneg _⟩, ?_⟩
  rw [IoBuffer.contents_of_off_zero off]
  rfl

theorem getIoBuffer_holds (r : Round) : Holds (getIoBuffer r) [] := by
  cases found : r.pooled with
  | none =>
    simp only [getIoBuffer, found]
    exact new_holds _ _
  | some b =>
    obtain ⟨formed, empty⟩ := alloc_holds r.pool defaultBufferReadCapacity (free_off b)
    simp only [getIoBuffer, found]
    exact ⟨⟨formed.off_nonneg, formed.off_le⟩, empty⟩

/-! ### What a round keeps -/

/-- **Nothing is lost, repeated or reordered.** -/
structure Kept (s : ReadSide) : Prop where
  bytes : s.received = s.consumed ++ s.unread
  formed : ∀ b ∈ s.readBuffer, b.WF

/-- Nor kept from the filters: they were called behind the last byte, unless the loop ended with an error. -/
structure Delivered (s : ReadSide) : Prop extends s.Kept where
  announced : s.closed ≠ some .onReadErrClose → s.announced = s.received.length
  ended : s.closed.isSome → s.loop = .ended

variable {s : ReadSide}

/-- The buffer of a round holds what is unread. -/
theorem Kept.buffer (kept : s.Kept) (r : Round) : Holds (s.buffer r) s.unread := by
  cases own : s.readBuffer with
  | none =>
    simp only [ReadSide.buffer, unread, own]
    exact getIoBuffer_holds r
  | some b =>
    simp only [ReadSide.buffer, unread, own]
    exact ⟨kept.formed b own, rfl⟩

theorem Kept.receive (kept : s.Kept) {r : Round} {rest : Answers ReadError} {b : IoBuffer} {data : Bytes}
    (holds : Holds b (s.unread ++ data)) (answered : r.answers.bytes = data ++ rest.bytes) :
    (s.receive r rest b).Kept ∧ (s.receive r rest b).received = s.received ++ data := by
  have received : (s.receive r rest b).received = s.received ++ data := by
    simp only [ReadSide.receive, answered, List.length_append, Nat.add_sub_cancel, List.take_left]
  refine ⟨⟨?_, fun b' own => ?_⟩, received⟩
  · rw [received, kept.bytes, List.append_assoc, ← holds.2]
    rfl
  · cases own
    exact holds.1

theorem Kept.onRead (kept : s.Kept) {r : Round} {b : IoBuffer} (own : s.readBuffer = some b)
    (proper : bufMachine.Admits (fun b op => Takes op ∧ NoWrap b op) b r.filters) : (s.onRead r b).Kept := by
  obtain ⟨q', ⟨formed, rfl⟩, front, split⟩ := run_takes r.filters ⟨kept.formed b own, rfl⟩ proper
  refine ⟨?_, fun b' own => ?_⟩
  · have bytes := kept.bytes
    rw [unread, own] at bytes
    simp only [ReadSide.onRead, unread, Option.map_some, Option.getD_some] at bytes ⊢
    rw [bytes, List.append_assoc, ← split, List.length_append, Nat.add_sub_cancel, List.take_left]
  · cases own
    exact formed

theorem Kept.afterTimeout (kept : s.Kept) (r : Round) : (s.handle r (some .timeout)).Kept := by
  cases own : s.readBuffer with
  | none =>
    have same : s.handle r (some .timeout) = s := by
      simp only [ReadSide.handle, own, Option.map_none]
      rw [← own]
    rwa [same]
  | some b =>
    have bytes := kept.bytes
    by_cases empty : b.len = 0
    · have fresh := alloc_holds r.pool defaultBufferReadCapacity (free_off b)
      have nothing := (IoBuffer.len_eq_zero_iff (kept.formed b own)).mp empty
      simp only [unread, own, Option.map_some, Option.getD_some, nothing] at bytes
      refine ⟨?_, fun b' own' => ?_⟩
      · simp only [ReadSide.handle, unread, own, Option.map_some, if_pos empty, Option.getD_some, fresh.2]
        exact bytes
      · simp only [ReadSide.handle, own, Option.map_some, if_pos empty, Option.mem_some_iff] at own'
        exact own' ▸ fresh.1
    · have same : s.handle r (some .timeout) = s := by
        simp only [ReadSide.handle, own, Option.map_some, if_neg empty]
        rw [← own]
      rwa [same]

theorem Kept.handle (kept : s.Kept) (r : Round) (err : Option ReadError) : (s.handle r err).Kept := by
  rcases err with _ | _ | _ | text
  · exact kept
  · exact kept.afterTimeout r
  · exact ⟨kept.bytes, kept.formed⟩
  · exact ⟨kept.bytes, kept.formed⟩

theorem handle_received (s : ReadSide) (r : Round) (err : Option ReadError) :
    (s.handle r err).received = s.received ∧ (s.handle r err).announced = s.announced := by
  rcases err with _ | _ | _ | text <;> exact ⟨rfl, rfl⟩

theorem handle_ended (opened : s.closed = none) (r : Round) (err : Option ReadError) :
    (s.handle r err).closed.isSome → (s.handle r err).loop = .ended := by
  intro closed
  rcases err with _ | _ | _ | text
  iterate 2
    · rw [ReadSide.handle, opened] at closed
      cases closed
  · rfl
  · rfl

/-- Behind the call of the filters, or where there was nothing to call them for. -/
theorem Kept.delivered (kept : s.Kept) (opened : s.closed = none) (announced : s.announced = s.received.length)
    (r : Round) (err : Option ReadError) : (s.handle r err).Delivered := by
  obtain ⟨received, last⟩ := handle_received s r err
  exact ⟨kept.handle r err, fun _ => by rw [received, last, announced], handle_ended opened r err⟩

/-- **The rest of a round**, with the bytes that came in. -/
theorem Kept.afterRead (kept : s.Kept) (opened : s.closed = none) {r : Round} {b : IoBuffer} {n : Nat}
    {err : Option ReadError} (own : s.readBuffer = some b)
    (proper : bufMachine.Admits (fun b op => Takes op ∧ NoWrap b op) b r.filters)
    (none_ : n = 0 → s.announced = s.received.length) : (s.afterRead r n err b).Delivered := by
  by_cases failed : ∃ text, err = some (.other text)
  · obtain ⟨text, rfl⟩ := failed
    exact ⟨kept.handle r (some (.other text)), fun open_ => absurd rfl open_, fun _ => rfl⟩
  · have passes : s.afterRead r n err b = if n = 0 then s.handle r err
        else if r.panics then (s.onRead r b).panicked else (s.onRead r b).handle r err := by
      rcases err with _ | _ | _ | text
      · rfl
      · rfl
      · rfl
      · exact absurd ⟨text, rfl⟩ failed
    rw [passes]
    split
    · next zero => exact kept.delivered opened (none_ zero) r err
    · have kept' := kept.onRead own proper
      split
      · exact ⟨⟨kept'.bytes, kept'.formed⟩, fun _ => rfl, fun closed => by
          rw [show (s.onRead r b).panicked.closed = none from opened] at closed
          cases closed⟩
      · exact kept'.delivered opened rfl r err

/-- **One round.** -/
theorem Delivered.round (delivered : s.Delivered) {r : Round} {s' : ReadSide} (proper : s.Proper r)
    (stepped : s.round r = some s') : s'.Delivered := by
  obtain ⟨running, stepped⟩ := Option.ite_none_left_eq_some.mp stepped
  have opened : s.closed = none := by
    by_contra closed
    exact running (delivered.ended (Option.isSome_iff_ne_none.mpr closed))
  obtain ⟨b, data, err, rest, ran, holds, answered⟩ :=
    IoBuffer.readOnce_holds r.pool ReadError.timeout true r.answers (delivered.toKept.buffer r)
  have read : s.readOnce r = .ok (data.length, err, rest) b := ran
  simp only [read, Option.some.injEq] at stepped
  subst stepped
  obtain ⟨kept, received⟩ := delivered.toKept.receive holds answered
  refine kept.afterRead opened rfl (proper _ b read) fun zero => ?_
  rw [received, List.length_eq_zero_iff.mp zero, List.append_nil]
  exact delivered.announced (by rw [opened]; exact fun no => by cases no)

/-- **Between the connection and the filters.** Whatever the connection answers, whatever the pools return and
whatever the filters take, in every run the bytes the connection handed over are those the filters took and
those in the read buffer, in order; no read is out of range; and the filters were called behind the last of
them, unless the loop ended because of an error that is neither a timeout nor the end. -/
theorem reads_delivered {rounds : List Round} {s : ReadSide} (ran : system.run {} rounds = some s)
    (proper : system.Meets Proper {} rounds) :
    s.received = s.consumed ++ s.unread ∧
      (s.closed ≠ some .onReadErrClose → s.announced = s.received.length) ∧
      ∀ r, ∃ result b, s.readOnce r = .ok result b := by
  have start : ({} : ReadSide).Delivered :=
    ⟨⟨rfl, fun b own => by cases own⟩, fun _ => rfl, fun closed => by cases closed⟩
  have delivered : s.Delivered :=
    System.run_keeps (P := Delivered) (fun delivered proper stepped => delivered.round proper stepped) start proper ran
  refine ⟨delivered.bytes, delivered.announced, fun r => ?_⟩
  obtain ⟨b, data, err, rest, read, -⟩ :=
    IoBuffer.readOnce_holds r.pool ReadError.timeout true r.answers (delivered.toKept.buffer r)
  exact ⟨_, b, read⟩

/-- Three reads: one that the filters leave a byte of, one that runs into its deadline, and the last. -/
def threeReads : List Round :=
  [{ answers := [([1, 2, 3], none)], filters := [.read 2] }, { answers := [] },
    { answers := [([4], some .eof)], filters := [.read 1] }]

/-- The theorem at three reads. -/
theorem reads_delivered_three :
    ∃ s, system.run {} threeReads = some s ∧ s.received = [1, 2, 3, 4] ∧ s.consumed = [1, 2, 3] ∧
      s.received = s.consumed ++ s.unread ∧ s.closed = some .remoteClose ∧ s.announced = s.received.length := by
  have runs : (system.run {} threeReads).map (fun s => (s.received, s.consumed, s.closed)) =
      some ([1, 2, 3, 4], [1, 2, 3], some .remoteClose) := by
    decide +kernel
  obtain ⟨s, ran, seen⟩ := Option.map_eq_some_iff.mp runs
  simp only [Prod.mk.injEq] at seen
  obtain ⟨received, consumed, closed⟩ := seen
  have proper : system.Meets Proper {} threeReads := by
    refine ⟨fun _ _ _ => ?_, fun _ _ => ⟨fun _ _ _ => ?_, fun _ _ => ⟨fun _ _ _ => ?_, fun _ _ => trivial⟩⟩⟩
    · exact ⟨⟨trivial, fun n no => by cases no⟩, trivial⟩
    · trivial
    · exact ⟨⟨trivial, fun n no => by cases no⟩, trivial⟩
  obtain ⟨bytes, announced, -⟩ := reads_delivered ran proper
  exact ⟨s, ran, received, consumed, bytes, closed, announced (by rw [closed]; decide)⟩

end ReadSide

end Strike.Network
