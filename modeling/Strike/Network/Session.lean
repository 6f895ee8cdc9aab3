/-
**The write side of a session** (`session.go`).

A caller puts buffers into a channel, or starts a goroutine that does when the channel is full. The write
loop takes them out, gathers them in a batch and writes the batch to the connection. `Close` writes
what it finds in the batch. A step of the model is one access to the channel, to the batch or to the
connection, so that every schedule is a run; what the connection answers is part of the step.

Every byte carries the place at which it was written, which the code does not look at.

* `step_steps`: everything a step can do.
* `run_written`: the bytes written are those of the calls, in order.
-/

import Strike.Go.Buffers
import Strike.Lib.System

namespace Strike.Network

open Lib Go

/-- A byte and the place at which it was written. -/
structure Byte where
  value : UInt8
  place : Nat
  deriving Repr, DecidableEq

/-- The buffers of one call of `Write`; a buffer may be `nil`. -/
abbrev Batch : Type := List (Option (List Byte))

/-- The buffers that are there. -/
def Batch.buffers (bufs : Batch) : List (List Byte) := List.filterMap id bufs

/-- The bytes of a call. -/
def Batch.bytes (bufs : Batch) : List Byte := bufs.buffers.flatten

/-- The bytes of several calls. -/
def bytesOf (batches : List Batch) : List Byte := (batches.map Batch.bytes).flatten

/-- Bytes with their places. -/
def stampBytes (place : Nat) : List UInt8 → List Byte
  | [] => []
  | value :: rest => ⟨value, place⟩ :: stampBytes (place + 1) rest

/-- The buffers of a call with their places. -/
def stamp (place : Nat) : List (Option (List UInt8)) → Batch
  | [] => []
  | none :: rest => none :: stamp place rest
  | some buf :: rest => some (stampBytes place buf) :: stamp (place + buf.length) rest

/-- Capacity of `writeBufferChan`. -/
def chanCap : Nat := 32

/-- Where `startWriteLoop` stands. -/
inductive Loop where
  /-- At the second `select`. -/
  | top
  /-- At `appendBuffer`, with this many attempts to get more behind it. -/
  | holding (bufs : Batch) (i : Nat)
  /-- At the attempt to get more. -/
  | polling (i : Nat)
  /-- At `buffers := s.writeBuffers`. -/
  | copy
  /-- At `buffers.WriteTo(conn)`. -/
  | write (buffers : List (List Byte))
  /-- Behind a write without error. -/
  | settle (buffers : List (List Byte))
  deriving Repr, DecidableEq

/-- Where `Close` stands. -/
inductive Closer where
  | uncalled
  /-- At `s.writeBufLen() > 0`. -/
  | check
  /-- At `buffers := s.writeBuffers`. -/
  | copy
  /-- At `buffers.WriteTo(conn)`. -/
  | write (buffers : List (List Byte))
  /-- Behind a write of this many bytes without error. -/
  | settle (buffers : List (List Byte)) (bytesSent : Nat)
  /-- At the closing of the channels and the connection. -/
  | close
  | closed
  deriving Repr, DecidableEq

/-- `Session`, with the goroutines that `Write` started. -/
structure Session where
  writeBufferChan : List Batch := []
  /-- Goroutines that wait at the full channel, in the order they came. -/
  blocked : List Batch := []
  /-- Goroutines that have not come to the channel yet. -/
  helpers : List Batch := []
  loop : Loop := .top
  writeBuffers : List (List Byte) := []
  closer : Closer := .uncalled
  /-- All bytes of the calls so far. -/
  written : List Byte := []
  /-- All bytes the connection accepted so far. -/
  accepted : List Byte := []
  deriving Repr, DecidableEq

/-- What the connection answers to a vectored write: the bytes it took, and whether it timed out. A
write without error may be short. -/
inductive Result where
  | ok (n : Nat)
  | timeout (n : Nat)
  deriving Repr, DecidableEq

/-- The bytes taken. -/
def Result.taken : Result → Nat
  | .ok n => n
  | .timeout n => n

/-- Who moves. -/
inductive Move where
  /-- `Write` is called. -/
  | write (bufs : List (Option (List UInt8)))
  /-- A goroutine comes to the channel. -/
  | arrive (i : Nat)
  /-- The write loop takes a step, other than a write. -/
  | loop
  /-- The connection answers the write loop. -/
  | loopWrite (result : Result)
  /-- `Close` is called, with `FlushWrite` or without. -/
  | close (flush : Bool)
  /-- `Close` takes a step, other than a write. -/
  | closer
  /-- The connection answers `Close`. -/
  | closerWrite (result : Result)
  deriving Repr, DecidableEq

namespace Session

/-- `Write`. -/
def write (s : Session) (bufs : List (Option (List UInt8))) : Session :=
  let batch := stamp s.written.length bufs
  let s := { s with written := s.written ++ batch.bytes }
  if s.writeBufferChan.length < chanCap then { s with writeBufferChan := s.writeBufferChan ++ [batch] }
  else { s with helpers := s.helpers ++ [batch] }

/-- A goroutine comes to the channel and sends, or waits. -/
def arrive (s : Session) (i : Nat) : Option Session :=
  s.helpers[i]?.map fun batch =>
    let s := { s with helpers := s.helpers.eraseIdx i }
    if s.writeBufferChan.length < chanCap then { s with writeBufferChan := s.writeBufferChan ++ [batch] }
    else { s with blocked := s.blocked ++ [batch] }

/-- A receive from the channel, which lets in the goroutine that waits first. -/
def receive (s : Session) : Option (Batch × Session) :=
  match s.writeBufferChan with
  | [] => none
  | batch :: rest =>
    match s.blocked with
    | [] => some (batch, { s with writeBufferChan := rest })
    | first :: blocked => some (batch, { s with writeBufferChan := rest ++ [first], blocked })

/-- `appendBuffer`. -/
def appendBuffer (s : Session) (bufs : Batch) : Session :=
  { s with writeBuffers := s.writeBuffers ++ bufs.buffers }

/-- A step of the write loop. -/
def loopStep (s : Session) : Option Session :=
  match s.loop with
  | .top => s.receive.map fun (batch, s) => { s with loop := .holding batch 0 }
  | .holding batch i => some { s.appendBuffer batch with loop := .polling i }
  | .polling i =>
    if i < 10 then
      match s.receive with
      | some (batch, s) => some { s with loop := .holding batch (i + 1) }
      | none => some { s with loop := .polling (i + 1) }
    else some { s with loop := .copy }
  | .copy => some { s with loop := .write s.writeBuffers }
  | .write _ => none
  | .settle buffers => some { s with writeBuffers := buffers, loop := .top }

/-- A vectored write: the connection takes bytes of the slice, and the array changes in place. -/
def writeTo (s : Session) (buffers : List (List Byte)) (n : Nat) : Session :=
  { s with accepted := s.accepted ++ buffers.flatten.take n, writeBuffers := inPlace n s.writeBuffers }

/-- `doWriteIo` of the write loop. A timeout leaves the batch as it is. -/
def loopWrite (s : Session) (result : Result) : Option Session :=
  match s.loop with
  | .write buffers =>
    if result.taken ≤ buffers.flatten.length then
      match result with
      | .ok n => some { s.writeTo buffers n with loop := .settle (consume n buffers) }
      | .timeout n => some { s.writeTo buffers n with loop := .top }
    else none
  | _ => none

/-- `writeBufLen`. -/
def writeBufLen (s : Session) : Nat := (s.writeBuffers.map List.length).sum

/-- A step of `Close`. -/
def closerStep (s : Session) : Option Session :=
  match s.closer with
  | .check => some { s with closer := if 0 < s.writeBufLen then .copy else .close }
  | .copy => some { s with closer := .write s.writeBuffers }
  | .settle buffers bytesSent =>
    some { s with writeBuffers := buffers, closer := if bytesSent = 0 then .close else .copy }
  | .close => some { s with closer := .closed }
  | _ => none

/-- `doWriteIo` of `Close`. -/
def closerWrite (s : Session) (result : Result) : Option Session :=
  match s.closer with
  | .write buffers =>
    if result.taken ≤ buffers.flatten.length then
      match result with
      | .ok n => some { s.writeTo buffers n with closer := .settle (consume n buffers) n }
      | .timeout n => some { s.writeTo buffers n with closer := if n = 0 then .close else .copy }
    else none
  | _ => none

/-- The session's system. Calls of `Write` are those made before `Close`. -/
def step (s : Session) : Move → Option Session
  | .write bufs => if s.closer = .uncalled then some (s.write bufs) else none
  | .arrive i => s.arrive i
  | .loop => s.loopStep
  | .loopWrite result => s.loopWrite result
  | .close flush =>
    if s.closer = .uncalled then some { s with closer := if flush then .check else .close } else none
  | .closer => s.closerStep
  | .closerWrite result => s.closerWrite result

/-- The session as a system. -/
def system : System Session Move := ⟨step⟩

/-! ### What a step can do -/

/-- A receive takes the first batch, and the order of all that wait at the channel stays. -/
theorem receive_spec {s r : Session} {batch : Batch} (got : s.receive = some (batch, r)) :
    ∃ chan blocked, r = { s with writeBufferChan := chan, blocked } ∧
      s.writeBufferChan ++ s.blocked = batch :: (chan ++ blocked) ∧
      (blocked ≠ [] → chan.length = s.writeBufferChan.length) := by
  unfold receive at got
  split at got
  · cases got
  · next batch' rest chan =>
      split at got
      · next none =>
          cases got
          exact ⟨rest, [], by rw [← none], by rw [chan, none]; rfl, fun no => absurd rfl no⟩
      · next first blocked some =>
          cases got
          exact ⟨rest ++ [first], blocked, rfl, by rw [chan, some]; simp, fun _ => by rw [chan]; simp⟩

/-- Everything a step can do. -/
inductive Steps (s : Session) : Move → Session → Prop where
  | called {bufs} (closer : s.closer = .uncalled) (room : s.writeBufferChan.length < chanCap) :
      Steps s (.write bufs) { s with
        written := s.written ++ (stamp s.written.length bufs).bytes
        writeBufferChan := s.writeBufferChan ++ [stamp s.written.length bufs] }
  | spawned {bufs} (closer : s.closer = .uncalled) (full : ¬ s.writeBufferChan.length < chanCap) :
      Steps s (.write bufs) { s with
        written := s.written ++ (stamp s.written.length bufs).bytes
        helpers := s.helpers ++ [stamp s.written.length bufs] }
  | sent {i batch} (helper : s.helpers[i]? = some batch) (room : s.writeBufferChan.length < chanCap) :
      Steps s (.arrive i) { s with
        helpers := s.helpers.eraseIdx i
        writeBufferChan := s.writeBufferChan ++ [batch] }
  | blocks {i batch} (helper : s.helpers[i]? = some batch) (full : ¬ s.writeBufferChan.length < chanCap) :
      Steps s (.arrive i) { s with helpers := s.helpers.eraseIdx i, blocked := s.blocked ++ [batch] }
  | took {batch chan blocked i} (pc : s.loop = .top ∨ ∃ j, s.loop = .polling j)
      (order : s.writeBufferChan ++ s.blocked = batch :: (chan ++ blocked))
      (length : blocked ≠ [] → chan.length = s.writeBufferChan.length) :
      Steps s .loop { s with writeBufferChan := chan, blocked, loop := .holding batch i }
  | gathered {batch i} (pc : s.loop = .holding batch i) :
      Steps s .loop { s with writeBuffers := s.writeBuffers ++ batch.buffers, loop := .polling i }
  | polled {i loop} (pc : s.loop = .polling i) (next : loop = .polling (i + 1) ∨ loop = .copy) :
      Steps s .loop { s with loop }
  | copied (pc : s.loop = .copy) : Steps s .loop { s with loop := .write s.writeBuffers }
  | settled {buffers} (pc : s.loop = .settle buffers) :
      Steps s .loop { s with writeBuffers := buffers, loop := .top }
  | wrote {buffers n} (pc : s.loop = .write buffers) (taken : n ≤ buffers.flatten.length) :
      Steps s (.loopWrite (.ok n)) { s.writeTo buffers n with loop := .settle (consume n buffers) }
  | timedOut {buffers n} (pc : s.loop = .write buffers) (taken : n ≤ buffers.flatten.length) :
      Steps s (.loopWrite (.timeout n)) { s.writeTo buffers n with loop := .top }
  | closes {flush} (closer : s.closer = .uncalled) :
      Steps s (.close flush) { s with closer := if flush then .check else .close }
  | checked (pc : s.closer = .check) :
      Steps s .closer { s with closer := if 0 < s.writeBufLen then .copy else .close }
  | closerCopied (pc : s.closer = .copy) : Steps s .closer { s with closer := .write s.writeBuffers }
  | closerSettled {buffers bytesSent} (pc : s.closer = .settle buffers bytesSent) :
      Steps s .closer
        { s with writeBuffers := buffers, closer := if bytesSent = 0 then .close else .copy }
  | closerClosed (pc : s.closer = .close) : Steps s .closer { s with closer := .closed }
  | closerWrote {buffers n} (pc : s.closer = .write buffers) (taken : n ≤ buffers.flatten.length) :
      Steps s (.closerWrite (.ok n)) { s.writeTo buffers n with closer := .settle (consume n buffers) n }
  | closerTimedOut {buffers n} (pc : s.closer = .write buffers) (taken : n ≤ buffers.flatten.length) :
      Steps s (.closerWrite (.timeout n))
        { s.writeTo buffers n with closer := if n = 0 then .close else .copy }

theorem loopStep_steps {s s' : Session} (stepped : s.loopStep = some s') : Steps s .loop s' := by
  unfold loopStep at stepped
  split at stepped
  · next pc =>
      obtain ⟨⟨batch, r⟩, got, rfl⟩ := Option.map_eq_some_iff.mp stepped
      obtain ⟨chan, blocked, rfl, order, length⟩ := receive_spec got
      exact .took (.inl pc) order length
  · next pc =>
      cases stepped
      exact .gathered pc
  · next i pc =>
      split at stepped
      · split at stepped
        · next got =>
            cases stepped
            obtain ⟨chan, blocked, rfl, order, length⟩ := receive_spec got
            exact .took (.inr ⟨i, pc⟩) order length
        · cases stepped
          exact .polled pc (.inl rfl)
      · cases stepped
        exact .polled pc (.inr rfl)
  · next pc =>
      cases stepped
      exact .copied pc
  · cases stepped
  · next pc =>
      cases stepped
      exact .settled pc

theorem closerStep_steps {s s' : Session} (stepped : s.closerStep = some s') : Steps s .closer s' := by
  unfold closerStep at stepped
  split at stepped
  · next pc =>
      cases stepped
      exact .checked pc
  · next pc =>
      cases stepped
      exact .closerCopied pc
  · next pc =>
      cases stepped
      exact .closerSettled pc
  · next pc =>
      cases stepped
      exact .closerClosed pc
  · cases stepped

/-- **Inversion of a step.** -/
theorem step_steps {s s' : Session} {move : Move} (stepped : s.step move = some s') : Steps s move s' := by
  cases move with
  | write bufs =>
    unfold step at stepped
    dsimp only at stepped
    split_ifs at stepped with closer
    cases stepped
    unfold write
    dsimp only
    split_ifs with room
    · exact .called closer room
    · exact .spawned closer room
  | arrive i =>
    obtain ⟨batch, helper, rfl⟩ := Option.map_eq_some_iff.mp stepped
    dsimp only
    split_ifs with room
    · exact .sent helper room
    · exact .blocks helper room
  | loop => exact loopStep_steps stepped
  | loopWrite result =>
    replace stepped : s.loopWrite result = some s' := stepped
    unfold loopWrite at stepped
    split at stepped
    · next pc =>
        split_ifs at stepped with taken
        cases result with
        | ok n =>
          cases stepped
          exact .wrote pc taken
        | timeout n =>
          cases stepped
          exact .timedOut pc taken
    · cases stepped
  | close flush =>
    unfold step at stepped
    dsimp only at stepped
    split at stepped
    · next closer =>
        cases stepped
        exact .closes closer
    · cases stepped
  | closer => exact closerStep_steps stepped
  | closerWrite result =>
    replace stepped : s.closerWrite result = some s' := stepped
    unfold closerWrite at stepped
    split at stepped
    · next pc =>
        split_ifs at stepped with taken
        cases result with
        | ok n =>
          cases stepped
          exact .closerWrote pc taken
        | timeout n =>
          cases stepped
          exact .closerTimedOut pc taken
    · cases stepped

/-! ### What was written -/

theorem stampBytes_append (first second : List UInt8) : ∀ place,
    stampBytes place (first ++ second) = stampBytes place first ++ stampBytes (place + first.length) second := by
  induction first with
  | nil => exact fun _ => rfl
  | cons value first ih =>
    intro place
    rw [List.length_cons, ← Nat.add_assoc, Nat.add_right_comm]
    exact congrArg (List.cons ⟨value, place⟩) (ih (place + 1))

theorem bytes_stamp (bufs : List (Option (List UInt8))) :
    ∀ place, (stamp place bufs).bytes = stampBytes place (bufs.filterMap id).flatten := by
  induction bufs with
  | nil => exact fun _ => rfl
  | cons first rest ih =>
    intro place
    cases first with
    | none => exact ih place
    | some buf =>
      rw [show ((some buf :: rest).filterMap id).flatten = buf ++ (rest.filterMap id).flatten from rfl,
        stampBytes_append, ← ih]
      rfl

theorem stampBytes_value (bytes : List UInt8) : ∀ place, (stampBytes place bytes).map Byte.value = bytes := by
  induction bytes with
  | nil => exact fun _ => rfl
  | cons value bytes ih => exact fun place => congrArg (List.cons value) (ih (place + 1))

/-- The bytes of the calls in a schedule. -/
def calls (moves : List Move) : List UInt8 :=
  moves.flatMap fun
    | .write bufs => (bufs.filterMap id).flatten
    | _ => []

/-- **The bytes written are those of the calls**, in order. -/
theorem run_written {moves : List Move} : ∀ {s t : Session}, system.run s moves = some t →
    t.written.map Byte.value = s.written.map Byte.value ++ calls moves := by
  induction moves with
  | nil =>
    intro s t ran
    rw [← Option.some.inj ran]
    exact (List.append_nil _).symm
  | cons move moves ih =>
    intro s t ran
    obtain ⟨s', stepped, ran⟩ := System.run_cons.mp ran
    rw [ih ran, show calls (move :: moves) = calls [move] ++ calls moves by simp [calls], ← List.append_assoc]
    congr 1
    have bytes : ∀ bufs : List (Option (List UInt8)),
        (s.written ++ (stamp s.written.length bufs).bytes).map Byte.value =
          s.written.map Byte.value ++ (bufs.filterMap id).flatten := by
      intro bufs
      rw [List.map_append, bytes_stamp, stampBytes_value]
    cases step_steps stepped with
    | called => simpa [calls] using bytes _
    | spawned => simpa [calls] using bytes _
    | sent => simp [calls]
    | blocks => simp [calls]
    | took => simp [calls]
    | gathered => simp [calls]
    | polled => simp [calls]
    | copied => simp [calls]
    | settled => simp [calls]
    | wrote => simp [calls, writeTo]
    | timedOut => simp [calls, writeTo]
    | closes => simp [calls]
    | checked => simp [calls]
    | closerCopied => simp [calls]
    | closerSettled => simp [calls]
    | closerClosed => simp [calls]
    | closerWrote => simp [calls, writeTo]
    | closerTimedOut => simp [calls, writeTo]

end Session

end Strike.Network
