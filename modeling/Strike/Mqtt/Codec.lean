/-
**The MQTT codec** (`codec.go`).

`Codec.pass` is one round of the loop of `doDecode`: `Mark`, the reads of the current state, and
`Mark` again. `Codec.loop` runs rounds while the buffer is not empty and collects messages; a panic
ends it in the deferred function, which gives back the messages collected so far or, when there are
none, restores the buffer and returns the error. The loop need not end, so it runs on fuel.

The buffer is any `ReadBuffer`.

* `pass_sim`, `loop_sim`, `doDecode_sim`: the codec behaves alike on buffers that answer alike, in
  particular on an `IoBuffer` and on the queue of its unread bytes (`Returns.to_queue`,
  `Returns.of_queue`).
-/

import Strike.Buffer.Reading
import Strike.Mqtt.Message

namespace Strike.Mqtt

open Lib ReadProg

/-- `DecoderState`. -/
inductive DecoderState where
  | readFixedHeader
  | readVariableHeader
  | readPayload
  deriving DecidableEq, Repr

/-- `Codec`. -/
structure Codec where
  header : Option Header
  decoderState : DecoderState
  msg : Option Message
  deriving DecidableEq, Repr

namespace Codec

/-- `NewCodec`. -/
def new : Codec := ⟨none, .readFixedHeader, none⟩

/-- What follows a decoding method: a complete message is collected, otherwise the codec goes on to
the next state with it. -/
def settle (header : Option Header) (next : DecoderState) : Message × Bool → Codec × Option Message
  | (msg, true) => (⟨header, .readFixedHeader, none⟩, some msg)
  | (msg, false) => (⟨header, next, some msg⟩, none)

/-- The reads of one round; `none` stands for `return nil, errors.New("No matched message ")`. -/
def body (codec : Codec) : ReadProg (Option (Codec × Option Message)) :=
  match codec.decoderState, codec.header, codec.msg with
  | .readFixedHeader, _, _ => do
    let header ← Header.decode
    match newMessage header with
    | none => return none
    | some msg => return some (settle (some header) .readVariableHeader msg.decodeFixedHeader)
  | .readVariableHeader, some header, some msg => do
    let n ← getLen
    if int32 n < header.remainingLength then .raise (.error errorInvalidRemainingLength)
    else return some (settle (some header) .readPayload (← msg.decodeVariableHeader))
  | .readPayload, header, some msg =>
    do return some (settle header .readPayload (← msg.decodePayload))
  | _, _, _ => .raise nilDereference

/-- How a round ends. -/
inductive Pass (B : Type) where
  | next (codec : Codec) (emitted : Option Message) (buf : B)
  | returned (buf : B)
  | panicked (cause : Panic) (buf : B)

section Decode

variable {B : Type} [ReadBuffer B]

/-- One round of the loop. -/
def pass (codec : Codec) (buf : B) : Pass B :=
  match codec.body.run (ReadBuffer.mark buf) with
  | .ok (some (codec', emitted)) buf' => .next codec' emitted (ReadBuffer.mark buf')
  | .ok none buf' => .returned buf'
  | .error cause buf' => .panicked cause buf'

/-- What `doDecode` returns, with the codec and the buffer it leaves behind. -/
structure Decoded (B : Type) where
  codec : Codec
  msgs : List Message
  err : Option GoError
  buf : B

/-- The deferred function. `msgs` is nil exactly when nothing was collected. -/
def recover (codec : Codec) (msgs : List Message) (cause : Panic) (buf : B) : Decoded B :=
  if msgs = [] then ⟨codec, [], cause.asError, ReadBuffer.restore buf⟩ else ⟨codec, msgs, none, buf⟩

/-- The loop of `doDecode`; `none` when the fuel ran out. -/
def loop : Nat → Codec → List Message → B → Option (Decoded B)
  | 0, _, _, _ => none
  | fuel + 1, codec, msgs, buf =>
    if ReadBuffer.len buf > 0 then
      match codec.pass buf with
      | .next codec' emitted buf' => loop fuel codec' (msgs ++ emitted.toList) buf'
      | .returned buf' => some ⟨codec, [], some (.new "No matched message "), buf'⟩
      | .panicked cause buf' => some (recover codec msgs cause buf')
    else some ⟨codec, msgs, none, buf⟩

/-- `doDecode`. -/
def doDecode (fuel : Nat) (codec : Codec) (buf : B) : Option (Decoded B) :=
  if ReadBuffer.len buf = 0 then some ⟨codec, [], some (.new "Invalid buffer "), buf⟩
  else codec.loop fuel [] buf

/-- **`doDecode` returns.** -/
def Terminates (codec : Codec) (buf : B) : Prop := ∃ fuel out, codec.doDecode fuel buf = some out

/-- `doDecode` returns `out`. -/
def Returns (codec : Codec) (buf : B) (out : Decoded B) : Prop := ∃ fuel, codec.doDecode fuel buf = some out

end Decode

/-! ### Fuel -/

section Fuel

variable {B : Type} [ReadBuffer B]

theorem loop_mono {fuel : Nat} : ∀ {codec : Codec} {msgs : List Message} {buf : B} {out : Decoded B} {more : Nat},
      codec.loop fuel msgs buf = some out → fuel ≤ more → codec.loop more msgs buf = some out := by
  induction fuel with
  | zero => exact fun ran => nomatch ran
  | succ fuel ih =>
    intro codec msgs buf out more ran le
    obtain ⟨more, rfl⟩ : ∃ extra, more = extra + 1 := ⟨more - 1, by omega⟩
    rw [loop] at ran ⊢
    split
    · next open_ =>
        rw [if_pos open_] at ran
        cases result : codec.pass buf with
        | next codec' emitted buf' =>
          rw [result] at ran
          exact ih ran (by omega)
        | returned buf' =>
          rw [result] at ran
          exact ran
        | panicked cause buf' =>
          rw [result] at ran
          exact ran
    · next closed =>
        rw [if_neg closed] at ran
        exact ran

theorem Returns.unique {codec : Codec} {buf : B} {out out' : Decoded B}
    (first : codec.Returns buf out) (second : codec.Returns buf out') : out = out' := by
  obtain ⟨fuel, ran⟩ := first
  obtain ⟨fuel', ran'⟩ := second
  rw [doDecode] at ran ran'
  split at ran
  · next empty =>
      rw [if_pos empty] at ran'
      exact Option.some.inj (ran.symm.trans ran')
  · next filled =>
      rw [if_neg filled] at ran'
      have left := loop_mono ran (le_max_left fuel fuel')
      have right := loop_mono ran' (le_max_right fuel fuel')
      exact Option.some.inj (left.symm.trans right)

end Fuel

/-! ### Buffers that answer alike -/

section Simulation

variable {B C : Type} [ReadBuffer B] [ReadBuffer C] {same marked : B → C → Prop}

/-- Two rounds that end alike. -/
def SamePass (same marked : B → C → Prop) : Pass B → Pass C → Prop
  | .next codec emitted b, .next codec' emitted' c => codec = codec' ∧ emitted = emitted' ∧ same b c
  | .returned b, .returned c => same b c
  | .panicked cause b, .panicked cause' c => cause = cause' ∧ marked b c
  | _, _ => False

theorem pass_sim (sim : Simulation same marked) (codec : Codec) {b : B} {c : C} (related : same b c) :
    SamePass same marked (codec.pass b) (codec.pass c) := by
  have results := sim.run codec.body (sim.mark related)
  rw [pass, pass]
  cases left : codec.body.run (ReadBuffer.mark b) <;>
    cases right : codec.body.run (ReadBuffer.mark c) <;> rw [left, right] at results
  · obtain ⟨rfl, related⟩ := results
    next value _ _ =>
      cases value with
      | none => exact sim.forget related
      | some result => exact ⟨rfl, rfl, sim.forget (sim.mark (sim.forget related))⟩
  · exact results.elim
  · exact results.elim
  · exact results

/-- Two results that differ in the buffer only. -/
def SameDecoded (same : B → C → Prop) : Option (Decoded B) → Option (Decoded C) → Prop
  | none, none => True
  | some out, some out' =>
    out.codec = out'.codec ∧ out.msgs = out'.msgs ∧ out.err = out'.err ∧ same out.buf out'.buf
  | _, _ => False

theorem loop_sim (sim : Simulation same marked) (fuel : Nat) :
    ∀ (codec : Codec) (msgs : List Message) {b : B} {c : C}, same b c →
      SameDecoded same (codec.loop fuel msgs b) (codec.loop fuel msgs c) := by
  induction fuel with
  | zero => exact fun _ _ _ _ _ => trivial
  | succ fuel ih =>
    intro codec msgs b c related
    have passes := pass_sim sim codec related
    rw [loop, loop, sim.len related]
    split
    · cases left : codec.pass b <;> cases right : codec.pass c <;> rw [left, right] at passes
      · obtain ⟨rfl, rfl, related⟩ := passes
        exact ih _ _ related
      · exact passes.elim
      · exact passes.elim
      · exact passes.elim
      · exact ⟨rfl, rfl, rfl, passes⟩
      · exact passes.elim
      · exact passes.elim
      · exact passes.elim
      · obtain ⟨rfl, related⟩ := passes
        simp only [recover]
        split
        · exact ⟨rfl, rfl, rfl, sim.restore related⟩
        · exact ⟨rfl, rfl, rfl, sim.forget related⟩
    · exact ⟨rfl, rfl, rfl, related⟩

/-- **The codec behaves alike on buffers that answer alike.** -/
theorem doDecode_sim (sim : Simulation same marked) (fuel : Nat) (codec : Codec) {b : B} {c : C}
    (related : same b c) : SameDecoded same (codec.doDecode fuel b) (codec.doDecode fuel c) := by
  rw [doDecode, doDecode, sim.len related]
  split
  · exact ⟨rfl, rfl, rfl, related⟩
  · exact loop_sim sim fuel codec [] related

end Simulation

/-! ### On the I/O buffer -/

/-- What `doDecode` does to a buffer, it does to the queue of its unread bytes. -/
theorem Returns.to_queue {codec : Codec} {buf : IoBuffer} {content : Bytes} {out : Decoded IoBuffer}
    (holds : Holds buf content) (returned : codec.Returns buf out) :
    ∃ out' : Decoded MarkedQueue, codec.Returns (⟨content, none⟩ : MarkedQueue) out' ∧
      out.codec = out'.codec ∧ out.msgs = out'.msgs ∧ out.err = out'.err ∧
      Holds out.buf out'.buf.rest := by
  obtain ⟨fuel, ran⟩ := returned
  have same := doDecode_sim reading_simulation fuel codec (c := ⟨content, none⟩) holds
  rw [ran] at same
  cases ran' : codec.doDecode fuel (⟨content, none⟩ : MarkedQueue) with
  | none =>
    rw [ran'] at same
    exact same.elim
  | some out' =>
    rw [ran'] at same
    exact ⟨out', ⟨fuel, ran'⟩, same⟩

/-- What `doDecode` does to the queue of the unread bytes of a buffer, it does to the buffer. -/
theorem Returns.of_queue {codec : Codec} {buf : IoBuffer} {content : Bytes}
    {out' : Decoded MarkedQueue} (holds : Holds buf content)
    (returned : codec.Returns (⟨content, none⟩ : MarkedQueue) out') :
    ∃ out : Decoded IoBuffer, codec.Returns buf out ∧ out.codec = out'.codec ∧
      out.msgs = out'.msgs ∧ out.err = out'.err ∧ Holds out.buf out'.buf.rest := by
  obtain ⟨fuel, ran'⟩ := returned
  have same := doDecode_sim reading_simulation fuel codec (c := ⟨content, none⟩) holds
  rw [ran'] at same
  cases ran : codec.doDecode fuel buf with
  | none =>
    rw [ran] at same
    exact same.elim
  | some out =>
    rw [ran] at same
    exact ⟨out, ⟨fuel, ran⟩, same⟩

theorem terminates_queue {codec : Codec} {buf : IoBuffer} {content : Bytes} (holds : Holds buf content) :
    codec.Terminates buf ↔ codec.Terminates (⟨content, none⟩ : MarkedQueue) := by
  constructor
  · rintro ⟨fuel, out, ran⟩
    obtain ⟨out', ⟨fuel', ran'⟩, -⟩ := Returns.to_queue holds ⟨fuel, ran⟩
    exact ⟨fuel', out', ran'⟩
  · rintro ⟨fuel, out, ran⟩
    obtain ⟨out', ⟨fuel', ran'⟩, -⟩ := Returns.of_queue holds ⟨fuel, ran⟩
    exact ⟨fuel', out', ran'⟩

end Codec

end Strike.Mqtt
