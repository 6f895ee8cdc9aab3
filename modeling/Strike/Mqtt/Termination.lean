/-
**When the MQTT decoder comes back.**

A round on a sound codec takes bytes off the queue or completes a message whose payload was awaited,
with one exception: a payload of which more remains than the buffer holds is refused and nothing
changes. Within one call that cannot come up, because the variable header was only read once the whole
body was there. It can come up at the start of a call, when an earlier call broke off inside the
payload and lost bytes.

* `Waits`: a payload is awaited, of which more remains than the buffer holds.
* `loop_returns`, `waits_forever`: the loop returns unless the codec waits, and if it waits it never
  does.
* `terminates_iff`: for every reachable codec and every buffer content.
* `subscribe_hangs`: two appends after which `doDecode` does not return.
-/

import Strike.Buffer.Reading
import Strike.Mqtt.Rounds

namespace Strike.Mqtt

open Lib ReadProg

namespace Codec

/-- The codec awaits a payload of which more remains than the `n` bytes of the buffer. -/
def Waits (codec : Codec) (n : Nat) : Prop :=
  codec.decoderState = .readPayload ∧ ∃ msg, codec.msg = some msg ∧ msg.header.remainingLength > n

/-- Twice the bytes, and one for an awaited payload. -/
def work (codec : Codec) (n : Nat) : Nat := 2 * n + if codec.decoderState = .readPayload then 1 else 0

/-- **A round of a codec that does not wait makes progress**, and leads to one that does not wait. -/
theorem Went.progress {codec codec' : Codec} {emitted : Option Message} {q q' : MarkedQueue}
    (went : Went codec q codec' emitted q') (sound : codec.Sound) (ready : ¬ codec.Waits q.rest.length) :
    ¬ codec'.Waits q'.rest.length ∧ codec'.work q'.rest.length < codec.work q.rest.length := by
  cases went with
  | fixedHeader header type k state taken inside rest matched nonneg bound settled =>
    have length : q'.rest.length = q.rest.length - k := by rw [rest, List.length_drop]
    have later : codec'.decoderState ≠ .readPayload := by
      generalize Message.decodeFixedHeader ⟨header, type.blank⟩ = result at settled
      obtain ⟨m, _ | _⟩ := result <;> cases settled <;> exact fun no => nomatch no
    refine ⟨fun waits => later waits.1, ?_⟩
    rw [work, work, if_neg later, length]
    omega
  | variableHeader header msg result q₁ state has found enough ran rest settled =>
    obtain ⟨k, low, high, inside, left, spent, -⟩ := Message.decodeVariableHeader_spec ran
    obtain ⟨same, nonneg, bound⟩ := sound.awaitsHeader state header msg has found
    have length : q'.rest.length = q.rest.length - k := by rw [rest, left, List.length_drop]
    have inside' : k ≤ q.rest.length := inside
    refine ⟨?_, ?_⟩
    · rintro ⟨awaits, m, found', more⟩
      obtain ⟨m', _ | _⟩ := result
      · cases settled
        cases found'
        -- What remains after the variable header is what remains of the body.
        have narrow := int32_le (Int.natCast_nonneg q.rest.length)
        rw [spent, same, Header.spend_remainingLength nonneg bound (by omega), length] at more
        omega
      · cases settled
        cases awaits
    · rw [work, work, length]
      split <;> omega
  | payload msg result q₁ state found ran rest settled =>
    have enough : msg.header.remainingLength ≤ q.rest.length :=
      not_lt.mp fun more => ready ⟨state, msg, found, more⟩
    obtain ⟨k, inside, left⟩ := run_rest ran
    have length : q'.rest.length ≤ q.rest.length := by
      rw [rest]
      show (bufferOf (EStateM.Result.ok result q₁)).rest.length ≤ _
      rw [left, List.length_drop]
      exact Nat.sub_le _ _
    obtain ⟨m, done⟩ := result
    obtain rfl := Message.decodePayload_done enough ran
    cases settled
    refine ⟨fun ⟨awaits, _⟩ => (nomatch awaits), ?_⟩
    have free : work ⟨codec.header, .readFixedHeader, none⟩ q'.rest.length = 2 * q'.rest.length := rfl
    rw [free, work, if_pos state]
    omega

/-- **The loop returns** on a sound codec that does not wait. By induction on the work left. -/
theorem loop_returns (bound : Nat) : ∀ {codec : Codec} (msgs : List Message) {q : MarkedQueue}, codec.Sound →
      ¬ codec.Waits q.rest.length → codec.work q.rest.length < bound →
      ∃ fuel out, codec.loop fuel msgs q = some out := by
  induction bound with
  | zero => exact fun _ _ _ _ less => absurd less (Nat.not_lt_zero _)
  | succ bound ih =>
    intro codec msgs q sound ready less
    by_cases more : ReadBuffer.len q > 0
    · cases result : codec.pass q with
      | next codec' emitted q' =>
        have went := pass_next result
        obtain ⟨ready', fewer⟩ := went.progress sound ready
        obtain ⟨fuel, out, ran⟩ := ih (msgs ++ emitted.toList) (went.sound sound) ready'
          (by omega)
        refine ⟨fuel + 1, out, ?_⟩
        rw [loop, if_pos more, result]
        exact ran
      | returned q' => exact absurd result pass_ne_returned
      | panicked cause q' =>
        refine ⟨1, recover codec msgs cause q', ?_⟩
        rw [loop, if_pos more, result]
    · refine ⟨1, ⟨codec, msgs, none, q⟩, ?_⟩
      rw [loop, if_neg more]

/-- **A codec that waits goes round forever.** -/
theorem waits_forever {codec : Codec} (sound : codec.Sound) (fuel : Nat) :
    ∀ {msgs : List Message} {q : MarkedQueue}, codec.Waits q.rest.length → 0 < q.rest.length →
      codec.loop fuel msgs q = none := by
  induction fuel with
  | zero => exact fun _ _ => rfl
  | succ fuel ih =>
    intro msgs q waits filled
    obtain ⟨state, msg, found, more⟩ := waits
    obtain ⟨msg', found', has⟩ := sound.awaitsPayload state
    obtain rfl : msg' = msg := Option.some.inj (found'.symm.trans found)
    have turns : codec.pass q = .next codec none ⟨q.rest, some []⟩ := by
      obtain ⟨header, decoderState, message⟩ := codec
      simp only at state found
      subst state found
      have ran := Message.decodePayload_waits (some []) has more
      rw [pass, MarkedQueue.mark_eq, body]
      simp only [run_bind, ran, run_pure, settle, MarkedQueue.mark_eq]
    have open_ : ReadBuffer.len q > 0 := by
      rw [MarkedQueue.len_eq]
      omega
    rw [loop, if_pos open_, turns]
    exact ih ⟨state, msg', found, more⟩ filled

/-- **`doDecode` returns exactly when the codec does not wait.** -/
theorem terminates_queue_iff {codec : Codec} (sound : codec.Sound) (q : MarkedQueue) :
    codec.Terminates q ↔ ¬ (0 < q.rest.length ∧ codec.Waits q.rest.length) := by
  by_cases empty : ReadBuffer.len q = 0
  · refine iff_of_true ⟨0, _, if_pos empty⟩ fun ⟨filled, _⟩ => ?_
    rw [MarkedQueue.len_eq] at empty
    omega
  · have filled : 0 < q.rest.length := by
      rw [MarkedQueue.len_eq] at empty
      omega
    constructor
    · rintro ⟨fuel, out, ran⟩ ⟨-, waits⟩
      rw [doDecode, if_neg empty, waits_forever sound fuel waits filled] at ran
      cases ran
    · intro ready
      obtain ⟨fuel, out, ran⟩ := loop_returns _ [] sound
        (fun waits => ready ⟨filled, waits⟩) (Nat.lt_succ_self _)
      exact ⟨fuel, out, by rw [doDecode, if_neg empty, ran]⟩

/-! ### On the buffer -/

/-- **The codec and the buffer after some appends**, each followed by a `doDecode` that returned. -/
inductive Reachable : Codec → IoBuffer → Prop
  | new (pool : Pool) (capacity : Int) : Reachable .new (.new pool capacity)
  | feed {codec : Codec} {buf buf' : IoBuffer} {out : Decoded IoBuffer} (pool : Pool) (data : Bytes)
      (reachable : Reachable codec buf) (appended : IoBuffer.append pool data buf = .ok () buf')
      (returned : codec.Returns buf' out) : Reachable out.codec out.buf

theorem Reachable.sound {codec : Codec} {buf : IoBuffer} (reachable : Reachable codec buf) :
    codec.Sound ∧ buf.WF := by
  induction reachable with
  | new pool capacity => exact ⟨new_sound, (new_holds pool capacity).1⟩
  | feed pool data reachable appended returned ih =>
    obtain ⟨sound, wf⟩ := ih
    obtain ⟨_, ran, lands⟩ := IoBuffer.append_lands pool data wf
    rw [appended] at ran
    cases ran
    obtain ⟨out', ⟨fuel, ran⟩, codec, -, -, holds⟩ := Returns.to_queue (lands.grows wf) returned
    exact ⟨codec ▸ doDecode_sound sound ran, holds.1⟩

/-- The codec after a `Subscribe` whose only topic filter lacks its last byte: the read of that byte
found the buffer drained and reset it, so that the three bytes of the filter are gone. -/
def brokenOff : Codec := ⟨some ⟨8, 2, 5⟩, .readPayload, some ⟨⟨8, 2, 3⟩, .subscribe { packetIdentifier := 1 }⟩⟩

theorem subscribe_breaks_off : new.Returns (⟨[0x82, 0x05, 0x00, 0x01, 0x00, 0x01, 0x61], none⟩ : MarkedQueue)
      ⟨brokenOff, [], some .eof, .drained⟩ := ⟨4, rfl⟩

theorem brokenOff_reachable : ∃ buf, Reachable brokenOff buf ∧ Holds buf [] := by
  obtain ⟨buf, appended, lands⟩ := IoBuffer.append_lands .fresh
    [0x82, 0x05, 0x00, 0x01, 0x00, 0x01, 0x61] (new_holds .fresh 0).1
  obtain ⟨out, returned, codec, -, -, holds⟩ :=
    Returns.of_queue (lands.grows (new_holds .fresh 0).1) subscribe_breaks_off
  have reachable : Reachable out.codec out.buf := .feed .fresh _ (.new .fresh 0) appended returned
  rw [codec] at reachable
  exact ⟨out.buf, reachable, holds⟩

/-- **When `doDecode` returns**: for every reachable codec and every buffer, unless the buffer is not
empty and a payload is awaited of which more remains than the buffer holds. -/
theorem terminates_iff {codec : Codec} {used : IoBuffer} (reachable : Reachable codec used)
    {buf : IoBuffer} {content : Bytes} (here : buf.bytes = .ok content) :
    codec.Terminates buf ↔ ¬ (0 < content.length ∧ codec.Waits content.length) := by
  have wf := IoBuffer.wf_of_bytes here
  rw [IoBuffer.bytes_ok wf] at here
  rw [terminates_queue ⟨wf, Except.ok.inj here⟩, terminates_queue_iff reachable.sound.1]

/-- The theorem at a codec that broke off in a payload: it returns from three bytes more, and not from two. -/
theorem terminates_iff_sample : brokenOff.Terminates (IoBuffer.newBytes [0x00, 0x61, 0x00]) ∧
      ¬ brokenOff.Terminates (IoBuffer.newBytes [0x00, 0x61]) := by
  obtain ⟨used, reachable, -⟩ := brokenOff_reachable
  constructor
  · refine (terminates_iff reachable (show (IoBuffer.newBytes [0x00, 0x61, 0x00]).bytes = .ok _ from rfl)).mpr ?_
    rintro ⟨-, -, msg, ⟨⟩, more⟩
    exact absurd more (by decide)
  · refine (not_congr (terminates_iff reachable (show (IoBuffer.newBytes [0x00, 0x61]).bytes = .ok _ from rfl))).mpr ?_
    exact not_not.mpr ⟨by decide, rfl, _, rfl, by decide⟩

/-- **The decoder hangs**: after the bytes `82 05 00 01 00 01 61` and one byte more. -/
theorem subscribe_hangs : ∃ codec buf, Reachable codec buf ∧
      ∃ buf', IoBuffer.append .fresh [0] buf = .ok () buf' ∧ ¬ codec.Terminates buf' := by
  obtain ⟨buf, reachable, holds⟩ := brokenOff_reachable
  obtain ⟨buf', appended, lands⟩ := IoBuffer.append_lands .fresh [0] holds.1
  have content : Holds buf' [0] := holds.lands lands
  refine ⟨brokenOff, buf, reachable, buf', appended, ?_⟩
  rw [terminates_queue content, terminates_queue_iff reachable.sound.1, not_not]
  exact ⟨by decide, rfl, _, rfl, by decide⟩

end Codec

end Strike.Mqtt
