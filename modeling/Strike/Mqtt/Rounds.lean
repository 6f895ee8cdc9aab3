/-
**What one round of the decoding loop does.**

A round on a queue of bytes reads a fixed header, a variable header or a payload. `pass_next` says
everything a round that goes on can have done: from which state, with what taken off the queue, and to
which codec it leads.

* `Message.decodeVariableHeader_spec`: a variable header takes at least two bytes and at most 65541, spends as
  much, and is followed by a payload only in messages that have one.
* `Message.decodePayload_waits`, `Message.decodePayload_done`: a payload is refused exactly when more remains
  than the queue holds, and then nothing changes.
* `Sound`, `Went.sound`: the message and the header kept between rounds belong together.
* `pass_ne_returned`: every header that decodes has a message, so no messages are thrown away.
-/

import Strike.Mqtt.Codec
import Strike.Mqtt.Wire

namespace Strike.Mqtt

open Lib ReadProg

/-! ### Variable headers -/

theorem Connect.readVariableHeader_takes (c : Connect) : c.readVariableHeader.Takes 6 65541 :=
  getString_takes.bind fun _ => getUint8_takes.bind fun _ => getUint8_takes.bind fun _ =>
    getUint16_takes.bind fun _ => Takes.pure _

theorem ConnAck.readVariableHeader_takes : ConnAck.readVariableHeader.Takes 2 2 := by
  have checked (b1 returnCode : UInt8) :
      (if !returnCodeIsValid returnCode then .raise (.error errorInvalidMessage)
        else pure ⟨b1 &&& 0x01 > 0, returnCode⟩ : ReadProg ConnAck).Takes 0 0 :=
    .ite (.raise 0 0 _) (.pure _)
  exact getUint8_takes.bind fun b1 => getUint8_takes.bind fun returnCode => checked b1 returnCode

theorem Publish.readVariableHeader_takes (p : Publish) : p.readVariableHeader.Takes 2 65539 := by
  have identifier (topicName : Bytes) : (getUint16 >>= fun packetIdentifier =>
      (pure { p with topicName, packetIdentifier } : ReadProg Publish)).Takes 0 2 :=
    (getUint16_takes.bind fun _ => .pure _).mono (Nat.zero_le _) le_rfl
  have none (topicName : Bytes) : (pure { p with topicName } : ReadProg Publish).Takes 0 2 :=
    (Takes.pure _).mono le_rfl (Nat.zero_le _)
  exact getString_takes.bind fun topicName => .ite (identifier topicName) (none topicName)

theorem Body.readVariableHeader_takes (body : Body) : body.readVariableHeader.Takes 2 65541 := by
  have identifier (store : UInt16 → Body) :
      (getUint16 >>= fun id => (pure (store id) : ReadProg Body)).Takes 2 65541 :=
    (getUint16_takes.bind fun _ => .pure _).mono (by omega) (by omega)
  cases body with
  | connect c => exact (c.readVariableHeader_takes.bind fun _ => .pure _).mono (by omega) (by omega)
  | connAck c =>
    exact (ConnAck.readVariableHeader_takes.bind fun _ => .pure _).mono (by omega) (by omega)
  | publish p => exact (p.readVariableHeader_takes.bind fun _ => .pure _).mono (by omega) (by omega)
  | pingReq => exact .raise _ _ _
  | pingResp => exact .raise _ _ _
  | disconnect => exact .raise _ _ _
  | _ => exact identifier _

theorem Body.readVariableHeader_type (body : Body) :
    body.readVariableHeader.Ensures fun read => read.type = body.type := by
  cases body with
  | pingReq => trivial
  | pingResp => trivial
  | disconnect => trivial
  | _ => exact .after _ fun _ => rfl

theorem Body.hasPayload_of_type {body body' : Body} (same : body'.type = body.type) :
    body'.hasPayload = body.hasPayload := by
  cases body <;> cases body' <;> first | rfl | cases same

theorem Body.hasPayload_of_incomplete {body : Body} {remainingLength : Int}
    (no : body.completeAfterHeader remainingLength = false) : body.hasPayload := by
  cases body <;> first | rfl | cases no

theorem Header.spend_remainingLength {header : Header} {k : Nat} (nonneg : 0 ≤ header.remainingLength)
    (bound : header.remainingLength ≤ 268435455) (few : k ≤ 268435455) :
    (header.spend k).remainingLength = header.remainingLength - k := by
  show int32 (header.remainingLength - int32 k) = _
  rw [int32_of_fits (by omega : -2 ^ 31 ≤ (k : Int)) (by omega), int32_of_fits (by omega) (by omega)]

variable {q q' : MarkedQueue}

/-- **A variable header.** -/
theorem Message.decodeVariableHeader_spec {m m' : Message} {done : Bool}
    (ran : m.decodeVariableHeader.run q = .ok (m', done) q') :
    ∃ k : Nat, 2 ≤ k ∧ k ≤ 65541 ∧ k ≤ q.rest.length ∧ q'.rest = q.rest.drop k ∧
      m'.header = m.header.spend k ∧ (done = false → m'.body.hasPayload) := by
  obtain ⟨result, q₁, read, ran⟩ := of_run_bind ran
  cases ran
  obtain ⟨k, low, high, inside, rest, count⟩ := m.body.readVariableHeader_takes.counted read
  have type : result.1.type = m.body.type := m.body.readVariableHeader_type.counted.of_run read
  refine ⟨k, low, high, inside, rest, by rw [count], fun no => ?_⟩
  rw [Body.hasPayload_of_type type]
  exact Body.hasPayload_of_incomplete no

/-! ### Payloads -/

/-- **A payload that asks for more than there is** is refused, and nothing changes. -/
theorem Message.decodePayload_waits {m : Message} {rest : Bytes} (undo : Option Bytes)
    (has : m.body.hasPayload) (more : m.header.remainingLength > rest.length) :
    m.decodePayload.run (⟨rest, undo⟩ : MarkedQueue) = .ok (m, false) ⟨rest, undo⟩ := by
  simp only [decodePayload, has, Bool.not_true, Bool.false_eq_true, if_false, run_bind, run_getLen,
    MarkedQueue.len_eq, if_pos more, run_pure]

/-- **Any other payload** completes the message. -/
theorem Message.decodePayload_done {m m' : Message} {done : Bool} {rest : Bytes}
    {undo : Option Bytes} {q' : MarkedQueue} (enough : m.header.remainingLength ≤ rest.length)
    (ran : m.decodePayload.run (⟨rest, undo⟩ : MarkedQueue) = .ok (m', done) q') : done = true := by
  rw [decodePayload] at ran
  split at ran
  · cases ran
  · obtain ⟨n, _, asked, ran⟩ := of_run_bind ran
    cases asked
    rw [MarkedQueue.len_eq, if_neg (not_lt.mpr enough)] at ran
    obtain ⟨result, q₁, -, ran⟩ := of_run_bind ran
    cases ran
    rfl

theorem Publish.readPayload_reads (p : Publish) (data : Bytes) :
    (p.readPayload data.length).Reads data { p with payload := some data } := by
  have natural : ¬ (data.length : Int) < 0 := not_lt.mpr (Int.natCast_nonneg _)
  rw [readPayload, if_neg natural, Int.toNat_natCast]
  have both := (getBytes_reads data).map fun answer => ({ p with
    payload := some (answer.1 ++ List.replicate (data.length - answer.1.length) 0) } : Publish)
  simp only [Nat.sub_self, List.replicate_zero, List.append_nil] at both
  exact both

/-! ### Fixed headers -/

theorem decodeLengthLoop_ensures (rounds : Nat) : ∀ {shift v : Nat}, v < 2 ^ shift → shift + 7 * rounds ≤ 28 →
      (decodeLengthLoop rounds shift v).Ensures fun length => 0 ≤ length ∧ length ≤ 268435455 := by
  induction rounds with
  | zero => exact fun _ _ => trivial
  | succ rounds ih =>
    intro shift v below bits
    refine .after _ fun answer => ?_
    obtain ⟨b, _ | err⟩ := answer
    · obtain ⟨joined, above⟩ := or_group below b
      have total : 2 ^ (shift + 7) ≤ 2 ^ 28 := Nat.pow_le_pow_right (by decide) (by omega)
      show ReadProg.Ensures _ (if b &&& 0x80 = 0 then _ else _)
      rw [joined]
      refine .ite (fun _ => ?_) fun _ => ih above (by omega)
      show (0 : Int) ≤ _ ∧ _
      omega
    · trivial

/-- A decoded header has a valid type and a length of at most 28 bits. -/
theorem Header.decode_ensures : Header.decode.Ensures fun header =>
    typeIsValid header.msgType ∧ 0 ≤ header.remainingLength ∧ header.remainingLength ≤ 268435455 := by
  refine .after _ fun byte1 => .ite (fun _ => trivial) fun valid => ?_
  have length : decodeLength.Ensures fun length => 0 ≤ length ∧ length ≤ 268435455 :=
    .after _ fun _ => .ite (fun _ => decodeLengthLoop_ensures 4 (by decide) (by decide)) fun _ => trivial
  refine length.bind fun _ bounds => ?_
  exact ⟨by simpa using valid, bounds⟩

theorem HeadOf.bounds {head : Bytes} {header : Header} (declares : HeadOf head header) :
    0 ≤ header.remainingLength ∧ header.remainingLength ≤ 268435455 := by
  obtain ⟨undo, ran⟩ := header_reads declares [] none
  exact (Header.decode_ensures.of_run ran).2

theorem ofCode_of_valid {code : UInt8} (valid : typeIsValid code) : ∃ type, MsgType.ofCode code = some type := by
  have bounds : 1 ≤ code.toNat ∧ code.toNat < 15 := by
    simp only [typeIsValid, Bool.and_eq_true, decide_eq_true_eq] at valid
    exact ⟨UInt8.le_iff_toNat_le.mp valid.1, UInt8.lt_iff_toNat_lt.mp valid.2⟩
  obtain ⟨low, high⟩ := bounds
  rw [MsgType.ofCode]
  generalize code.toNat = n at low high
  interval_cases n <;> exact ⟨_, rfl⟩

theorem getUint8_bind_takes {α : Type} {f : UInt8 → ReadProg α} {value : α}
    (ran : (getUint8 >>= f).run q = .ok value q') :
    ∃ k, 1 ≤ k ∧ k ≤ q.rest.length ∧ q'.rest = q.rest.drop k := by
  obtain ⟨rest, undo⟩ := q
  cases rest with
  | nil => cases ran
  | cons first rest =>
    rw [run_bind, getUint8_cons] at ran
    obtain ⟨k, inside, left⟩ := run_rest ran
    refine ⟨k + 1, by omega, ?_, left⟩
    simp only [List.length_cons]
    exact Nat.succ_le_succ inside

/-! ### Rounds -/

namespace Codec

/-! A round, state by state. -/

section Passes

variable {rest : Bytes} {undo : Option Bytes} {header : Header} {msg : Message}

theorem pass_fixedHeader {codec : Codec} {head : Bytes} {type : MsgType}
    (state : codec.decoderState = .readFixedHeader) (declares : HeadOf head header)
    (matched : MsgType.ofCode header.msgType = some type) :
    codec.pass (⟨head ++ rest, undo⟩ : MarkedQueue) =
      let next := settle (some header) .readVariableHeader
        (Message.decodeFixedHeader ⟨header, type.blank⟩)
      .next next.1 next.2 ⟨rest, some []⟩ := by
  obtain ⟨undo', ran⟩ := header_reads declares rest (some [])
  obtain ⟨_, decoderState, _⟩ := codec
  simp only at state
  subst state
  unfold pass body
  simp only [MarkedQueue.mark_eq, run_bind, ran, newMessage, matched, Option.map_some, run_pure]

theorem pass_short (short : int32 rest.length < header.remainingLength) :
    (⟨some header, .readVariableHeader, some msg⟩ : Codec).pass (⟨rest, undo⟩ : MarkedQueue) =
      .panicked (.error errorInvalidRemainingLength) ⟨rest, some []⟩ := by
  unfold pass body
  simp only [MarkedQueue.mark_eq, run_bind, run_getLen, MarkedQueue.len_eq, if_pos short, run_raise]

theorem pass_variableHeader (enough : header.remainingLength ≤ int32 rest.length) :
    (⟨some header, .readVariableHeader, some msg⟩ : Codec).pass (⟨rest, undo⟩ : MarkedQueue) =
      match msg.decodeVariableHeader.run (⟨rest, some []⟩ : MarkedQueue) with
      | .ok result q => .next (settle (some header) .readPayload result).1
          (settle (some header) .readPayload result).2 ⟨q.rest, some []⟩
      | .error cause q => .panicked cause q := by
  unfold pass body
  simp only [MarkedQueue.mark_eq, run_bind, run_getLen, MarkedQueue.len_eq, if_neg (not_lt.mpr enough)]
  cases msg.decodeVariableHeader.run (⟨rest, some []⟩ : MarkedQueue) <;> rfl

theorem pass_payload {kept : Option Header} :
    (⟨kept, .readPayload, some msg⟩ : Codec).pass (⟨rest, undo⟩ : MarkedQueue) =
      match msg.decodePayload.run (⟨rest, some []⟩ : MarkedQueue) with
      | .ok result q => .next (settle kept .readPayload result).1
          (settle kept .readPayload result).2 ⟨q.rest, some []⟩
      | .error cause q => .panicked cause q := by
  unfold pass body
  simp only [MarkedQueue.mark_eq, run_bind]
  cases msg.decodePayload.run (⟨rest, some []⟩ : MarkedQueue) <;> rfl

end Passes

/-- **What a round that goes on has done**: the state it started from, the reads, and where `settle`
leads from their result. -/
inductive Went (codec : Codec) (q : MarkedQueue) (codec' : Codec) (emitted : Option Message)
    (q' : MarkedQueue) : Prop
  | fixedHeader (header : Header) (type : MsgType) (k : Nat)
      (state : codec.decoderState = .readFixedHeader)
      (taken : 1 ≤ k) (inside : k ≤ q.rest.length) (rest : q'.rest = q.rest.drop k)
      (matched : MsgType.ofCode header.msgType = some type)
      (nonneg : 0 ≤ header.remainingLength) (bound : header.remainingLength ≤ 268435455)
      (settled : (codec', emitted) = settle (some header) .readVariableHeader
        (Message.decodeFixedHeader ⟨header, type.blank⟩))
  | variableHeader (header : Header) (msg : Message) (result : Message × Bool) (q₁ : MarkedQueue)
      (state : codec.decoderState = .readVariableHeader) (has : codec.header = some header)
      (found : codec.msg = some msg) (enough : header.remainingLength ≤ int32 q.rest.length)
      (ran : msg.decodeVariableHeader.run (⟨q.rest, some []⟩ : MarkedQueue) = .ok result q₁)
      (rest : q'.rest = q₁.rest) (settled : (codec', emitted) = settle (some header) .readPayload result)
  | payload (msg : Message) (result : Message × Bool) (q₁ : MarkedQueue)
      (state : codec.decoderState = .readPayload) (found : codec.msg = some msg)
      (ran : msg.decodePayload.run (⟨q.rest, some []⟩ : MarkedQueue) = .ok result q₁)
      (rest : q'.rest = q₁.rest)
      (settled : (codec', emitted) = settle codec.header .readPayload result)

variable {codec codec' : Codec} {emitted : Option Message}

theorem pass_ran {B : Type} [ReadBuffer B] {b b' : B} (went : codec.pass b = .next codec' emitted b') :
    ∃ b₁, codec.body.run (ReadBuffer.mark b) = .ok (some (codec', emitted)) b₁ ∧
      b' = ReadBuffer.mark b₁ := by
  rw [pass] at went
  split at went
  · next ran =>
      cases went
      exact ⟨_, ran, rfl⟩
  · cases went
  · cases went

theorem pass_next (went : codec.pass q = .next codec' emitted q') : Went codec q codec' emitted q' := by
  obtain ⟨q₁, ran, rfl⟩ := pass_ran went
  obtain ⟨header, state, msg⟩ := codec
  cases state with
  | readFixedHeader =>
    obtain ⟨header, q₂, read, ran⟩ := of_run_bind ran
    obtain ⟨k, taken, inside, rest⟩ := getUint8_bind_takes read
    obtain ⟨valid, nonneg, bound⟩ := Header.decode_ensures.of_run read
    obtain ⟨type, matched⟩ := ofCode_of_valid valid
    rw [newMessage, matched, Option.map_some] at ran
    obtain ⟨settled, rfl⟩ := EStateM.Result.ok.inj ran
    exact .fixedHeader header type k rfl taken inside rest matched nonneg bound
      (Option.some.inj settled).symm
  | readVariableHeader =>
    obtain _ | header := header <;> obtain _ | msg := msg
    · cases ran
    · cases ran
    · cases ran
    · obtain ⟨n, _, asked, ran⟩ := of_run_bind ran
      cases asked
      split at ran
      · cases ran
      · next enough =>
          obtain ⟨result, q₂, read, ran⟩ := of_run_bind ran
          obtain ⟨settled, rfl⟩ := EStateM.Result.ok.inj ran
          exact .variableHeader header msg result q₂ rfl rfl rfl (not_lt.mp enough) read rfl
            (Option.some.inj settled).symm
  | readPayload =>
    obtain _ | msg := msg
    · cases header <;> cases ran
    · have ran' : (msg.decodePayload >>= fun result =>
          (pure (some (settle header .readPayload result)) : ReadProg _)).run
            (⟨q.rest, some []⟩ : MarkedQueue) = .ok (some (codec', emitted)) q₁ := by
        cases header <;> exact ran
      obtain ⟨result, q₂, read, ran'⟩ := of_run_bind ran'
      obtain ⟨settled, rfl⟩ := EStateM.Result.ok.inj ran'
      exact .payload msg result q₂ rfl rfl read rfl (Option.some.inj settled).symm

/-- **No round returns early**: every header that decodes has its message. -/
theorem pass_ne_returned {B : Type} [ReadBuffer B] {codec : Codec} {b b' : B} : codec.pass b ≠ .returned b' := by
  have matched : codec.body.Ensures fun result => result ≠ none := by
    rw [body]
    split
    · refine Header.decode_ensures.bind fun header ⟨valid, _⟩ => ?_
      obtain ⟨type, found⟩ := ofCode_of_valid valid
      rw [newMessage, found]
      exact Option.some_ne_none _
    · exact .after _ fun _ => .ite (fun _ => trivial) fun _ => .after _ fun _ => Option.some_ne_none _
    · exact .after _ fun _ => Option.some_ne_none _
    · trivial
  intro returned
  rw [pass] at returned
  split at returned
  · cases returned
  · next ran => exact matched.of_run ran rfl
  · cases returned

/-! ### What is kept between rounds -/

/-- **The header and the message of a codec belong together**: while the variable header is awaited
the message still has the header's length, and a message whose payload is awaited has one. -/
structure Sound (codec : Codec) : Prop where
  awaitsHeader : codec.decoderState = .readVariableHeader → ∀ header msg, codec.header = some header →
    codec.msg = some msg → msg.header = header ∧ 0 ≤ header.remainingLength ∧
      header.remainingLength ≤ 268435455
  awaitsPayload : codec.decoderState = .readPayload → ∃ msg, codec.msg = some msg ∧ msg.body.hasPayload

theorem new_sound : new.Sound := ⟨(nomatch ·), (nomatch ·)⟩

theorem decodeFixedHeader_header (m : Message) : m.decodeFixedHeader.1.header = m.header := by
  obtain ⟨header, body⟩ := m
  cases body <;> rfl

theorem sound_of_done (header : Option Header) : Sound ⟨header, .readFixedHeader, none⟩ := ⟨(nomatch ·), (nomatch ·)⟩

/-- **A round keeps header and message together.** -/
theorem Went.sound (went : Went codec q codec' emitted q') (sound : codec.Sound) : codec'.Sound := by
  cases went with
  | fixedHeader header type k state taken inside rest matched nonneg bound settled =>
    have same := decodeFixedHeader_header ⟨header, type.blank⟩
    generalize Message.decodeFixedHeader ⟨header, type.blank⟩ = result at same settled
    obtain ⟨m, _ | _⟩ := result
    · cases settled
      refine ⟨fun _ header' msg has found => ?_, (nomatch ·)⟩
      cases has
      cases found
      exact ⟨same, nonneg, bound⟩
    · cases settled
      exact sound_of_done _
  | variableHeader header msg result q₁ state has found enough ran rest settled =>
    obtain ⟨k, -, -, -, -, -, has⟩ := Message.decodeVariableHeader_spec ran
    obtain ⟨m, _ | _⟩ := result
    · cases settled
      exact ⟨(nomatch ·), fun _ => ⟨m, rfl, has rfl⟩⟩
    · cases settled
      exact sound_of_done _
  | payload msg result q₁ state found ran rest settled =>
    obtain ⟨m, _ | _⟩ := result
    · cases settled
      -- A payload that does not complete the message leaves the message alone.
      have more : msg.header.remainingLength > q.rest.length := by
        by_contra enough
        exact Bool.false_ne_true (Message.decodePayload_done (not_lt.mp enough) ran)
      obtain ⟨msg', found', has⟩ := sound.awaitsPayload state
      obtain rfl : msg' = msg := Option.some.inj (found'.symm.trans found)
      rw [Message.decodePayload_waits _ has more] at ran
      cases ran
      exact ⟨(nomatch ·), fun _ => ⟨_, rfl, has⟩⟩
    · cases settled
      exact sound_of_done _

/-- **A whole call keeps header and message together.** -/
theorem loop_sound (fuel : Nat) :
    ∀ {codec : Codec} {msgs : List Message} {q : MarkedQueue} {out : Decoded MarkedQueue},
      codec.Sound → codec.loop fuel msgs q = some out → out.codec.Sound := by
  induction fuel with
  | zero => exact fun _ ran => nomatch ran
  | succ fuel ih =>
    intro codec msgs q out sound ran
    rw [loop] at ran
    split at ran
    · split at ran
      · next went => exact ih ((pass_next went).sound sound) ran
      · next returned => exact absurd returned pass_ne_returned
      · cases ran
        rw [recover]
        split <;> exact sound
    · cases ran
      exact sound

theorem doDecode_sound {fuel : Nat} {codec : Codec} {q : MarkedQueue} {out : Decoded MarkedQueue}
    (sound : codec.Sound) (ran : codec.doDecode fuel q = some out) : out.codec.Sound := by
  rw [doDecode] at ran
  split at ran
  · cases ran
    exact sound
  · exact loop_sound fuel sound ran

end Codec

end Strike.Mqtt
