/-
**MQTT framing.**

`firstPacket` is the loop of `doDecode` up to its first message or panic (`loop_firstPacket`). A packet
is framed well (`Frames`) if it comes out as a message with exactly its declared body taken off the
buffer, or is rejected by a panic that no byte behind the body was read for.

The decoders never look at the declared length while they read the fields, so this depends on where the
fields end. `FieldsEnd` says where they have to.

* `frames_iff`: a packet with any head, body and tail is framed well exactly when its fields end with
  the body, or break off within it, or it is rejected before its fields are read.
* `pingReq_leaves_body`: a `PingReq` that declares a body.
-/

import Strike.Mqtt.Layout

namespace Strike.Mqtt

open Lib ReadProg

namespace Codec

/-- What becomes of the first packet, with the codec and the buffer at that moment. -/
inductive First (B : Type) where
  | produced (codec : Codec) (msg : Message) (buf : B)
  | rejected (codec : Codec) (cause : Panic) (buf : B)
  | waiting (codec : Codec) (buf : B)
  | turning

section First

variable {B : Type} [ReadBuffer B]

/-- The loop up to the first message, panic or end of the buffer. -/
def firstPacket : Nat → Codec → B → First B
  | 0, _, _ => .turning
  | rounds + 1, codec, buf =>
    if ReadBuffer.len buf > 0 then
      match codec.pass buf with
      | .next codec' (some msg) buf' => .produced codec' msg buf'
      | .next codec' none buf' => firstPacket rounds codec' buf'
      | .returned buf' => .rejected codec (.error (.new "No matched message ")) buf'
      | .panicked cause buf' => .rejected codec cause buf'
    else .waiting codec buf

/-- **The loop starts with the first packet**: from its message it goes on collecting, and without one
it returns what the deferred function returns, or what it has. -/
theorem loop_firstPacket (rounds : Nat) (msgs : List Message) :
    ∀ (codec : Codec) (buf : B), match firstPacket rounds codec buf with
      | .produced codec' msg buf' =>
        ∃ k, ∀ fuel, codec.loop (fuel + k) msgs buf = codec'.loop fuel (msgs ++ [msg]) buf'
      | .rejected codec' cause buf' =>
        ∃ k, codec.loop k msgs buf = some (recover codec' msgs cause buf')
      | .waiting codec' buf' => ∃ k, codec.loop k msgs buf = some ⟨codec', msgs, none, buf'⟩
      | .turning => True := by
  induction rounds with
  | zero => exact fun _ _ => trivial
  | succ rounds ih =>
    intro codec buf
    unfold firstPacket
    by_cases more : ReadBuffer.len buf > 0
    · rw [if_pos more]
      cases result : codec.pass buf with
      | next codec' emitted buf' =>
        have turn (fuel : Nat) :
            codec.loop (fuel + 1) msgs buf = loop fuel codec' (msgs ++ emitted.toList) buf' := by
          simp only [loop, if_pos more, result]
        cases emitted with
        | some msg => exact ⟨1, fun fuel => turn fuel⟩
        | none =>
          rw [Option.toList_none, List.append_nil] at turn
          have rest := ih codec' buf'
          simp only
          generalize firstPacket rounds codec' buf' = first at rest ⊢
          cases first with
          | produced codec'' msg buf'' =>
            obtain ⟨k, goes⟩ := rest
            exact ⟨k + 1, fun fuel => (turn (fuel + k)).trans (goes fuel)⟩
          | rejected codec'' cause buf'' =>
            obtain ⟨k, goes⟩ := rest
            exact ⟨k + 1, (turn k).trans goes⟩
          | waiting codec'' buf'' =>
            obtain ⟨k, goes⟩ := rest
            exact ⟨k + 1, (turn k).trans goes⟩
          | turning => trivial
      | returned buf' => exact absurd result pass_ne_returned
      | panicked cause buf' => exact ⟨1, by simp only [loop, if_pos more, result]⟩
    · rw [if_neg more]
      exact ⟨1, by rw [loop, if_neg more]⟩

variable {rounds : Nat} (msgs : List Message) {codec codec' : Codec} {buf buf' : B}

theorem loop_of_produced {msg : Message} (first : firstPacket rounds codec buf = .produced codec' msg buf') :
    ∃ k, ∀ fuel, codec.loop (fuel + k) msgs buf = codec'.loop fuel (msgs ++ [msg]) buf' := by
  have goes := loop_firstPacket rounds msgs codec buf
  rwa [first] at goes

theorem loop_of_rejected {cause : Panic} (first : firstPacket rounds codec buf = .rejected codec' cause buf') :
    ∃ k, codec.loop k msgs buf = some (recover codec' msgs cause buf') := by
  have goes := loop_firstPacket rounds msgs codec buf
  rwa [first] at goes

end First

section Simulation

variable {B C : Type} [ReadBuffer B] [ReadBuffer C] {same marked : B → C → Prop}

/-- Two first packets that end alike. -/
def SameFirst (same : B → C → Prop) : First B → First C → Prop
  | .produced codec msg b, .produced codec' msg' c => codec = codec' ∧ msg = msg' ∧ same b c
  | .rejected codec cause b, .rejected codec' cause' c =>
    codec = codec' ∧ cause = cause' ∧ same b c
  | .waiting codec b, .waiting codec' c => codec = codec' ∧ same b c
  | .turning, .turning => True
  | _, _ => False

theorem firstPacket_sim (sim : Simulation same marked) (rounds : Nat) : ∀ (codec : Codec) {b : B} {c : C}, same b c →
      SameFirst same (firstPacket rounds codec b) (firstPacket rounds codec c) := by
  induction rounds with
  | zero => exact fun _ _ _ _ => trivial
  | succ rounds ih =>
    intro codec b c related
    have passes := pass_sim sim codec related
    unfold firstPacket
    rw [sim.len related]
    split
    · cases left : codec.pass b <;> cases right : codec.pass c <;> rw [left, right] at passes <;>
        try exact passes.elim
      · obtain ⟨rfl, rfl, related⟩ := passes
        next emitted _ _ =>
          cases emitted with
          | none => exact ih _ related
          | some msg => exact ⟨rfl, rfl, related⟩
      · exact ⟨rfl, rfl, passes⟩
      · exact ⟨rfl, passes.1, sim.forget passes.2⟩
    · exact ⟨rfl, related⟩

end Simulation

/-- **The packet in front of `tail` is framed well**: its message leaves exactly the tail, or it is
rejected with the tail unread. -/
def Frames (buf : IoBuffer) (tail : Bytes) : Prop :=
  match firstPacket 3 new buf with
  | .produced _ _ buf' => buf'.bytes = .ok tail
  | .rejected _ _ buf' => ∃ left, buf'.bytes = .ok left ∧ tail.length ≤ left.length
  | .waiting _ _ => False
  | .turning => False

end Codec

/-! ### Where the fields have to end -/

/-- The fields of the variable header. -/
def headerFields (type : MsgType) (flag : UInt8) : List Field :=
  match type with
  | .connect => [.text, .byte, .byte, .word]
  | .connAck => [.byte, .byte]
  | .publish => if Qos.hasId ((flag &&& 0x06) >>> 1) then [.text, .word] else [.text]
  | .pingReq => []
  | .pingResp => []
  | .disconnect => []
  | _ => [.word]

/-- The row ends as it should, or breaks off within the first `length` bytes. -/
def Reach.EndsWell (length : Nat) (ends : Nat → Prop) : Reach → Prop
  | .ends k => ends k
  | .breaks k => k ≤ length

/-- A row that starts at `k` ends with the first `length` bytes, or breaks off within them. -/
def RowEnds (fields : List Field) (k length : Nat) (bytes : Bytes) : Prop :=
  ((walk fields (bytes.drop k)).shift k).EndsWell length (· = length)

/-- What has to hold behind a variable header of `k` bytes. -/
def PayloadEnds (type : MsgType) (length : Nat) (bytes : Bytes) (k : Nat) : Prop :=
  match type with
  -- The flags decide which texts follow, and they are read even if nothing remains.
  | .connect => k < bytes.length ∧ RowEnds (connectFields (connectFlags (bytes.take k))) k length bytes
  | .connAck => if returnCodeIsValid (bytes.getD 1 0) then k = length else k ≤ length
  -- The payload is whatever remains.
  | .publish => k ≤ length
  -- One entry is read, however many there are.
  | .subscribe => k = length ∨ k < length ∧ RowEnds [.text, .byte] k length bytes
  | .subAck => k = length ∨ k < length ∧ RowEnds [.byte] k length bytes
  | .unsubscribe => k = length ∨ k < length ∧ RowEnds [.text] k length bytes
  | _ => k = length

/-- **The fields of the packet end with its body.** `bytes` are those behind the fixed header, of which
the first `length` are the body. -/
def FieldsEnd (type : MsgType) (flag : UInt8) (length : Nat) (bytes : Bytes) : Prop :=
  match type with
  -- These messages are complete without a body, whatever length they declare.
  | .pingReq => length = 0
  | .pingResp => length = 0
  | .disconnect => length = 0
  -- The buffer's length is narrowed to 32 bits, which may reject a complete packet.
  | _ => int32 bytes.length < length ∨ bytes ≠ [] ∧
      (walk (headerFields type flag) bytes).EndsWell length (PayloadEnds type length bytes)

/-! ### The first packet on a queue -/

namespace Codec

/-- The queue's view of `Frames`. -/
def QueueFrames (tail : Bytes) : First MarkedQueue → Prop
  | .produced _ _ q => q.rest = tail
  | .rejected _ _ q => tail.length ≤ q.rest.length
  | .waiting _ _ => False
  | .turning => False

theorem frames_queue {buf : IoBuffer} {content tail : Bytes} (holds : Holds buf content) :
    Frames buf tail ↔ QueueFrames tail (firstPacket 3 new (⟨content, none⟩ : MarkedQueue)) := by
  have same := firstPacket_sim reading_simulation 3 new (c := ⟨content, none⟩) holds
  unfold Frames
  cases left : firstPacket 3 new buf <;>
    cases right : firstPacket 3 new (⟨content, none⟩ : MarkedQueue) <;> rw [left, right] at same <;>
    try exact same.elim
  · obtain ⟨-, -, wf, contents⟩ := same
    simp only [IoBuffer.bytes_ok wf, contents, Except.ok.injEq]
    rfl
  · obtain ⟨-, -, wf, contents⟩ := same
    simp only [IoBuffer.bytes_ok wf, contents, Except.ok.injEq, exists_eq_left']
    rfl
  · rfl
  · rfl

section Positions

variable {bytes tail : Bytes} {length k : Nat}

theorem drop_eq_tail_iff (inside : length ≤ bytes.length) (split : bytes.drop length = tail)
    (le : k ≤ bytes.length) : bytes.drop k = tail ↔ k = length := by
  constructor
  · intro same
    have sizes := congrArg List.length (same.trans split.symm)
    rw [List.length_drop, List.length_drop] at sizes
    omega
  · rintro rfl
    exact split

theorem tail_le_drop_iff (inside : length ≤ bytes.length) (split : bytes.drop length = tail)
    (le : k ≤ bytes.length) : tail.length ≤ (bytes.drop k).length ↔ k ≤ length := by
  rw [← split, List.length_drop, List.length_drop]
  omega

end Positions

theorem frames_nothing {tail : Bytes} {rounds : Nat} {codec : Codec} {undo : Option Bytes} :
    ¬ QueueFrames tail (firstPacket rounds codec (⟨[], undo⟩ : MarkedQueue)) := by
  cases rounds <;> exact id

/-! ### The packet behind its fixed header -/

section Behind

variable {bytes tail : Bytes} {length : Nat}

/-- The packet of `m` behind its variable header. -/
def afterHeader (m : Message) (header : Header) (body : Body) (rest : Bytes) : First MarkedQueue :=
  if m.body.completeAfterHeader header.remainingLength then
    .produced ⟨some m.header, .readFixedHeader, none⟩ ⟨header, body⟩ ⟨rest, some []⟩
  else firstPacket 1 ⟨some m.header, .readPayload, some ⟨header, body⟩⟩ (⟨rest, some []⟩ : MarkedQueue)

theorem decodeVariableHeader_shows {m : Message} {reach : Reach} {post : Bytes → Body → Prop}
    (within : reach.Within bytes.length)
    (shown : reach.Shows bytes post (m.body.readVariableHeader.run (⟨bytes, some []⟩ : MarkedQueue))) :
    reach.Shows bytes (fun taken result => post taken result.1.body ∧
        result.2 = m.body.completeAfterHeader result.1.header.remainingLength)
      (m.decodeVariableHeader.run (⟨bytes, some []⟩ : MarkedQueue)) :=
  (shown.counted within).map
    (fun result => ((⟨m.header.spend result.2, result.1⟩ : Message),
      m.body.completeAfterHeader (m.header.spend result.2).remainingLength))
    fun _ _ read => ⟨read.1, rfl⟩

/-- A packet is rejected while the buffer seems too short, and waits if there is nothing. Otherwise its
variable header is read. -/
theorem frames_variableHeader (m : Message) {reach : Reach} {post : Bytes → Body → Prop}
    {ends : Nat → Prop} (declared : m.header.remainingLength = length) (bound : length ≤ 268435455)
    (inside : length ≤ bytes.length) (left : bytes.drop length = tail)
    (within : reach.Within bytes.length)
    (shown : reach.Shows bytes post (m.body.readVariableHeader.run (⟨bytes, some []⟩ : MarkedQueue)))
    (after : ∀ {k : Nat} {header : Header} {body : Body}, k ≤ bytes.length → post (bytes.take k) body →
      header.remainingLength = (length : Int) - k →
        (QueueFrames tail (afterHeader m header body (bytes.drop k)) ↔ ends k)) :
    QueueFrames tail (firstPacket 2 ⟨some m.header, .readVariableHeader, some m⟩
        (⟨bytes, some []⟩ : MarkedQueue)) ↔
      int32 bytes.length < length ∨ bytes ≠ [] ∧ reach.EndsWell length ends := by
  by_cases empty : bytes = []
  · subst empty
    have nothing : ¬ int32 ([] : Bytes).length < length := by
      show ¬ (0 : Int) < length
      exact not_lt.mpr (Int.ofNat_le.mpr inside)
    simp only [frames_nothing, nothing, ne_eq, not_true_eq_false, false_and, or_self]
  · have more : ReadBuffer.len (⟨bytes, some []⟩ : MarkedQueue) > 0 :=
      Int.natCast_pos.mpr (List.length_pos_iff.mpr empty)
    rw [firstPacket, if_pos more]
    by_cases short : int32 bytes.length < m.header.remainingLength
    · rw [pass_short short]
      rw [declared] at short
      refine iff_of_true ?_ (.inl short)
      show tail.length ≤ bytes.length
      rw [← left, List.length_drop]
      exact Nat.sub_le _ _
    · rw [pass_variableHeader (not_lt.mp short)]
      rw [declared] at short
      have decoded := decodeVariableHeader_shows within shown
      simp only [short, ne_eq, empty, not_false_eq_true, true_and, false_or]
      rcases reach with k | k
      · obtain ⟨⟨⟨header, body⟩, done⟩, undo, ran, read, complete⟩ := decoded
        obtain ⟨k', -, few, le, rest, spent, -⟩ := Message.decodeVariableHeader_spec ran
        obtain rfl : k' = k := by
          have sizes := congrArg List.length rest
          have le' : k ≤ bytes.length := within
          simp only [List.length_drop] at sizes
          simp only at le
          omega
        simp only at spent complete
        have remains : header.remainingLength = (length : Int) - k' := by
          rw [spent, Header.spend_remainingLength (by omega) (by omega) (by omega), declared]
        rw [ran, Reach.EndsWell, ← after within read remains, afterHeader, complete]
        cases m.body.completeAfterHeader header.remainingLength <;> rfl
      · obtain ⟨cause, undo, ran⟩ := decoded
        rw [ran]
        exact tail_le_drop_iff inside left within

theorem decodePayload_shows {m : Message} {rest : Bytes} {reach : Reach}
    (within : reach.Within rest.length) (has : m.body.hasPayload)
    (enough : m.header.remainingLength ≤ rest.length)
    (shown : reach.Shows rest (fun _ _ => True)
      ((m.body.readPayload m.header.remainingLength).run (⟨rest, some []⟩ : MarkedQueue))) :
    reach.Shows rest (fun _ result => result.2 = true)
      (m.decodePayload.run (⟨rest, some []⟩ : MarkedQueue)) := by
  have decoded : reach.Shows rest (fun _ (result : Message × Bool) => result.2 = true) _ :=
    (shown.counted within).map (fun result =>
      ((⟨if m.body.spendsPayload then m.header.spend result.2 else m.header, result.1⟩ : Message), true))
      fun _ _ _ => rfl
  simp only [Message.decodePayload, has, Bool.not_true, Bool.false_eq_true, if_false, run_bind,
    run_getLen, MarkedQueue.len_eq, if_neg (not_lt.mpr enough)]
  simpa only [run_bind] using decoded

theorem frames_payload {m : Message} {kept : Option Header} {k : Nat} {reach : Reach}
    (inside : length ≤ bytes.length) (left : bytes.drop length = tail) (more : k < bytes.length)
    (within : reach.Within (bytes.drop k).length) (has : m.body.hasPayload)
    (enough : m.header.remainingLength ≤ (bytes.drop k).length)
    (shown : reach.Shows (bytes.drop k) (fun _ _ => True)
      ((m.body.readPayload m.header.remainingLength).run (⟨bytes.drop k, some []⟩ : MarkedQueue))) :
    QueueFrames tail (firstPacket 1 ⟨kept, .readPayload, some m⟩
        (⟨bytes.drop k, some []⟩ : MarkedQueue)) ↔ (reach.shift k).EndsWell length (· = length) := by
  have filled : ReadBuffer.len (⟨bytes.drop k, some []⟩ : MarkedQueue) > 0 := by
    rw [MarkedQueue.len_eq, List.length_drop]
    omega
  have decoded := decodePayload_shows within has enough shown
  have shifted : (reach.shift k).Within bytes.length := by
    rw [List.length_drop] at within
    exact within.shift more.le
  rw [firstPacket, if_pos filled, pass_payload]
  rcases reach with l | l
  · obtain ⟨⟨msg, done⟩, undo, ran, complete⟩ := decoded
    simp only at complete
    subst complete
    rw [ran, List.drop_drop]
    exact drop_eq_tail_iff inside left shifted
  · obtain ⟨cause, undo, ran⟩ := decoded
    rw [ran, List.drop_drop]
    exact tail_le_drop_iff inside left shifted

/-! Behind the variable header, by what the message does next. -/

section After

variable {m : Message} {header : Header} {body : Body} {k : Nat} (inside : length ≤ bytes.length)
  (left : bytes.drop length = tail) (le : k ≤ bytes.length)
  (remains : header.remainingLength = (length : Int) - k)

include inside left le

theorem after_complete (complete : m.body.completeAfterHeader header.remainingLength) :
    QueueFrames tail (afterHeader m header body (bytes.drop k)) ↔ k = length := by
  rw [afterHeader, if_pos complete]
  exact drop_eq_tail_iff inside left le

include remains

omit le in
theorem after_payload {reach : Reach} (within : reach.Within (bytes.drop k).length)
    (goes : m.body.completeAfterHeader header.remainingLength = false) (has : body.hasPayload)
    (shown : reach.Shows (bytes.drop k) (fun _ _ => True)
      ((body.readPayload header.remainingLength).run (⟨bytes.drop k, some []⟩ : MarkedQueue))) :
    QueueFrames tail (afterHeader m header body (bytes.drop k)) ↔
      k < bytes.length ∧ (reach.shift k).EndsWell length (· = length) := by
  rw [afterHeader, if_neg (Bool.not_eq_true _ ▸ goes)]
  by_cases more : k < bytes.length
  · have enough : header.remainingLength ≤ (bytes.drop k).length := by
      rw [remains, List.length_drop]
      omega
    rw [frames_payload inside left more within has enough shown, and_iff_right more]
  · rw [List.drop_eq_nil_of_le (not_lt.mp more)]
    exact iff_of_false frames_nothing fun ends => more ends.1

theorem after_remaining {reach : Reach} (within : reach.Within (bytes.drop k).length)
    (closes : ∀ rest, m.body.completeAfterHeader rest = (rest == 0)) (has : body.hasPayload)
    (shown : reach.Shows (bytes.drop k) (fun _ _ => True)
      ((body.readPayload header.remainingLength).run (⟨bytes.drop k, some []⟩ : MarkedQueue))) :
    QueueFrames tail (afterHeader m header body (bytes.drop k)) ↔
      k = length ∨ k < bytes.length ∧ (reach.shift k).EndsWell length (· = length) := by
  by_cases done : k = length
  · have complete : m.body.completeAfterHeader header.remainingLength := by
      rw [closes, remains, done, Int.sub_self]
      rfl
    rw [after_complete inside left le complete]
    exact iff_of_true done (.inl done)
  · have goes : m.body.completeAfterHeader header.remainingLength = false := by
      rw [closes, remains]
      exact beq_false_of_ne (by omega)
    rw [after_payload inside left remains within goes has shown]
    exact ⟨.inr, fun either => either.resolve_left done⟩

theorem after_entry {α : Type} {fields : List Field} {post : Bytes → α → Prop} {entry : ReadProg α}
    (reads : Follows fields post entry) (store : List α → Body)
    (closes : ∀ rest, m.body.completeAfterHeader rest = (rest == 0)) (has : body.hasPayload)
    (payload : body.readPayload header.remainingLength =
      getEntry header.remainingLength entry >>= fun entries => pure (store entries)) :
    QueueFrames tail (afterHeader m header body (bytes.drop k)) ↔
      k = length ∨ k < length ∧ RowEnds fields k length bytes := by
  by_cases some_ : k < length
  · have positive : header.remainingLength > 0 := by omega
    have shown : (walk fields (bytes.drop k)).Shows (bytes.drop k) (fun _ _ => True)
        ((body.readPayload header.remainingLength).run (⟨bytes.drop k, some []⟩ : MarkedQueue)) := by
      have entries : Follows fields (fun _ _ => True) (entry >>= fun value => pure [value]) :=
        reads.map (fun value => [value]) fun _ _ _ => trivial
      rw [payload, getEntry, if_pos positive]
      exact (entries _ _).map store fun _ _ _ => trivial
    rw [after_remaining inside left le remains (walk_within fields _) closes has shown]
    exact or_congr_right (and_congr_left' ⟨fun _ => some_, fun _ => some_.trans_le inside⟩)
  · have none : ¬ header.remainingLength > 0 := by omega
    have shown : (Reach.ends 0).Shows (bytes.drop k) (fun _ _ => True)
        ((body.readPayload header.remainingLength).run (⟨bytes.drop k, some []⟩ : MarkedQueue)) := by
      rw [payload, getEntry, if_neg none]
      exact ⟨store [], some [], rfl, trivial⟩
    rw [after_remaining inside left le remains (Nat.zero_le _) closes has shown]
    constructor
    · rintro (done | ⟨-, done⟩)
      · exact .inl done
      · exact .inl done
    · rintro (done | ⟨less, -⟩)
      · exact .inl done
      · exact absurd less some_

theorem after_rest {p p' : Publish} (is : m.body = .publish p) :
    QueueFrames tail (afterHeader m header (.publish p') (bytes.drop k)) ↔ k ≤ length := by
  have closes (rest : Int) : m.body.completeAfterHeader rest = (rest == 0) := by rw [is]; rfl
  by_cases some_ : k ≤ length
  · have taken : ((bytes.drop k).take (length - k)).length = length - k := by
      rw [List.length_take, List.length_drop]
      omega
    have within : (Reach.ends (length - k)).Within (bytes.drop k).length := by
      show length - k ≤ _
      rw [List.length_drop]
      omega
    have shown : (Reach.ends (length - k)).Shows (bytes.drop k) (fun _ _ => True)
        ((Body.readPayload header.remainingLength (.publish p')).run
          (⟨bytes.drop k, some []⟩ : MarkedQueue)) := by
      have reads := (p'.readPayload_reads ((bytes.drop k).take (length - k))).map Body.publish
      rw [taken] at reads
      obtain ⟨undo, ran⟩ := reads ((bytes.drop k).drop (length - k)) (some [])
      rw [List.take_append_drop] at ran
      rw [remains, ← Int.ofNat_sub some_]
      exact ⟨_, undo, ran, trivial⟩
    rw [after_remaining inside left le remains within closes rfl shown]
    refine iff_of_true ?_ some_
    rcases some_.eq_or_lt with done | less
    · exact .inl done
    · exact .inr ⟨less.trans_le inside, Nat.add_sub_cancel' some_⟩
  · have shown : (Reach.breaks 0).Shows (bytes.drop k) (fun _ _ => True)
        ((Body.readPayload header.remainingLength (.publish p')).run
          (⟨bytes.drop k, some []⟩ : MarkedQueue)) := by
      have negative : header.remainingLength < 0 := by omega
      rw [Body.readPayload, Publish.readPayload, if_pos negative]
      exact ⟨makeSliceLen, some [], rfl⟩
    rw [after_remaining inside left le remains (Nat.zero_le _) closes rfl shown]
    refine iff_of_false ?_ some_
    rintro (done | ⟨-, within⟩)
    · exact some_ done.le
    · exact some_ within

end After

/-! ### Every type of packet -/

/-- How far the variable header of a `ConnAck` reaches: a return code that is not valid is refused. -/
def connAckReach : Bytes → Reach
  | [] => .breaks 0
  | [_] => .breaks 1
  | _ :: code :: _ => if returnCodeIsValid code then .ends 2 else .breaks 2

theorem connAckReach_cons (b1 code : UInt8) (rest : Bytes) :
    connAckReach (b1 :: code :: rest) = if returnCodeIsValid code then .ends 2 else .breaks 2 := rfl

theorem connAckReach_shows (bytes : Bytes) : (connAckReach bytes).Shows bytes (fun _ _ => True)
    (ConnAck.readVariableHeader.run (⟨bytes, some []⟩ : MarkedQueue)) := by
  match bytes with
  | [] => exact ⟨_, _, rfl⟩
  | [_] => exact ⟨_, _, rfl⟩
  | b1 :: code :: rest =>
    rw [connAckReach_cons]
    by_cases valid : returnCodeIsValid code
    · rw [if_pos valid]
      refine ⟨⟨b1 &&& 0x01 > 0, code⟩, some [b1, code], ?_, trivial⟩
      simp [ConnAck.readVariableHeader, valid]
    · rw [if_neg valid]
      refine ⟨.error errorInvalidMessage, some [b1, code], ?_⟩
      simp [ConnAck.readVariableHeader, valid]

theorem connAckReach_within (bytes : Bytes) : (connAckReach bytes).Within bytes.length := by
  match bytes with
  | [] => exact le_rfl
  | [_] => exact le_rfl
  | b1 :: code :: rest =>
    have two : 2 ≤ (b1 :: code :: rest).length := Nat.le_add_left 2 _
    rw [connAckReach_cons]
    split
    · exact two
    · exact two

theorem connAckReach_ends (bytes : Bytes) (length : Nat) : (connAckReach bytes).EndsWell length (· = length) ↔
      (walk [.byte, .byte] bytes).EndsWell length (PayloadEnds .connAck length bytes) := by
  match bytes with
  | [] => rfl
  | [_] => rfl
  | b1 :: code :: rest =>
    show _ ↔ if returnCodeIsValid code then 2 = length else 2 ≤ length
    rw [connAckReach_cons]
    split
    · rfl
    · rfl

/-- **The packet of any type behind its fixed header.** -/
theorem frames_behind {header : Header} {type : MsgType} {msg : Message}
    (declared : header.remainingLength = length) (bound : length ≤ 268435455)
    (inside : length ≤ bytes.length) (left : bytes.drop length = tail)
    (starts : Message.decodeFixedHeader ⟨header, type.blank⟩ = (msg, false)) :
    QueueFrames tail (firstPacket 2 ⟨some header, .readVariableHeader, some msg⟩
        (⟨bytes, some []⟩ : MarkedQueue)) ↔ FieldsEnd type header.msgFlag length bytes := by
  -- The packets with an identifier and nothing else.
  have identifier (store : UInt16 → Body) (m : Message) (same : m.header = header)
      (reads : m.body.readVariableHeader = getUint16 >>= fun id => pure (store id))
      (complete : ∀ rest, m.body.completeAfterHeader rest) :
      QueueFrames tail (firstPacket 2 ⟨some header, .readVariableHeader, some m⟩
        (⟨bytes, some []⟩ : MarkedQueue)) ↔
      int32 bytes.length < length ∨ bytes ≠ [] ∧ (walk [.word] bytes).EndsWell length (· = length) := by
    subst same
    have follows : Follows [.word] (fun _ _ => True) m.body.readVariableHeader := by
      rw [reads]
      exact getUint16_follows.map store fun _ _ _ => trivial
    exact frames_variableHeader m declared bound inside left (walk_within _ _) (follows _ _)
      fun le _ _ => after_complete inside left le (complete _)
  cases type with
  | pingReq => cases starts
  | pingResp => cases starts
  | disconnect => cases starts
  | pubAck => cases starts; exact identifier .pubAck _ rfl rfl fun _ => rfl
  | pubRec => cases starts; exact identifier .pubRec _ rfl rfl fun _ => rfl
  | pubRel => cases starts; exact identifier .pubRel _ rfl rfl fun _ => rfl
  | pubComp => cases starts; exact identifier .pubComp _ rfl rfl fun _ => rfl
  | unsubAck => cases starts; exact identifier .unsubAck _ rfl rfl fun _ => rfl
  | connect =>
    cases starts
    have reads : Follows [.text, .byte, .byte, .word]
        (fun taken body => ∃ c : Connect, body = .connect c ∧ c.Flagged (connectFlags taken))
        (Body.readVariableHeader (.connect {})) :=
      (Connect.readVariableHeader_follows {}).map Body.connect
        fun taken c flagged => ⟨c, rfl, flagged⟩
    refine frames_variableHeader ⟨header, .connect {}⟩ declared bound inside left (walk_within _ _)
      (reads _ _) ?_
    rintro k header body le ⟨c, rfl, flagged⟩ remains
    exact after_payload inside left remains (walk_within _ _) rfl rfl
      (((Connect.readPayload_follows flagged) _ _).map Body.connect fun _ _ _ => trivial)
  | connAck =>
    cases starts
    have shown : (connAckReach bytes).Shows bytes (fun _ _ => True)
        ((Body.readVariableHeader (.connAck {})).run (⟨bytes, some []⟩ : MarkedQueue)) :=
      (connAckReach_shows bytes).map Body.connAck fun _ _ _ => trivial
    refine (frames_variableHeader ⟨header, .connAck {}⟩ declared bound inside left
      (connAckReach_within bytes) shown fun le _ _ => after_complete inside left le rfl).trans ?_
    rw [connAckReach_ends]
    rfl
  | publish =>
    cases starts
    have reads (p : Publish) : Follows (if p.qos.hasId then [.text, .word] else [.text])
        (fun _ body => ∃ p : Publish, body = .publish p) (Body.readVariableHeader (.publish p)) :=
      p.readVariableHeader_follows.map Body.publish fun _ p _ => ⟨p, rfl⟩
    refine frames_variableHeader ⟨header, _⟩ declared bound inside left (walk_within _ _)
      (reads _ _ _) ?_
    rintro k header body le ⟨p, rfl⟩ remains
    exact after_rest inside left le remains rfl
  | subscribe =>
    cases starts
    have reads : Follows [.word] (fun _ body => ∃ s : Subscribe, body = .subscribe s)
        (Body.readVariableHeader (.subscribe {})) :=
      getUint16_follows.map (fun id => Body.subscribe { packetIdentifier := id })
        fun _ _ _ => ⟨_, rfl⟩
    refine frames_variableHeader ⟨header, .subscribe {}⟩ declared bound inside left (walk_within _ _)
      (reads _ _) ?_
    rintro k header body le ⟨s, rfl⟩ remains
    exact after_entry inside left le remains TopicFilter.read_follows
      (fun topicFilters => .subscribe { s with topicFilters }) (fun _ => rfl) rfl rfl
  | subAck =>
    cases starts
    have reads : Follows [.word] (fun _ body => ∃ s : SubAck, body = .subAck s)
        (Body.readVariableHeader (.subAck {})) :=
      getUint16_follows.map (fun id => Body.subAck { packetIdentifier := id })
        fun _ _ _ => ⟨_, rfl⟩
    refine frames_variableHeader ⟨header, .subAck {}⟩ declared bound inside left (walk_within _ _)
      (reads _ _) ?_
    rintro k header body le ⟨s, rfl⟩ remains
    exact after_entry inside left le remains getUint8_follows
      (fun acks => .subAck { s with acks }) (fun _ => rfl) rfl rfl
  | unsubscribe =>
    cases starts
    have reads : Follows [.word] (fun _ body => ∃ u : Unsubscribe, body = .unsubscribe u)
        (Body.readVariableHeader (.unsubscribe {})) :=
      getUint16_follows.map (fun id => Body.unsubscribe { packetIdentifier := id })
        fun _ _ _ => ⟨_, rfl⟩
    refine frames_variableHeader ⟨header, .unsubscribe {}⟩ declared bound inside left
      (walk_within _ _) (reads _ _) ?_
    rintro k header body le ⟨u, rfl⟩ remains
    exact after_entry inside left le remains getString_follows
      (fun topicNames => .unsubscribe { u with topicNames }) (fun _ => rfl) rfl rfl

end Behind

/-! ### The whole packet -/

theorem fieldsEnd_of_complete {header : Header} {type : MsgType} {msg : Message} {length : Nat}
    {bytes : Bytes} (starts : Message.decodeFixedHeader ⟨header, type.blank⟩ = (msg, true)) :
    FieldsEnd type header.msgFlag length bytes ↔ length = 0 := by
  cases type <;> first | rfl | cases starts

theorem frames_queue_iff {head body tail : Bytes} {header : Header} {type : MsgType}
    (declares : HeadOf head header) (known : MsgType.ofCode header.msgType = some type)
    (size : header.remainingLength = body.length) :
    QueueFrames tail (firstPacket 3 new (⟨head ++ (body ++ tail), none⟩ : MarkedQueue)) ↔
      FieldsEnd type header.msgFlag body.length (body ++ tail) := by
  have filled : ReadBuffer.len (⟨head ++ (body ++ tail), none⟩ : MarkedQueue) > 0 := by
    obtain ⟨byte1, groups, value, rfl, -⟩ := declares.split
    exact Int.natCast_pos.mpr (Nat.succ_pos _)
  have bound : body.length ≤ 268435455 := by
    have := declares.bounds.2
    omega
  have inside : body.length ≤ (body ++ tail).length := by
    rw [List.length_append]
    exact Nat.le_add_right _ _
  rw [firstPacket, if_pos filled, pass_fixedHeader rfl declares known]
  cases starts : Message.decodeFixedHeader ⟨header, type.blank⟩ with
  | mk msg complete =>
    cases complete with
    | true =>
      rw [fieldsEnd_of_complete starts, eq_comm]
      exact drop_eq_tail_iff inside List.drop_left (Nat.zero_le _)
    | false => exact frames_behind size bound inside List.drop_left starts

/-- **MQTT framing.** A packet with any head, body and tail is framed well exactly when its fields end
with its body, or break off within it. -/
theorem frames_iff {buf : IoBuffer} {head body tail : Bytes} {header : Header} {type : MsgType}
    (present : buf.bytes = .ok (head ++ (body ++ tail))) (declares : HeadOf head header)
    (known : MsgType.ofCode header.msgType = some type)
    (size : header.remainingLength = body.length) :
    Frames buf tail ↔ FieldsEnd type header.msgFlag body.length (body ++ tail) := by
  have wf := IoBuffer.wf_of_bytes present
  rw [IoBuffer.bytes_ok wf] at present
  rw [frames_queue ⟨wf, Except.ok.inj present⟩, frames_queue_iff declares known size]

/-- The theorem at a `PubAck` in front of a `PingReq`. -/
theorem frames_iff_sample : Frames (IoBuffer.newBytes [0x40, 0x02, 0x00, 0x07, 0xc0, 0x00]) [0xc0, 0x00] := by
  have present : (IoBuffer.newBytes [0x40, 0x02, 0x00, 0x07, 0xc0, 0x00]).bytes =
      .ok ([0x40, 0x02] ++ ([0x00, 0x07] ++ [0xc0, 0x00])) := rfl
  have declares : HeadOf [0x40, 0x02] ⟨4, 0, 2⟩ :=
    ⟨rfl, 0x40, [0x02], 2, rfl, rfl, rfl, rfl, by decide, rfl⟩
  have ends : FieldsEnd .pubAck 0 2 [0x00, 0x07, 0xc0, 0x00] := Or.inr ⟨by decide, rfl⟩
  exact (frames_iff present declares rfl rfl).mpr ends

/-- **The body of a `PingReq` is parsed as a packet**: `c0 02` declares two bytes, which are still
there when the message comes out. -/
theorem pingReq_leaves_body :
    HeadOf [0xc0, 0x02] ⟨12, 0, 2⟩ ∧ ¬ Frames (IoBuffer.newBytes [0xc0, 0x02, 0xe0, 0x00]) [] := by
  refine ⟨⟨rfl, 0xc0, [0x02], 2, rfl, rfl, rfl, rfl, by decide, rfl⟩, fun frames => ?_⟩
  have left : (Except.ok [0xe0, 0x00] : Except Panic Bytes) = .ok [] := frames
  cases left

end Codec

end Strike.Mqtt
