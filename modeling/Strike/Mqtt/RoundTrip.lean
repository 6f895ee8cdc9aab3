/-
**MQTT round trips.**

One call of `doDecode` by a new codec on the encodings of some messages, with any bytes behind them.

* `roundTrip_iff`: the messages come back, whatever follows them, exactly when at each packet with a
  body the buffer's length still fits an `int32` (`FitsAll`).
* `roundTrip_overflows`: a tail with which it does not.
* `recovers_iff`: a list packet comes back exactly when it has one entry, on the wire.
* `subscribe_loses_filter`: a `Subscribe` with two topic filters.
-/

import Strike.Mqtt.Packet
import Strike.Mqtt.Termination

namespace Strike.Mqtt

open Lib ReadProg

/-! ### Comparing messages -/

/-- The packets with a list. -/
def Body.isList : Body → Bool
  | .subscribe _ => true
  | .subAck _ => true
  | .unsubscribe _ => true
  | _ => false

/-- The fields, with an empty payload taken for nil. -/
def Body.plain : Body → Body
  | .publish p => .publish { p with payload := if p.payload.getD [] = [] then none else p.payload }
  | body => body

/-- What messages are compared in: all but the stored remaining length. -/
def Message.plain (m : Message) : Message := ⟨{ m.header with remainingLength := 0 }, m.body.plain⟩

theorem Body.plain_asRead {body : Body} (single : body.isList = false) : body.asRead.plain = body.plain := by
  cases body with
  | publish p =>
    simp only [Body.asRead, Body.plain]
    split <;> rfl
  | unsubscribe u => cases single
  | _ => rfl

theorem Packet.plain_asRead {p : Packet} (single : p.source.body.isList = false) :
    p.asRead.plain = p.message.plain := by
  rw [p.message_eq, Packet.asRead, Message.plain, Message.plain, Body.plain_asRead single, p.header_eq]

namespace Codec

/-! ### Collecting messages -/

section Collect

variable {B : Type} [ReadBuffer B]

theorem recover_msgs (codec : Codec) (msgs : List Message) (cause : Panic) (buf : B) :
    (recover codec msgs cause buf).msgs = msgs := by
  unfold recover
  split
  · next empty => exact empty.symm
  · rfl

/-- **What was collected before stays in front**, and changes nothing else about the messages. -/
theorem loop_collect (msgs : List Message) (fuel : Nat) : ∀ (codec : Codec) (more : List Message) (buf : B),
      (codec.loop fuel (msgs ++ more) buf).map Decoded.msgs =
        (codec.loop fuel more buf).map fun out => msgs ++ out.msgs := by
  induction fuel with
  | zero => exact fun _ _ _ => rfl
  | succ fuel ih =>
    intro codec more buf
    unfold loop
    split
    · cases result : codec.pass buf with
      | next codec' emitted buf' =>
        simp only [List.append_assoc]
        exact ih codec' (more ++ emitted.toList) buf'
      | returned buf' => exact absurd result pass_ne_returned
      | panicked cause buf' => simp only [Option.map_some, recover_msgs]
    · rfl

theorem prefix_of_loop {codec : Codec} {fuel : Nat} {msgs : List Message} {buf : B} {out : Decoded B}
    (ran : codec.loop fuel msgs buf = some out) : msgs <+: out.msgs := by
  have collected := loop_collect msgs fuel codec [] buf
  rw [List.append_nil, ran] at collected
  cases alone : codec.loop fuel [] buf with
  | none =>
    rw [alone] at collected
    cases collected
  | some out' =>
    rw [alone] at collected
    exact ⟨out'.msgs, (Option.some.inj collected).symm⟩

end Collect

/-! ### One packet after another -/

/-- At every packet with a body, the buffer's length fits. -/
def FitsAll : List Packet → Bytes → Prop
  | [], _ => True
  | p :: packets, tail => p.Fits (packets.flatMap Packet.bytes ++ tail) ∧ FitsAll packets tail

theorem fitsAll_of_short {tail : Bytes} {packets : List Packet} (readable : ∀ p ∈ packets, p.Readable)
    (short : (packets.flatMap Packet.bytes ++ tail).length < 2 ^ 31) : FitsAll packets tail := by
  induction packets with
  | nil => trivial
  | cons p packets ih =>
    obtain ⟨here, others⟩ := List.forall_mem_cons.mp readable
    rw [List.flatMap_cons, List.append_assoc] at short
    refine ⟨here.fits_of_short short, ih others ?_⟩
    rw [List.length_append] at short
    omega

/-- **Readable packets are collected one after another.** -/
theorem loop_packets {tail : Bytes} (packets : List Packet) :
    ∀ {codec : Codec} (msgs : List Message) (undo : Option Bytes), (∀ p ∈ packets, p.Readable) →
      FitsAll packets tail → codec.decoderState = .readFixedHeader →
      ∃ (codec' : Codec) (undo' : Option Bytes) (k : Nat), codec'.decoderState = .readFixedHeader ∧
        ∀ fuel, codec.loop (fuel + k) msgs
            (⟨packets.flatMap Packet.bytes ++ tail, undo⟩ : MarkedQueue) =
          codec'.loop fuel (msgs ++ packets.map Packet.asRead) ⟨tail, undo'⟩ := by
  induction packets with
  | nil =>
    intro codec msgs undo _ _ state
    refine ⟨codec, undo, 0, state, fun fuel => ?_⟩
    rw [List.map_nil, List.append_nil]
    rfl
  | cons p packets ih =>
    intro codec msgs undo readable fits state
    obtain ⟨here, others⟩ := List.forall_mem_cons.mp readable
    obtain ⟨k, goes⟩ := loop_of_produced msgs (here.produced undo state fits.1)
    obtain ⟨codec', undo', l, state', rest⟩ :=
      ih (msgs ++ [p.asRead]) (some []) others fits.2 (rfl : p.behind.decoderState = _)
    refine ⟨codec', undo', l + k, state', fun fuel => ?_⟩
    rw [List.flatMap_cons, List.append_assoc, ← Nat.add_assoc, goes, rest, List.append_assoc]
    rfl

/-- **A packet that does not fit ends the call** with what was collected before it. -/
theorem loop_overflows {tail : Bytes} (packets : List Packet) :
    ∀ {codec : Codec} (msgs : List Message) (undo : Option Bytes), (∀ p ∈ packets, p.Readable) →
      ¬ FitsAll packets tail → codec.decoderState = .readFixedHeader →
      ∃ k out, codec.loop k msgs (⟨packets.flatMap Packet.bytes ++ tail, undo⟩ : MarkedQueue) = some out ∧
        out.msgs.length < msgs.length + packets.length := by
  induction packets with
  | nil => exact fun _ _ _ overflows _ => absurd trivial overflows
  | cons p packets ih =>
    intro codec msgs undo readable overflows state
    obtain ⟨here, others⟩ := List.forall_mem_cons.mp readable
    rw [List.flatMap_cons, List.append_assoc]
    by_cases fits : p.Fits (packets.flatMap Packet.bytes ++ tail)
    · obtain ⟨k, goes⟩ := loop_of_produced msgs (here.produced undo state fits)
      obtain ⟨l, out, ran, fewer⟩ := ih (msgs ++ [p.asRead]) (some []) others
        (fun rest => overflows ⟨fits, rest⟩) (rfl : p.behind.decoderState = _)
      refine ⟨l + k, out, (goes l).trans ran, ?_⟩
      simp only [List.length_append, List.length_cons, List.length_nil] at fewer ⊢
      omega
    · obtain ⟨k, ran⟩ := loop_of_rejected msgs (here.rejected undo state fits)
      refine ⟨k, _, ran, ?_⟩
      rw [recover_msgs, List.length_cons]
      omega

/-! ### The messages come back -/

/-- **One `doDecode` by a new codec returns a list that begins with these messages.** -/
def BeginsWith {B : Type} [ReadBuffer B] (buf : B) (ms : List Message) : Prop :=
  ∃ out, new.Returns buf out ∧ ms.map Message.plain <+: out.msgs.map Message.plain

theorem beginsWith_queue {buf : IoBuffer} {content : Bytes} {ms : List Message} (holds : Holds buf content) :
    BeginsWith buf ms ↔ BeginsWith (⟨content, none⟩ : MarkedQueue) ms := by
  constructor
  · rintro ⟨out, returned, starts⟩
    obtain ⟨out', returned', -, same, -⟩ := Returns.to_queue holds returned
    exact ⟨out', returned', same ▸ starts⟩
  · rintro ⟨out, returned, starts⟩
    obtain ⟨out', returned', -, same, -⟩ := Returns.of_queue holds returned
    exact ⟨out', returned', same ▸ starts⟩

theorem returns_of_loop {codec : Codec} {q : MarkedQueue} {out : Decoded MarkedQueue} {fuel : Nat}
    (filled : q.rest ≠ []) (ran : codec.loop fuel [] q = some out) : codec.Returns q out := by
  refine ⟨fuel, ?_⟩
  rw [doDecode, if_neg, ran]
  exact Int.natCast_ne_zero.mpr (List.length_pos_iff.mpr filled).ne'

theorem flatMap_bytes_ne_nil (p : Packet) (packets : List Packet) (tail : Bytes) :
    (p :: packets).flatMap Packet.bytes ++ tail ≠ [] := by
  rw [List.flatMap_cons, p.bytes_eq]
  exact List.cons_ne_nil _ _

section RoundTrip

variable {packets : List Packet} {tail : Bytes} (readable : ∀ p ∈ packets, p.Readable)
  (single : ∀ p ∈ packets, p.source.body.isList = false)

include readable single

theorem beginsWith_of_fitsAll (fits : FitsAll packets tail) :
    BeginsWith (⟨packets.flatMap Packet.bytes ++ tail, none⟩ : MarkedQueue)
      (packets.map Packet.message) := by
  obtain ⟨fuel, out, ran⟩ := (terminates_queue_iff new_sound
    (⟨packets.flatMap Packet.bytes ++ tail, none⟩ : MarkedQueue)).mpr fun ⟨_, waits, _⟩ => nomatch waits
  refine ⟨out, ⟨fuel, ran⟩, ?_⟩
  have same : (packets.map Packet.message).map Message.plain =
      (packets.map Packet.asRead).map Message.plain := by
    simp only [List.map_map]
    exact List.map_congr_left fun p member => (Packet.plain_asRead (single p member)).symm
  rw [same]
  refine List.IsPrefix.map _ ?_
  cases packets with
  | nil => exact List.nil_prefix
  | cons p packets =>
    rw [doDecode, if_neg] at ran
    · obtain ⟨codec', undo', k, -, goes⟩ := loop_packets _ [] none readable fits
        (rfl : new.decoderState = _)
      have ran' := loop_mono ran (Nat.le_add_right fuel k)
      rw [goes] at ran'
      exact prefix_of_loop ran'
    · exact Int.natCast_ne_zero.mpr (List.length_pos_iff.mpr (flatMap_bytes_ne_nil p packets tail)).ne'

omit single in
theorem fitsAll_of_beginsWith (begins : BeginsWith
      (⟨packets.flatMap Packet.bytes ++ tail, none⟩ : MarkedQueue) (packets.map Packet.message)) :
    FitsAll packets tail := by
  by_contra overflows
  obtain ⟨out, returned, starts⟩ := begins
  obtain ⟨k, out', ran, fewer⟩ := loop_overflows packets [] none readable overflows
    (rfl : new.decoderState = _)
  have filled : packets.flatMap Packet.bytes ++ tail ≠ [] := by
    cases packets with
    | nil => exact absurd trivial overflows
    | cons p packets => exact flatMap_bytes_ne_nil p packets tail
  obtain rfl := returned.unique (returns_of_loop filled ran)
  have longer := starts.length_le
  simp only [List.length_map, List.length_nil] at longer fewer
  omega

end RoundTrip

/-- **MQTT round trip.** The messages come back at the front of the list, whatever follows their
encodings, exactly when the buffer's length fits at each packet with a body. -/
theorem roundTrip_iff {buf : IoBuffer} {packets : List Packet} {tail : Bytes}
    (present : buf.bytes = .ok (packets.flatMap Packet.bytes ++ tail))
    (readable : ∀ p ∈ packets, p.Readable) (single : ∀ p ∈ packets, p.source.body.isList = false) :
    BeginsWith buf (packets.map Packet.message) ↔ FitsAll packets tail := by
  have wf := IoBuffer.wf_of_bytes present
  rw [IoBuffer.bytes_ok wf] at present
  rw [beginsWith_queue ⟨wf, Except.ok.inj present⟩]
  exact ⟨fitsAll_of_beginsWith readable, beginsWith_of_fitsAll readable single⟩

end Codec

/-- A `PubAck` with the identifier 7. -/
def pubAck : Packet where
  source := ⟨⟨4, 0, 0⟩, .pubAck 7⟩
  message := ⟨⟨4, 0, 2⟩, .pubAck 7⟩
  bytes := [0x40, 0x02, 0x00, 0x07]
  encodes := rfl

theorem pubAck_readable : pubAck.Readable := ⟨rfl, by decide, trivial, by decide, rfl⟩

/-- A `Publish` of two bytes, with the identifier 9. -/
def publishTwo : Packet where
  source := ⟨⟨3, 0, 0⟩, .publish ⟨false, 1, false, [0x61], 9, some [0x68, 0x69]⟩⟩
  message := ⟨⟨3, 2, 7⟩, .publish ⟨false, 1, false, [0x61], 9, some [0x68, 0x69]⟩⟩
  bytes := [0x32, 0x07, 0x00, 0x01, 0x61, 0x00, 0x09, 0x68, 0x69]
  encodes := by decide +kernel

theorem publishTwo_readable : publishTwo.Readable :=
  ⟨rfl, by decide, ⟨⟨by decide, by decide⟩, (nomatch ·), rfl⟩, by decide, rfl⟩

namespace Codec

/-- The theorem at a `Publish` and a `PubAck` with two bytes behind them that are no packet. -/
theorem roundTrip_iff_sample :
    BeginsWith (IoBuffer.newBytes [0x32, 0x07, 0x00, 0x01, 0x61, 0x00, 0x09, 0x68, 0x69, 0x40, 0x02, 0x00, 0x07, 0x00, 0xff])
      [publishTwo.message, pubAck.message] := by
  have present : (IoBuffer.newBytes
      [0x32, 0x07, 0x00, 0x01, 0x61, 0x00, 0x09, 0x68, 0x69, 0x40, 0x02, 0x00, 0x07, 0x00, 0xff]).bytes =
        .ok ([publishTwo, pubAck].flatMap Packet.bytes ++ [0x00, 0xff]) := rfl
  refine (roundTrip_iff present ?_ ?_).mpr ⟨.inr (by decide), .inr (by decide), trivial⟩
  · simpa using ⟨publishTwo_readable, pubAck_readable⟩
  · decide

/-- **Two gigabytes behind a packet**: the length of the buffer, as an `int32`, is negative, and the
packet is rejected. -/
theorem roundTrip_overflows :
    ¬ BeginsWith (IoBuffer.newBytes ([pubAck].flatMap Packet.bytes ++ List.replicate (2 ^ 31) 0))
      ([pubAck].map Packet.message) := by
  have readable : ∀ p ∈ [pubAck], p.Readable :=
    fun p member => List.mem_singleton.mp member ▸ pubAck_readable
  rw [beginsWith_queue (newBytes_holds _)]
  intro begins
  obtain ⟨fits, -⟩ := fitsAll_of_beginsWith readable begins
  have size : (pubAck.written ++ ([].flatMap Packet.bytes ++ List.replicate (2 ^ 31) 0)).length =
      2147483650 := by
    rw [List.length_append, List.flatMap_nil, List.nil_append, List.length_replicate]
    rfl
  have wraps : ¬ (2 : Int) ≤ int32 (2147483650 : Nat) := by decide
  rcases fits with empty | fits
  · cases empty
  · rw [size] at fits
    exact wraps fits

end Codec

/-! ### The list packets -/

/-- The number of entries of a list. -/
def Body.entries : Body → Nat
  | .subscribe s => s.topicFilters.length
  | .subAck s => s.acks.length
  | .unsubscribe u => u.topicNames.length
  | _ => 0

/-- **A packet with a list that is not empty**, and with names of one to 65535 bytes. -/
def Body.Listed : Body → Prop
  | .subscribe s => s.topicFilters ≠ [] ∧ ∀ filter ∈ s.topicFilters, IsText filter.topicName
  | .subAck s => s.acks ≠ []
  | .unsubscribe u => u.topicNames ≠ [] ∧ ∀ name ∈ u.topicNames, IsText name
  | _ => False

theorem Body.entries_blank (type : MsgType) : type.blank.entries = 0 := by cases type <;> rfl

theorem Message.entries_decodeFixedHeader (m : Message) : m.decodeFixedHeader.1.body.entries = m.body.entries := by
  obtain ⟨header, body⟩ := m
  cases body <;> rfl

theorem Body.readVariableHeader_entries (body : Body) :
    body.readVariableHeader.Ensures fun read => read.entries = body.entries := by
  cases body with
  | pingReq => trivial
  | pingResp => trivial
  | disconnect => trivial
  | _ => exact .after _ fun _ => rfl

theorem getEntry_length {α : Type} (remainingLength : Int) (entry : ReadProg α) :
    (getEntry remainingLength entry).Ensures fun entries => entries.length ≤ 1 :=
  .ite (fun _ => .after _ fun _ => Nat.le_refl 1) fun _ => Nat.zero_le 1

theorem Body.readPayload_entries (body : Body) (remainingLength : Int) :
    (body.readPayload remainingLength).Ensures fun read => read.entries ≤ 1 := by
  cases body with
  | connect c => exact .after _ fun _ => Nat.zero_le _
  | publish p => exact .after _ fun _ => Nat.zero_le _
  | subscribe s => exact (getEntry_length _ _).bind fun _ few => few
  | subAck s => exact (getEntry_length _ _).bind fun _ few => few
  | unsubscribe u => exact (getEntry_length _ _).bind fun _ few => few
  | _ => trivial

theorem Message.decodePayload_entries {m : Message} (few : m.body.entries ≤ 1) :
    m.decodePayload.Ensures fun result => result.1.body.entries ≤ 1 :=
  .ite (fun _ => trivial) fun _ => .after _ fun _ => .ite (fun _ => few) fun _ =>
    (Body.readPayload_entries _ _).counted.bind fun _ few => few

theorem Message.decodeVariableHeader_entries (m : Message) :
    m.decodeVariableHeader.Ensures fun result => result.1.body.entries = m.body.entries :=
  m.body.readVariableHeader_entries.counted.bind fun _ same => same

namespace Codec

theorem Went.entries {codec codec' : Codec} {emitted : Option Message} {q q' : MarkedQueue}
    (went : Went codec q codec' emitted q') (few : ∀ m, codec.msg = some m → m.body.entries ≤ 1) :
    (∀ m, codec'.msg = some m → m.body.entries ≤ 1) ∧ ∀ m, emitted = some m → m.body.entries ≤ 1 := by
  -- Whatever `settle` does with a message, it stays the same message.
  have settles {header : Option Header} {next : DecoderState} {result : Message × Bool}
      (settled : (codec', emitted) = settle header next result) (few : result.1.body.entries ≤ 1) :
      (∀ m, codec'.msg = some m → m.body.entries ≤ 1) ∧ ∀ m, emitted = some m → m.body.entries ≤ 1 := by
    obtain ⟨m, _ | _⟩ := result
    · cases settled
      exact ⟨fun m' is => Option.some.inj is ▸ few, fun _ is => nomatch is⟩
    · cases settled
      exact ⟨fun _ is => (nomatch is), fun m' is => Option.some.inj is ▸ few⟩
  cases went with
  | fixedHeader header type k state taken inside rest matched nonneg bound settled =>
    refine settles settled ?_
    rw [Message.entries_decodeFixedHeader, Body.entries_blank]
    exact Nat.zero_le 1
  | variableHeader header msg result q₁ state has found enough ran rest settled =>
    refine settles settled ?_
    rw [(Message.decodeVariableHeader_entries msg).of_run ran]
    exact few msg found
  | payload msg result q₁ state found ran rest settled =>
    exact settles settled ((Message.decodePayload_entries (few msg found)).of_run ran)

theorem new_entries : ∀ m, new.msg = some m → m.body.entries ≤ 1 := fun _ is => nomatch is

/-- **No message comes out with more than one entry.** -/
theorem firstPacket_entries (rounds : Nat) : ∀ {codec codec' : Codec} {m : Message} {q q' : MarkedQueue},
      (∀ m, codec.msg = some m → m.body.entries ≤ 1) →
      firstPacket rounds codec q = .produced codec' m q' → m.body.entries ≤ 1 := by
  induction rounds with
  | zero => exact fun _ first => nomatch first
  | succ rounds ih =>
    intro codec codec' m q q' few first
    rw [firstPacket] at first
    split at first
    · split at first
      · next went =>
          cases first
          exact ((pass_next went).entries few).2 m rfl
      · next went => exact ih ((pass_next went).entries few).1 first
      · cases first
      · cases first
    · cases first

/-- **The list packet comes back**: the first message has the same fields, and exactly the tail is
left. -/
def Recovers (buf : IoBuffer) (p : Packet) (tail : Bytes) : Prop :=
  match firstPacket 3 new buf with
  | .produced _ m buf' => m.body = p.source.body ∧ buf'.bytes = .ok tail
  | _ => False

theorem recovers_queue {buf : IoBuffer} {content tail : Bytes} {p : Packet} (holds : Holds buf content) :
    Recovers buf p tail ↔ ∃ codec m undo, m.body = p.source.body ∧
      firstPacket 3 new (⟨content, none⟩ : MarkedQueue) = .produced codec m ⟨tail, undo⟩ := by
  have same := firstPacket_sim reading_simulation 3 new (c := ⟨content, none⟩) holds
  unfold Recovers
  cases left : firstPacket 3 new buf <;>
    cases right : firstPacket 3 new (⟨content, none⟩ : MarkedQueue) <;> rw [left, right] at same <;>
    try exact same.elim
  · obtain ⟨-, rfl, wf, contents⟩ := same
    simp only [IoBuffer.bytes_ok wf, contents]
    constructor
    · rintro ⟨fields, is⟩
      obtain rfl := Except.ok.inj is
      exact ⟨_, _, _, fields, rfl⟩
    · rintro ⟨codec, m, undo, fields, is⟩
      cases is
      exact ⟨fields, rfl⟩
  · simp
  · simp
  · simp

end Codec

/-- What the decoder can read of a list packet: the only entry, or what is on the wire of an
`Unsubscribe`. -/
theorem Body.readable_of_listed {body : Body} {written : Bytes} (listed : body.Listed)
    (wrote : body.write = .ok written) (few : body.entries = 1 ∨ body.type = .unsubscribe) :
    body.Readable ∧ written.length ≤ 65540 ∧ written ≠ [] := by
  cases body with
  | subscribe s =>
    obtain ⟨-, texts⟩ := listed
    obtain ⟨filter, only⟩ := List.length_eq_one_iff.mp (few.resolve_right (by rintro ⟨⟩))
    have text : IsText filter.topicName := texts filter (only ▸ List.mem_singleton_self filter)
    rw [Body.write, only, writeTopicFilters, putString_eq text] at wrote
    cases wrote
    refine ⟨⟨filter, only, text⟩, ?_, List.cons_ne_nil _ _⟩
    have bound := text.2
    simp only [textBytes, putUint16, List.length_append, List.length_cons, List.length_nil]
    omega
  | subAck s =>
    obtain ⟨code, only⟩ := List.length_eq_one_iff.mp (few.resolve_right (by rintro ⟨⟩))
    rw [Body.write, only] at wrote
    cases wrote
    exact ⟨⟨code, only⟩, by simp [putUint16], List.cons_ne_nil _ _⟩
  | unsubscribe u =>
    cases wrote
    exact ⟨trivial, by simp [putUint16], List.cons_ne_nil _ _⟩
  | _ => exact listed.elim

theorem Body.entries_of_listed {body : Body} (listed : body.Listed) : 0 < body.entries := by
  cases body with
  | subscribe s => exact List.length_pos_iff.mpr listed.1
  | subAck s => exact List.length_pos_iff.mpr listed
  | unsubscribe u => exact List.length_pos_iff.mpr listed.1
  | _ => exact listed.elim

/-- A list that is on the wire is read as it is, and the names of an `Unsubscribe` are gone. -/
theorem Body.asRead_of_listed {body : Body} (listed : body.Listed) :
    body.asRead = body ↔ body.type ≠ .unsubscribe := by
  cases body with
  | subscribe s => exact iff_of_true rfl (fun is => nomatch is)
  | subAck s => exact iff_of_true rfl (fun is => nomatch is)
  | unsubscribe u =>
    refine iff_of_false (fun same => listed.1 ?_) (fun differs => differs rfl)
    exact (congrArg Unsubscribe.topicNames (Body.unsubscribe.inj same)).symm
  | _ => exact listed.elim

theorem Packet.readable_of_listed {p : Packet}
    (typed : p.source.header.msgType = p.source.body.type.code) (flag : p.source.header.msgFlag < 16)
    (listed : p.source.body.Listed)
    (few : p.source.body.entries = 1 ∨ p.source.body.type = .unsubscribe) : p.Readable := by
  obtain ⟨fields, short, some_⟩ := Body.readable_of_listed listed p.write_eq few
  obtain ⟨bits, length, stamped, -, size, -⟩ := Message.stamp_spec p.write_eq (Body.Readable.flagged fields) flag (by omega)
  refine ⟨typed, flag, fields, by omega, ?_⟩
  rw [p.header_eq, stamped]
  simp only [remainingLengthIsValid, size some_, Bool.and_eq_true, decide_eq_true_eq]
  omega

namespace Codec

/-- **Round trip of the list packets.** A list packet in front of any tail comes back exactly when its
list is on the wire, has one entry, and the buffer's length fits. -/
theorem recovers_iff {buf : IoBuffer} {p : Packet} {tail : Bytes} (present : buf.bytes = .ok (p.bytes ++ tail))
    (typed : p.source.header.msgType = p.source.body.type.code) (flag : p.source.header.msgFlag < 16)
    (listed : p.source.body.Listed) :
    Recovers buf p tail ↔
      p.source.body.type ≠ .unsubscribe ∧ p.source.body.entries = 1 ∧ p.Fits tail := by
  have wf := IoBuffer.wf_of_bytes present
  rw [IoBuffer.bytes_ok wf] at present
  rw [recovers_queue ⟨wf, Except.ok.inj present⟩]
  constructor
  · rintro ⟨codec, m, undo, fields, first⟩
    have atMost : p.source.body.entries ≤ 1 :=
      fields ▸ firstPacket_entries 3 new_entries first
    have one : p.source.body.entries = 1 := Nat.le_antisymm atMost (Body.entries_of_listed listed)
    have readable := Packet.readable_of_listed typed flag listed (.inl one)
    have fits : p.Fits tail := by
      by_contra overflows
      rw [readable.rejected none rfl overflows] at first
      cases first
    rw [readable.produced none rfl fits] at first
    cases first
    exact ⟨(Body.asRead_of_listed listed).mp fields, one, fits⟩
  · rintro ⟨onWire, one, fits⟩
    have readable := Packet.readable_of_listed typed flag listed (.inl one)
    exact ⟨_, _, _, (Body.asRead_of_listed listed).mpr onWire, readable.produced none rfl fits⟩

end Codec

/-- A `SubAck` with one return code. -/
def subAck : Packet where
  source := ⟨⟨9, 0, 0⟩, .subAck ⟨7, [0x01]⟩⟩
  message := ⟨⟨9, 0, 3⟩, .subAck ⟨7, [0x01]⟩⟩
  bytes := [0x90, 0x03, 0x00, 0x07, 0x01]
  encodes := rfl

/-- A `Subscribe` with the topic filters `a` and `b`. -/
def subscribeTwo : Packet where
  source := ⟨⟨8, 2, 0⟩, .subscribe ⟨1, [⟨[0x61], 0⟩, ⟨[0x62], 0⟩]⟩⟩
  message := ⟨⟨8, 2, 10⟩, .subscribe ⟨1, [⟨[0x61], 0⟩, ⟨[0x62], 0⟩]⟩⟩
  bytes := [0x82, 0x0a, 0x00, 0x01, 0x00, 0x01, 0x61, 0x00, 0x00, 0x01, 0x62, 0x00]
  encodes := rfl

namespace Codec

/-- The theorem at a `SubAck` in front of a `PingReq`. -/
theorem recovers_iff_sample :
    Recovers (IoBuffer.newBytes [0x90, 0x03, 0x00, 0x07, 0x01, 0xc0, 0x00]) subAck [0xc0, 0x00] :=
  (recovers_iff (show (IoBuffer.newBytes [0x90, 0x03, 0x00, 0x07, 0x01, 0xc0, 0x00]).bytes =
    .ok (subAck.bytes ++ [0xc0, 0x00]) from rfl) rfl (by decide) (List.cons_ne_nil _ _)).mpr
    ⟨by decide, rfl, .inr (by decide)⟩

/-- **A `Subscribe` with two topic filters loses the second**: it is left to be parsed as a packet. -/
theorem subscribe_loses_filter : subscribeTwo.source.body.Listed ∧
    ¬ Recovers (IoBuffer.newBytes (subscribeTwo.bytes ++ [])) subscribeTwo [] := by
  have texts : ∀ filter ∈ [(⟨[0x61], 0⟩ : TopicFilter), ⟨[0x62], 0⟩], IsText filter.topicName := by
    unfold IsText
    decide
  refine ⟨⟨List.cons_ne_nil _ _, texts⟩, ?_⟩
  rw [recovers_queue (newBytes_holds _)]
  rintro ⟨codec, m, undo, fields, first⟩
  have atMost := firstPacket_entries 3 new_entries first
  rw [fields] at atMost
  exact absurd atMost (by decide)

end Codec

end Strike.Mqtt
