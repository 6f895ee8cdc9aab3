/-
**Answers to MQTT requests** (`stream/mqtt/stream.go`, `GetHeader` of the messages).

A message travels on as headers, and the answer comes back as headers. The packet identifier goes with them
as decimal text; the number of topic filters does not.

* `Request.WellFormed.decoded_first`: what the codec makes of a packet with a list, of which it reads one entry.
* `acknowledged_iff`: a request is answered as it should be exactly if it is an `Unsubscribe`.
* `subAck_empty`: the answer to a `Subscribe` has no return code.
-/

import Strike.Mqtt.RoundTrip
import Strike.Protocol.CommonHeader
import Strike.Utils.BytesConv

namespace Strike.Mqtt

open Lib ReadProg

/-! ### Numbers as text -/

/-- `strconv.Atoi`, where it returns no error. -/
def atoi (s : Bytes) : Option Int :=
  let negative := s.head? = some 45
  let digits := if s.head? = some 45 ∨ s.head? = some 43 then s.tail else s
  if digits = [] ∨ digits.any fun c => c < 48 ∨ 57 < c then none
  else
    let value : Int := if negative then -(decimalFrom 0 digits) else decimalFrom 0 digits
    if -2 ^ 63 ≤ value ∧ value < 2 ^ 63 then some value else none

theorem itoa_eq (n : Nat) : itoa n = (if n < 10 then [] else itoa (n / 10)) ++ [UInt8.ofNat (48 + n % 10)] := by
  have digit (d : Nat) (small : d < 10) : d.digitChar.toNat.toUInt8 = UInt8.ofNat (48 + d) := by
    rw [Nat.toNat_digitChar_of_lt_ten small]
  have digits (n : Nat) : itoa n = (Nat.toDigits 10 n).map fun c => c.toNat.toUInt8 := by
    show (List.map _ (Nat.repr n).toList) = _
    rw [Nat.toList_repr]
  rw [digits, digits, Nat.toDigits_eq_if (by decide)]
  split
  · next small => rw [List.map_singleton, digit n small, Nat.mod_eq_of_lt small, List.nil_append]
  · rw [List.map_append, List.map_singleton, digit _ (Nat.mod_lt n (by decide))]

/-- **The digits of a number stand for it.** -/
theorem decimal_itoa (n : Nat) : IsDecimal (itoa n) ∧ decimalFrom 0 (itoa n) = n := by
  induction n using Nat.strong_induction_on with
  | _ n ih =>
    have last : (48 ≤ UInt8.ofNat (48 + n % 10) ∧ UInt8.ofNat (48 + n % 10) ≤ 57) ∧
        (UInt8.ofNat (48 + n % 10) - 48).toNat = n % 10 := by
      have small := Nat.mod_lt n (show 0 < 10 by decide)
      generalize n % 10 = d at small
      interval_cases d <;> decide
    rw [itoa_eq]
    split
    · next small =>
        rw [List.nil_append]
        refine ⟨⟨List.cons_ne_nil _ _, List.forall_mem_singleton.mpr last.1⟩, ?_⟩
        rw [decimalFrom, List.foldl_cons, List.foldl_nil, last.2, Nat.mod_eq_of_lt small]
        omega
    · next large =>
        obtain ⟨⟨-, digits⟩, value⟩ := ih (n / 10) (by omega)
        refine ⟨⟨by simp, List.forall_mem_append.mpr ⟨digits, List.forall_mem_singleton.mpr last.1⟩⟩, ?_⟩
        rw [decimalFrom] at value ⊢
        rw [List.foldl_append, value, List.foldl_cons, List.foldl_nil, last.2]
        omega

/-- **The text of a number is read back.** -/
theorem atoi_itoa {n : Nat} (small : n < 2 ^ 63) : atoi (itoa n) = some (n : Int) := by
  obtain ⟨⟨some_, digits⟩, value⟩ := decimal_itoa n
  have unsigned : ∀ sign, sign < 48 → (itoa n).head? ≠ some sign := by
    intro sign low first
    exact absurd (digits sign (List.mem_of_head? first)).1 (UInt8.not_le.mpr low)
  have all : ((itoa n).any fun c => c < 48 ∨ 57 < c) = false := by
    rw [List.any_eq_false]
    intro c there
    rw [decide_eq_true_eq, not_or, UInt8.not_lt, UInt8.not_lt]
    exact digits c there
  unfold atoi
  simp only [unsigned 45 (by decide), unsigned 43 (by decide), some_, all, value, or_self, if_false, Bool.false_eq_true]
  rw [if_pos (by omega)]

/-! ### Messages as headers -/

/-- `HeaderMethod`. -/
def headerMethod : Bytes := ascii "x-strike-method"

/-- `HeaderPacketID`. -/
def headerPacketID : Bytes := ascii "x-strike-packet-id"

/-- `HeaderUsername`. -/
def headerUsername : Bytes := ascii "x-strike-username"

/-- `StrikeHeaderTopicFilter`. -/
def headerTopicFilter : Bytes := ascii "x-strike-topic-filter"

/-- The constants `StrMsgTypeConnect` to `StrMsgTypeUnsubAck`. -/
def MsgType.str : MsgType → Bytes
  | .connect => ascii "Connect"
  | .connAck => ascii "ConnAck"
  | .publish => ascii "Publish"
  | .pubAck => ascii "PubAck"
  | .pubRec => ascii "PubRec"
  | .pubRel => ascii "PubRel"
  | .pubComp => ascii "PubComp"
  | .subscribe => ascii "Subscribe"
  | .subAck => ascii "SubAck"
  | .unsubscribe => ascii "Unsubscribe"
  | .unsubAck => ascii "UnsubAck"
  | .pingReq => ascii "Ping"
  | .pingResp => ascii "PingResp"
  | .disconnect => ascii "Disconnect"

/-- `json.Marshal` of topic filters and of topic names. -/
structure Json where
  filters : List TopicFilter → Option Bytes
  names : List Bytes → Option Bytes

/-- `strconv.FormatBool`. -/
def formatBool (b : Bool) : Bytes := if b then ascii "true" else ascii "false"

/-- A header that is set where `json.Marshal` returned no error. -/
def setMarshalled (header : CommonHeader) (value : Option Bytes) : CommonHeader :=
  match value with
  | some b => header.set headerTopicFilter b
  | none => header

/-- `GetHeader`. -/
def Message.getHeader (json : Json) (m : Message) : CommonHeader :=
  let header := CommonHeader.empty.set headerMethod m.body.type.str
  match m.body with
  | .connect c =>
    (((((header.set (ascii "x-strike-credential") c.password).set (ascii "x-strike-client-id") c.clientId).set
      (ascii "x-strike-will-topic") c.willTopic).set (ascii "x-strike-will-message") c.willMessage).set
      headerUsername c.username).set (ascii "x-strike-keep-alive") (itoa c.keepAlive.toNat)
  | .publish p =>
    ((((header.set headerPacketID (itoa p.packetIdentifier.toNat)).set (ascii "x-strike-topic-name") p.topicName).set
      (ascii "x-strike-message-dup") (formatBool p.dup)).set (ascii "x-strike-message-qos") (itoa p.qos.toNat)).set
      (ascii "x-strike-message-retain") (formatBool p.retain)
  | .pubRec id => header.set headerPacketID (itoa id.toNat)
  | .pubRel id => header.set headerPacketID (itoa id.toNat)
  | .pubComp id => header.set headerPacketID (itoa id.toNat)
  | .unsubAck id => header.set headerPacketID (itoa id.toNat)
  | .subscribe s =>
    setMarshalled (header.set headerPacketID (itoa s.packetIdentifier.toNat)) (json.filters s.topicFilters)
  | .unsubscribe u =>
    setMarshalled (header.set headerPacketID (itoa u.packetIdentifier.toNat)) (json.names u.topicNames)
  | _ => header

/-- A header that is set where the request has it. -/
def carryOver (header : CommonHeader) (key : Bytes) (headers : CommonHeader) : CommonHeader :=
  match header.get key with
  | some value => headers.set key value
  | none => headers

/-- `handleSuccess` of the upstream client: the headers of its answer to some headers. -/
def handleSuccess (header : CommonHeader) : CommonHeader :=
  let headers := CommonHeader.empty.set headerStatus (itoa successCode)
  carryOver header headerUsername (carryOver header headerPacketID (carryOver header headerMethod headers))

/-! ### The server stream -/

/-- `serverStream`. -/
structure ServerStream where
  req : Option Message
  res : Option Message := none
  deriving Repr, DecidableEq

/-- What `AppendHeaders` leaves: the stream, the headers, and whether it put the connection into the store of
the listener. -/
structure Appended where
  stream : ServerStream
  headerIn : CommonHeader
  stored : Bool := false

/-- `RetCodeNotAuthorized`. -/
def retCodeNotAuthorized : UInt8 := 5

/-- A new message of a type. -/
def MsgType.new (type : MsgType) (body : Body) : Message := ⟨{ msgType := type.code }, body⟩

/-- The packet identifier of the headers, or zero. -/
def packetIdOf (headerIn : CommonHeader) : UInt16 :=
  match atoi ((headerIn.get headerPacketID).getD []) with
  | some packetId => UInt16.ofNat (packetId % 2 ^ 16).toNat
  | none => 0

/-- The `switch` of `AppendHeaders`. Most types have no answer. -/
def ServerStream.answer (ss : ServerStream) (msgType status : Bytes) (headerIn : CommonHeader) : Appended :=
  if msgType = MsgType.connect.str then
    let returnCode := if status = ascii "200" then 0 else retCodeNotAuthorized
    { stream := { ss with res := some (MsgType.connAck.new (.connAck { returnCode })) }, headerIn, stored := true }
  else if msgType = MsgType.subscribe.str then
    { stream := { ss with res := some (MsgType.subAck.new (.subAck { packetIdentifier := packetIdOf headerIn })) }
      headerIn := headerIn.del headerPacketID }
  else if msgType = MsgType.unsubscribe.str then
    { stream := { ss with res := some (MsgType.unsubAck.new (.unsubAck (packetIdOf headerIn))) }
      headerIn := headerIn.del headerPacketID }
  else if msgType = MsgType.pingReq.str then
    { stream := { ss with res := some (MsgType.pingResp.new .pingResp) }, headerIn }
  else { stream := ss, headerIn }

/-- `AppendHeaders`. -/
def ServerStream.appendHeaders (ss : ServerStream) (headerIn : CommonHeader) : Appended :=
  let status := (headerIn.get headerStatus).getD []
  let headerIn := headerIn.del headerStatus
  match headerIn.get headerMethod with
  | some msgType => ss.answer msgType status (headerIn.del headerMethod)
  | none => ss.answer [] [] headerIn

/-- `doSend` at the end of the stream: what is written to the connection. -/
def ServerStream.doSend (ss : ServerStream) (closed : Bool) : Except Panic (Option Bytes) :=
  match ss.res with
  | none => .ok none
  | some res => do
    let (_, encoded) ← res.encode
    match encoded with
    | .error _ => return none
    | .ok buf => return if closed then none else some buf

/-! ### Requests on the wire -/

/-- A packet with a list: what it carries. -/
inductive Request where
  | subscribe (fields : Subscribe)
  | unsubscribe (fields : Unsubscribe)
  deriving Repr, DecidableEq

namespace Request

def type : Request → MsgType
  | .subscribe _ => .subscribe
  | .unsubscribe _ => .unsubscribe

def packetIdentifier : Request → UInt16
  | .subscribe s => s.packetIdentifier
  | .unsubscribe u => u.packetIdentifier

/-- The list on the wire. -/
def payload : Request → Bytes
  | .subscribe s => s.topicFilters.flatMap fun filter => textBytes filter.topicName ++ [filter.requestedQos]
  | .unsubscribe u => u.topicNames.flatMap textBytes

/-- The bytes behind the fixed header. -/
def body (r : Request) : Bytes := putUint16 r.packetIdentifier ++ r.payload

/-- The fixed header. -/
def header (r : Request) (flag : UInt8) : Header := ⟨r.type.code, flag, r.body.length⟩

/-- The packet. -/
def bytes (r : Request) (flag : UInt8) : Bytes := (r.header flag).encode ++ r.body

/-- Names of one to 65535 bytes, and at least one topic filter. -/
def Texts : Request → Prop
  | .subscribe s => s.topicFilters ≠ [] ∧ ∀ filter ∈ s.topicFilters, IsText filter.topicName
  | .unsubscribe u => ∀ name ∈ u.topicNames, IsText name

/-- A packet with such names, and a length that can be declared. -/
structure WellFormed (r : Request) : Prop where
  texts : r.Texts
  short : r.body.length ≤ 268435455

/-- What the codec makes of a packet: the first entry is read. -/
def decoded : Request → Body
  | .subscribe s => .subscribe { s with topicFilters := s.topicFilters.take 1 }
  | .unsubscribe u => .unsubscribe { u with topicNames := u.topicNames.take 1 }

end Request

theorem getEntry_reads {α : Type} {entry : ReadProg α} {bytes : Bytes} {value : α} {n : Int} (positive : n > 0)
    (reads : entry.Reads bytes value) : (getEntry n entry).Reads bytes [value] := by
  rw [getEntry, if_pos positive]
  exact reads.map fun value => [value]

theorem Message.decodePayload_entry {m : Message} {entry later : Bytes} {result : Body} (has : m.body.hasPayload)
    (keeps : m.body.spendsPayload = false) (size : m.header.remainingLength = (entry ++ later).length)
    (reads : (m.body.readPayload m.header.remainingLength).Reads entry result) (undo : Option Bytes) :
    ∃ undo', m.decodePayload.run (⟨entry ++ later, undo⟩ : MarkedQueue) = .ok (⟨m.header, result⟩, true) ⟨later, undo'⟩ := by
  have enough : ¬ m.header.remainingLength > (entry ++ later).length := by omega
  have stored := reads.counted.map fun read =>
    ((⟨if m.body.spendsPayload then m.header.spend read.2 else m.header, read.1⟩ : Message), true)
  obtain ⟨undo', ran⟩ := stored later undo
  refine ⟨undo', ?_⟩
  rw [if_neg (by rw [keeps]; decide)] at ran
  rw [← ran]
  simp only [Message.decodePayload, has, Bool.not_true, Bool.false_eq_true, if_false, run_bind, run_getLen,
    MarkedQueue.len_eq, if_neg enough]

/-- **One entry of a list is read**, and the others stay in the buffer. -/
theorem firstPacket_entry (header : Header) (undo : Option Bytes) {start between result : Body} {id : UInt16}
    {entry later : Bytes} (reads : start.readVariableHeader.Reads (putUint16 id) between)
    (goes : ∀ n, start.completeAfterHeader n = (n == 0)) (has : between.hasPayload)
    (keeps : between.spendsPayload = false) (some_ : entry ≠ [])
    (payload : ∀ n > 0, (between.readPayload n).Reads entry result)
    (size : header.remainingLength = (putUint16 id ++ (entry ++ later)).length)
    (short : (putUint16 id ++ (entry ++ later)).length ≤ 268435455) :
    ∃ header', Codec.firstPacket 2 ⟨some header, .readVariableHeader, some ⟨header, start⟩⟩
        (⟨putUint16 id ++ (entry ++ later), undo⟩ : MarkedQueue) =
      .produced ⟨some header, .readFixedHeader, none⟩ ⟨header', result⟩ ⟨later, some []⟩ := by
  have long : 0 < (entry ++ later).length :=
    List.length_pos_iff.mpr fun empty => some_ (List.append_eq_nil_iff.mp empty).1
  have two : (putUint16 id).length = 2 := rfl
  rw [List.length_append, two] at size short
  have fits : header.remainingLength ≤ int32 (putUint16 id ++ (entry ++ later)).length := by
    rw [List.length_append, two, int32_of_fits (by omega) (by omega), size]
  have filled (bytes : Bytes) (undo : Option Bytes) (some_ : 0 < bytes.length) :
      ReadBuffer.len (⟨bytes, undo⟩ : MarkedQueue) > 0 := Int.natCast_pos.mpr some_
  let left : Header := { header with remainingLength := (entry ++ later).length }
  have spent : header.spend (putUint16 id).length = left := by
    rw [two, Header.spend_eq (by omega) (by omega) (by decide), size]
    show ({ header with remainingLength := _ } : Header) = { header with remainingLength := _ }
    congr 1
    push_cast
    omega
  -- The round of the variable header goes on to the payload.
  have first : (⟨header, start⟩ : Message).decodeVariableHeader.Reads _ _ := Message.decodeVariableHeader_reads reads
  obtain ⟨undo₁, ran⟩ := first (entry ++ later) (some [])
  have more : start.completeAfterHeader left.remainingLength = false := by
    rw [goes]
    exact beq_false_of_ne (Int.natCast_pos.mpr long).ne'
  simp only [spent, more] at ran
  rw [Codec.firstPacket, if_pos (filled _ _ (by rw [List.length_append]; omega)), Codec.pass_variableHeader fits, ran]
  -- The round of the payload gives the message.
  obtain ⟨undo₂, ran'⟩ := Message.decodePayload_entry (m := ⟨left, between⟩) has keeps rfl
    (payload _ (Int.natCast_pos.mpr long)) (some [])
  refine ⟨left, ?_⟩
  show Codec.firstPacket 1 ⟨some header, .readPayload, some ⟨left, between⟩⟩
    (⟨entry ++ later, some []⟩ : MarkedQueue) = _
  rw [Codec.firstPacket, if_pos (filled _ _ long), Codec.pass_payload, ran']
  rfl

theorem Codec.new_first {content : Bytes} {rounds : Nat} {codec' : Codec} {msg : Message} {q : MarkedQueue}
    (filled : content ≠ [])
    (produced : Codec.firstPacket rounds .new (⟨content, none⟩ : MarkedQueue) = .produced codec' msg q) :
    ∃ out more, Codec.new.Returns (⟨content, none⟩ : MarkedQueue) out ∧ out.msgs = msg :: more := by
  obtain ⟨fuel, out, ran⟩ := (terminates_queue_iff new_sound (⟨content, none⟩ : MarkedQueue)).mpr (by
    rintro ⟨-, waits, -⟩
    cases waits)
  have returned : Codec.new.Returns (⟨content, none⟩ : MarkedQueue) out := ⟨fuel, ran⟩
  have some_ : ¬ ReadBuffer.len (⟨content, none⟩ : MarkedQueue) = 0 :=
    Int.natCast_ne_zero.mpr (List.length_pos_iff.mpr filled).ne'
  rw [doDecode, if_neg some_] at ran
  obtain ⟨k, goes⟩ := loop_of_produced [] produced
  have longer := loop_mono ran (Nat.le_add_right fuel k)
  rw [goes] at longer
  obtain ⟨more, split⟩ := prefix_of_loop longer
  exact ⟨out, more, returned, split.symm⟩

namespace Request

variable {r : Request}

theorem WellFormed.headOf (wellFormed : r.WellFormed) {flag : UInt8} (low : flag < 16) :
    HeadOf (r.header flag).encode (r.header flag) := by
  refine headOf_encode (typeIsValid_code r.type) low (Int.natCast_nonneg _) ?_
  show (r.body.length : Int) ≤ 268435455
  have := wellFormed.short
  omega

theorem WellFormed.behind (wellFormed : r.WellFormed) (flag : UInt8) (undo : Option Bytes) :
    ∃ codec' header' later, Codec.firstPacket 2
        ⟨some (r.header flag), .readVariableHeader, some ⟨r.header flag, r.type.blank⟩⟩ (⟨r.body, undo⟩ : MarkedQueue) =
      .produced codec' ⟨header', r.decoded⟩ ⟨later, some []⟩ := by
  obtain ⟨texts, short⟩ := wellFormed
  cases r with
  | subscribe s =>
    obtain ⟨id, filters⟩ := s
    obtain ⟨some_, texts⟩ := texts
    cases filters with
    | nil => exact absurd rfl some_
    | cons filter filters =>
      have reads : (Body.readVariableHeader (.subscribe {})).Reads _ _ :=
        (getUint16_reads id).map fun packetIdentifier => Body.subscribe { packetIdentifier }
      have entry := TopicFilter.read_reads (texts filter List.mem_cons_self)
      have payload : ∀ n > 0, (Body.readPayload n (.subscribe { packetIdentifier := id })).Reads _ _ :=
        fun n positive => (getEntry_reads positive entry).map fun topicFilters => Body.subscribe ⟨id, topicFilters⟩
      obtain ⟨header', produced⟩ := firstPacket_entry ((Request.subscribe ⟨id, filter :: filters⟩).header flag) undo
        reads (fun _ => rfl) rfl rfl (fun empty => textBytes_ne_nil _ (List.append_eq_nil_iff.mp empty).1) payload
        rfl short
      exact ⟨_, header', _, produced⟩
  | unsubscribe u =>
    obtain ⟨id, names⟩ := u
    have reads : (Body.readVariableHeader (.unsubscribe {})).Reads _ _ :=
      (getUint16_reads id).map fun packetIdentifier => Body.unsubscribe { packetIdentifier }
    cases names with
    | nil =>
      have back : ReadsBack (.unsubscribe {}) (putUint16 id) _ 0 := .header reads rfl
      have produced : Codec.firstPacket 2
          ⟨some ((Request.unsubscribe ⟨id, []⟩).header flag), .readVariableHeader, some ⟨_, .unsubscribe {}⟩⟩
          (⟨putUint16 id ++ [], undo⟩ : MarkedQueue) = _ :=
        back.firstPacket (List.cons_ne_nil _ _) rfl (show 2 ≤ 268435455 by decide) (show (2 : Int) ≤ int32 2 by decide)
      exact ⟨_, _, _, produced⟩
    | cons name names =>
      have entry := getString_reads (texts name List.mem_cons_self)
      have payload : ∀ n > 0, (Body.readPayload n (.unsubscribe { packetIdentifier := id })).Reads _ _ :=
        fun n positive => (getEntry_reads positive entry).map fun topicNames => Body.unsubscribe ⟨id, topicNames⟩
      obtain ⟨header', produced⟩ := firstPacket_entry ((Request.unsubscribe ⟨id, name :: names⟩).header flag) undo
        reads (fun _ => rfl) rfl rfl (textBytes_ne_nil _) payload rfl short
      exact ⟨_, header', _, produced⟩

/-- **A packet with a list comes out as a message** with the packet identifier and the first entry. -/
theorem WellFormed.decoded_first (wellFormed : r.WellFormed) {flag : UInt8} (low : flag < 16) {buf : IoBuffer}
    (present : buf.bytes = .ok (r.bytes flag)) :
    ∃ out header' more, Codec.new.Returns buf out ∧ out.msgs = ⟨header', r.decoded⟩ :: more := by
  have wf := IoBuffer.wf_of_bytes present
  rw [IoBuffer.bytes_ok wf] at present
  have holds : Holds buf (r.bytes flag) := ⟨wf, Except.ok.inj present⟩
  have filled : r.bytes flag ≠ [] := List.cons_ne_nil _ _
  have first : ∃ codec' header' later, Codec.firstPacket 3 .new (⟨r.bytes flag, none⟩ : MarkedQueue) =
      .produced codec' ⟨header', r.decoded⟩ ⟨later, some []⟩ := by
    obtain ⟨codec', header', later, produced⟩ := wellFormed.behind flag (some [])
    refine ⟨codec', header', later, ?_⟩
    have some_ : ReadBuffer.len (⟨r.bytes flag, none⟩ : MarkedQueue) > 0 :=
      Int.natCast_pos.mpr (List.length_pos_iff.mpr filled)
    rw [Codec.firstPacket, if_pos some_, bytes,
      Codec.pass_fixedHeader rfl (wellFormed.headOf low) (ofCode_code r.type), ← produced]
    cases r <;> rfl
  obtain ⟨codec', header', later, produced⟩ := first
  obtain ⟨out', more, returned, msgs⟩ := Codec.new_first filled produced
  obtain ⟨out, returned, -, same, -⟩ := Codec.Returns.of_queue holds returned
  exact ⟨out, header', more, returned, same.trans msgs⟩

end Request

/-! ### Answers -/

/-- The headers carry over the method and the packet identifier. -/
def Carries (header response : CommonHeader) : Prop :=
  response.get headerMethod = header.get headerMethod ∧ response.get headerPacketID = header.get headerPacketID

theorem carryOver_of_ne {key other : Bytes} (differ : key ≠ other) (header headers : CommonHeader) :
    (carryOver header key headers).get other = headers.get other := by
  unfold carryOver
  split
  · exact CommonHeader.get_set_of_ne differ headers _
  · rfl

theorem carryOver_self {key : Bytes} {headers : CommonHeader} (absent : headers.get key = none) (header : CommonHeader) :
    (carryOver header key headers).get key = header.get key := by
  unfold carryOver
  split
  · next value there => rw [CommonHeader.get_set_self, there]
  · next missing => rw [absent, missing]

theorem handleSuccess_carries (header : CommonHeader) : Carries header (handleSuccess header) := by
  constructor
  · rw [handleSuccess, carryOver_of_ne (by decide), carryOver_of_ne (by decide), carryOver_self (by decide)]
  · rw [handleSuccess, carryOver_of_ne (by decide), carryOver_self]
    rw [carryOver_of_ne (by decide)]
    decide

/-- **The bytes acknowledge the request**: they are a `SubAck` with its packet identifier and as many return
codes as it has topic filters, or an `UnsubAck` with its packet identifier. -/
def Request.AckedBy (bytes : Bytes) : Request → Prop
  | .subscribe s => ∃ m codes, codes.length = s.topicFilters.length ∧
      (MsgType.subAck.new (.subAck ⟨s.packetIdentifier, codes⟩)).encode = .ok (m, .ok bytes)
  | .unsubscribe u => ∃ m, (MsgType.unsubAck.new (.unsubAck u.packetIdentifier)).encode = .ok (m, .ok bytes)

/-- **The request in the buffer is acknowledged**: the codec makes a message of it, and any answer to the
headers of that message that carries over its method and its packet identifier is written as an
acknowledgement. -/
def Acknowledged (json : Json) (buf : IoBuffer) (r : Request) : Prop :=
  ∃ out msg more, Codec.new.Returns buf out ∧ out.msgs = msg :: more ∧
    ∀ response, Carries (msg.getHeader json) response →
      ∃ bytes, ((ServerStream.mk (some msg) none).appendHeaders response).stream.doSend false = .ok (some bytes) ∧
        r.AckedBy bytes

section

variable (json : Json)

theorem setMarshalled_of_ne {key : Bytes} (differ : headerTopicFilter ≠ key) (header : CommonHeader) (value : Option Bytes) :
    (setMarshalled header value).get key = header.get key := by
  cases value with
  | none => rfl
  | some b => exact CommonHeader.get_set_of_ne differ header b

theorem Request.getHeader_decoded (r : Request) (header : Header) :
    ((⟨header, r.decoded⟩ : Message).getHeader json).get headerMethod = some r.type.str ∧
      ((⟨header, r.decoded⟩ : Message).getHeader json).get headerPacketID = some (itoa r.packetIdentifier.toNat) := by
  have apart : headerPacketID ≠ headerMethod := by decide
  have method : headerTopicFilter ≠ headerMethod := by decide
  have packet : headerTopicFilter ≠ headerPacketID := by decide
  cases r <;>
    exact ⟨by
      simp only [Message.getHeader, decoded]
      rw [setMarshalled_of_ne method, CommonHeader.get_set_of_ne apart, CommonHeader.get_set_self]
      rfl, by
      simp only [Message.getHeader, decoded]
      rw [setMarshalled_of_ne packet, CommonHeader.get_set_self]
      rfl⟩

theorem packetIdOf_itoa {headerIn : CommonHeader} {id : UInt16} (carried : headerIn.get headerPacketID = some (itoa id.toNat)) :
    packetIdOf headerIn = id := by
  have small := id.toNat_lt
  rw [packetIdOf, carried, Option.getD_some, atoi_itoa (by omega)]
  show UInt16.ofNat ((id.toNat : Int) % 2 ^ 16).toNat = id
  rw [Int.emod_eq_of_lt (by omega) (by omega), Int.toNat_natCast, UInt16.ofNat_toNat]

/-- What a request is answered with. -/
def Request.reply : Request → Message
  | .subscribe s => MsgType.subAck.new (.subAck { packetIdentifier := s.packetIdentifier })
  | .unsubscribe u => MsgType.unsubAck.new (.unsubAck u.packetIdentifier)

omit json in
theorem Request.appendHeaders_carried {r : Request} {response : CommonHeader} (ss : ServerStream)
    (method : response.get headerMethod = some r.type.str)
    (packetID : response.get headerPacketID = some (itoa r.packetIdentifier.toNat)) :
    (ss.appendHeaders response).stream.res = some r.reply := by
  have there : (response.del headerStatus).get headerMethod = some r.type.str :=
    (CommonHeader.get_del_of_ne (by decide) response).trans method
  have id : packetIdOf ((response.del headerStatus).del headerMethod) = r.packetIdentifier := by
    refine packetIdOf_itoa ?_
    rw [CommonHeader.get_del_of_ne (by decide), CommonHeader.get_del_of_ne (by decide), packetID]
  simp only [ServerStream.appendHeaders, there]
  cases r with
  | subscribe s =>
    have notConnect : MsgType.subscribe.str ≠ MsgType.connect.str := by decide
    rw [ServerStream.answer, type, if_neg notConnect, if_pos rfl, id]
    rfl
  | unsubscribe u =>
    have notConnect : MsgType.unsubscribe.str ≠ MsgType.connect.str := by decide
    have notSubscribe : MsgType.unsubscribe.str ≠ MsgType.subscribe.str := by decide
    rw [ServerStream.answer, type, if_neg notConnect, if_neg notSubscribe, if_pos rfl, id]
    rfl

/-- The bytes of that answer. -/
def Request.replyBytes : Request → Bytes
  | .subscribe s => [0x90, 0x02] ++ putUint16 s.packetIdentifier
  | .unsubscribe u => [0xb0, 0x02] ++ putUint16 u.packetIdentifier

omit json in
theorem Message.encode_of_write {m : Message} {written : Bytes} (refused : m.refused = false)
    (passes : m.lengthPasses (m.stamp written) = true) (wrote : m.body.write = .ok written) :
    m.encode = .ok (⟨m.stamp written, m.body⟩, .ok ((m.stamp written).encode ++ written)) := by
  rw [Message.encode, refused, wrote]
  change (if !m.lengthPasses (m.stamp written) then _ else _) = _
  rw [passes]
  rfl

omit json in
theorem Request.reply_encode (r : Request) : ∃ m, r.reply.encode = .ok (m, .ok r.replyBytes) := by
  -- the identifier is all that is written, so two is the length in the header
  have two : int32 (2 : Nat) = 2 := by decide
  cases r with
  | subscribe s =>
    have stamped : (Request.subscribe s).reply.stamp (putUint16 s.packetIdentifier) = ⟨9, 0, 2⟩ :=
      congrArg (Header.mk 9 0) two
    have wrote : (Request.subscribe s).reply.body.write = .ok (putUint16 s.packetIdentifier) := rfl
    have encoded := Message.encode_of_write rfl rfl wrote
    rw [stamped] at encoded
    exact ⟨_, encoded⟩
  | unsubscribe u =>
    have stamped : (Request.unsubscribe u).reply.stamp (putUint16 u.packetIdentifier) = ⟨11, 0, 2⟩ :=
      congrArg (Header.mk 11 0) two
    have encoded := Message.encode_of_write rfl rfl (rfl : (Request.unsubscribe u).reply.body.write = _)
    rw [stamped] at encoded
    exact ⟨_, encoded⟩

omit json in
theorem replyBytes_ne_subAck {s : Subscribe} {codes : List UInt8} {m : Message} (present : codes ≠ []) :
    (MsgType.subAck.new (.subAck ⟨s.packetIdentifier, codes⟩)).encode ≠ .ok (m, .ok (Request.subscribe s).replyBytes) := by
  have counted (header : Header)
      (same : (Request.subscribe s).replyBytes = header.encode ++ (putUint16 s.packetIdentifier ++ codes)) :
      (encodeLength header.remainingLength).length + codes.length = 1 := by
    have lengths := congrArg List.length same
    simp only [Request.replyBytes, List.length_append, List.length_cons, List.length_nil, Header.encode, putUint16]
      at lengths
    omega
  intro encoded
  obtain ⟨written, wrote, -, split⟩ := Message.encode_eq encoded
  obtain rfl := Except.ok.inj wrote
  have length := counted _ split
  have one : codes.length = 1 := by
    have := List.length_pos_iff.mpr present
    omega
  have stamped : ((MsgType.subAck.new (.subAck ⟨s.packetIdentifier, codes⟩)).stamp
      (putUint16 s.packetIdentifier ++ codes)).remainingLength =
        int32 (putUint16 s.packetIdentifier ++ codes).length := by
    simp only [Message.stamp, MsgType.new]
  have lengths : (putUint16 s.packetIdentifier ++ codes).length = 3 := by
    rw [List.length_append, one]
    rfl
  have three : encodeLength (int32 (3 : Nat)) = [3] := by decide
  rw [stamped, lengths, three, one] at length
  exact absurd length (by decide)

/-- **A request is answered with its packet identifier**, and nothing else. -/
theorem Request.doSend_carried (r : Request) {header : Header} {response : CommonHeader}
    (carries : Carries ((⟨header, r.decoded⟩ : Message).getHeader json) response) :
    ((ServerStream.mk (some ⟨header, r.decoded⟩) none).appendHeaders response).stream.doSend false =
      .ok (some r.replyBytes) := by
  obtain ⟨method, packetID⟩ := r.getHeader_decoded json header
  obtain ⟨m, encoded⟩ := r.reply_encode
  rw [ServerStream.doSend, r.appendHeaders_carried _ (carries.1.trans method) (carries.2.trans packetID)]
  simp only
  rw [encoded]
  rfl

theorem acknowledged_unsubscribe {u : Unsubscribe} (wellFormed : (Request.unsubscribe u).WellFormed) {flag : UInt8}
    (low : flag < 16) {buf : IoBuffer} (present : buf.bytes = .ok ((Request.unsubscribe u).bytes flag)) :
    Acknowledged json buf (.unsubscribe u) := by
  obtain ⟨out, header, more, returned, msgs⟩ := wellFormed.decoded_first low present
  refine ⟨out, _, more, returned, msgs, fun response carries => ?_⟩
  exact ⟨_, Request.doSend_carried json _ carries, (Request.unsubscribe u).reply_encode⟩

theorem not_acknowledged_subscribe {s : Subscribe} (wellFormed : (Request.subscribe s).WellFormed) {flag : UInt8}
    (low : flag < 16) {buf : IoBuffer} (present : buf.bytes = .ok ((Request.subscribe s).bytes flag)) :
    ¬ Acknowledged json buf (.subscribe s) := by
  rintro ⟨out, msg, more, returned, msgs, answered⟩
  obtain ⟨out', header, more', returned', msgs'⟩ := wellFormed.decoded_first low present
  obtain rfl := returned.unique returned'
  obtain ⟨rfl, -⟩ := List.cons.inj (msgs.symm.trans msgs')
  have carries := handleSuccess_carries ((⟨header, (Request.subscribe s).decoded⟩ : Message).getHeader json)
  obtain ⟨bytes, written, m, codes, number, acked⟩ := answered _ carries
  rw [Request.doSend_carried json _ carries] at written
  cases written
  have present : codes ≠ [] := by
    rintro rfl
    exact wellFormed.texts.1 (List.length_eq_zero_iff.mp number.symm)
  exact replyBytes_ne_subAck present acked

/-- **A request is acknowledged exactly if it is an `Unsubscribe`.** -/
theorem acknowledged_iff {r : Request} (wellFormed : r.WellFormed) {flag : UInt8} (low : flag < 16) {buf : IoBuffer}
    (present : buf.bytes = .ok (r.bytes flag)) : Acknowledged json buf r ↔ ∃ u, r = .unsubscribe u := by
  cases r with
  | subscribe s =>
    refine iff_of_false (not_acknowledged_subscribe json wellFormed low present) ?_
    rintro ⟨u, same⟩
    cases same
  | unsubscribe u => exact iff_of_true (acknowledged_unsubscribe json wellFormed low present) ⟨u, rfl⟩

end

/-- Two topics are taken back, of which the codec reads one. -/
theorem acknowledged_iff_names : Acknowledged ⟨fun _ => none, fun _ => none⟩
      (IoBuffer.newBytes [0xa2, 0x08, 0x00, 0x07, 0x00, 0x01, 0x61, 0x00, 0x01, 0x62])
      (.unsubscribe ⟨7, [[0x61], [0x62]]⟩) := by
  have texts : ∀ name ∈ ([[0x61], [0x62]] : List Bytes), name ≠ [] ∧ name.length ≤ 65535 := by decide
  have wellFormed : (Request.unsubscribe ⟨7, [[0x61], [0x62]]⟩).WellFormed := ⟨texts, by decide⟩
  have present : (IoBuffer.newBytes [0xa2, 0x08, 0x00, 0x07, 0x00, 0x01, 0x61, 0x00, 0x01, 0x62]).bytes =
      .ok ((Request.unsubscribe ⟨7, [[0x61], [0x62]]⟩).bytes 2) := by decide
  exact (acknowledged_iff _ wellFormed (by decide) present).mpr ⟨_, rfl⟩

/-- **The answer to a `Subscribe` has no return code**: one topic filter, and a `SubAck` of four bytes. -/
theorem subAck_empty : let r := Request.subscribe ⟨7, [⟨[0x61], 1⟩]⟩
    let json : Json := ⟨fun _ => none, fun _ => none⟩
    let buf := IoBuffer.newBytes [0x82, 0x06, 0x00, 0x07, 0x00, 0x01, 0x61, 0x01]
    (∃ out msg more, Codec.new.Returns buf out ∧ out.msgs = msg :: more ∧
      ((ServerStream.mk (some msg) none).appendHeaders (handleSuccess (msg.getHeader json))).stream.doSend false =
        .ok (some [0x90, 0x02, 0x00, 0x07])) ∧ ¬ Acknowledged json buf r := by
  intro r json buf
  have texts : [(⟨[0x61], 1⟩ : TopicFilter)] ≠ [] ∧ ∀ filter ∈ [(⟨[0x61], 1⟩ : TopicFilter)],
      filter.topicName ≠ [] ∧ filter.topicName.length ≤ 65535 := by decide
  have wellFormed : r.WellFormed := ⟨texts, by decide⟩
  have present : buf.bytes = .ok (r.bytes 2) := by decide
  obtain ⟨out, header, more, returned, msgs⟩ := wellFormed.decoded_first (by decide) present
  have written := r.doSend_carried json (handleSuccess_carries ((⟨header, r.decoded⟩ : Message).getHeader json))
  exact ⟨⟨out, _, more, returned, msgs, written⟩, not_acknowledged_subscribe json wellFormed (by decide) present⟩

end Strike.Mqtt
