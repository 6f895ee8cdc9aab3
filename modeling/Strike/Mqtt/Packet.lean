/-
**Encoded packets and how they are read back.**

A `Packet` is a message together with the bytes its `Encode` returned. `Readable` says for which
packets the decoder reads exactly what `Encode` wrote, and `asRead` is the message it then produces.

* `Body.readsBack`: the fields of such a packet are read back, type by type.
* `Readable.produced`: the packet comes out as `asRead` and leaves what follows it, unless the buffer behind
  its fixed header is so long that its length, as an `int32`, is less than the declared one (`Fits`).
-/

import Strike.Mqtt.Encode
import Strike.Mqtt.Framing

namespace Strike.Mqtt

open Lib ReadProg

/-! ### Packets -/

/-- A message, and what its `Encode` returned. -/
structure Packet where
  /-- The message before `Encode`. -/
  source : Message
  /-- The message as `Encode` left it. -/
  message : Message
  bytes : Bytes
  encodes : source.encode = .ok (message, .ok bytes)

variable {bytes : Bytes}

theorem Message.encode_eq {m m' : Message} (encodes : m.encode = .ok (m', .ok bytes)) :
    ∃ written, m.body.write = .ok written ∧ m' = ⟨m.stamp written, m.body⟩ ∧
      bytes = (m.stamp written).encode ++ written := by
  unfold Message.encode at encodes
  split at encodes
  · cases encodes
  · cases wrote : m.body.write with
    | error cause =>
      rw [wrote] at encodes
      cases encodes
    | ok written =>
      rw [wrote] at encodes
      change (if !m.lengthPasses (m.stamp written) then _ else _) = _ at encodes
      split at encodes
      · cases encodes
      · cases encodes
        exact ⟨written, rfl, rfl, rfl⟩

namespace Packet

variable (p : Packet)

/-- The bytes behind the fixed header. -/
def written : Bytes :=
  match p.source.body.write with
  | .ok written => written
  | .error _ => []

theorem write_eq : p.source.body.write = .ok p.written := by
  obtain ⟨written, wrote, -⟩ := Message.encode_eq p.encodes
  rw [Packet.written, wrote]

theorem message_eq : p.message = ⟨p.source.stamp p.written, p.source.body⟩ := by
  obtain ⟨written, wrote, stamped, -⟩ := Message.encode_eq p.encodes
  rw [Packet.written, wrote, stamped]

theorem bytes_eq : p.bytes = p.message.header.encode ++ p.written := by
  obtain ⟨written, wrote, stamped, split⟩ := Message.encode_eq p.encodes
  rw [Packet.written, wrote, stamped, split]

end Packet

/-! ### Which packets are read back -/

/-- A string that is on the wire if its flag is set, and empty otherwise. -/
def IsTextIf (flag : Bool) (s : Bytes) : Prop := if flag then IsText s else s = []

/-- A `Connect` with texts where they are announced, and nowhere else. -/
structure Connect.Readable (c : Connect) : Prop where
  protocolName : IsText c.protocolName
  clientId : IsText c.clientId
  willTopic : IsTextIf c.willFlag c.willTopic
  willMessage : IsTextIf c.willFlag c.willMessage
  username : IsTextIf c.userNameFlag c.username
  password : IsTextIf c.passwordFlag c.password
  willQos : c.willQos.isValid

/-- A `Publish` with a topic, and a packet identifier if its QoS carries one. -/
structure Publish.Readable (p : Publish) : Prop where
  topicName : IsText p.topicName
  packetIdentifier : p.qos.hasId = false → p.packetIdentifier = 0
  qos : p.qos.isValid

/-- **The fields the decoder reads as they were written.** A list packet is one only with a single
entry, or with none on the wire. -/
def Body.Readable : Body → Prop
  | .connect c => c.Readable
  | .connAck c => returnCodeIsValid c.returnCode
  | .publish p => p.Readable
  | .subscribe s => ∃ filter, s.topicFilters = [filter] ∧ IsText filter.topicName
  | .subAck s => ∃ code, s.acks = [code]
  | _ => True

/-- The fields the decoder gives: an empty payload is nil, and topic names are never on the wire. -/
def Body.asRead : Body → Body
  | .publish p => .publish { p with payload := if p.payload.getD [] = [] then none else p.payload }
  | .unsubscribe u => .unsubscribe { u with topicNames := [] }
  | body => body

theorem Body.asRead_publish (p : Publish) : Body.asRead (.publish p) =
    .publish { p with payload := if p.payload.getD [] = [] then none else p.payload } := rfl

/-- **A packet the decoder reads as it was written.** -/
structure Packet.Readable (p : Packet) : Prop where
  typed : p.source.header.msgType = p.source.body.type.code
  flag : p.source.header.msgFlag < 16
  fields : p.source.body.Readable
  short : p.written.length ≤ 268435455
  remaining : remainingLengthIsValid p.message.header.remainingLength

/-- The flags byte carries the fields it is made of: the QoS of a `Publish` has two bits. -/
def Body.Flagged : Body → Prop
  | .publish p => p.qos < 4
  | _ => True

/-- **A packet whose fixed header is read as it was written**, whatever is behind it. -/
structure Packet.Announced (p : Packet) : Prop where
  typed : p.source.header.msgType = p.source.body.type.code
  flag : p.source.header.msgFlag < 16
  fields : p.source.body.Flagged
  short : p.written.length ≤ 268435455
  remaining : remainingLengthIsValid p.message.header.remainingLength

variable {body : Body} {c : Connect}

theorem Body.Readable.flagged (readable : body.Readable) : body.Flagged := by
  cases body with
  | publish p => exact UInt8.lt_trans (of_decide_eq_true readable.qos) (by decide)
  | _ => trivial

theorem Packet.Readable.announced {p : Packet} (readable : p.Readable) : p.Announced :=
  ⟨readable.typed, readable.flag, readable.fields.flagged, readable.short, readable.remaining⟩

/-! ### Reading the fields back -/

/-- **From the fields of `start` the decoder reads `written` and ends with `result`**, with `left`
still counted as remaining: in its variable header alone, or in its variable header and payload. -/
inductive ReadsBack (start : Body) : (written : Bytes) → (result : Body) → (left : Nat) → Prop
  | header {written : Bytes} {result : Body} (reads : start.readVariableHeader.Reads written result)
      (complete : start.completeAfterHeader 0) : ReadsBack start written result 0
  | payload {header payload : Bytes} {between result : Body} (some_ : payload ≠ [])
      (reads : start.readVariableHeader.Reads header between)
      (goes : start.completeAfterHeader payload.length = false) (has : between.hasPayload)
      (reads' : (between.readPayload payload.length).Reads payload result) :
      ReadsBack start (header ++ payload) result (if between.spendsPayload then 0 else payload.length)

theorem textBytes_ne_nil (s : Bytes) : textBytes s ≠ [] := fun empty => nomatch empty

/-- The bytes of a string that may be absent. -/
def textBytesIf (flag : Bool) (s : Bytes) : Bytes := if flag then textBytes s else []

theorem putStringIf_eq {flag : Bool} {s : Bytes} (text : IsTextIf flag s) :
    putStringIf flag s = .ok (textBytesIf flag s) := by
  cases flag with
  | false => rfl
  | true => exact putString_eq text

theorem getStringIf_reads {flag : Bool} {s : Bytes} (text : IsTextIf flag s) :
    (getStringIf flag []).Reads (textBytesIf flag s) s := by
  cases flag with
  | false =>
    have empty : s = [] := text
    subst empty
    exact Reads.pure []
  | true => exact getString_reads text

theorem Qos.eq_ofNat {qos : Qos} (valid : qos.isValid) : ∃ q < 3, qos = UInt8.ofNat q :=
  ⟨qos.toNat, UInt8.lt_iff_toNat_lt.mp (of_decide_eq_true valid), (UInt8.ofNat_toNat).symm⟩

theorem Connect.flags_bits (valid : c.willQos.isValid) :
    decide (c.flags &&& 0x80 > 0) = c.userNameFlag ∧ decide (c.flags &&& 0x40 > 0) = c.passwordFlag ∧
      decide (c.flags &&& 0x20 > 0) = c.willRetain ∧ (c.flags &&& 0x18) >>> 3 = c.willQos ∧
      decide (c.flags &&& 0x04 > 0) = c.willFlag ∧ decide (c.flags &&& 0x02 > 0) = c.cleanSession := by
  obtain ⟨q, small, is⟩ := Qos.eq_ofNat valid
  have all : ∀ (u p r w l : Bool), ∀ q < 3,
      let flags := boolToByte u <<< 7 ||| boolToByte p <<< 6 ||| boolToByte r <<< 5 |||
        UInt8.ofNat q <<< 3 ||| boolToByte w <<< 2 ||| boolToByte l <<< 1
      decide (flags &&& 0x80 > 0) = u ∧ decide (flags &&& 0x40 > 0) = p ∧
        decide (flags &&& 0x20 > 0) = r ∧ (flags &&& 0x18) >>> 3 = UInt8.ofNat q ∧
        decide (flags &&& 0x04 > 0) = w ∧ decide (flags &&& 0x02 > 0) = l := by decide
  have bits := all c.userNameFlag c.passwordFlag c.willRetain c.willFlag c.cleanSession q small
  rwa [← is] at bits

theorem Connect.readVariableHeader_reads (readable : c.Readable) : (Connect.readVariableHeader {}).Reads
      (textBytes c.protocolName ++ ([c.protocolLevel] ++ ([c.flags] ++ putUint16 c.keepAlive)))
      { c with clientId := [], willTopic := [], willMessage := [], username := [], password := [] } := by
  refine (getString_reads readable.protocolName).bind ?_
  refine (getUint8_reads c.protocolLevel).bind ?_
  refine (getUint8_reads c.flags).bind ?_
  obtain ⟨userName, password, retain, qos, will, clean⟩ := Connect.flags_bits readable.willQos
  rw [userName, password, retain, qos, will, clean]
  exact (getUint16_reads c.keepAlive).map fun keepAlive => { c with
    keepAlive, clientId := [], willTopic := [], willMessage := [], username := [], password := [] }

theorem Connect.readPayload_reads (readable : c.Readable) :
    ({ c with clientId := [], willTopic := [], willMessage := [], username := [], password := [] } :
      Connect).readPayload.Reads
      (textBytes c.clientId ++ (textBytesIf c.willFlag c.willTopic ++
        (textBytesIf c.willFlag c.willMessage ++ (textBytesIf c.userNameFlag c.username ++
          textBytesIf c.passwordFlag c.password)))) c := by
  refine (getString_reads readable.clientId).bind ?_
  refine (getStringIf_reads readable.willTopic).bind ?_
  refine (getStringIf_reads readable.willMessage).bind ?_
  refine (getStringIf_reads readable.username).bind ?_
  exact (getStringIf_reads readable.password).map fun password => { c with password }

theorem Connect.write_eq (readable : c.Readable) :
    c.write = .ok (textBytes c.protocolName ++ ([c.protocolLevel] ++ ([c.flags] ++
      putUint16 c.keepAlive)) ++ (textBytes c.clientId ++ (textBytesIf c.willFlag c.willTopic ++
        (textBytesIf c.willFlag c.willMessage ++ (textBytesIf c.userNameFlag c.username ++
          textBytesIf c.passwordFlag c.password))))) := by
  unfold Connect.write
  rw [putString_eq readable.protocolName, putString_eq readable.clientId,
    putStringIf_eq readable.willTopic, putStringIf_eq readable.willMessage,
    putStringIf_eq readable.username, putStringIf_eq readable.password]
  simp only [List.append_assoc]
  rfl

variable {written : Bytes} {p : Publish}

theorem Connect.readsBack (readable : c.Readable)
    (wrote : c.write = .ok written) : ReadsBack (.connect {}) written (.connect c) 0 := by
  rw [Connect.write_eq readable] at wrote
  cases wrote
  have header : (Body.readVariableHeader (.connect {})).Reads _ _ :=
    (Connect.readVariableHeader_reads readable).map Body.connect
  refine .payload ?_ header rfl rfl ((Connect.readPayload_reads readable).map Body.connect)
  exact fun empty => textBytes_ne_nil _ (List.append_eq_nil_iff.mp empty).1

/-- The flags of a `Publish` carry its fields. -/
theorem Publish.flag_bits (low : p.qos < 4) :
    let flag := boolToByte p.dup <<< 3 ||| p.qos <<< 1 ||| boolToByte p.retain
    decide (flag &&& 0x08 > 0) = p.dup ∧ (flag &&& 0x06) >>> 1 = p.qos ∧
      decide (flag &&& 0x01 > 0) = p.retain ∧ flag < 16 := by
  obtain ⟨q, small, is⟩ : ∃ q < 4, p.qos = UInt8.ofNat q :=
    ⟨p.qos.toNat, UInt8.lt_iff_toNat_lt.mp low, (UInt8.ofNat_toNat).symm⟩
  have all : ∀ (d r : Bool), ∀ q < 4,
      let flag := boolToByte d <<< 3 ||| UInt8.ofNat q <<< 1 ||| boolToByte r
      decide (flag &&& 0x08 > 0) = d ∧ (flag &&& 0x06) >>> 1 = UInt8.ofNat q ∧
        decide (flag &&& 0x01 > 0) = r ∧ flag < 16 := by decide
  have bits := all p.dup p.retain q small
  rwa [← is] at bits

theorem Publish.readVariableHeader_reads (readable : p.Readable) :
    (Publish.readVariableHeader { dup := p.dup, qos := p.qos, retain := p.retain }).Reads
      (textBytes p.topicName ++ if p.qos.hasId then putUint16 p.packetIdentifier else [])
      { p with payload := none } := by
  refine (getString_reads readable.topicName).bind ?_
  cases has : p.qos.hasId with
  | true =>
    simp only [if_true]
    exact (getUint16_reads p.packetIdentifier).map fun packetIdentifier =>
      { p with packetIdentifier, payload := none }
  | false =>
    rw [← readable.packetIdentifier has]
    exact Reads.pure _

theorem Publish.write_eq (readable : p.Readable) :
    p.write = .ok (textBytes p.topicName ++ (if p.qos.hasId then putUint16 p.packetIdentifier else []) ++
      p.payload.getD []) := by
  unfold Publish.write
  rw [putString_eq readable.topicName]
  rfl

theorem Publish.readsBack (readable : p.Readable) (wrote : p.write = .ok written) :
    ReadsBack (.publish { dup := p.dup, qos := p.qos, retain := p.retain }) written
      (Body.asRead (.publish p)) 0 := by
  rw [Publish.write_eq readable] at wrote
  cases wrote
  have header : (Body.readVariableHeader
      (.publish { dup := p.dup, qos := p.qos, retain := p.retain })).Reads _ _ :=
    (Publish.readVariableHeader_reads readable).map Body.publish
  rw [Body.asRead_publish]
  by_cases empty : p.payload.getD [] = []
  · rw [empty, List.append_nil, if_pos rfl]
    exact .header header rfl
  · rw [if_neg empty]
    obtain ⟨data, is⟩ : ∃ data, p.payload = some data := by
      cases payload : p.payload with
      | none => exact absurd (by rw [payload]; rfl) empty
      | some data => exact ⟨data, rfl⟩
    rw [is] at empty ⊢
    refine .payload empty header ?_ rfl ((Publish.readPayload_reads _ data).map Body.publish)
    exact beq_false_of_ne (Int.natCast_ne_zero.mpr fun zero => empty (List.length_eq_zero_iff.mp zero))

theorem ConnAck.readVariableHeader_reads {c : ConnAck} (valid : returnCodeIsValid c.returnCode) :
    ConnAck.readVariableHeader.Reads [boolToByte c.sessionPresentFlag, c.returnCode] c := by
  have flag : decide (boolToByte c.sessionPresentFlag &&& 0x01 > 0) = c.sessionPresentFlag := by
    cases c.sessionPresentFlag <;> rfl
  intro rest undo
  refine ⟨(undo.map (· ++ [boolToByte c.sessionPresentFlag])).map (· ++ [c.returnCode]), ?_⟩
  simp [ConnAck.readVariableHeader, valid, flag]

theorem TopicFilter.read_reads {filter : TopicFilter} (text : IsText filter.topicName) :
    TopicFilter.read.Reads (textBytes filter.topicName ++ [filter.requestedQos]) filter :=
  (getString_reads text).bind
    ((getUint8_reads filter.requestedQos).map (TopicFilter.mk filter.topicName))

theorem ReadsBack.entry {α : Type} {entry : ReadProg α} {value : α} {id : UInt16}
    {start between : Body} (store : List α → Body) (some_ : bytes ≠ []) (reads : entry.Reads bytes value)
    (header : start.readVariableHeader.Reads (putUint16 id) between)
    (goes : ∀ n, start.completeAfterHeader n = (n == 0)) (has : between.hasPayload)
    (keeps : between.spendsPayload = false)
    (payload : ∀ n, between.readPayload n = getEntry n entry >>= fun entries => pure (store entries)) :
    ReadsBack start (putUint16 id ++ bytes) (store [value]) bytes.length := by
  have positive : (bytes.length : Int) > 0 := Int.natCast_pos.mpr (List.length_pos_iff.mpr some_)
  have entries : (between.readPayload bytes.length).Reads bytes (store [value]) := by
    rw [payload, getEntry, if_pos positive]
    exact (reads.map fun value => [value]).map store
  have back := ReadsBack.payload some_ header ((goes _).trans (beq_false_of_ne positive.ne')) has entries
  rwa [keeps, if_neg Bool.false_ne_true] at back

/-- What the codec starts from behind the fixed header. -/
def Body.started (body : Body) : Body :=
  match body with
  | .publish p => .publish { dup := p.dup, qos := p.qos, retain := p.retain }
  | body => body.type.blank

/-- The length that still counts as remaining when the message comes out: the list packets do not
subtract their payload. -/
def Body.uncounted (body : Body) (written : Bytes) : Nat :=
  match body with
  | .subscribe _ => written.length - 2
  | .subAck _ => written.length - 2
  | _ => 0

theorem of_bind_ok {α : Type} {first : Except Panic α} {then_ : α → Except Panic Bytes}
    (wrote : first.bind then_ = .ok written) : ∃ a, first = .ok a ∧ then_ a = .ok written := by
  cases first with
  | error cause => cases wrote
  | ok a => exact ⟨a, rfl, wrote⟩

theorem putString_ne_nil {s bytes : Bytes} (wrote : putString s = .ok bytes) : bytes ≠ [] := by
  unfold putString at wrote
  split at wrote <;> cases wrote
  exact List.cons_ne_nil _ _

/-- **Only a message that is complete behind its fixed header writes nothing.** -/
theorem Body.complete_iff (wrote : body.write = .ok written) (header : Header) :
    (Message.decodeFixedHeader ⟨header, body.type.blank⟩).2 = decide (written = []) := by
  cases body with
  | connect c =>
    obtain ⟨_, _, wrote⟩ := of_bind_ok wrote
    obtain ⟨_, name, wrote⟩ := of_bind_ok wrote
    obtain ⟨_, _, wrote⟩ := of_bind_ok wrote
    obtain ⟨_, _, wrote⟩ := of_bind_ok wrote
    obtain ⟨_, _, wrote⟩ := of_bind_ok wrote
    obtain ⟨_, _, wrote⟩ := of_bind_ok wrote
    cases wrote
    exact (decide_eq_false (by simp)).symm
  | publish p =>
    obtain ⟨_, topicName, wrote⟩ := of_bind_ok wrote
    cases wrote
    exact (decide_eq_false (by simp [putString_ne_nil topicName])).symm
  | subscribe s =>
    obtain ⟨_, _, wrote⟩ := of_bind_ok wrote
    cases wrote
    rfl
  | _ => cases wrote; rfl

/-- A message without a body starts as it ends. -/
theorem Body.started_of_empty (wrote : body.write = .ok []) : body.started = body.asRead := by
  have complete := Body.complete_iff wrote ⟨0, 0, 0⟩
  cases body with
  | pingReq => rfl
  | pingResp => rfl
  | disconnect => rfl
  | _ => cases complete

/-- **The fields are read back**, by cases on the type. -/
theorem Body.readsBack (readable : body.Readable) (wrote : body.write = .ok written) (some_ : written ≠ []) :
    ReadsBack body.started written body.asRead (body.uncounted written) := by
  have identifier (store : UInt16 → Body) (start : Body) (id : UInt16)
      (reads : start.readVariableHeader = getUint16 >>= fun id => pure (store id))
      (complete : start.completeAfterHeader 0) : ReadsBack start (putUint16 id) (store id) 0 := by
    refine .header ?_ complete
    rw [reads]
    exact (getUint16_reads id).map store
  cases body with
  | connect c => exact Connect.readsBack readable wrote
  | connAck c =>
    cases wrote
    exact .header ((ConnAck.readVariableHeader_reads readable).map Body.connAck) rfl
  | publish p => exact Publish.readsBack readable wrote
  | pubAck id => cases wrote; exact identifier .pubAck _ id rfl rfl
  | pubRec id => cases wrote; exact identifier .pubRec _ id rfl rfl
  | pubRel id => cases wrote; exact identifier .pubRel _ id rfl rfl
  | pubComp id => cases wrote; exact identifier .pubComp _ id rfl rfl
  | unsubAck id => cases wrote; exact identifier .unsubAck _ id rfl rfl
  | unsubscribe u =>
    cases wrote
    exact identifier (fun packetIdentifier => .unsubscribe { packetIdentifier }) _
      u.packetIdentifier rfl rfl
  | subscribe s =>
    obtain ⟨filter, only, text⟩ := readable
    obtain ⟨id, filters⟩ := s
    simp only at only
    subst only
    simp only [Body.write, writeTopicFilters, putString_eq text] at wrote
    cases wrote
    rw [List.append_nil]
    have header : (Body.readVariableHeader (.subscribe {})).Reads _ _ :=
      (getUint16_reads id).map fun packetIdentifier => Body.subscribe { packetIdentifier }
    exact .entry (fun topicFilters => .subscribe ⟨id, topicFilters⟩)
      (fun empty => textBytes_ne_nil _ (List.append_eq_nil_iff.mp empty).1)
      (TopicFilter.read_reads text) header (fun _ => rfl) rfl rfl fun _ => rfl
  | subAck s =>
    obtain ⟨code, only⟩ := readable
    obtain ⟨id, acks⟩ := s
    simp only at only
    subst only
    cases wrote
    have header : (Body.readVariableHeader (.subAck {})).Reads _ _ :=
      (getUint16_reads id).map fun packetIdentifier => Body.subAck { packetIdentifier }
    exact .entry (fun acks => .subAck ⟨id, acks⟩) (List.cons_ne_nil _ _) (getUint8_reads code) header
      (fun _ => rfl) rfl rfl fun _ => rfl
  | pingReq => cases wrote; exact absurd rfl some_
  | pingResp => cases wrote; exact absurd rfl some_
  | disconnect => cases wrote; exact absurd rfl some_

/-! ### The rounds of the loop -/

theorem Header.spend_eq {header : Header} {k : Nat} (nonneg : 0 ≤ header.remainingLength)
    (bound : header.remainingLength ≤ 268435455) (few : k ≤ 268435455) :
    header.spend k = { header with remainingLength := header.remainingLength - k } := by
  have spent : int32 (header.remainingLength - int32 k) = header.remainingLength - k :=
    Header.spend_remainingLength nonneg bound few
  unfold Header.spend
  rw [spent]

theorem Message.decodeVariableHeader_reads {m : Message} (reads : m.body.readVariableHeader.Reads bytes body) :
    m.decodeVariableHeader.Reads bytes (⟨m.header.spend bytes.length, body⟩,
      m.body.completeAfterHeader (m.header.spend bytes.length).remainingLength) :=
  reads.counted.map fun result => ((⟨m.header.spend result.2, result.1⟩ : Message),
    m.body.completeAfterHeader (m.header.spend result.2).remainingLength)

theorem Message.decodePayload_reads {m : Message}
    (has : m.body.hasPayload) (size : m.header.remainingLength = bytes.length)
    (reads : (m.body.readPayload bytes.length).Reads bytes body) :
    m.decodePayload.Reads bytes
      (⟨if m.body.spendsPayload then m.header.spend bytes.length else m.header, body⟩, true) := by
  intro rest undo
  have enough : ¬ (bytes.length : Int) > (bytes ++ rest).length := by
    rw [List.length_append]
    omega
  have stored := (reads.counted.map fun result =>
    ((⟨if m.body.spendsPayload then m.header.spend result.2 else m.header, result.1⟩ : Message), true))
  obtain ⟨undo', ran⟩ := stored rest undo
  refine ⟨undo', ?_⟩
  rw [← ran]
  simp only [Message.decodePayload, has, size, Bool.not_true, Bool.false_eq_true, if_false, run_bind,
    run_getLen, MarkedQueue.len_eq, if_neg enough]

/-- **What is read back comes out as a message**, and what follows it stays. -/
theorem ReadsBack.firstPacket {header : Header} {start result : Body} {written rest : Bytes}
    {left : Nat} {undo : Option Bytes} (back : ReadsBack start written result left)
    (some_ : written ≠ []) (size : header.remainingLength = written.length)
    (short : written.length ≤ 268435455) (fits : (written.length : Int) ≤ int32 (written ++ rest).length) :
    Codec.firstPacket 2 ⟨some header, .readVariableHeader, some ⟨header, start⟩⟩
        (⟨written ++ rest, undo⟩ : MarkedQueue) =
      .produced ⟨some header, .readFixedHeader, none⟩ ⟨{ header with remainingLength := left }, result⟩
        ⟨rest, some []⟩ := by
  have filled {bytes : Bytes} {undo : Option Bytes} (some_ : bytes ≠ []) :
      ReadBuffer.len (⟨bytes ++ rest, undo⟩ : MarkedQueue) > 0 :=
    Int.natCast_pos.mpr (List.length_pos_iff.mpr fun empty => some_ (List.append_eq_nil_iff.mp empty).1)
  have spend (k : Nat) (few : k ≤ written.length) :
      header.spend k = { header with remainingLength := (written.length : Int) - k } := by
    rw [Header.spend_eq (by omega) (by omega) (by omega), size]
  rw [Codec.firstPacket, if_pos (filled some_), Codec.pass_variableHeader (size ▸ fits)]
  cases back with
  | header reads complete =>
    have reads : (⟨header, start⟩ : Message).decodeVariableHeader.Reads _ _ :=
      Message.decodeVariableHeader_reads reads
    obtain ⟨undo', ran⟩ := reads rest (some [])
    simp only [spend _ le_rfl, Int.sub_self] at ran
    rw [ran, complete]
    rfl
  | @payload bytes payload between result some' reads goes has reads' =>
    have reads : (⟨header, start⟩ : Message).decodeVariableHeader.Reads _ _ :=
      Message.decodeVariableHeader_reads reads
    have remains : ((bytes ++ payload).length : Int) - bytes.length = payload.length := by
      rw [List.length_append]
      omega
    obtain ⟨undo', ran⟩ := reads (payload ++ rest) (some [])
    simp only [spend bytes.length (by rw [List.length_append]; omega), remains] at ran
    rw [List.append_assoc, ran, goes]
    show Codec.firstPacket 1 ⟨some header, .readPayload,
      some ⟨{ header with remainingLength := payload.length }, between⟩⟩
        (⟨payload ++ rest, some []⟩ : MarkedQueue) = _
    let left : Header := { header with remainingLength := payload.length }
    have few : payload.length ≤ 268435455 := by
      rw [List.length_append] at short
      omega
    have counted : (if between.spendsPayload then left.spend payload.length else left) =
        { header with remainingLength := ((if between.spendsPayload then 0 else payload.length : Nat)) } := by
      cases between.spendsPayload with
      | true =>
        rw [if_pos rfl, if_pos rfl, Header.spend_eq (Int.natCast_nonneg _) (Int.ofNat_le.mpr few) few,
          Int.sub_self]
        rfl
      | false => rfl
    have reads' : (⟨left, between⟩ : Message).decodePayload.Reads _ _ :=
      Message.decodePayload_reads has rfl reads'
    obtain ⟨undo', ran'⟩ := reads' rest (some [])
    rw [Codec.firstPacket, if_pos (filled some'), Codec.pass_payload, ran', ← counted]
    rfl

/-! ### The fixed header of a packet -/

theorem typeIsValid_code (type : MsgType) : typeIsValid type.code := by cases type <;> rfl

theorem ofCode_code (type : MsgType) : MsgType.ofCode type.code = some type := by cases type <;> rfl

namespace Message

variable {m : Message} {written : Bytes}

/-- **The header `Encode` leaves**: of the same type, with flags below 16, and with the length of what
it wrote unless that is nothing. -/
theorem stamp_spec (wrote : m.body.write = .ok written) (flagged : m.body.Flagged)
    (low : m.header.msgFlag < 16) (short : written.length ≤ 268435455) :
    ∃ flag length, m.stamp written = ⟨m.header.msgType, flag, length⟩ ∧ flag < 16 ∧
      (written ≠ [] → length = written.length) ∧ ∀ p, m.body = .publish p →
        flag = boolToByte p.dup <<< 3 ||| p.qos <<< 1 ||| boolToByte p.retain := by
  have fits : int32 written.length = written.length := int32_of_fits (by omega) (by omega)
  obtain ⟨header, body⟩ := m
  cases body with
  | publish p =>
    refine ⟨_, _, rfl, (Publish.flag_bits flagged).2.2.2, fun _ => fits, fun p' is => ?_⟩
    cases is
    rfl
  | pingReq => cases wrote; exact ⟨_, _, rfl, low, (absurd rfl ·), fun _ is => nomatch is⟩
  | pingResp => cases wrote; exact ⟨_, _, rfl, low, (absurd rfl ·), fun _ is => nomatch is⟩
  | disconnect => cases wrote; exact ⟨_, _, rfl, low, (absurd rfl ·), fun _ is => nomatch is⟩
  | _ => exact ⟨_, _, rfl, low, fun _ => fits, fun _ is => nomatch is⟩

theorem decodeFixedHeader_started (wrote : m.body.write = .ok written) (flagged : m.body.Flagged)
    (low : m.header.msgFlag < 16) (short : written.length ≤ 268435455) :
    Message.decodeFixedHeader ⟨m.stamp written, m.body.type.blank⟩ =
      (⟨m.stamp written, m.body.started⟩, decide (written = [])) := by
  obtain ⟨flag, length, stamped, -, -, bits⟩ := stamp_spec wrote flagged low short
  rw [stamped]
  refine Prod.ext ?_ (Body.complete_iff wrote _)
  obtain ⟨header, body⟩ := m
  cases body with
  | publish p =>
    obtain ⟨dup, qos, retain, -⟩ := Publish.flag_bits flagged
    rw [← bits p rfl] at dup qos retain
    show Message.mk _ (.publish {
      dup := decide (flag &&& 0x08 > 0)
      qos := (flag &&& 0x06) >>> 1
      retain := decide (flag &&& 0x01 > 0) }) = _
    rw [dup, qos, retain]
    rfl
  | _ => rfl

end Message

/-! ### The packet as a whole -/

namespace Packet

variable {p : Packet}

/-- **The message the decoder makes of a packet.** -/
def asRead (p : Packet) : Message :=
  ⟨{ p.message.header with remainingLength :=
      if p.written = [] then p.message.header.remainingLength else p.source.body.uncounted p.written },
    p.source.body.asRead⟩

/-- The length of the buffer behind the fixed header, as an `int32`, is no less than the declared one. -/
def Fits (p : Packet) (rest : Bytes) : Prop :=
  p.written = [] ∨ p.message.header.remainingLength ≤ int32 (p.written ++ rest).length

/-- The codec behind the fixed header of a packet. -/
def behindHead (p : Packet) : Codec :=
  ⟨some p.message.header, .readVariableHeader, some ⟨p.message.header, p.source.body.started⟩⟩

/-- The codec after a packet. -/
def behind (p : Packet) : Codec := ⟨some p.message.header, .readFixedHeader, none⟩

theorem header_eq : p.message.header = p.source.stamp p.written := by rw [p.message_eq]

theorem Announced.stamp_spec (announced : p.Announced) :
    ∃ flag length, p.message.header = ⟨p.source.body.type.code, flag, length⟩ ∧ flag < 16 ∧
      (p.written ≠ [] → length = p.written.length) := by
  obtain ⟨flag, length, stamped, low, size, -⟩ :=
    Message.stamp_spec p.write_eq announced.fields announced.flag announced.short
  exact ⟨flag, length, header_eq.trans (announced.typed ▸ stamped), low, size⟩

theorem Announced.headOf (announced : p.Announced) : HeadOf p.message.header.encode p.message.header := by
  have bounds := announced.remaining
  simp only [remainingLengthIsValid, Bool.and_eq_true, decide_eq_true_eq] at bounds
  obtain ⟨flag, length, is, low, -⟩ := announced.stamp_spec
  refine headOf_encode ?_ ?_ bounds.1 bounds.2
  · rw [is]
    exact typeIsValid_code _
  · rw [is]
    exact low

theorem Announced.length_eq (announced : p.Announced) (some_ : p.written ≠ []) :
    p.message.header.remainingLength = p.written.length := by
  obtain ⟨flag, length, is, -, size⟩ := announced.stamp_spec
  rw [is]
  exact size some_

theorem Readable.fits_of_short {rest : Bytes} (readable : p.Readable)
    (short : (p.bytes ++ rest).length < 2 ^ 31) : p.Fits rest := by
  by_cases empty : p.written = []
  · exact .inl empty
  · rw [p.bytes_eq, List.append_assoc, List.length_append] at short
    have whole : int32 (p.written ++ rest).length = (p.written ++ rest).length :=
      int32_of_fits (by omega) (by omega)
    refine .inr ?_
    rw [readable.announced.length_eq empty, whole, List.length_append]
    omega

section Rounds

variable {codec : Codec} {rest : Bytes} (undo : Option Bytes)

theorem Announced.pass_head (announced : p.Announced) (state : codec.decoderState = .readFixedHeader) :
    codec.pass (⟨p.message.header.encode ++ rest, undo⟩ : MarkedQueue) =
      if p.written = [] then .next p.behind (some p.asRead) ⟨rest, some []⟩
      else .next p.behindHead none ⟨rest, some []⟩ := by
  obtain ⟨flag, length, is, -⟩ := announced.stamp_spec
  have known : MsgType.ofCode p.message.header.msgType = some p.source.body.type := by
    rw [is]
    exact ofCode_code _
  have started := Message.decodeFixedHeader_started p.write_eq announced.fields announced.flag announced.short
  rw [← header_eq] at started
  rw [Codec.pass_fixedHeader state announced.headOf known, started]
  by_cases empty : p.written = []
  · have wrote := p.write_eq
    rw [empty] at wrote
    have same : p.asRead = ⟨p.message.header, p.source.body.started⟩ := by
      rw [asRead, if_pos empty, Body.started_of_empty wrote]
    rw [if_pos empty, same, decide_eq_true empty]
    rfl
  · rw [if_neg empty, decide_eq_false empty]
    rfl

theorem Readable.produced_behind (readable : p.Readable) (some_ : p.written ≠ []) (fits : p.Fits rest) :
    Codec.firstPacket 2 p.behindHead (⟨p.written ++ rest, undo⟩ : MarkedQueue) =
      .produced p.behind p.asRead ⟨rest, some []⟩ := by
  have size := readable.announced.length_eq some_
  rw [asRead, if_neg some_]
  refine (Body.readsBack readable.fields p.write_eq some_).firstPacket some_ size readable.short ?_
  rw [← size]
  exact fits.resolve_left some_

theorem Readable.firstPacket_eq (readable : p.Readable) (state : codec.decoderState = .readFixedHeader) :
    Codec.firstPacket 3 codec (⟨p.message.header.encode ++ rest, undo⟩ : MarkedQueue) =
      if p.written = [] then .produced p.behind p.asRead ⟨rest, some []⟩
      else Codec.firstPacket 2 p.behindHead (⟨rest, some []⟩ : MarkedQueue) := by
  have filled : ReadBuffer.len (⟨p.message.header.encode ++ rest, undo⟩ : MarkedQueue) > 0 :=
    Int.natCast_pos.mpr (Nat.succ_pos _)
  rw [Codec.firstPacket, if_pos filled, readable.announced.pass_head undo state]
  by_cases empty : p.written = []
  · rw [if_pos empty, if_pos empty]
  · rw [if_neg empty, if_neg empty]

/-- **A packet comes out as a message**, and what follows it stays. -/
theorem Readable.produced (readable : p.Readable) (state : codec.decoderState = .readFixedHeader)
    (fits : p.Fits rest) :
    Codec.firstPacket 3 codec (⟨p.bytes ++ rest, undo⟩ : MarkedQueue) =
      .produced p.behind p.asRead ⟨rest, some []⟩ := by
  rw [bytes_eq, List.append_assoc, readable.firstPacket_eq undo state]
  split
  · next empty => rw [empty, List.nil_append]
  · next some_ => exact readable.produced_behind _ some_ fits

theorem rejected_behind {part : Bytes} (some_ : part ≠ [])
    (short : int32 part.length < p.message.header.remainingLength) (rounds : Nat) :
    Codec.firstPacket (rounds + 1) p.behindHead (⟨part, undo⟩ : MarkedQueue) =
      .rejected p.behindHead (.error errorInvalidRemainingLength) ⟨part, some []⟩ := by
  have filled : ReadBuffer.len (⟨part, undo⟩ : MarkedQueue) > 0 :=
    Int.natCast_pos.mpr (List.length_pos_iff.mpr some_)
  unfold behindHead
  rw [Codec.firstPacket, if_pos filled, Codec.pass_short short]

/-- **Unless the buffer is too long**: then it is rejected behind its fixed header. -/
theorem Readable.rejected (readable : p.Readable) (state : codec.decoderState = .readFixedHeader)
    (overflows : ¬ p.Fits rest) :
    Codec.firstPacket 3 codec (⟨p.bytes ++ rest, undo⟩ : MarkedQueue) =
      .rejected p.behindHead (.error errorInvalidRemainingLength) ⟨p.written ++ rest, some []⟩ := by
  obtain ⟨some_, short⟩ := not_or.mp overflows
  rw [bytes_eq, List.append_assoc, readable.firstPacket_eq undo state, if_neg some_]
  exact rejected_behind _ (fun empty => some_ (List.append_eq_nil_iff.mp empty).1) (not_le.mp short) 1

end Rounds

end Packet

end Strike.Mqtt
