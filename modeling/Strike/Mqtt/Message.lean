/-
**MQTT messages and their decoders** (`pkg/protocol/mqtt/message`).

A message is a `Header` and the fields of its type (`Body`). Its three decoding methods are
`decodeFixedHeader`, which reads nothing, `decodeVariableHeader` and `decodePayload`, which are
programs over the buffer interface. Each returns the message with the fields it has read and whether
the message is complete.

The source stores each field as it is read, so a decoder that panics leaves a message with some
fields new and some old. Such a message stays in the codec, and the same method runs on it again and
stores all of the same fields; nobody sees it before that. The model keeps the message as it was.

A remaining length is an `int32`; `spend` subtracts what was read with that type's wrap-around.
-/

import Strike.Lib.ReadProg

namespace Strike.Mqtt

open Lib ReadProg

/-! ### Types, codes and errors -/

/-- `ErrorInvalidRemainingLength`. -/
def errorInvalidRemainingLength : GoError := .new "Invalid remaining length "

/-- `ErrorInvalidMessage`. -/
def errorInvalidMessage : GoError := .new "Invalid message "

/-- The types `MsgTypeConnect` to `MsgTypeDisconnect`. -/
inductive MsgType where
  | connect
  | connAck
  | publish
  | pubAck
  | pubRec
  | pubRel
  | pubComp
  | subscribe
  | subAck
  | unsubscribe
  | unsubAck
  | pingReq
  | pingResp
  | disconnect
  deriving DecidableEq, Repr

/-- The value of the `Type` constant. -/
def MsgType.code : MsgType → UInt8
  | .connect => 1
  | .connAck => 2
  | .publish => 3
  | .pubAck => 4
  | .pubRec => 5
  | .pubRel => 6
  | .pubComp => 7
  | .subscribe => 8
  | .subAck => 9
  | .unsubscribe => 10
  | .unsubAck => 11
  | .pingReq => 12
  | .pingResp => 13
  | .disconnect => 14

/-- The constant with a value. -/
def MsgType.ofCode (code : UInt8) : Option MsgType :=
  match code.toNat with
  | 1 => some .connect
  | 2 => some .connAck
  | 3 => some .publish
  | 4 => some .pubAck
  | 5 => some .pubRec
  | 6 => some .pubRel
  | 7 => some .pubComp
  | 8 => some .subscribe
  | 9 => some .subAck
  | 10 => some .unsubscribe
  | 11 => some .unsubAck
  | 12 => some .pingReq
  | 13 => some .pingResp
  | 14 => some .disconnect
  | _ => none

/-- `Type.IsValid`. -/
def typeIsValid (code : UInt8) : Bool := 1 ≤ code && code < 15

/-- `Qos`. -/
abbrev Qos := UInt8

/-- `Qos.IsValid`. -/
def Qos.isValid (qos : Qos) : Bool := qos < 3

/-- `Qos.HasId`. -/
def Qos.hasId (qos : Qos) : Bool := qos == 1 || qos == 2

/-- `ReturnCode.IsValid`. -/
def returnCodeIsValid (code : UInt8) : Bool := 0 ≤ code && code < 6

/-- `RemainingLength.IsValid`. -/
def remainingLengthIsValid (length : Int) : Bool := 0 ≤ length && length ≤ 268435455

/-! ### Messages -/

/-- `Header`. -/
structure Header where
  msgType : UInt8
  msgFlag : UInt8 := 0
  remainingLength : Int := 0
  deriving DecidableEq, Repr

/-- `Connect`. -/
structure Connect where
  protocolName : Bytes := []
  protocolLevel : UInt8 := 0
  userNameFlag : Bool := false
  passwordFlag : Bool := false
  willRetain : Bool := false
  willQos : Qos := 0
  willFlag : Bool := false
  cleanSession : Bool := false
  keepAlive : UInt16 := 0
  clientId : Bytes := []
  willTopic : Bytes := []
  willMessage : Bytes := []
  username : Bytes := []
  password : Bytes := []
  deriving DecidableEq, Repr

/-- `ConnAck`. -/
structure ConnAck where
  sessionPresentFlag : Bool := false
  returnCode : UInt8 := 0
  deriving DecidableEq, Repr

/-- `Publish`. The payload may be nil. -/
structure Publish where
  dup : Bool := false
  qos : Qos := 0
  retain : Bool := false
  topicName : Bytes := []
  packetIdentifier : UInt16 := 0
  payload : Option Bytes := none
  deriving DecidableEq, Repr

/-- `TopicFilter`. -/
structure TopicFilter where
  topicName : Bytes
  requestedQos : Qos
  deriving DecidableEq, Repr

/-- `Subscribe`. -/
structure Subscribe where
  packetIdentifier : UInt16 := 0
  topicFilters : List TopicFilter := []
  deriving DecidableEq, Repr

/-- `SubAck`. -/
structure SubAck where
  packetIdentifier : UInt16 := 0
  acks : List UInt8 := []
  deriving DecidableEq, Repr

/-- `Unsubscribe`. -/
structure Unsubscribe where
  packetIdentifier : UInt16 := 0
  topicNames : List Bytes := []
  deriving DecidableEq, Repr

/-- The fields of a message besides its header. `PubAck`, `PubRec`, `PubRel`, `PubComp` and `UnsubAck`
have a packet identifier only, `PingReq`, `PingResp` and `Disconnect` have none. -/
inductive Body where
  | connect (fields : Connect)
  | connAck (fields : ConnAck)
  | publish (fields : Publish)
  | pubAck (packetIdentifier : UInt16)
  | pubRec (packetIdentifier : UInt16)
  | pubRel (packetIdentifier : UInt16)
  | pubComp (packetIdentifier : UInt16)
  | subscribe (fields : Subscribe)
  | subAck (fields : SubAck)
  | unsubscribe (fields : Unsubscribe)
  | unsubAck (packetIdentifier : UInt16)
  | pingReq
  | pingResp
  | disconnect
  deriving DecidableEq, Repr

/-- The type a message with these fields has. -/
def Body.type : Body → MsgType
  | .connect _ => .connect
  | .connAck _ => .connAck
  | .publish _ => .publish
  | .pubAck _ => .pubAck
  | .pubRec _ => .pubRec
  | .pubRel _ => .pubRel
  | .pubComp _ => .pubComp
  | .subscribe _ => .subscribe
  | .subAck _ => .subAck
  | .unsubscribe _ => .unsubscribe
  | .unsubAck _ => .unsubAck
  | .pingReq => .pingReq
  | .pingResp => .pingResp
  | .disconnect => .disconnect

/-- A `Message`. -/
structure Message where
  header : Header
  body : Body
  deriving DecidableEq, Repr

/-- The message struct of a type before anything is read. -/
def MsgType.blank : MsgType → Body
  | .connect => .connect {}
  | .connAck => .connAck {}
  | .publish => .publish {}
  | .pubAck => .pubAck 0
  | .pubRec => .pubRec 0
  | .pubRel => .pubRel 0
  | .pubComp => .pubComp 0
  | .subscribe => .subscribe {}
  | .subAck => .subAck {}
  | .unsubscribe => .unsubscribe {}
  | .unsubAck => .unsubAck 0
  | .pingReq => .pingReq
  | .pingResp => .pingResp
  | .disconnect => .disconnect

/-- `NewMessage`; `none` is nil. -/
def newMessage (header : Header) : Option Message :=
  (MsgType.ofCode header.msgType).map fun type => ⟨header, type.blank⟩

/-! ### Reading values -/

/-- `binary.BigEndian.Uint16`. -/
def bigEndianUint16 (high low : UInt8) : UInt16 := low.toUInt16 ||| high.toUInt16 <<< 8

/-- `getUint8`. -/
def getUint8 : ReadProg UInt8 := do
  let (b, err) ← getByte
  match err with
  | none => return b
  | some err => .raise (.error err)

/-- `getUint16`. -/
def getUint16 : ReadProg UInt16 := do
  let n ← getLen
  if n < 2 then .raise (.error errorInvalidRemainingLength)
  else
    let (bytes, err) ← getBytes 2
    match err, bytes with
    | some err, _ => .raise (.error err)
    | none, [high, low] => return bigEndianUint16 high low
    | none, _ => .raise (.error errorInvalidRemainingLength)

/-- `getString`. -/
def getString : ReadProg Bytes := do
  let strLen ← getUint16
  let n ← getLen
  if n < strLen.toNat then .raise (.error errorInvalidRemainingLength)
  else
    let (bytes, err) ← getBytes strLen.toNat
    match err with
    | some err => .raise (.error err)
    | none =>
      if bytes.length ≠ strLen.toNat then .raise (.error errorInvalidRemainingLength)
      else return bytes

/-- The loop of `decodeLength`, with the rounds left. -/
def decodeLengthLoop : Nat → Nat → Nat → ReadProg Int
  | 0, _, _ => .raise (.error errorInvalidRemainingLength)
  | rounds + 1, shift, v => do
    let (b, err) ← getByte
    match err with
    | some err => .raise (.error err)
    | none =>
      let v := v ||| (b &&& 0x7f).toNat <<< shift
      if b &&& 0x80 = 0 then return v else decodeLengthLoop rounds (shift + 7) v

/-- `decodeLength`. Four groups of seven bits stay below `2 ^ 28`, so the `int32` never overflows. -/
def decodeLength : ReadProg Int := do
  let n ← getLen
  if n > 0 then decodeLengthLoop 4 0 0 else .raise (.error errorInvalidRemainingLength)

/-- `Header.decode`. -/
def Header.decode : ReadProg Header := do
  let byte1 ← getUint8
  let msgType := (byte1 &&& 0xf0) >>> 4
  if !typeIsValid msgType then .raise (.error (.new "Invalid message type "))
  else
    let remainingLength ← decodeLength
    return ⟨msgType, byte1 &&& 0x0f, remainingLength⟩

/-! ### The decoding methods -/

/-- `this.remainingLength -= RemainingLength(before - after)`. -/
def Header.spend (header : Header) (count : Int) : Header :=
  { header with remainingLength := int32 (header.remainingLength - int32 count) }

/-- `panic("implement me")`. -/
def implementMe {α : Type} : ReadProg α := .raise (.message "implement me")

/-- `DecodeFixedHeader`: only a `Publish` takes fields from the flags, and the messages without a
body are complete. -/
def Message.decodeFixedHeader (m : Message) : Message × Bool :=
  match m.body with
  | .publish p => (⟨m.header, .publish { p with
        dup := m.header.msgFlag &&& 0x08 > 0
        qos := (m.header.msgFlag &&& 0x06) >>> 1
        retain := m.header.msgFlag &&& 0x01 > 0 }⟩, false)
  | .pingReq => (m, true)
  | .pingResp => (m, true)
  | .disconnect => (m, true)
  | _ => (m, false)

/-- The reads of `Connect.DecodeVariableHeader`. -/
def Connect.readVariableHeader (c : Connect) : ReadProg Connect := do
  let protocolName ← getString
  let protocolLevel ← getUint8
  let flags ← getUint8
  let keepAlive ← getUint16
  return { c with
    protocolName, protocolLevel, keepAlive
    userNameFlag := flags &&& 0x80 > 0
    passwordFlag := flags &&& 0x40 > 0
    willRetain := flags &&& 0x20 > 0
    willQos := (flags &&& 0x18) >>> 3
    willFlag := flags &&& 0x04 > 0
    cleanSession := flags &&& 0x02 > 0 }

/-- A string that is read only when its flag is set. -/
def getStringIf (flag : Bool) (old : Bytes) : ReadProg Bytes := if flag then getString else return old

/-- The reads of `Connect.DecodePayload`. -/
def Connect.readPayload (c : Connect) : ReadProg Connect := do
  let clientId ← getString
  let willTopic ← getStringIf c.willFlag c.willTopic
  let willMessage ← getStringIf c.willFlag c.willMessage
  let username ← getStringIf c.userNameFlag c.username
  let password ← getStringIf c.passwordFlag c.password
  return { c with clientId, willTopic, willMessage, username, password }

/-- The reads of `ConnAck.DecodeVariableHeader`. -/
def ConnAck.readVariableHeader : ReadProg ConnAck := do
  let b1 ← getUint8
  let returnCode ← getUint8
  if !returnCodeIsValid returnCode then .raise (.error errorInvalidMessage)
  else return ⟨b1 &&& 0x01 > 0, returnCode⟩

/-- The reads of `Publish.DecodeVariableHeader`. -/
def Publish.readVariableHeader (p : Publish) : ReadProg Publish := do
  let topicName ← getString
  if p.qos.hasId then
    let packetIdentifier ← getUint16
    return { p with topicName, packetIdentifier }
  else return { p with topicName }

/-- What `DecodeVariableHeader` reads. -/
def Body.readVariableHeader : Body → ReadProg Body
  | .connect c => do return .connect (← c.readVariableHeader)
  | .connAck _ => do return .connAck (← ConnAck.readVariableHeader)
  | .publish p => do return .publish (← p.readVariableHeader)
  | .pubAck _ => do return .pubAck (← getUint16)
  | .pubRec _ => do return .pubRec (← getUint16)
  | .pubRel _ => do return .pubRel (← getUint16)
  | .pubComp _ => do return .pubComp (← getUint16)
  | .subscribe s => do return .subscribe { s with packetIdentifier := ← getUint16 }
  | .subAck s => do return .subAck { s with packetIdentifier := ← getUint16 }
  | .unsubscribe u => do return .unsubscribe { u with packetIdentifier := ← getUint16 }
  | .unsubAck _ => do return .unsubAck (← getUint16)
  | .pingReq => implementMe
  | .pingResp => implementMe
  | .disconnect => implementMe

/-- What `DecodeVariableHeader` returns, from the length that remains after it. -/
def Body.completeAfterHeader (remainingLength : Int) : Body → Bool
  | .connect _ => false
  | .publish _ => remainingLength == 0
  | .subscribe _ => remainingLength == 0
  | .subAck _ => remainingLength == 0
  | .unsubscribe _ => remainingLength == 0
  | _ => true

/-- `DecodeVariableHeader`. -/
def Message.decodeVariableHeader (m : Message) : ReadProg (Message × Bool) := do
  let (body, count) ← counted m.body.readVariableHeader
  let header := m.header.spend count
  return (⟨header, body⟩, m.body.completeAfterHeader header.remainingLength)

/-- The reads of `Publish.DecodePayload`: `make` panics on a negative length, and the bytes that were
not read stay zero. -/
def Publish.readPayload (p : Publish) (remainingLength : Int) : ReadProg Publish :=
  if remainingLength < 0 then .raise makeSliceLen
  else do
    let (data, _) ← getBytes remainingLength.toNat
    return { p with payload := some (data ++ List.replicate (remainingLength.toNat - data.length) 0) }

/-- `TopicFilter{TopicName: getString(buf), RequestedQos: Qos(getUint8(buf))}`. -/
def TopicFilter.read : ReadProg TopicFilter := do
  let topicName ← getString
  let requestedQos ← getUint8
  return ⟨topicName, requestedQos⟩

/-- The entries of a list payload: one is read if any length remains. -/
def getEntry {α : Type} (remainingLength : Int) (entry : ReadProg α) : ReadProg (List α) :=
  if remainingLength > 0 then do return [← entry] else return []

/-- The messages that implement `DecodePayload`. -/
def Body.hasPayload : Body → Bool
  | .connect _ => true
  | .publish _ => true
  | .subscribe _ => true
  | .subAck _ => true
  | .unsubscribe _ => true
  | _ => false

/-- What `DecodePayload` reads. -/
def Body.readPayload (remainingLength : Int) : Body → ReadProg Body
  | .connect c => do return .connect (← c.readPayload)
  | .publish p => do return .publish (← p.readPayload remainingLength)
  | .subscribe s => do
    return .subscribe { s with topicFilters := ← getEntry remainingLength TopicFilter.read }
  | .subAck s => do return .subAck { s with acks := ← getEntry remainingLength getUint8 }
  | .unsubscribe u => do
    return .unsubscribe { u with topicNames := ← getEntry remainingLength getString }
  | _ => implementMe

/-- Whether `DecodePayload` subtracts what it read. -/
def Body.spendsPayload : Body → Bool
  | .connect _ => true
  | .publish _ => true
  | _ => false

/-- `DecodePayload`: with less in the buffer than remains, the message is not complete. -/
def Message.decodePayload (m : Message) : ReadProg (Message × Bool) :=
  if !m.body.hasPayload then implementMe
  else do
    let n ← getLen
    if m.header.remainingLength > n then return (m, false)
    else
      let (body, count) ← counted (m.body.readPayload m.header.remainingLength)
      return (⟨if m.body.spendsPayload then m.header.spend count else m.header, body⟩, true)

end Strike.Mqtt
