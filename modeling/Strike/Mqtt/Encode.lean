/-
**The MQTT encoders** (`pkg/protocol/mqtt/message`).

`Encode` writes the variable header and the payload into a buffer of its own, stores that buffer's
length in the header, and returns the encoded header followed by those bytes. The buffers are local
and only written to and read whole, so they are byte lists here.

An encoder has three ways to end: it returns bytes, it returns an error, or `putString` panics on an
empty string. In the first two the message comes back with the header the encoder left in it.
-/

import Strike.Mqtt.Message

namespace Strike.Mqtt

open Lib

/-! ### Writing values -/

/-- `putUint16`. -/
def putUint16 (i : UInt16) : Bytes := [(i >>> 8).toUInt8, i.toUInt8]

/-- `putString`. The length is cut to sixteen bits. -/
def putString (s : Bytes) : Except Panic Bytes :=
  if s = [] then .error (.error (.new "Nil utf8 string "))
  else .ok (putUint16 (UInt16.ofNat s.length) ++ s)

/-- `boolToByte`. -/
def boolToByte (val : Bool) : UInt8 := if val then 1 else 0

/-- The loop of `encodeLength`. An `int32` has at most five groups of seven bits. -/
def encodeLengthLoop : Nat → Nat → Bytes
  | 0, _ => []
  | rounds + 1, len =>
    if len > 0 then
      let digit := len &&& 0x7f
      let len := len >>> 7
      UInt8.ofNat (if len > 0 then digit ||| 0x80 else digit) :: encodeLengthLoop rounds len
    else []

/-- `encodeLength`: nothing is written for a negative length. -/
def encodeLength (len : Int) : Bytes := if len = 0 then [0] else encodeLengthLoop 5 len.toNat

/-- `Header.encode`. -/
def Header.encode (header : Header) : Bytes :=
  (header.msgType <<< 4 ||| header.msgFlag) :: encodeLength header.remainingLength

/-! ### The bytes behind the fixed header -/

/-- The flags byte of a `Connect`. -/
def Connect.flags (c : Connect) : UInt8 :=
  boolToByte c.userNameFlag <<< 7 ||| boolToByte c.passwordFlag <<< 6 |||
    boolToByte c.willRetain <<< 5 ||| c.willQos <<< 3 ||| boolToByte c.willFlag <<< 2 |||
    boolToByte c.cleanSession <<< 1

/-- A string that is written only when its flag is set. -/
def putStringIf (flag : Bool) (s : Bytes) : Except Panic Bytes := if flag then putString s else .ok []

/-- The variable header and the payload of a `Connect`. -/
def Connect.write (c : Connect) : Except Panic Bytes := do
  let protocolName ← putString c.protocolName
  let clientId ← putString c.clientId
  let willTopic ← putStringIf c.willFlag c.willTopic
  let willMessage ← putStringIf c.willFlag c.willMessage
  let username ← putStringIf c.userNameFlag c.username
  let password ← putStringIf c.passwordFlag c.password
  return protocolName ++ [c.protocolLevel, c.flags] ++ putUint16 c.keepAlive ++
    (clientId ++ willTopic ++ willMessage ++ username ++ password)

/-- The variable header and the payload of a `Publish`. -/
def Publish.write (p : Publish) : Except Panic Bytes := do
  let topicName ← putString p.topicName
  return topicName ++ (if p.qos.hasId then putUint16 p.packetIdentifier else []) ++ p.payload.getD []

/-- The topic filters of a `Subscribe`, one after another. -/
def writeTopicFilters : List TopicFilter → Except Panic Bytes
  | [] => .ok []
  | filter :: filters => do
    let topicName ← putString filter.topicName
    let rest ← writeTopicFilters filters
    return topicName ++ [filter.requestedQos] ++ rest

/-- What `Encode` writes behind the fixed header. An `Unsubscribe` writes its packet identifier
only. -/
def Body.write : Body → Except Panic Bytes
  | .connect c => c.write
  | .connAck c => .ok [boolToByte c.sessionPresentFlag, c.returnCode]
  | .publish p => p.write
  | .pubAck packetIdentifier => .ok (putUint16 packetIdentifier)
  | .pubRec packetIdentifier => .ok (putUint16 packetIdentifier)
  | .pubRel packetIdentifier => .ok (putUint16 packetIdentifier)
  | .pubComp packetIdentifier => .ok (putUint16 packetIdentifier)
  | .subscribe s => do return putUint16 s.packetIdentifier ++ (← writeTopicFilters s.topicFilters)
  | .subAck s => .ok (putUint16 s.packetIdentifier ++ s.acks)
  | .unsubscribe u => .ok (putUint16 u.packetIdentifier)
  | .unsubAck packetIdentifier => .ok (putUint16 packetIdentifier)
  | .pingReq => .ok []
  | .pingResp => .ok []
  | .disconnect => .ok []

/-- The header that `Encode` leaves in the message. A `Publish` takes its flags from its fields; the
messages without a body keep the length they have. -/
def Message.stamp (m : Message) (written : Bytes) : Header :=
  match m.body with
  | .publish p => ⟨m.header.msgType,
      boolToByte p.dup <<< 3 ||| p.qos <<< 1 ||| boolToByte p.retain, int32 written.length⟩
  | .pingReq => m.header
  | .pingResp => m.header
  | .disconnect => m.header
  | _ => { m.header with remainingLength := int32 written.length }

/-- The test of `Connect.Encode` before it writes anything. -/
def Message.refused (m : Message) : Bool :=
  match m.body with
  | .connect c => !c.willQos.isValid
  | _ => false

/-- The test on the length, which only `Connect` and `ConnAck` make. -/
def Message.lengthPasses (m : Message) (header : Header) : Bool :=
  match m.body with
  | .connect _ => remainingLengthIsValid header.remainingLength
  | .connAck _ => remainingLengthIsValid header.remainingLength
  | _ => true

/-- `Encode`: the message with its new header, and the bytes or the error. -/
def Message.encode (m : Message) : Except Panic (Message × Except GoError Bytes) :=
  if m.refused then .ok (m, .error errorInvalidMessage)
  else do
    let written ← m.body.write
    let header := m.stamp written
    if !m.lengthPasses header then return (⟨header, m.body⟩, .error errorInvalidMessage)
    else return (⟨header, m.body⟩, .ok (header.encode ++ written))

end Strike.Mqtt
