import PubSub.Error
import PubSub.Wire.Message

/-!
# Packets

A `Packet` is an ordered batch of messages behind a header of two numbers: the bytes of the packet,
the header among them, and the number of its messages. A packet is read whole or not at all, and its
messages fill it exactly.
-/

namespace PubSub

/-- An ordered batch of messages. -/
structure Packet where
  messages : List Message
deriving DecidableEq

namespace Packet

/-- The bytes of a packet's header. -/
def headerLength : Nat := 8

/-- The greatest length that a header can state. -/
def greatestLength : Nat := Nat.pow 2 31 - 1

/-- The bytes of a packet. -/
def encodedLength (p : Packet) : Nat :=
  headerLength + p.messages.foldr (fun m length => m.encodedLength + length) 0

/-- The bytes of a packet that a header can announce. -/
def admittedLength (p : Packet) : Except Error Nat :=
  if p.encodedLength ≤ greatestLength then .ok p.encodedLength
  else .error (.serializationFailure (s!"packet of {p.messages.length} messages needs " ++
    s!"{p.encodedLength} bytes, exceeding the wire format's limit"))

/-- A packet as bytes. -/
def encode (p : Packet) : Except Error (List UInt8) := do
  let length ← p.admittedLength
  return Wire.putLength length ++ Wire.putLength p.messages.length ++
    p.messages.flatMap Message.encode

/-- What a header announces. -/
structure Header where
  length : Nat
  count : Nat
deriving DecidableEq

/-- A header whose packet has at most `limit` bytes. -/
def headerReader (limit : Nat) : Wire.Reader Header := do
  let length := (← Wire.takeInt).toInt
  let count := (← Wire.takeInt).toInt
  if length < headerLength then throw (.shortPacket length)
  if limit < length.toNat then throw (.longPacket length.toNat limit)
  if count < 0 then throw (.negativeCount count)
  return { length := length.toNat, count := count.toNat }

/-- What the header at the front of `bytes` announces. -/
def decodeHeader (limit : Nat) (bytes : List UInt8) : Except Malformed Header :=
  match headerReader limit bytes with
  | .ok header _ => .ok header
  | .error cause _ => .error cause

/-- `count` messages. -/
def messagesReader : (count : Nat) → Wire.Reader (List Message)
  | 0 => return []
  | count + 1 => do
    let m ← Message.reader
    let ms ← messagesReader count
    return m :: ms

/-- The packet whose bytes these are. -/
def decode (bytes : List UInt8) : Except Malformed Packet := do
  if bytes.length < headerLength then throw (.headerCut bytes.length)
  let header ← decodeHeader greatestLength bytes
  if header.length ≠ bytes.length then throw (.packetExtent header.length bytes.length)
  match messagesReader header.count (bytes.drop headerLength) with
  | .error cause _ => throw cause
  | .ok messages [] => return { messages }
  | .ok _ rest => throw (.trailing rest.length header.count)

/-- The time at which the broker sent the packet, if it starts by saying so. -/
def sendTime? (p : Packet) : Option Float :=
  (p.messages.head?.filter (·.type = .null)).map Message.value

/-- The messages of a packet that have something to say. -/
def content (p : Packet) : List Message :=
  p.messages.filter (·.type ≠ .null)

end Packet

end PubSub
