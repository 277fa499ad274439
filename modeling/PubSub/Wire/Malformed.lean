import PubSub.Text.Quoted
import PubSub.Text.Utf8

/-!
# Why bytes are refused

The causes for which a byte string is no message or packet, and their wording.
-/

namespace PubSub

/-- The fixed-width items of the wire format. -/
inductive Item where
  | byte
  | int
  | double
deriving DecidableEq

/-- The bytes that an item takes up. -/
def Item.width : Item → Nat
  | .byte => 1
  | .int => 4
  | .double => 8

/-- The name of an item in error texts. -/
def Item.name : Item → String
  | .byte => "u8"
  | .int => "i32"
  | .double => "f64"

/-- Why a byte string is no message or packet. -/
inductive Malformed where
  /-- Too few bytes are left for an item. -/
  | underflow (item : Item) (remaining : Nat)
  /-- A field has a negative length. -/
  | negativeLength (length : Int)
  /-- A field is longer than what is left. -/
  | fieldOverrun (length remaining : Nat)
  /-- A text field is not UTF-8. -/
  | notUtf8 (fault : Utf8.Fault)
  /-- A message's length is below the least one or above what is there. -/
  | messageLength (declared : Int) (available : Nat)
  | unknownMessageType (byte : UInt8)
  | unknownDataType (byte : UInt8)
  /-- The fields of a message do not fill its length. -/
  | messageExtent (declared consumed : Nat)
  /-- A packet's length leaves no room for its header. -/
  | shortPacket (length : Int)
  /-- A packet is longer than the receiver allows. -/
  | longPacket (length limit : Nat)
  | negativeCount (count : Int)
  /-- There are fewer bytes than a packet header has. -/
  | headerCut (available : Nat)
  /-- A packet's length is not that of the bytes at hand. -/
  | packetExtent (declared available : Nat)
  /-- Bytes are left behind the last message of a packet. -/
  | trailing (bytes count : Nat)
  /-- A message of the opening exchange has an inadmissible length. -/
  | handshakeLength (length : Int)
  /-- A cause told by someone else. -/
  | told (reason : String)
deriving DecidableEq

/-- The wording of a cause. -/
def Malformed.message : Malformed → String
  | .underflow item remaining =>
    "buffer underflow reading " ++ item.name ++ s!": {remaining} bytes remaining"
  | .negativeLength length => s!"negative field length {length}"
  | .fieldOverrun length remaining =>
    s!"field of {length} bytes exceeds remaining {remaining} bytes"
  | .notUtf8 fault => "string field is not UTF-8: " ++ fault.message
  | .messageLength declared available =>
    s!"message declares {declared} bytes, {available} bytes available"
  | .unknownMessageType b => "unknown message type " ++ Quoted.char (Char.ofNat b.toNat)
  | .unknownDataType b => "unknown data type " ++ Quoted.char (Char.ofNat b.toNat)
  | .messageExtent declared consumed =>
    s!"message declares {declared} bytes but its fields occupy {consumed} bytes"
  | .shortPacket length => s!"packet length {length} is shorter than its header"
  | .longPacket length limit =>
    s!"packet length {length} exceeds the configured maximum of {limit}"
  | .negativeCount count => s!"negative message count {count}"
  | .headerCut available => s!"{available} bytes are too short for a packet header"
  | .packetExtent declared available =>
    s!"packet header announces {declared} bytes, buffer has {available}"
  | .trailing bytes count => s!"{bytes} trailing bytes after {count} messages"
  | .handshakeLength length => s!"handshake message length {length}"
  | .told reason => reason

end PubSub
