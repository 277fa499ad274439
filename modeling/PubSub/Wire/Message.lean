import PubSub.Decimal.Fixed
import PubSub.Wire.Field
import PubSub.Wire.Kind

/-!
# Messages

A `Message` is the single unit of communication between clients and the broker. Numbers that a
message does not use are -1.

On the wire a message starts with its own length and has its fields in a fixed order.
`Message.reader` takes one message off the front of a byte string; it checks that the length admits
the fixed part and is there, and at the end that the fields have filled it exactly.
-/

namespace PubSub

/-- One message between a client and the broker. -/
structure Message where
  /-- The sequence number on its connection. -/
  id : Int32 := -1
  type : MessageType := .null
  dataType : DataType := .double
  source : String := ""
  sourceAux : String := ""
  community : String := ""
  key : String := ""
  time : Float := -1.0
  value : Float := -1.0
  /-- A second number, such as the frequency of writes. -/
  value2 : Float := -1.0
  /-- The value of a message with text or binary data. -/
  payload : Array UInt8 := #[]
deriving DecidableEq

namespace Message

/-! ## Making messages -/

/-- A message that carries a number. -/
def double (type : MessageType) (key : String) (value time : Float) : Message :=
  { type, key, value, time }

/-- A message that carries text. -/
def text (type : MessageType) (key value : String) (time : Float) : Message :=
  { type, dataType := .string, key, payload := value.toUTF8.data, time }

/-- A message that carries bytes. -/
def binary (type : MessageType) (key : String) (value : Array UInt8) (time : Float) : Message :=
  { type, dataType := .binary, key, payload := value, time }

/-- A message with nothing to say; its number is the sender's time. -/
def null (source : String) (value : Float) : Message :=
  { source, value }

/-- The payload as text. -/
def textValue (m : Message) : String :=
  Utf8.decodeLossy m.payload

/-! ## The wire format -/

/-- The bytes of a message with empty texts and an empty payload. -/
def fixedLength : Nat := 54

/-- The bytes of a message. -/
def encodedLength (m : Message) : Nat :=
  fixedLength + m.source.utf8ByteSize + m.sourceAux.utf8ByteSize + m.community.utf8ByteSize +
    m.key.utf8ByteSize + m.payload.size

/-- A message as bytes. -/
def encode (m : Message) : List UInt8 :=
  Wire.putLength m.encodedLength ++ Wire.putInt m.id ++ [m.type.byte, m.dataType.byte] ++
    Wire.putText m.source ++ Wire.putText m.sourceAux ++ Wire.putText m.community ++
    Wire.putText m.key ++ Wire.putDouble m.time ++ Wire.putDouble m.value ++
    Wire.putDouble m.value2 ++ Wire.putBytes m.payload

/-- The length of a message is that of its bytes. -/
theorem length_encode (m : Message) : m.encode.length = m.encodedLength := by
  simp [encode, encodedLength, fixedLength, Wire.putLength]
  omega

/-- The kind of a message. -/
def typeReader : Wire.Reader MessageType := do
  let b ← Wire.takeByte
  match MessageType.ofByte? b with
  | some type => return type
  | none => throw (.unknownMessageType b)

/-- The kind of a message's data. -/
def dataTypeReader : Wire.Reader DataType := do
  let b ← Wire.takeByte
  match DataType.ofByte? b with
  | some dataType => return dataType
  | none => throw (.unknownDataType b)

/-- The fields of a message behind its length. -/
def fieldsReader : Wire.Reader Message := do
  let id ← Wire.takeInt
  let type ← typeReader
  let dataType ← dataTypeReader
  let source ← Wire.takeText
  let sourceAux ← Wire.takeText
  let community ← Wire.takeText
  let key ← Wire.takeText
  let time ← Wire.takeDouble
  let value ← Wire.takeDouble
  let value2 ← Wire.takeDouble
  let payload ← Wire.takeBytes
  return { id, type, dataType, source, sourceAux, community, key, time, value, value2, payload }

/-- A message, which fills its declared length. -/
def reader : Wire.Reader Message := do
  let available := (← get).length
  let declared := (← Wire.takeInt).toInt
  if declared < fixedLength ∨ available < declared then
    throw (.messageLength declared available)
  let m ← fieldsReader
  let consumed := available - (← get).length
  if consumed ≠ declared.toNat then throw (.messageExtent declared.toNat consumed)
  return m

/-- The message at the front of `bytes` and the bytes behind it. -/
def decode (bytes : List UInt8) : Except Malformed (Message × List UInt8) :=
  match reader bytes with
  | .ok m rest => .ok (m, rest)
  | .error cause _ => .error cause

/-! ## Messages for people -/

/-- The value of a message. -/
def shownValue (m : Message) : String :=
  match m.dataType with
  | .double => Decimal.shortest m.value
  | .string => Quoted.text m.textValue
  | .binary => s!"<{m.payload.size} bytes binary>"
  | .notSet => "<not set>"

/-- A message on one line. -/
def shown (m : Message) : String :=
  m.type.name ++ " " ++ m.key ++ "=" ++ m.shownValue ++ " src=" ++ m.source ++ " time=" ++
    Decimal.fixed 3 m.time ++ s!" id={m.id.toInt}"

end Message

end PubSub
