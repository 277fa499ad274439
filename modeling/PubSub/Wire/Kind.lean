/-!
# Kinds of messages and of data

Every message names its kind and the kind of its data in one byte each. `ofByte?` inverts `byte`,
and a byte that codes no kind is refused.
-/

namespace PubSub

/-- What a message is for. -/
inductive MessageType where
  | notify
  | register
  | unregister
  | wildcardRegister
  | wildcardUnregister
  | notSet
  | command
  | anonymous
  | null
  | data
  | poison
  | welcome
  | serverRequest
  | timing
  | terminate
deriving DecidableEq, Repr

namespace MessageType

/-- All kinds of messages. -/
def all : List MessageType :=
  [notify, register, unregister, wildcardRegister, wildcardUnregister, notSet, command, anonymous,
    null, data, poison, welcome, serverRequest, timing, terminate]

/-- The byte of a kind on the wire. -/
def byte : MessageType → UInt8
  | notify => 0x4E
  | register => 0x52
  | unregister => 0x55
  | wildcardRegister => 0x2A
  | wildcardUnregister => 0x2F
  | notSet => 0x7E
  | command => 0x43
  | anonymous => 0x41
  | null => 0x2E
  | data => 0x69
  | poison => 0x4B
  | welcome => 0x57
  | serverRequest => 0x51
  | timing => 0x54
  | terminate => 0x5E

/-- The name of a kind in texts for people. -/
def name : MessageType → String
  | notify => "Notify"
  | register => "Register"
  | unregister => "Unregister"
  | wildcardRegister => "WildcardRegister"
  | wildcardUnregister => "WildcardUnregister"
  | notSet => "NotSet"
  | command => "Command"
  | anonymous => "Anonymous"
  | null => "Null"
  | data => "Data"
  | poison => "Poison"
  | welcome => "Welcome"
  | serverRequest => "ServerRequest"
  | timing => "Timing"
  | terminate => "Terminate"

/-- The kind with this byte. -/
def ofByte? (b : UInt8) : Option MessageType :=
  all.find? (·.byte == b)

/-- The kind with this name. -/
def ofName? (s : String) : Option MessageType :=
  all.find? (·.name == s)

theorem ofByte?_byte (t : MessageType) : ofByte? t.byte = some t := by
  cases t <;> decide

theorem byte_of_ofByte? {b : UInt8} {t : MessageType} (h : ofByte? b = some t) : t.byte = b := by
  simpa using List.find?_some h

end MessageType

/-- What kind of value a message or a variable carries. -/
inductive DataType where
  | double
  | string
  | binary
  | notSet
deriving DecidableEq, Repr

namespace DataType

/-- All kinds of data. -/
def all : List DataType := [double, string, binary, notSet]

/-- The character of a kind on the wire and in summaries. -/
def letter : DataType → Char
  | double => 'D'
  | string => 'S'
  | binary => 'B'
  | notSet => '~'

/-- The byte of a kind on the wire. -/
def byte (t : DataType) : UInt8 := t.letter.toUInt8

/-- The name of a kind in texts for people. -/
def name : DataType → String
  | double => "Double"
  | string => "String"
  | binary => "Binary"
  | notSet => "NotSet"

/-- The kind with this byte. -/
def ofByte? (b : UInt8) : Option DataType :=
  all.find? (·.byte == b)

/-- The kind with this name. -/
def ofName? (s : String) : Option DataType :=
  all.find? (·.name == s)

theorem ofByte?_byte (t : DataType) : ofByte? t.byte = some t := by
  cases t <;> decide

theorem byte_of_ofByte? {b : UInt8} {t : DataType} (h : ofByte? b = some t) : t.byte = b := by
  simpa using List.find?_some h

end DataType

end PubSub
