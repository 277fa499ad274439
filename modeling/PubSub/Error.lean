import PubSub.Decimal.Shortest
import PubSub.Wire.Kind
import PubSub.Wire.Malformed

/-!
# Errors

The causes for which an operation of the broker, of its server or of a client fails, and their
wording. A cause says what went wrong; the texts for people are all in `Error.message`.
-/

namespace PubSub

/-- Why the operating system refuses an operation on a socket. -/
inductive SocketFault where
  | unexpectedEof
  | connectionRefused
  | networkUnreachable
  | addressInUse
deriving DecidableEq

/-- Why seconds are no duration. -/
inductive DurationFault where
  | negative
  | overflowOrNaN
deriving DecidableEq

/-- The wording of a fault. -/
def DurationFault.message : DurationFault → String
  | .negative => "cannot convert float seconds to Duration: value is negative"
  | .overflowOrNaN => "cannot convert float seconds to Duration: value is either too big or NaN"

/-- Why an operation fails. -/
inductive Error where
  /-- The other side does not follow the protocol. -/
  | protocolMismatch (expected received : String)
  /-- A connected client already has the name. -/
  | duplicateClientName (name : String)
  | malformedPacket (cause : Malformed)
  | serializationFailure (reason : String)
  /-- A write does not have the type of its variable. -/
  | typeConflict (key : String) (established offered : DataType)
  /-- A mailbox made room by dropping its oldest messages. -/
  | mailboxOverflow (mailbox : String) (dropped : Nat)
  | timeout (awaited : String)
  | clientSilence (client : String)
  /-- The server refused the connection. -/
  | poisoned (reason : String)
  | notConnected
  /-- A socket failed; the text tells what it was to do, or else how. -/
  | socket (fault : SocketFault) (text : String)
  | invalidInterval (filter : String)
  | missingVariablePattern (filter : String)
  | timeWarp (warp limit : Float)
  | unknownRequest (key : String)
  | notARegistration (type : MessageType)
  | notAnUnregistration (type : MessageType)
  | clientTimeoutNotPositive (seconds : Float)
  | invalidClientTimeout (seconds : Float) (fault : DurationFault)
  | namelessSummaryEntry (entry : String)
deriving DecidableEq

/-- The wording of an error. -/
def Error.message : Error → String
  | .protocolMismatch expected received =>
    "protocol mismatch: expected " ++ Quoted.text expected ++ ", received " ++
      Quoted.text received
  | .duplicateClientName name => "A client of this name (\"" ++ name ++ "\") already exists"
  | .malformedPacket cause => "malformed packet: " ++ cause.message
  | .serializationFailure reason => "serialization failure: " ++ reason
  | .typeConflict key established offered =>
    "variable " ++ Quoted.text key ++ " has type " ++ established.name ++
      ", rejecting write of type " ++ offered.name
  | .mailboxOverflow mailbox dropped =>
    mailbox ++ s!" overflowed, dropped {dropped} oldest message(s)"
  | .timeout awaited => "timed out: " ++ awaited
  | .clientSilence client =>
    "client " ++ Quoted.text client ++ " was silent for longer than the configured timeout"
  | .poisoned reason => "connection rejected by server: " ++ reason
  | .notConnected => "not connected"
  | .socket _ text => text
  | .invalidInterval filter => "invalid interval in wildcard filter " ++ Quoted.text filter
  | .missingVariablePattern filter => "wildcard filter without VarPattern: " ++ Quoted.text filter
  | .timeWarp warp limit =>
    "time warp " ++ Decimal.shortest warp ++ " is out of range (0, " ++ Decimal.shortest limit ++
      "]"
  | .unknownRequest key => "unknown server request " ++ Quoted.text key
  | .notARegistration type => "not a registration: " ++ type.name
  | .notAnUnregistration type => "not an unregistration: " ++ type.name
  | .clientTimeoutNotPositive seconds =>
    "client timeout must be positive, was " ++ Decimal.shortest seconds
  | .invalidClientTimeout seconds fault =>
    "invalid client timeout " ++ Decimal.shortest seconds ++ ": " ++ fault.message
  | .namelessSummaryEntry entry => "summary entry without a client name: " ++ Quoted.text entry

end PubSub
