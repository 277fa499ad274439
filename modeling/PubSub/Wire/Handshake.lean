import PubSub.Text.Blank
import PubSub.Text.Split
import PubSub.Wire.Packet

/-!
# The opening exchange

A client opens its connection with a token of fixed width and a message with its name. The server
answers with a message that welcomes the client or rejects it.
-/

namespace PubSub.Handshake

/-! ## The token -/

/-- The text of the token. -/
def tokenText : String := "ELKS CAN'T DANCE 2/8/10"

/-- The bytes of the token. -/
def tokenLength : Nat := 32

/-- The token: its text and zeros up to its width. -/
def token : List UInt8 :=
  let bytes := tokenText.toUTF8.data.toList
  bytes ++ List.replicate (tokenLength - bytes.length) 0

/-- Accepts the token alone; of any other bytes it tells the text before the first zero. -/
def checkToken (received : List UInt8) : Except Error Unit :=
  if received = token then .ok ()
  else .error (.protocolMismatch tokenText
    (Utf8.decodeLossy (received.takeWhile (· ≠ 0)).toArray))

/-! ## The request -/

/-- The word for clients and servers that send without being asked. -/
def asynchronous : String := "asynchronous"

/-- What a client says of itself. -/
structure Request where
  name : String
  asynchronous : Bool
  /-- The client's time when it sends the request. -/
  time : Float
deriving DecidableEq

/-- The message that carries a request. -/
def Request.toMessage (r : Request) : Message :=
  .text .data (if r.asynchronous then Handshake.asynchronous else "") r.name r.time

/-- The request in a message, which has a name. -/
def Request.ofMessage (m : Message) : Except Error Request :=
  if m.type ≠ .data then
    .error (.protocolMismatch "Data message carrying the client name" (m.type.name ++ " message"))
  else if m.textValue.isEmpty then
    .error (.protocolMismatch "non-empty client name" "empty name")
  else .ok { name := m.textValue, asynchronous := m.key = Handshake.asynchronous, time := m.time }

/-! ## The response -/

/-- What a server tells a client it accepts. -/
structure Welcome where
  /-- The server's time less the client's. -/
  skew : Float
  asynchronous : Bool
  hostname : String
  community : String
deriving DecidableEq

/-- What a server answers. -/
inductive Response where
  | welcome (w : Welcome)
  | poison (reason : String)
deriving DecidableEq

/-- The message that carries a response. -/
def Response.toMessage : Response → Message
  | .welcome w =>
    { Message.double .welcome "" w.skew (-1.0) with
      dataType := .string
      payload := if w.asynchronous then asynchronous.toUTF8.data else #[]
      sourceAux := "hostname=" ++ w.hostname
      community := w.community }
  | .poison reason => .text .poison "" reason (-1.0)

/-- Whether two texts differ at most in the case of ASCII letters. -/
def sameWord (s t : List Char) : Bool :=
  s.map Char.toLower == t.map Char.toLower

/-- The value of the first `hostname=` entry between commas; no such entry is no name. -/
def hostnameIn (aux : String) : String :=
  let entries := (Text.pieces ',' aux.toList).filterMap (Text.cut? '=')
  match entries.find? fun (key, _) => sameWord (Text.trim key) "hostname".toList with
  | some (_, value) => String.ofList (Text.trim value)
  | none => ""

/-- The response in a message. -/
def Response.ofMessage (m : Message) : Except Error Response :=
  match m.type with
  | .poison => .ok (.poison m.textValue)
  | .welcome => .ok (.welcome {
      skew := m.value
      asynchronous := sameWord m.textValue.toList Handshake.asynchronous.toList
      hostname := hostnameIn m.sourceAux
      community := m.community })
  | other => .error (.protocolMismatch "Welcome or Poison" other.name)

/-- Why a server rejects a client whose name is taken. -/
def duplicateNameReason (name : String) : String :=
  (Error.duplicateClientName name).message

end PubSub.Handshake
