import PubSub.Wire.Handshake

/-!
# Reading from a connection

A `Stream` is what one side of a connection sees of the other: the bytes that have arrived and are
not read yet, and whether more can come. A read takes exactly the bytes that it needs. It waits as
long as they have not all arrived, and fails if they never will; so there is no part of a packet.

The `…_append` lemma says that a read of as many bytes as were sent takes these and leaves the rest.
-/

namespace PubSub

/-- What has arrived from the other side. -/
structure Stream where
  bytes : List UInt8 := []
  /-- Whether the other side has ended. -/
  closed : Bool := false
deriving DecidableEq

namespace Stream

/-- What a read comes to. -/
inductive Outcome (α : Type) where
  | done (value : α) (rest : Stream)
  | failed (e : Error) (rest : Stream)
  /-- Not all the bytes have arrived that it needs. -/
  | waiting
deriving DecidableEq

/-- The outcome of a read after which another one follows. -/
def Outcome.andThen {α β : Type} (o : Outcome α) (next : α → Stream → Outcome β) : Outcome β :=
  match o with
  | .done value rest => next value rest
  | .failed e rest => .failed e rest
  | .waiting => .waiting

/-- The outcome of a decision on what has been read. -/
def Outcome.decided {α : Type} (rest : Stream) : Except Error α → Outcome α
  | .ok value => .done value rest
  | .error e => .failed e rest

/-- The stream after more bytes have arrived. -/
def arrive (s : Stream) (bytes : List UInt8) : Stream := { s with bytes := s.bytes ++ bytes }

/-- The failure of a read for which too little has arrived at the end. -/
def earlyEnd : Error := .socket .unexpectedEof "early eof"

/-- The next `n` bytes. -/
def take (n : Nat) (s : Stream) : Outcome (List UInt8) :=
  if n ≤ s.bytes.length then .done (s.bytes.take n) { s with bytes := s.bytes.drop n }
  else if s.closed then .failed earlyEnd { s with bytes := [] }
  else .waiting

theorem take_append {n : Nat} {sent : List UInt8} (h : sent.length = n) (rest : List UInt8)
    (closed : Bool) :
    take n { bytes := sent ++ rest, closed } = .done sent { bytes := rest, closed } := by
  simp [take, ← h]

/-- The next packet, if it has at most `limit` bytes. -/
def readPacket (limit : Nat) (s : Stream) : Outcome Packet :=
  (s.take Packet.headerLength).andThen fun header s =>
    match Packet.decodeHeader limit header with
    | .error cause => .failed (.malformedPacket cause) s
    | .ok h => (s.take (h.length - Packet.headerLength)).andThen fun body s =>
      .decided s ((Packet.decode (header ++ body)).mapError .malformedPacket)

/-- The bytes of a message's length. -/
def lengthWidth : Nat := 4

/-- The length of a message of the opening exchange, which has at most `limit` bytes. -/
def messageLength (limit : Nat) (width : List UInt8) : Except Error Nat :=
  let length := (UInt32.ofNat (Wire.ofLittleEndian width)).toInt32.toInt
  if length < lengthWidth ∨ (limit : Int) < length then
    .error (.malformedPacket (.handshakeLength length))
  else .ok length.toNat

/-- The next message of the opening exchange. -/
def readMessage (limit : Nat) (s : Stream) : Outcome Message :=
  (s.take lengthWidth).andThen fun width s =>
    match messageLength limit width with
    | .error e => .failed e s
    | .ok length => (s.take (length - lengthWidth)).andThen fun body s =>
      .decided s (((Message.decode (width ++ body)).map (·.1)).mapError .malformedPacket)

/-- The next bytes, which are to be the token. -/
def readToken (s : Stream) : Outcome (List UInt8) := s.take Handshake.tokenLength

end Stream

end PubSub
