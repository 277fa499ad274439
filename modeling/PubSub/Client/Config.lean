import PubSub.Bounds
import PubSub.Time.Duration

/-!
# What a client is told at its start
-/

namespace PubSub.Client

/-- How a client exchanges packets with its server. -/
inductive Mode where
  /-- One packet per tick, each of which the server answers. -/
  | synchronous
  /-- Packets in both directions at any time. -/
  | asynchronous
deriving DecidableEq

/-- The name of a mode. -/
def Mode.name : Mode → String
  | .synchronous => "Synchronous"
  | .asynchronous => "Asynchronous"

/-- What a client is told at its start. -/
structure Config where
  serverAddress : String
  /-- The client's name, which no other client of the broker has. -/
  name : String
  mode : Mode := .synchronous
  /-- Ticks of communication per second. -/
  frequency : Float := 5.0
  outboxLimit : Nat := 1000
  inboxLimit : Nat := 1000
  /-- Whether an overflow of the outbox is no news. -/
  expectsOverflow : Bool := false
  /-- Whether new messages go before older ones that are not sent yet. -/
  newestFirst : Bool := false
  /-- Whether notifications keep the source that they have. -/
  keepsSource : Bool := false
  connectTimeout : Duration := .ofSeconds 5
  readTimeout : Duration := .ofSeconds 5
  leastDelay : Duration := .ofSeconds 1
  greatestDelay : Duration := .ofSeconds 10
  greatestPacket : Nat := 64 * 1024 * 1024
  noDelay : Bool := true
  /-- Whether the client follows the server's clock. -/
  correctsTime : Bool := true
  /-- The least time between two measurements of an asynchronous client. -/
  timingInterval : Duration := .ofSeconds 1
deriving DecidableEq

/-- A number of ticks per second that a client can keep to. -/
def clampedFrequency (frequency : Float) : Float :=
  Bounds.clamped 1.0 200.0 frequency

end PubSub.Client
