import PubSub.Client.Registration
import PubSub.Time.Backoff
import PubSub.Time.Clock
import PubSub.Time.Ticker
import PubSub.Wire.Stream

/-!
# The client's side of a connection

A client connects, introduces itself, exchanges packets with the server until something fails, and
tries again after a delay that grows with every attempt. A synchronous client sends one packet per
tick and waits for the reply to it. An asynchronous client sends once per tick and whenever there is
something to send, takes packets at any time, and now and then sends a measuring message along.

`Connection.poll?` is the next thing that the client does, if there is anything to do: `none` means
that it waits for the network or for the time to pass.
-/

namespace PubSub.Client

/-- How far a client is. -/
inductive Connection.Stage where
  /-- It waits for the network to connect it. -/
  | connecting
  /-- It has introduced itself and waits for the answer. -/
  | introduced (deadline : Duration)
  /-- It has sent a packet at local time `request` and waits for the reply. -/
  | asking (request : Float) (deadline : Duration)
  /-- It has got the reply and waits for the next tick. -/
  | pausing (tick : Duration)
  /-- It sends at the next tick, has last measured at local time `measured?`, and waits for
  packets. -/
  | streaming (tick : Duration) (measured? : Option Float) (deadline : Duration)
  /-- It waits before the next attempt. -/
  | resting (deadline : Duration)
  | ended
deriving DecidableEq

/-- What an application is told. -/
inductive News where
  | connected
  | disconnected
  | mail
deriving DecidableEq

/-- A client, its connection, and what has arrived on it. -/
structure Connection where
  client : Client
  stage : Connection.Stage := .connecting
  backoff : Backoff
  stream : Stream := {}
  /-- Whether the client is to send without waiting for the tick. -/
  hurries : Bool := false

/-- What a client does. -/
structure Reaction where
  /-- The bytes for the server. -/
  sent : List UInt8 := []
  news : List News := []
deriving DecidableEq

namespace Connection

/-- A client that is about to connect. -/
def start (config : Config) : Connection :=
  { client := .start config
    backoff := .start config.leastDelay config.greatestDelay }

/-- Sends what there is to send now instead of at the next tick. -/
def flush (c : Connection) : Connection := { c with hurries := true }

/-- The connection after the application has used the client. An asynchronous client sends at once
what the application has posted. -/
def withClient (c : Connection) (client : Client) : Connection :=
  let posted := client.config.mode = .asynchronous && !client.outbox.messages.isEmpty
  { c with client, hurries := c.hurries || posted }

/-- The news of a disconnection, if there was a connection. -/
def disconnectedNews (was : Bool) : List News := if was then [.disconnected] else []

/-- An attempt has failed, or the connection is lost. -/
def fail (clock : Clock) (c : Connection) : Reaction × Connection :=
  let (was, client) := c.client.disconnect
  let c := { c with client, stream := {} }
  ({ news := disconnectedNews was },
    match c.backoff.next? with
    | none => { c with stage := .ended }
    | some (delay, backoff) => { c with backoff, stage := .resting (clock.elapsed.deadline delay) })

/-- The application ends the connection for good. -/
def close (c : Connection) : Reaction × Connection :=
  let (was, client) := c.client.disconnect
  ({ news := disconnectedNews was }, { c with client := client.close, stage := .ended })

/-- The network has connected the client, which introduces itself. -/
def introduce (clock : Clock) (c : Connection) : Reaction × Connection :=
  let config := c.client.config
  let request : Handshake.Request :=
    { name := config.name, asynchronous := config.mode = .asynchronous, time := clock.now }
  ({ sent := Handshake.token ++ request.toMessage.encode },
    { c with stream := {}, stage := .introduced (clock.elapsed.deadline config.readTimeout) })

/-! ## Sending packets -/

/-- The key of the messages that measure round trips. -/
def measuringKey : String := "_async_timing"

/-- Sends a packet, after which the client is at the given stage. -/
def sendPacket (clock : Clock) (c : Connection) (ms : List Message) (stage : Stage) :
    Reaction × Connection :=
  let p : Packet := ⟨ms⟩
  match p.encode with
  | .error _ => c.fail clock
  | .ok bytes => ({ sent := bytes }, { c with client := c.client.recordSent p, stage })

/-- A synchronous client sends all that it has to send. -/
def sendAsking (clock : Clock) (c : Connection) : Reaction × Connection :=
  let (ms, client) := c.client.takeOutgoing clock.now
  { c with client }.sendPacket clock ms
    (.asking clock.now (clock.elapsed.deadline client.config.readTimeout))

/-- A time before all others. -/
def longAgo : Float := -1.0 / 0.0

/-- Whether it is time to measure again. -/
def measuresAgain (config : Config) (now : Float) (measured? : Option Float) : Bool :=
  config.timingInterval.toSeconds ≤ now - measured?.getD longAgo

/-- An asynchronous client sends all that it has to send, behind a measuring message if it is time
for one. -/
def sendStreaming (clock : Clock) (c : Connection) (measured? : Option Float)
    (deadline : Duration) : Reaction × Connection :=
  let (ms, client) := c.client.takeOutgoing clock.now
  let again := measuresAgain client.config clock.now measured?
  let probe := Message.double .timing measuringKey 0.0 clock.now
  let measured? := if again then some clock.now else measured?
  { c with client }.sendPacket clock (if again then probe :: ms else ms)
    (.streaming (clock.elapsed.deadline client.tick) measured? deadline)

/-! ## What happens next -/

/-- The server has welcomed the client, whose own address is `host`. -/
def begin (clock : Clock) (host : String) (c : Connection) (w : Handshake.Welcome) :
    Reaction × Connection :=
  let c := { c with backoff := c.backoff.reset }.withClient (c.client.welcome clock.now host w)
  let (reaction, c) := match c.client.config.mode with
    | .synchronous => c.sendAsking clock
    | .asynchronous =>
      c.sendStreaming clock none (clock.elapsed.deadline c.client.config.readTimeout)
  ({ reaction with news := .connected :: reaction.news }, c)

/-- The client takes a packet, which answers one sent at `request?`, and is then at the given
stage. -/
def receive (clock : Clock) (c : Connection) (p : Packet) (request? : Option Float)
    (stage : Stage) : Reaction × Connection :=
  let (mail, client) := c.client.receive clock.now p request?
  ({ news := if mail then [.mail] else [] }, { c with client, stage })

/-- The next thing that the client does. Its own address is `host`. -/
def poll? (clock : Clock) (host : String) (c : Connection) : Option (Reaction × Connection) :=
  let config := c.client.config
  match c.stage with
  | .connecting => none
  | .introduced deadline =>
    match c.stream.readMessage config.greatestPacket with
    | .waiting => if deadline.firesBy clock.elapsed then some (c.fail clock) else none
    | .failed _ _ => some (c.fail clock)
    | .done m stream =>
      match Handshake.Response.ofMessage m with
      | .ok (.welcome w) => some ({ c with stream }.begin clock host w)
      | _ => some (c.fail clock)
  | .asking request deadline =>
    match c.stream.readPacket config.greatestPacket with
    | .waiting => if deadline.firesBy clock.elapsed then some (c.fail clock) else none
    | .failed _ _ => some (c.fail clock)
    | .done p stream =>
      some ({ c with stream }.receive clock p (some request)
        (.pausing (clock.elapsed.deadline c.client.tick)))
  | .pausing tick =>
    if c.hurries then some ({ c with hurries := false }.sendAsking clock)
    else if tick.firesBy clock.elapsed then some (c.sendAsking clock)
    else none
  | .streaming tick measured? deadline =>
    match c.stream.readPacket config.greatestPacket with
    | .failed _ _ => some (c.fail clock)
    | .done p stream =>
      some ({ c with stream }.receive clock p none
        (.streaming tick measured? (clock.elapsed.deadline config.readTimeout)))
    | .waiting =>
      if deadline.firesBy clock.elapsed then some (c.fail clock)
      else if c.hurries then
        some ({ c with hurries := false }.sendStreaming clock measured? deadline)
      else if tick.firesBy clock.elapsed then some (c.sendStreaming clock measured? deadline)
      else none
  | .resting deadline =>
    if deadline.firesBy clock.elapsed then some ({}, { c with stage := .connecting }) else none
  | .ended => none

/-- The next things that the client does, at most `fuel` many. -/
def poll (clock : Clock) (host : String) : (fuel : Nat) → Connection → Reaction × Connection
  | 0, c => ({}, c)
  | fuel + 1, c =>
    match c.poll? clock host with
    | none => ({}, c)
    | some (reaction, c) =>
      let (more, c) := poll clock host fuel c
      ({ sent := reaction.sent ++ more.sent, news := reaction.news ++ more.news }, c)

/-- Does all that the client can do now. Every packet takes bytes from the stream, and without one
there are only a few things to do before the client waits. -/
def settle (clock : Clock) (host : String) (c : Connection) : Reaction × Connection :=
  c.poll clock host (c.stream.bytes.length + 8)

end Connection

end PubSub.Client
