import PubSub.Client.CommsStatus
import PubSub.Client.Config
import PubSub.Client.Mailbox
import PubSub.Client.Router
import PubSub.Skew.Estimator
import PubSub.Wire.Handshake

/-!
# Clients

A `Client` is what an application holds of its connection to the broker: the messages to send, the
messages received, the queues that claim some of them, and the registrations, which it remembers and
repeats after every connection.

Operations take the local time `now`. None of them waits: packets are taken from a client to be sent
(`takeOutgoing`) and given to it when they arrive (`receive`).
-/

namespace PubSub.Client

/-- The id of requests to the broker and of the answers to them. -/
def requestId : Int32 := -2

/-- Who handles the mail of an active queue. -/
inductive Handler where
  /-- The application, by a label of its own. -/
  | application (label : String)
  /-- The client itself, which learns how well clients communicate. -/
  | commsStatus
deriving DecidableEq

/-- What the server has told when it welcomed the client. -/
structure Session where
  community : String := ""
  hostname : String := ""
  asynchronous : Bool := false
deriving DecidableEq

/-- What has gone over the connections. -/
structure Counters where
  messagesSent : Nat := 0
  messagesReceived : Nat := 0
  bytesSent : Nat := 0
  bytesReceived : Nat := 0
deriving DecidableEq

end PubSub.Client

namespace PubSub

/-- The state of a client. -/
structure Client where
  config : Client.Config
  outbox : Mailbox
  inbox : Mailbox
  router : Router Client.Handler := {}
  /-- The remembered registrations: their intervals by key. -/
  registrations : Table Float := ∅
  /-- The remembered filters, in the order of their registration. -/
  filters : List Filter := []
  session : Client.Session := {}
  statuses : Table CommsStatus := ∅
  estimator : Skew.Estimator Float := .start
  /-- The server's time less the client's. -/
  skew : Float := 0.0
  /-- Whether the skew is measured. -/
  measures : Bool := false
  /-- Ticks of communication per second. -/
  frequency : Float
  expectsOverflow : Bool
  connected : Bool := false
  /-- The id of the next message. -/
  nextId : Int32 := 0
  counters : Client.Counters := {}

namespace Client

/-- A client that is not connected. -/
def start (config : Config) : Client :=
  { config
    outbox := .create "outbox" config.outboxLimit
    inbox := .create "inbox" config.inboxLimit
    frequency := clampedFrequency config.frequency
    expectsOverflow := config.expectsOverflow }

/-- The server's time, as far as the client knows. -/
def time (c : Client) (now : Float) : Float := now + c.skew

/-- The time between two ticks. -/
def tick (c : Client) : Duration :=
  match Duration.ofFloat (1.0 / c.frequency) with
  | .ok d => d
  | .error _ => ⟨0⟩

/-- Changes the ticks per second. -/
def setFrequency (c : Client) (frequency : Float) : Client :=
  { c with frequency := clampedFrequency frequency }

/-- Changes the limit of the outbox, whose overflow is no news from now on. -/
def expectOverflow (c : Client) (limit : Nat) : Client :=
  { c with outbox := c.outbox.withLimit limit, expectsOverflow := true }

/-! ## Sending -/

/-- Fills in what the client knows better: the source, the id, and the time if it is negative. -/
def complete (c : Client) (now : Float) (m : Message) : Message × Client :=
  let keepsSource := c.config.keepsSource && m.type = .notify && !m.source.isEmpty
  let source := if keepsSource then m.source else c.config.name
  let time := if m.time < 0.0 then c.time now else m.time
  if m.type = .serverRequest then ({ m with source, time, id := requestId }, c)
  else ({ m with source, time, id := c.nextId }, { c with nextId := c.nextId + 1 })

/-- Puts a message into the outbox. -/
def enqueue (c : Client) (m : Message) : Client :=
  let pushed := if c.config.newestFirst then c.outbox.pushFront m else c.outbox.pushBack m
  { c with outbox := pushed.2 }

/-- Completes a message and puts it into the outbox. -/
def send (c : Client) (now : Float) (m : Message) : Client :=
  let (m, c) := c.complete now m
  c.enqueue m

/-- Sends a message if connected, and says whether it was. -/
def post (c : Client) (now : Float) (m : Message) : Bool × Client :=
  if c.connected then (true, c.send now m) else (false, c)

/-- Takes the messages to send. If there are none, a message with nothing to say keeps the
connection alive; its time lets the broker measure the latency. -/
def takeOutgoing (c : Client) (now : Float) : List Message × Client :=
  let (ms, outbox) := c.outbox.drain
  let keepAlive := { Message.null c.config.name now with time := c.time now }
  (if ms.isEmpty then [keepAlive] else ms, { c with outbox })

/-- Notes that a packet has been sent. -/
def recordSent (c : Client) (p : Packet) : Client :=
  { c with counters := { c.counters with
      messagesSent := c.counters.messagesSent + p.messages.length
      bytesSent := c.counters.bytesSent + p.encodedLength } }

/-! ## Receiving -/

/-- Takes a round trip into account, if the skew is measured. -/
def measure (c : Client) (request remote reply : Float) : Client :=
  if c.measures then
    let (estimate, estimator) := c.estimator.update request remote reply
    { c with estimator, skew := estimate.skew }
  else c

/-- Delivers messages: answers to requests go to the inbox, all else to the queues that claim it or
else to the inbox. Says whether the inbox got any mail. -/
def deliver (c : Client) (ms : List Message) : Bool × Client :=
  let answers := ms.filter (·.id = requestId)
  let (unclaimed, router) := c.router.route (ms.filter (·.id ≠ requestId))
  let mail := answers ++ unclaimed
  (!mail.isEmpty,
    { c with router, inbox := mail.foldl (fun inbox m => (inbox.pushBack m).2) c.inbox })

/-- Takes a packet from the server, which arrives `now`. A packet that answers one sent at
`request?` and echoes of measuring messages are round trips; the other messages are delivered. Says
whether the inbox got any mail. -/
def receive (c : Client) (now : Float) (p : Packet) (request? : Option Float) : Bool × Client :=
  let c := { c with counters := { c.counters with
    messagesReceived := c.counters.messagesReceived + p.messages.length
    bytesReceived := c.counters.bytesReceived + p.encodedLength } }
  let c := match request?, p.sendTime? with
    | some request, some remote => c.measure request remote now
    | _, _ => c
  let echoes := p.content.filter (·.type = .timing)
  let c := echoes.foldl (fun c echo => c.measure echo.value echo.time now) c
  c.deliver (p.content.filter (·.type ≠ .timing))

/-- Takes all mail. -/
def fetch (c : Client) : List Message × Client :=
  let (ms, inbox) := c.inbox.drain
  (ms, { c with inbox })

/-- Takes the messages with an id, and drops the others if so asked. -/
def peek (c : Client) (id : Int32) (dropOthers : Bool) : List Message × Client :=
  let (ms, inbox) := c.inbox.extract (·.id = id)
  (ms, { c with inbox := if dropOthers then inbox.clear else inbox })

/-- Lets all queues hand over their mail. Gives the messages for the application by label. -/
def runQueues (c : Client) : List (String × List Message) × Client :=
  let (handled, router) := c.router.run fun _ _ => false
  let forApplication := handled.filterMap fun (handler, ms) =>
    match handler with
    | .application label => some (label, ms)
    | .commsStatus => none
  let summaries := (handled.filter (·.1 = .commsStatus)).flatMap (·.2)
  (forApplication, { c with router, statuses := summaries.foldl CommsStatus.collect c.statuses })

end Client

end PubSub
