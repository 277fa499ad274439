import PubSub.Broker.Requests
import PubSub.Server.Config
import PubSub.Time.Clock
import PubSub.Wire.Handshake

/-!
# The server's sessions

A `Server` stands between the connections and the broker. A connection that has told its name
becomes a session if no session has the name. Every such attempt takes a generation, a number of its
own, which tells it from earlier ones of the same name.

What happens on the connections waits in one queue of events, and `dispatch` handles one event after
the other; only there the broker is called. An event of a generation whose session is gone changes
nothing.
-/

namespace PubSub.Server

/-- A client that is connected. -/
structure Session where
  generation : Nat
  /-- Whether it gets mail without asking for it. -/
  asynchronous : Bool
  /-- When its last packet was handled, or else when the session began. -/
  lastActivity : Duration
deriving DecidableEq

/-- What happens on a connection. -/
inductive Event where
  | connected (client : String)
  | packet (client : String) (generation : Nat) (p : Packet)
  | closed (client : String) (generation : Nat)
  | silent (client : String) (generation : Nat)
deriving DecidableEq

/-- A call of the broker. -/
inductive Call where
  | connect (client : String)
  | receive (client : String) (ms : List Message)
  | collect (client : String)
  | disconnect (client : String)
deriving DecidableEq

/-- What the handling of an event leads to. -/
structure Effect where
  /-- The calls of the broker. -/
  calls : List Call := []
  /-- The packets for connections, by generation. -/
  sent : List (Nat × Packet) := []
  /-- The generations whose connection is to be closed. -/
  ended : List Nat := []
deriving DecidableEq

/-- The effects of one handling and of another one behind it. -/
def Effect.append (e f : Effect) : Effect :=
  { calls := e.calls ++ f.calls, sent := e.sent ++ f.sent, ended := e.ended ++ f.ended }

instance : Append Effect := ⟨Effect.append⟩

end PubSub.Server

namespace PubSub

/-- The state of a server with the broker behind it. -/
structure Server where
  config : Server.Config
  broker : Broker
  /-- The sessions by name. -/
  sessions : Table Server.Session := ∅
  /-- The events that wait, oldest first. -/
  events : List Server.Event := []
  /-- The number of generations so far. -/
  generations : Nat := 0
deriving DecidableEq

namespace Server

/-- Whether the session of a client is of this generation. -/
def isCurrent (s : Server) (client : String) (generation : Nat) : Bool :=
  (s.sessions.get? client).any fun session => session.generation == generation

/-- Puts an event into the queue. -/
def post (s : Server) (e : Event) : Server := { s with events := s.events ++ [e] }

/-! ## Connections -/

/-- A connection takes a generation. -/
def number (s : Server) : Nat × Server :=
  (s.generations, { s with generations := s.generations + 1 })

/-- A connection of a generation gets a session, or nothing if the name is taken. -/
def admit? (s : Server) (clock : Clock) (request : Handshake.Request) (generation : Nat) :
    Option Server :=
  if s.sessions.contains request.name then none
  else
    let session : Session :=
      { generation
        asynchronous := request.asynchronous && s.config.supportsAsync
        lastActivity := clock.elapsed }
    some { s with sessions := s.sessions.insert request.name session }

/-- A connection asks for a session. It gets a generation, or nothing if the name is taken. -/
def enroll (s : Server) (clock : Clock) (request : Handshake.Request) : Option Nat × Server :=
  let (generation, s) := s.number
  match s.admit? clock request generation with
  | none => (none, s)
  | some s => (some generation, s)

/-- What a client is told that gets a session; `host` is the server's own address. -/
def welcome (s : Server) (clock : Clock) (host : String) (request : Handshake.Request) :
    Handshake.Welcome :=
  { skew := clock.now - request.time
    asynchronous := s.config.supportsAsync
    hostname := host
    community := s.config.community }

/-- Removes a session, if it is of this generation. -/
def remove (s : Server) (client : String) (generation : Nat) : Server :=
  if s.isCurrent client generation then { s with sessions := s.sessions.erase client } else s

/-- The sessions of clients that have been silent for too long. -/
def silentSessions (s : Server) (clock : Clock) : List (String × Session) :=
  s.sessions.entries.filter fun (_, session) =>
    session.lastActivity + s.config.clientTimeout < clock.elapsed

/-- Looks for clients that have been silent for too long. -/
def checkSilence (s : Server) (clock : Clock) : Server :=
  (s.silentSessions clock).foldl
    (fun s (client, session) => s.post (.silent client session.generation)) s

/-! ## Events -/

/-- The answer to a measuring message: its own time as the value, and the server's time. -/
def echo (now : Float) (probe : Message) : Message :=
  { type := .timing, key := probe.key, value := probe.time, time := now }

/-- Sends the asynchronous clients the mail that the broker holds for them. -/
def pushMail (s : Server) (clock : Clock) : Effect × Server :=
  (s.sessions.entries.filter (·.2.asynchronous)).foldl (fun (effect, s) (client, session) =>
    let (mail, broker) := s.broker.collect client
    let packet : Packet := ⟨Message.null "" clock.now :: mail⟩
    let pushed : Effect :=
      { calls := [.collect client]
        sent := if mail.isEmpty then [] else [(session.generation, packet)] }
    (effect ++ pushed, { s with broker })) ({}, s)

/-- Handles a packet of a session. The reply starts with the server's time, then come the answers to
the measuring messages and what the broker has to say. Mail that the packet has caused for
asynchronous clients is sent to them at once. -/
def process (s : Server) (clock : Clock) (client : String) (generation : Nat) (p : Packet) :
    Effect × Server :=
  let echoes := (p.messages.filter (·.type = .timing)).map (echo clock.now)
  let ms := p.messages.filter (·.type ≠ .timing)
  let (answers, broker) := s.broker.receive clock.now client ms
  let reply : Packet := ⟨Message.null "" clock.now :: echoes ++ answers⟩
  let replied : Effect := { calls := [.receive client ms], sent := [(generation, reply)] }
  let s := { s with
    broker
    sessions := s.sessions.modify client fun session =>
      { session with lastActivity := clock.elapsed } }
  if ms.any (·.type = .notify) then
    let (pushed, s) := s.pushMail clock
    (replied ++ pushed, s)
  else (replied, s)

/-- Ends a session and closes its connection. -/
def disconnect (s : Server) (clock : Clock) (client : String) (generation : Nat) :
    Effect × Server :=
  if s.isCurrent client generation then
    ({ calls := [.disconnect client], ended := [generation] },
      { s.remove client generation with broker := s.broker.disconnect clock.now client })
  else ({}, s)

/-- Handles an event. -/
def handle (s : Server) (clock : Clock) : Event → Effect × Server
  | .connected client =>
    ({ calls := [.connect client] }, { s with broker := s.broker.connect clock.now client })
  | .packet client generation p =>
    if s.isCurrent client generation then s.process clock client generation p else ({}, s)
  | .closed client generation => s.disconnect clock client generation
  | .silent client generation => s.disconnect clock client generation

/-- Handles the oldest event. -/
def dispatch (s : Server) (clock : Clock) : Effect × Server :=
  match s.events with
  | [] => ({}, s)
  | e :: events => { s with events }.handle clock e

/-- Handles all events. -/
def dispatchAll (s : Server) (clock : Clock) : Effect × Server :=
  s.events.foldl (fun (effect, s) e =>
    let (more, s) := s.handle clock e
    (effect ++ more, s)) ({}, { s with events := [] })

end Server

end PubSub
