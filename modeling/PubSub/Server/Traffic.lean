import PubSub.Server.Basic

/-!
# What can happen at a server

The connections, the search for silent clients and the handling of events run side by side. A
`Traffic` is the server together with how far each connection and the search have come, and an
`Action` is a step of one of them; `Traffic.act?` says which steps are possible and what they do. A
run of the server is any sequence of possible steps, so what holds of all of them holds of every
order in which things can happen.

A step is as much as one of the tasks does at once on what they share, the sessions and the queue of
events. So a connection takes its generation, asks for its session and learns whether it can be
welcomed in three steps, and the search reports the sessions that it has found one by one. The
handling of an event is one step: only one task handles events, and it looks at the session of the
event once, at its start.
-/

namespace PubSub.Server

/-- How far a connection has come that has told its name. -/
inductive Phase where
  /-- It has a generation and is about to ask for a session. -/
  | asking
  /-- Its name was taken. -/
  | rejected
  /-- It has a session and is about to be welcomed. -/
  | welcoming
  /-- It has been welcomed and its packets are read. -/
  | reading
  | closed
deriving DecidableEq

/-- A server and its connections. -/
structure Traffic where
  server : Server
  clock : Clock
  /-- The request and the phase of each connection; its place is its generation. -/
  connections : List (Handshake.Request × Phase) := []
  /-- The clients and generations of the silent sessions that are still to be reported. -/
  noticed : List (String × Nat) := []
deriving DecidableEq

/-- A step. -/
inductive Action where
  /-- A connection has told its name and takes a generation. -/
  | request (r : Handshake.Request)
  /-- A connection asks for a session. -/
  | enroll (generation : Nat)
  /-- The welcome is sent to a connection, or cannot be sent. -/
  | welcome (generation : Nat) (sent : Bool)
  /-- A packet is read from a connection. -/
  | packet (generation : Nat) (p : Packet)
  /-- A connection ends. -/
  | close (generation : Nat)
  /-- The search looks for silent sessions. -/
  | checkSilence
  /-- The search reports a session that it has found. -/
  | reportSilence
  | dispatch
  | elapse (d : Duration)
deriving DecidableEq

/-- The connection that takes a step. -/
def Action.generation? : Action → Option Nat
  | .enroll generation | .welcome generation _ | .packet generation _ | .close generation =>
    some generation
  | .request _ | .checkSilence | .reportSilence | .dispatch | .elapse _ => none

namespace Traffic

/-- A server that has just started. -/
def start (config : Config) (broker : Broker) (clock : Clock) : Traffic :=
  { server := { config, broker }, clock }

/-- The phase of a connection. -/
def phase? (t : Traffic) (generation : Nat) : Option Phase :=
  (t.connections[generation]?).map (·.2)

/-- The request of a connection in the given phase. -/
def requestIn? (t : Traffic) (generation : Nat) (phase : Phase) : Option Handshake.Request :=
  (t.connections[generation]?).bind fun (r, p) => if p = phase then some r else none

/-- The traffic with another phase of a connection. -/
def setPhase (t : Traffic) (generation : Nat) (phase : Phase) : Traffic :=
  { t with connections := t.connections.modify generation fun (r, _) => (r, phase) }

/-- A step, if it is possible. -/
def act? (t : Traffic) : Action → Option (Effect × Traffic)
  | .request r =>
    some ({}, { t with
      server := t.server.number.2, connections := t.connections ++ [(r, .asking)] })
  | .enroll generation =>
    (t.requestIn? generation .asking).map fun r =>
      match t.server.admit? t.clock r generation with
      | none => ({}, t.setPhase generation .rejected)
      | some server => ({}, { t with server }.setPhase generation .welcoming)
  | .welcome generation sent =>
    (t.requestIn? generation .welcoming).map fun r =>
      if sent then
        ({}, { t with server := t.server.post (.connected r.name) }.setPhase generation .reading)
      else
        ({}, { t with server := t.server.remove r.name generation }.setPhase generation .closed)
  | .packet generation p =>
    (t.requestIn? generation .reading).map fun r =>
      ({}, { t with server := t.server.post (.packet r.name generation p) })
  | .close generation =>
    (t.requestIn? generation .reading).map fun r =>
      let server := t.server.post (.closed r.name generation)
      ({}, { t with server }.setPhase generation .closed)
  | .checkSilence =>
    if t.noticed.isEmpty then
      let silent := t.server.silentSessions t.clock
      some ({}, { t with noticed := silent.map fun (client, s) => (client, s.generation) })
    else none
  | .reportSilence =>
    match t.noticed with
    | [] => none
    | (client, generation) :: noticed =>
      some ({}, { t with server := t.server.post (.silent client generation), noticed })
  | .dispatch =>
    let (effect, server) := t.server.dispatch t.clock
    some (effect, { t with server })
  | .elapse d => some ({}, { t with clock := t.clock.advance d })

/-- A sequence of steps, if all are possible, and what they lead to. -/
def run? (t : Traffic) : List Action → Option (Effect × Traffic)
  | [] => some ({}, t)
  | a :: actions => do
    let (effect, t) ← t.act? a
    let (more, t) ← t.run? actions
    return (effect ++ more, t)

end Traffic

end PubSub.Server
