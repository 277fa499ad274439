import PubSub.Server.Basic
import PubSub.Time.Ticker
import PubSub.Wire.Stream

/-!
# The server's side of a connection

A connection is first to send the token, then its request, each within the handshake timeout; what
it sends after the welcome are packets. `Connection.poll?` is the next thing that the server does
with a connection, if there is anything to do. Bytes that break the rules end a connection.
-/

namespace PubSub.Server

/-- What the server expects of a connection. -/
inductive Connection.Stage where
  /-- The token, before the deadline. -/
  | token (deadline : Duration)
  /-- The request, before the deadline. -/
  | request (deadline : Duration)
  /-- The packets of a session. -/
  | packets (client : String) (generation : Nat)
  /-- Nothing more. -/
  | closed
deriving DecidableEq

/-- A connection and what has arrived on it. -/
structure Connection where
  stage : Connection.Stage
  stream : Stream := {}
deriving DecidableEq

namespace Connection

/-- A connection that has just been accepted. -/
def accepted (s : Server) (clock : Clock) : Connection :=
  { stage := .token (clock.elapsed.deadline s.config.handshakeTimeout) }

/-- The connection without anything more to expect. -/
def close (c : Connection) : Connection := { c with stage := .closed }

/-- What the server answers to a request. -/
def answer (s : Server) (clock : Clock) (host : String) (r : Handshake.Request) (c : Connection) :
    Handshake.Response × Server × Connection :=
  match s.enroll clock r with
  | (none, s) => (.poison (Handshake.duplicateNameReason r.name), s, c.close)
  | (some generation, s) =>
    (.welcome (s.welcome clock host r), s.post (.connected r.name),
      { c with stage := .packets r.name generation })

/-- The next thing that the server does with a connection: the answer that it sends, if any. The
server's own address is `host`. -/
def poll? (s : Server) (clock : Clock) (host : String) (c : Connection) :
    Option (Option Handshake.Response × Server × Connection) :=
  let expired (deadline : Duration) : Option (Option Handshake.Response × Server × Connection) :=
    if deadline.firesBy clock.elapsed then some (none, s, c.close) else none
  match c.stage with
  | .token deadline =>
    match c.stream.readToken with
    | .waiting => expired deadline
    | .failed _ stream => some (none, s, { stage := .closed, stream })
    | .done token stream =>
      match Handshake.checkToken token with
      | .error _ => some (none, s, { stage := .closed, stream })
      | .ok _ =>
        let deadline := clock.elapsed.deadline s.config.handshakeTimeout
        some (none, s, { stage := .request deadline, stream })
  | .request deadline =>
    match c.stream.readMessage s.config.greatestPacket with
    | .waiting => expired deadline
    | .failed _ stream => some (none, s, { stage := .closed, stream })
    | .done m stream =>
      match Handshake.Request.ofMessage m with
      | .error _ => some (none, s, { stage := .closed, stream })
      | .ok r =>
        let (response, s, c) := { c with stream }.answer s clock host r
        some (some response, s, c)
  | .packets client generation =>
    match c.stream.readPacket s.config.greatestPacket with
    | .waiting => none
    | .failed _ stream =>
      some (none, s.post (.closed client generation), { stage := .closed, stream })
    | .done p stream => some (none, s.post (.packet client generation p), { c with stream })
  | .closed => none

end Connection

end PubSub.Server
