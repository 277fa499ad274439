import PubSub.Client.Connection
import PubSub.Proofs.Wire.Handshake
import PubSub.Server.Connection

/-!
# A client introduces itself

The two ends of a connection at the opening exchange. A client introduces itself with the token and
its request. The server takes the one and then the other, and what it answers is an answer to this
request (`Server.Connection.introduction_answered`). The client takes the answer
(`Client.Connection.poll?_response`). Either side leaves alone what comes behind, so that the first
packets may follow at once.
-/

namespace PubSub

open Handshake

/-! ## The server's side -/

namespace Server.Connection

variable (s : Server) (clock : Clock) (host : String) (deadline : Duration) (rest : List UInt8)
  (closed : Bool)

/-- The token is accepted, and the time for the request begins. -/
theorem poll?_token :
    poll? s clock host
        { stage := .token deadline, stream := { bytes := token ++ rest, closed } } =
      some (none, s, {
        stage := .request (clock.elapsed.deadline s.config.handshakeTimeout)
        stream := { bytes := rest, closed } }) := by
  have hread : Stream.readToken { bytes := token ++ rest, closed } =
      .done token { bytes := rest, closed } :=
    Stream.take_append (by decide +kernel) rest closed
  have hcheck : checkToken token = .ok () := if_pos rfl
  simp only [poll?, hread, hcheck]

variable {s} in
/-- A request is answered. -/
theorem poll?_request {r : Request} (hname : r.name ≠ "")
    (hlimit : r.toMessage.encodedLength ≤ s.config.greatestPacket)
    (hle : r.toMessage.encodedLength ≤ Packet.greatestLength) :
    poll? s clock host
        { stage := .request deadline, stream := { bytes := r.toMessage.encode ++ rest, closed } } =
      let answered := answer s clock host r
        { stage := .request deadline, stream := { bytes := rest, closed } }
      some (some answered.1, answered.2.1, answered.2.2) := by
  obtain ⟨m, hread, hrequest⟩ :=
    (opening_roundtrip s.config.greatestPacket rest closed).1 r hname hlimit hle
  simp only [poll?, hread, hrequest]

end Server.Connection

/-! ## The client's side -/

namespace Client.Connection

/-- What a client says of itself. -/
def request (clock : Clock) (c : Connection) : Request where
  name := c.client.config.name
  asynchronous := c.client.config.mode = .asynchronous
  time := clock.now

theorem introduce_sent (clock : Clock) (c : Connection) :
    (c.introduce clock).1.sent = token ++ (c.request clock).toMessage.encode := rfl

/-- A client that has introduced itself takes the answer: it begins, or has failed. -/
theorem poll?_response (clock : Clock) (host : String) {c : Connection} {deadline : Duration}
    (hstage : c.stage = .introduced deadline) {response : Response} (rest : List UInt8)
    (closed : Bool)
    (hstream : c.stream = { bytes := response.toMessage.encode ++ rest, closed })
    (hwritable : response.Writable)
    (hlimit : response.toMessage.encodedLength ≤ c.client.config.greatestPacket)
    (hle : response.toMessage.encodedLength ≤ Packet.greatestLength) :
    c.poll? clock host = some (match response with
      | .welcome w => { c with stream := { bytes := rest, closed } }.begin clock host w
      | .poison _ => c.fail clock) := by
  obtain ⟨m, hread, hresponse⟩ :=
    (opening_roundtrip c.client.config.greatestPacket rest closed).2 response hwritable hlimit hle
  simp only [poll?, hstage, hstream, hread, hresponse]
  cases response <;> rfl

end Client.Connection

/-! ## The exchange -/

/-- A server that has accepted a connection takes what a client sends to introduce itself in two
turns, whatever comes behind it and whatever else the server does between them, and answers the
client's request. -/
theorem Server.Connection.introduction_answered (c : Client.Connection) (sentAt : Clock)
    (s : Server) (acceptedAt clock : Clock) (host : String) (rest : List UInt8) (closed : Bool)
    (hname : c.client.config.name ≠ "")
    (hlimit : (c.request sentAt).toMessage.encodedLength ≤ s.config.greatestPacket)
    (hle : (c.request sentAt).toMessage.encodedLength ≤ Packet.greatestLength) :
    let start := { accepted s acceptedAt with
      stream := { bytes := (c.introduce sentAt).1.sent ++ rest, closed } }
    let stage := Stage.request (clock.elapsed.deadline s.config.handshakeTimeout)
    ∃ known : Connection, known.stage = stage ∧
      poll? s clock host start = some (none, s, known) ∧
      ∀ (t : Server) (later : Clock), t.config = s.config →
        let answered := answer t later host (c.request sentAt)
          { stage, stream := { bytes := rest, closed } }
        poll? t later host known = some (some answered.1, answered.2.1, answered.2.2) := by
  intro start stage
  let bytes := (c.request sentAt).toMessage.encode ++ rest
  refine ⟨{ stage, stream := { bytes, closed } }, rfl, ?_, fun t later hconfig => ?_⟩
  · simp only [start, Client.Connection.introduce_sent, List.append_assoc]
    exact poll?_token s clock host _ bytes closed
  · exact poll?_request later host _ rest closed hname (hconfig ▸ hlimit) hle

end PubSub
