import PubSub.Broker.Housekeeping

/-!
# Packets from clients

A packet's messages are processed in order. The reply holds the answers to the requests among them
and the mail that the broker has held for the client. A packet without any message collects no mail.
-/

namespace PubSub.Broker

/-! ## Requests to the broker -/

def requestAll : String := "ALL"
def requestProcesses : String := "PROC_SUMMARY"
def requestVariables : String := "VAR_SUMMARY"
def requestClear : String := "DB_CLEAR"

/-- Whether a request names what it asks for. -/
def asksFor (what : String) (request : Message) : Bool :=
  Text.occurs what.toList request.key.toList

/-- The answer to a request, which carries the id of the request. -/
def answer (b : Broker) (request : Message) (key value : String) (time : Float) : Message :=
  { Message.text .notify key value time with id := request.id, source := b.config.name }

/-- A variable in the answer to a request for all of them: its time is that of the last write since
the start. -/
def listing (b : Broker) (request : Message) (v : Variable) : Message :=
  let age := v.writtenTime - b.startTime
  { v.toMessage .notify with
    id := request.id
    time := if age < 0.0 then -1.0 else age
    value2 := v.frequency }

/-- The variables that a client reads and writes. -/
def processLine (b : Broker) (client : String) : String :=
  client ++ ":SUBSCRIBED=" ++ ",".intercalate (b.subscribedBy client) ++ ",PUBLISHED=" ++
    ",".intercalate (b.writtenBy client)

/-- Resets all variables and drops all held mail. -/
def clear (b : Broker) (now : Float) : Broker :=
  { b with
    store := b.store.map fun _ v => v.reset
    held := b.held.map fun _ _ => []
    startTime := now }

/-- Answers a request to the broker. -/
def request (b : Broker) (now : Float) (m : Message) : Except Error (List Message × Broker) :=
  if m.key = requestAll then .ok (b.store.values.map (b.listing m), b)
  else if asksFor requestProcesses m then
    .ok (b.clients.names.map fun client =>
      b.answer m requestProcesses (b.processLine client) (now - b.startTime), b)
  else if asksFor requestVariables m then
    .ok ([b.answer m requestVariables (",".intercalate b.store.names) now], b)
  else if asksFor requestClear m then
    .ok ([b.answer m requestClear "" now], b.clear now)
  else .error (.unknownRequest m.key)

/-! ## Messages and packets -/

/-- Processes one message of a client and gives the answers to it. -/
def process (b : Broker) (now : Float) (client : String) (m : Message) :
    Except Error (List Message × Broker) :=
  match m.type with
  | .notify => do return ([], ← b.notify now m)
  | .register | .wildcardRegister => do return ([], ← b.register client m now)
  | .unregister | .wildcardUnregister => do return ([], ← b.unregister client m)
  | .serverRequest => b.request now m
  | _ => .ok ([], b)

/-- Processes messages in order, passing over those that fail. -/
def processAll (b : Broker) (now : Float) (client : String) (ms : List Message) :
    List Message × Broker :=
  ms.foldl (fun (answers, b) m =>
    match b.process now client m with
    | .ok (more, b) => (answers ++ more, b)
    | .error _ => (answers, b)) ([], b)

/-- The newest time that a packet carries; times that are not positive do not count. -/
def newestTime? (ms : List Message) : Option Float :=
  match (ms.map Message.time).filter (0.0 < ·) with
  | [] => none
  | t :: ts =>
    let newest := ts.foldl Bounds.greater t
    if newest.isFinite then some newest else none

/-- Notes how long a packet has been on its way, in milliseconds. -/
def recordLatency (b : Broker) (now : Float) (client : String) (ms : List Message) : Broker :=
  match newestTime? ms with
  | none => b
  | some newest =>
    let sample := Bounds.raised ((now - newest) * 1000.0)
    let latency := match b.latencies.get? client with
      | some l => l.add sample
      | none => Latency.ofSample sample
    { b with latencies := b.latencies.insert client latency }

/-- Processes a packet of a client and gives the reply. -/
def receive (b : Broker) (now : Float) (client : String) (ms : List Message) :
    List Message × Broker :=
  let (answers, b) := (b.recordLatency now client ms).processAll now client ms
  let b := b.keepHouseIfDue now
  if ms.isEmpty then (answers, b)
  else
    let (mail, b) := b.collect client
    (answers ++ mail, b)

end PubSub.Broker
