import PubSub.Client.Basic

/-!
# Registrations

A client remembers its registrations. It sends each of them to the broker at once if it is
connected, and all of them again after every connection.
-/

namespace PubSub.Client

/-- The message that registers for a variable. -/
def registerMessage (key : String) (interval time : Float) : Message :=
  .double .register key interval time

/-- A message about a filter. -/
def filterMessage (type : MessageType) (f : Filter) (time : Float) : Message :=
  .text type f.keyPattern f.shown time

/-- Registers for a variable, to be notified at most once per interval. -/
def register (c : Client) (now : Float) (key : String) (interval : Float) : Client :=
  let c := { c with registrations := c.registrations.insert key interval }
  (c.post now (registerMessage key interval (-1.0))).2

/-- Takes a registration back, and says whether there was one. -/
def unregister (c : Client) (now : Float) (key : String) : Bool × Client :=
  if c.registrations.contains key then
    let c := { c with registrations := c.registrations.erase key }
    (true, (c.post now (.double .unregister key 0.0 (-1.0))).2)
  else (false, c)

/-- Registers for all variables that a filter covers, instead of one with the same patterns. -/
def registerFilter (c : Client) (now : Float) (f : Filter) : Client :=
  let others := c.filters.filter fun g => !g.samePatterns f
  let c := { c with filters := others ++ [f] }
  (c.post now (filterMessage .wildcardRegister f (-1.0))).2

/-- Takes the registration of a filter back, and says whether there was one. -/
def unregisterFilter (c : Client) (now : Float) (sourcePattern keyPattern : String) :
    Bool × Client :=
  let f : Filter := { sourcePattern, keyPattern, period := 0.0 }
  if c.filters.any fun g => g.samePatterns f then
    let c := { c with filters := c.filters.filter fun g => !g.samePatterns f }
    (true, (c.post now (filterMessage .wildcardUnregister f (-1.0))).2)
  else (false, c)

/-- Whether a registration or a filter covers a key. -/
def isRegistered (c : Client) (key : String) : Bool :=
  c.registrations.contains key || c.filters.any fun f => matchesPattern f.keyPattern key

/-! ## After a connection -/

/-- All registrations as messages. -/
def replayMessages (c : Client) (now : Float) : List Message :=
  let time := c.time now
  (c.registrations.entries.map fun (key, interval) => registerMessage key interval time) ++
    c.filters.map fun f => filterMessage .wildcardRegister f time

/-- Sends all registrations. -/
def replay (c : Client) (now : Float) : Client :=
  (c.replayMessages now).foldl (fun c m => c.send now m) c

/-- The client, whose own address is `host`, has been welcomed by the server and is connected from
now on. A broker on the same host has the same clock, so the skew is measured only if the hosts
differ. -/
def accept (c : Client) (host : String) (w : Handshake.Welcome) : Client :=
  let measures := c.config.correctsTime && w.hostname != host
  { c with
    session := { community := w.community, hostname := w.hostname, asynchronous := w.asynchronous }
    estimator := .start
    measures
    skew := if measures then w.skew else 0.0
    connected := true }

/-- The server has welcomed the client, which repeats its registrations. -/
def welcome (c : Client) (now : Float) (host : String) (w : Handshake.Welcome) : Client :=
  (c.accept host w).replay now

/-- The connection is gone. Says whether there was one. -/
def disconnect (c : Client) : Bool × Client :=
  (c.connected, { c with connected := false })

/-! ## Queues -/

/-- The name of the queue for the broker's summaries. -/
def summariesQueue : String := "_ClientSummaries"

/-- Starts to follow how well clients communicate. -/
def startMonitoring (c : Client) (now : Float) : Client :=
  let router :=
    match c.router.addQueue? summariesQueue .commsStatus with
    | none => c.router
    | some r =>
      [Broker.qualityKey, Broker.readWriteSummaryKey].foldl
        (fun r key => (r.addRoute? key summariesQueue).getD r) r
  let c := { c with router }
  (c.register now Broker.qualityKey 0.0).register now Broker.readWriteSummaryKey 0.0

/-- Follows no longer how well clients communicate. Says whether it did. -/
def stopMonitoring (c : Client) (now : Float) : Bool × Client :=
  let c := (c.unregister now Broker.qualityKey).2
  let c := (c.unregister now Broker.readWriteSummaryKey).2
  match c.router.removeQueue? summariesQueue with
  | some router => (true, { c with router })
  | none => (false, c)

/-- Stops all queues. -/
def close (c : Client) : Client := { c with router := c.router.stopAll }

end PubSub.Client
