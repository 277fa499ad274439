import PubSub.Broker.Latency
import PubSub.Broker.Variable
import PubSub.Time.Duration

/-!
# The broker's tables

A `Broker` keeps the variables, the standing filters of the clients, and for each client the mail
that it has not collected yet. A write of a variable puts a copy of the message into the held mail
of every subscriber that is due. A subscriber that is not due, but has not collected the last copy
yet, gets the new value in its place.

All operations take the local time `now`. One that fails leaves the broker as it is.
-/

namespace PubSub

/-- What a broker is told at its start. -/
structure Broker.Config where
  /-- The source of everything that the broker writes itself. -/
  name : String
  community : String
  /-- How often the broker writes its own variables. -/
  summaryInterval : Duration := .ofSeconds 2
  /-- Whether subscriptions are reported less prominently. -/
  quiet : Bool := false
deriving DecidableEq

/-- The usual name of the broker of a community. -/
def Broker.Config.ofCommunity (community : String) : Broker.Config :=
  { name := "MOOSDB_" ++ community, community }

/-- The community of a broker that is not told any. -/
def Broker.Config.defaultCommunity : String := "#1"

/-- The state of a broker. -/
structure Broker where
  config : Broker.Config
  /-- The variables by name. -/
  store : Table Variable := ∅
  /-- The standing filters of each client, in the order of their registration. -/
  filters : Table (List Filter) := ∅
  /-- The mail of each client that it has not collected, oldest first. -/
  held : Table (List Message) := ∅
  /-- The connected clients. -/
  clients : NameSet := ∅
  latencies : Table Latency := ∅
  /-- When the broker started or was last cleared. -/
  startTime : Float
  /-- When the broker last wrote its own variables. -/
  summaryTime : Float
deriving DecidableEq

namespace Broker

/-! ## The broker's own variables -/

def timeKey : String := "DB_TIME"
def uptimeKey : String := "DB_UPTIME"
def clientsKey : String := "DB_CLIENTS"
def variableSummaryKey : String := "DB_VARSUMMARY"
def readWriteSummaryKey : String := "DB_RWSUMMARY"
def eventKey : String := "DB_EVENT"
def qualityKey : String := "DB_QOS"

/-- One of the broker's own numbers before the broker has written it. -/
def initialVariable (config : Config) (now : Float) (name : String) (value : Float) : Variable :=
  { Variable.fresh name .double now with
    value
    writer := config.name
    community := config.community
    writtenTime := now }

/-- A broker that starts now. -/
def start (config : Config) (now : Float) : Broker :=
  { config
    store :=
      ((∅ : Table Variable).insert timeKey (initialVariable config now timeKey now)).insert
        uptimeKey (initialVariable config now uptimeKey 0.0)
    startTime := now
    summaryTime := now }

/-! ## Held mail -/

/-- The mail that a client has not collected. -/
def heldFor (b : Broker) (client : String) : List Message :=
  (b.held.get? client).getD []

/-- The broker with other mail for a client. -/
def hold (b : Broker) (client : String) (mail : List Message) : Broker :=
  { b with held := b.held.insert client mail }

/-- A client collects its mail. -/
def collect (b : Broker) (client : String) : List Message × Broker :=
  (b.heldFor client, if b.held.contains client then b.hold client [] else b)

/-- Replaces the last notification of the same variable, if there is one. -/
def replaceLast (m : Message) (mail : List Message) : List Message :=
  let isOlder (n : Message) : Bool := n.type = .notify && n.key == m.key
  let newer := mail.reverse.takeWhile fun n => !isOlder n
  match mail.reverse.drop newer.length with
  | [] => mail
  | _ :: older => older.reverse ++ m :: newer.reverse

/-- Offers a message to one subscriber: its mail grows if it is due, and otherwise at most changes
in place. -/
def offer (now : Float) (m : Message) (s : Subscription) (mail : List Message) :
    Subscription × List Message :=
  if s.isDue now then ({ s with lastSent := now }, mail ++ [m]) else (s, replaceLast m mail)

/-- Offers a message to all subscribers of a variable. -/
def fanOut (b : Broker) (now : Float) (v : Variable) (m : Message) : Broker :=
  let offered := v.subscriptions.map fun client s => offer now m s (b.heldFor client)
  { b with
    store :=
      b.store.insert v.name { v with subscriptions := offered.map fun _ o => o.1 }
    held := offered.entries.foldl (fun held (client, o) => held.insert client o.2) b.held }

/-! ## Writes -/

/-- Subscribes every client with a filter for the write, in the order of its filters. -/
def subscribeByFilters (b : Broker) (m : Message) (v : Variable) : Variable :=
  b.filters.entries.foldl (fun v (client, filters) =>
    (filters.filter fun f => f.covers m.source m.key).foldl
      (fun v f => v.subscribe client f.period) v) v

/-- The variable that a message writes to; its first write fixes its type and is the occasion for
filters to subscribe to it. -/
def target (b : Broker) (now : Float) (m : Message) : Variable :=
  let v := (b.store.get? m.key).getD (Variable.fresh m.key m.dataType now)
  if v.writes = 0 then b.subscribeByFilters m { v with dataType := m.dataType } else v

/-- Writes a variable and notifies its subscribers. A variable that has been written is not written
with another type. -/
def notify (b : Broker) (now : Float) (m : Message) : Except Error Broker :=
  let v := b.target now m
  if v.dataType ≠ m.dataType then .error (.typeConflict m.key v.dataType m.dataType)
  else
    let copy :=
      if m.community.isEmpty then { m with community := b.config.community } else m
    .ok (b.fanOut now (v.write m now b.config.community) copy)

/-! ## Registrations -/

/-- Subscribes a client to a variable. If the variable has been written, the client gets its value
at once. -/
def subscribe (b : Broker) (client key : String) (period now : Float) : Broker :=
  let v := ((b.store.get? key).getD (Variable.fresh key .notSet now)).subscribe client period
  if v.writes = 0 then { b with store := b.store.insert key v }
  else
    let sent := { v with
      subscriptions := v.subscriptions.modify client fun s => { s with lastSent := now } }
    { b with store := b.store.insert key sent }.hold client
      (b.heldFor client ++ [v.toMessage .notify])

/-- The standing filters of a client. -/
def filtersOf (b : Broker) (client : String) : List Filter :=
  (b.filters.get? client).getD []

/-- Adds a standing filter, instead of one with the same patterns, and subscribes the client to the
variables that it covers by now. -/
def addFilter (b : Broker) (client : String) (f : Filter) (now : Float) : Broker :=
  let others := (b.filtersOf client).filter fun g => !g.samePatterns f
  let b := { b with filters := b.filters.insert client (others ++ [f]) }
  let covered := b.store.values.filter fun v => f.covers v.writer v.name
  covered.foldl (fun b v => b.subscribe client v.name f.period now) b

/-- Carries out a registration. -/
def register (b : Broker) (client : String) (m : Message) (now : Float) : Except Error Broker :=
  match m.type with
  | .register => .ok (b.subscribe client m.key m.value now)
  | .wildcardRegister => do return b.addFilter client (← Filter.parse m.textValue) now
  | other => .error (.notARegistration other)

/-- Removes a client's filters with the same patterns and its subscriptions that the filter
covers. -/
def removeFilter (b : Broker) (client : String) (f : Filter) : Broker :=
  { b with
    filters := b.filters.modify client fun fs => fs.filter fun g => !g.samePatterns f
    store := b.store.map fun _ v =>
      if f.covers v.writer v.name then v.unsubscribe client else v }

/-- Takes a registration back. -/
def unregister (b : Broker) (client : String) (m : Message) : Except Error Broker :=
  match m.type with
  | .unregister =>
    .ok { b with store := b.store.modify m.key fun v => v.unsubscribe client }
  | .wildcardUnregister => do return b.removeFilter client (← Filter.parse m.textValue)
  | other => .error (.notAnUnregistration other)

/-! ## The broker's own writes -/

/-- Writes one of the broker's own variables, unless clients have given it another type. -/
def publish (b : Broker) (now : Float) (m : Message) : Broker :=
  let own := { m with source := b.config.name, community := b.config.community }
  match b.notify now own with
  | .ok b => b
  | .error _ => b

/-- Writes a number. -/
def publishNumber (b : Broker) (now : Float) (key : String) (value : Float) : Broker :=
  b.publish now (.double .notify key value now)

/-- Writes a text. -/
def publishText (b : Broker) (now : Float) (key value : String) : Broker :=
  b.publish now (.text .notify key value now)

/-! ## Clients -/

/-- A client connects. -/
def connect (b : Broker) (now : Float) (client : String) : Broker :=
  { b with clients := b.clients.add client }.publishText now eventKey ("connected=" ++ client)

/-- A client disconnects: nothing is left of its subscriptions, filters, held mail and latencies. -/
def disconnect (b : Broker) (now : Float) (client : String) : Broker :=
  { b with
    store := b.store.map fun _ v => v.unsubscribe client
    filters := b.filters.erase client
    held := b.held.erase client
    clients := b.clients.erase client
    latencies := b.latencies.erase client }.publishText now eventKey ("disconnected=" ++ client)

end Broker

end PubSub
