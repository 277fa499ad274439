import PubSub.Broker.Basic
import PubSub.Text.Column

/-!
# The broker's summaries

Texts about the variables, about who reads and writes which of them, and about latencies. The broker
publishes them in its housekeeping, and clients read the last two.
-/

namespace PubSub

/-- The state of a variable in one line: its name, its age, its last writer, its frequency, its type
and its value. -/
def Variable.summaryLine (startTime : Float) (v : Variable) : String :=
  let writer := if v.writer.isEmpty then "(write pending)" else v.writer
  let value := match v.dataType with
    | .double => Decimal.shortest v.value
    | .string =>
      let s := v.textValue
      if 25 < s.length then String.ofList (s.toList.take 22) ++ "..." else s
    | .binary => s!"*binary* {v.payload.size} B"
    | .notSet => ""
  Text.alignLeft 20 v.name ++ " " ++
    Text.alignLeft 12 (Decimal.fixed 3 (v.writtenTime - startTime)) ++ " " ++
    Text.alignLeft 20 writer ++ " " ++ Text.alignRight 4 (Decimal.fixed 1 v.frequency) ++ "Hz " ++
    v.dataType.letter.toString ++ " " ++ value ++ "\n"

/-- Latencies with three decimal places, between colons. -/
def Latency.shown (l : Latency) : String :=
  ":".intercalate ([l.recent, l.greatest, l.least, l.average].map (Decimal.fixed 3))

namespace Broker

/-- The names of the variables that pass a test. -/
def namesWhere (b : Broker) (p : Variable → Bool) : List String :=
  (b.store.values.filter p).map Variable.name

/-- The variables to which a client subscribes. -/
def subscribedBy (b : Broker) (client : String) : List String :=
  b.namesWhere fun v => v.isSubscribed client

/-- The variables that a client has written. -/
def writtenBy (b : Broker) (client : String) : List String :=
  b.namesWhere fun v => v.writers.contains client

/-- One line for each variable. -/
def variableSummary (b : Broker) : String :=
  String.join (b.store.values.map (Variable.summaryLine b.startTime))

/-- `client=read:read&written:written` for each connected client. -/
def readWriteSummary (b : Broker) : String :=
  ",".intercalate (b.clients.names.map fun client =>
    client ++ "=" ++ ":".intercalate (b.subscribedBy client) ++ "&" ++
      ":".intercalate (b.writtenBy client))

/-- `client=recent:greatest:least:average` for each client with latencies. -/
def qualitySummary (b : Broker) : String :=
  ",".intercalate (b.latencies.entries.map fun (client, l) => client ++ "=" ++ l.shown)

end Broker

end PubSub
