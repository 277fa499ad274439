import PubSub.Broker.Summary
import PubSub.Decimal.Reader
import PubSub.Text.Blank

/-!
# How well clients communicate

The broker publishes two summaries about its clients: their latencies, and what they read and write.
A `CommsStatus` is what these say about one client. A summary whose entries are not all well-formed
changes nothing.
-/

namespace PubSub

/-- A judgement of a client's latency. -/
inductive CommsQuality where
  | excellent
  | good
  | fair
  | poor
deriving DecidableEq

/-- The name of a judgement. -/
def CommsQuality.name : CommsQuality → String
  | .excellent => "EXCELLENT"
  | .good => "GOOD"
  | .fair => "FAIR"
  | .poor => "POOR"

/-- What the broker reports about one of its clients; latencies are in milliseconds. -/
structure CommsStatus where
  name : String
  /-- The latest latency, negative as long as there is none. -/
  recent : Float := -1.0
  greatest : Float := 0.0
  least : Float := 0.0
  average : Float := 0.0
  subscribes : List String := []
  publishes : List String := []
deriving DecidableEq

namespace CommsStatus

/-- The judgement of the latest latency. -/
def quality (s : CommsStatus) : CommsQuality :=
  if s.recent < 1.0 then .excellent
  else if s.recent < 10.0 then .good
  else if s.recent < 100.0 then .fair
  else .poor

/-- Names on lines of their own. -/
def nameLines (names : List String) : List String :=
  (if names.isEmpty then ["nothing"] else names).map ("    " ++ ·)

/-- A latency with its label. -/
def latencyLine (label : String) (value : Float) : String :=
  "    " ++ Text.alignLeft 10 label ++ " " ++ Decimal.fixed 3 value ++ " ms"

/-- A report for people. -/
def report (s : CommsStatus) : String :=
  let lines :=
    ["Client Name:", "    " ++ s.name, "", "Latencies:", latencyLine "recent" s.recent,
      latencyLine "max" s.greatest, latencyLine "min" s.least, latencyLine "avg" s.average, "",
      "Subscribes:"] ++ nameLines s.subscribes ++ ["", "Publishes:"] ++ nameLines s.publishes ++
      ["", "Synopsis:", "    comms is " ++ s.quality.name]
  String.join (lines.map (· ++ "\n"))

/-- An entry `client=rest` of a summary; one without a client is refused. -/
def readEntry (entry : List Char) : Except Error (String × List Char) :=
  let (client, rest) := (Text.cut? '=' entry).getD (entry, [])
  if client.isEmpty then .error (.namelessSummaryEntry (String.ofList entry))
  else .ok (String.ofList client, rest)

/-- The entries of a summary. -/
def readEntries (summary : String) : Except Error (List (String × List Char)) :=
  ((Text.pieces ',' summary.toList).filter fun e => !e.isEmpty).mapM readEntry

/-- The latencies between colons; what is no number, or is missing, is 0. -/
def withLatencies (s : CommsStatus) (rest : List Char) : CommsStatus :=
  let values := (Text.pieces ':' rest).map fun v => (Decimal.read? (Text.trim v)).getD 0.0
  { s with
    recent := values.getD 0 0.0
    greatest := values.getD 1 0.0
    least := values.getD 2 0.0
    average := values.getD 3 0.0 }

/-- The names between colons, without empty ones. -/
def readNames (s : List Char) : List String :=
  ((Text.pieces ':' s).filter fun n => !n.isEmpty).map String.ofList

/-- The names of what a client reads and, behind `&`, of what it writes. -/
def withNames (s : CommsStatus) (rest : List Char) : CommsStatus :=
  let (subscribes, publishes) := (Text.cut? '&' rest).getD (rest, [])
  { s with subscribes := readNames subscribes, publishes := readNames publishes }

/-- Changes the statuses that the entries of a summary name. -/
def apply (change : CommsStatus → List Char → CommsStatus) (statuses : Table CommsStatus)
    (summary : String) : Except Error (Table CommsStatus) := do
  return (← readEntries summary).foldl (fun statuses (client, rest) =>
    statuses.insert client (change ((statuses.get? client).getD { name := client }) rest)) statuses

/-- Takes a summary of latencies into account. -/
def applyQuality (statuses : Table CommsStatus) (summary : String) :
    Except Error (Table CommsStatus) :=
  apply withLatencies statuses summary

/-- Takes a summary of what clients read and write into account. -/
def applyReadWrite (statuses : Table CommsStatus) (summary : String) :
    Except Error (Table CommsStatus) :=
  apply withNames statuses summary

/-- Takes a message of the broker into account, if it is a summary and well-formed. -/
def collect (statuses : Table CommsStatus) (m : Message) : Table CommsStatus :=
  let applied :=
    if m.key = Broker.qualityKey then applyQuality statuses m.textValue
    else if m.key = Broker.readWriteSummaryKey then applyReadWrite statuses m.textValue
    else .ok statuses
  match applied with
  | .ok statuses => statuses
  | .error _ => statuses

end CommsStatus

end PubSub
