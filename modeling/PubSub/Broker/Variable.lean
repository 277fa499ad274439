import PubSub.Filter
import PubSub.Table
import PubSub.Wire.Message

/-!
# Variables

A `Variable` is one named entry of the broker: its latest value, who wrote it and when, how often it
is written, and who subscribes to it.
-/

namespace PubSub

/-- One client's interest in one variable. -/
structure Subscription where
  /-- The least time between two notifications, 0 for every write. -/
  period : Float
  /-- When the client was last sent the variable; -1 if never. -/
  lastSent : Float := -1.0
deriving DecidableEq

/-- Whether the client may be sent the variable again. -/
def Subscription.isDue (s : Subscription) (now : Float) : Bool :=
  s.period ≤ now - s.lastSent

/-- A variable of the broker. -/
structure Variable where
  name : String
  /-- The type of the first write; not set as long as there are only registrations. -/
  dataType : DataType
  value : Float := -1.0
  payload : Array UInt8 := #[]
  /-- The writer's time of the last write. -/
  time : Float := -1.0
  /-- The broker's time of the last write. -/
  writtenTime : Float := -1.0
  /-- The source of the last write. -/
  writer : String := ""
  sourceAux : String := ""
  community : String := ""
  /-- The number of writes. -/
  writes : Nat := 0
  /-- Writes per second. -/
  frequency : Float := 0.0
  /-- The sources of all writes. -/
  writers : NameSet := ∅
  /-- The subscriptions by client. -/
  subscriptions : Table Subscription := ∅
  /-- When the frequency was last estimated. -/
  estimateTime : Float
  /-- The number of writes at that time. -/
  estimateWrites : Nat := 0
deriving DecidableEq

namespace Variable

/-- The weight of earlier estimates of the frequency. -/
def frequencyMemory : Float := 0.5

/-- Estimates of the frequency are further apart than this. -/
def estimateInterval : Float := 0.5

/-- Writes that are further apart than this have the frequency 0. -/
def greatestGap : Float := 10.0

/-- A variable that nobody has written. -/
def fresh (name : String) (dataType : DataType) (now : Float) : Variable :=
  { name, dataType, estimateTime := now }

/-! ## Subscriptions -/

/-- A client subscribes, instead of any subscription it had. -/
def subscribe (v : Variable) (client : String) (period : Float) : Variable :=
  { v with subscriptions := v.subscriptions.insert client { period := Bounds.raised period } }

/-- A client subscribes no longer. -/
def unsubscribe (v : Variable) (client : String) : Variable :=
  { v with subscriptions := v.subscriptions.erase client }

/-- Whether a client subscribes. -/
def isSubscribed (v : Variable) (client : String) : Bool :=
  v.subscriptions.contains client

/-! ## Writes -/

/-- The payload as text. -/
def textValue (v : Variable) : String := Utf8.decodeLossy v.payload

/-- A new estimate of the frequency, if the last one is not too recent. -/
def estimateFrequency (v : Variable) (now : Float) : Variable :=
  let dt := now - v.estimateTime
  if dt ≤ estimateInterval then v
  else
    { v with
      frequency :=
        if greatestGap < dt then 0.0
        else
          let latest := Float.ofNat (v.writes - v.estimateWrites) / dt
          frequencyMemory * v.frequency + (1.0 - frequencyMemory) * latest
      estimateTime := now
      estimateWrites := v.writes }

/-- A write whose type is that of the variable. -/
def write (v : Variable) (m : Message) (now : Float) (community : String) : Variable :=
  let written :=
    { v with
      writtenTime := now
      time := m.time
      writer := m.source
      sourceAux := m.sourceAux
      community := if m.community.isEmpty then community else m.community
      value := if v.dataType = DataType.double then m.value else v.value
      payload :=
        if v.dataType = DataType.string ∨ v.dataType = DataType.binary then m.payload
        else v.payload
      writers := v.writers.add m.source
      writes := v.writes + 1 }
  written.estimateFrequency now

/-- The variable as a message. -/
def toMessage (v : Variable) (type : MessageType) : Message :=
  { type
    dataType := v.dataType
    source := v.writer
    sourceAux := v.sourceAux
    community := v.community
    key := v.name
    time := v.time
    value := v.value
    payload := v.payload }

/-- The variable without its value and its writes, but with its type and its subscriptions. -/
def reset (v : Variable) : Variable :=
  { v with
    time := -1.0
    value := -1.0
    payload := #[]
    writers := ∅
    writtenTime := -1.0
    writes := 0
    frequency := 0.0
    estimateWrites := 0 }

end Variable

end PubSub
