import PubSub.Broker.Summary
import PubSub.Skew.Scalar

/-!
# Housekeeping

Now and then the broker writes its own variables: its time, how long it has been up, who is
connected, and its summaries.
-/

namespace PubSub

/-- Whether more than `interval` has passed since the last summary, or some time that cannot be
compared with it. -/
def summaryIsDue {α : Type} [Scalar α] (now last interval : α) : Bool :=
  !(now - last ≤ interval)

namespace Broker

/-- Writes all of the broker's own variables. -/
def keepHouse (b : Broker) (now : Float) : Broker :=
  let b := b.publishNumber now timeKey now
  let b := b.publishNumber now uptimeKey (now - b.startTime)
  let b := b.publishText now clientsKey (String.join (b.clients.names.map (· ++ ",")))
  let b := b.publishText now variableSummaryKey b.variableSummary
  let b := b.publishText now readWriteSummaryKey b.readWriteSummary
  b.publishText now qualityKey b.qualitySummary

/-- Whether the summary interval has passed. -/
def houseIsDue (b : Broker) (now : Float) : Bool :=
  summaryIsDue now b.summaryTime b.config.summaryInterval.toSeconds

/-- Writes the broker's own variables if the summary interval has passed. -/
def keepHouseIfDue (b : Broker) (now : Float) : Broker :=
  if b.houseIsDue now then { b with summaryTime := now }.keepHouse now else b

end Broker

end PubSub
