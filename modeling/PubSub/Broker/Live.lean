import PubSub.Broker.Requests
import PubSub.Time.Clock
import PubSub.Time.Ticker

/-!
# A broker in the course of time

A `LiveBroker` is a broker with a clock and with the ticks at which it looks whether its
housekeeping is due. Whenever the clock has moved, the ticks that are due are taken.
-/

namespace PubSub

/-- A broker, its clock and its housekeeping ticks. -/
structure LiveBroker where
  broker : Broker
  clock : Clock
  ticks : List Ticker := []
deriving DecidableEq

namespace LiveBroker

/-- A broker that starts now and has no ticks yet. -/
def start (config : Broker.Config) (clock : Clock) : LiveBroker :=
  { broker := .start config clock.now, clock }

/-- Takes the ticks of one ticker that are due. -/
def takeTicksOf (b : LiveBroker) (t : Ticker) : LiveBroker :=
  let (broker, t) := t.run (·.keepHouseIfDue b.clock.now) b.clock.elapsed b.broker
  { b with broker, ticks := b.ticks ++ [t] }

/-- Takes all ticks that are due. -/
def takeTicks (b : LiveBroker) : LiveBroker :=
  b.ticks.foldl takeTicksOf { b with ticks := [] }

/-- Starts ticks, one per summary interval, of which the first is taken at once. -/
def startTicks (b : LiveBroker) : LiveBroker :=
  { b with
    ticks := b.ticks ++
      (Ticker.start? b.broker.config.summaryInterval b.clock.elapsed).toList }.takeTicks

/-- Stops all ticks. -/
def stopTicks (b : LiveBroker) : LiveBroker := { b with ticks := [] }

/-- Lets time pass. -/
def advance (b : LiveBroker) (d : Duration) : LiveBroker :=
  { b with clock := b.clock.advance d }.takeTicks

end LiveBroker

end PubSub
