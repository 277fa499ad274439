import PubSub.Bounds

/-!
# Latencies

The transit times of a client's packets in milliseconds: the latest, the greatest, the least, and an
average in which each sample weighs a tenth against all before it.
-/

namespace PubSub

/-- The transit times of one client's packets. -/
structure Latency where
  recent : Float
  greatest : Float
  least : Float
  average : Float
deriving DecidableEq

namespace Latency

/-- The weight of a sample in the average. -/
def weight : Float := 0.1

/-- The statistics of one sample. -/
def ofSample (sample : Float) : Latency :=
  { recent := sample, greatest := sample, least := sample, average := sample }

/-- The statistics of one more sample. -/
def add (l : Latency) (sample : Float) : Latency :=
  { recent := sample
    greatest := Bounds.greater l.greatest sample
    least := Bounds.lesser l.least sample
    average := l.average + weight * (sample - l.average) }

end Latency

end PubSub
