import PubSub.Skew.Envelope

/-!
# Clock skew from round trips

A round trip has a request time and a reply time on the local clock and, in between, a time on the
remote clock. The skew, remote time less local time, lies between `remote - reply` and
`remote - request`. Delays on the way only loosen these bounds, so the envelope above all lower
bounds and the one below all upper bounds are good estimates; their mean is the estimate that
`Estimator.update` recommends once both are stable. It is smoothed, since upward steps are likely to
be news and downward ones to be delays.
-/

namespace PubSub.Skew

/-- What one round trip tells. -/
structure Estimate (α : Type) where
  /-- The recommended skew. -/
  skew : α
  slope : α
  lowerBound : α
  upperBound : α
  envelopeLower : α
  envelopeUpper : α
  /-- The estimate before it is smoothed. -/
  unsmoothed : α
deriving DecidableEq

/-- The state of an estimation. Times and skews are measured from those of the first round trip. -/
structure Estimator (α : Type) where
  lower : Envelope α := { side := .above }
  upper : Envelope α := { side := .below }
  /-- The remote time and the lower bound of the first round trip. -/
  origin : Option (α × α) := none
  lastValue : α
  lastTime : α
  measurements : Nat := 0
deriving DecidableEq

namespace Estimator

variable {α : Type} [Scalar α]

/-- The round trips during which the upper bound does not count. -/
def lowerBoundOnly : Nat := 10

/-- Segments that ended longer ago than this may be dropped. -/
def greatestAge : α := Scalar.constant 3600 0

/-- The weight of upward news. -/
def gainUp : α := Scalar.constant 5 1

/-- The weight of downward news. -/
def gainDown : α := Scalar.constant 1 2

/-- An estimation without any round trips. -/
def start : Estimator α := { lastValue := Scalar.zero, lastTime := Scalar.zero }

/-- The recommended skew after the last round trip. -/
def skew? (f : Estimator α) : Option α :=
  f.origin.map fun (_, skew) => f.lastValue + skew

/-- A prediction `gradient * dt` ahead of `previous`, corrected by a part of what is news in the
measurement. -/
def smooth (dt previous measured gradient : α) : α :=
  let predicted := previous + gradient * dt
  let news := measured - predicted
  predicted + (if Scalar.zero < news then gainUp else gainDown) * news

/-- The estimate from the latest bounds and the envelopes, and its slope. -/
def combine (measurements : Nat) (lower upper : Envelope α) (lowerBound upperBound x : α) : α × α :=
  let two : α := Scalar.constant 2 0
  if lower.isStable then
    if upper.isStable ∧ lower.valueAt x ≤ upper.valueAt x then
      ((lower.valueAt x + upper.valueAt x) / two, (lower.line.slope + upper.line.slope) / two)
    else (lower.valueAt x, lower.line.slope)
  else if upper.isStable then (upper.valueAt x, upper.line.slope)
  else if measurements < lowerBoundOnly then (lowerBound, Scalar.zero)
  else ((lowerBound + upperBound) / two, Scalar.zero)

/-- Takes a round trip into account. -/
def update (f : Estimator α) (request remote reply : α) : Estimate α × Estimator α :=
  let (time, skew) := f.origin.getD (remote, remote - reply)
  let x := remote - time
  let lowerBound := remote - reply - skew
  let upperBound := remote - request - skew
  let limit := x - greatestAge
  let lower := (f.lower.add? { x, y := lowerBound } limit).getD { side := .above }
  let upper := (f.upper.add? { x, y := upperBound } limit).getD { side := .below }
  let (estimate, slope) := combine f.measurements lower upper lowerBound upperBound x
  let value :=
    if (lower.isStable ∨ upper.isStable) ∧ 0 < f.measurements then
      smooth (x - f.lastTime) f.lastValue estimate slope
    else estimate
  ({ skew := value + skew
     slope
     lowerBound := lowerBound + skew
     upperBound := upperBound + skew
     envelopeLower := lower.valueAt x + skew
     envelopeUpper := upper.valueAt x + skew
     unsmoothed := estimate + skew },
   { lower, upper, origin := some (time, skew), lastValue := value, lastTime := x,
     measurements := f.measurements + 1 })

end Estimator

end PubSub.Skew
