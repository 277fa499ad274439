import PubSub.Time.Duration

/-!
# Growing delays

The delay between attempts to connect starts at a least value, doubles with every attempt up to a
greatest value, and drops back once an attempt succeeds.
-/

namespace PubSub

/-- The delays between attempts. -/
structure Backoff where
  initial : Duration
  greatest : Duration
  delay : Duration
deriving DecidableEq

namespace Backoff

/-- The growth of the delay in eighths. -/
def growth : Nat := 16

/-- Delays before any attempt. -/
def start (initial greatest : Duration) : Backoff :=
  { initial, greatest, delay := initial }

/-- The delay before the next attempt, and the delays after it; `none` if the delay is too long to
be multiplied. -/
def next? (b : Backoff) : Option (Duration × Backoff) :=
  if b.delay.nanos * growth < Duration.limit.nanos then
    some (b.delay, { b with delay := min ⟨b.delay.nanos * growth / 8⟩ b.greatest })
  else none

/-- The delays after a success. -/
def reset (b : Backoff) : Backoff := { b with delay := b.initial }

end Backoff

end PubSub
