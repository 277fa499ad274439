import PubSub.Time.Duration

/-!
# The local clock

Local time is a number of seconds. It starts at a given time and follows the monotonic clock, faster
or slower by a constant factor, the time warp.
-/

namespace PubSub

/-- A clock that has run for `elapsed`. -/
structure Clock where
  start : Float
  warp : Float := 1.0
  elapsed : Duration := ⟨0⟩
deriving DecidableEq

namespace Clock

/-- The greatest time warp. -/
def greatestWarp : Float := 400.0

/-- The same clock with another time warp, which is positive and at most `greatestWarp`. -/
def withWarp (c : Clock) (warp : Float) : Except Error Clock :=
  if 0.0 < warp ∧ warp ≤ greatestWarp then .ok { c with warp }
  else .error (.timeWarp warp greatestWarp)

/-- The local time. -/
def now (c : Clock) : Float := c.start + c.elapsed.toSeconds * c.warp

/-- The clock after some time has passed. -/
def advance (c : Clock) (d : Duration) : Clock := { c with elapsed := c.elapsed + d }

end Clock

end PubSub
