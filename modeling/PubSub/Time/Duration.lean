import PubSub.Error

/-!
# Durations

A `Duration` is a span of time in whole nanoseconds. Instants of the monotonic clock are durations
too: the time since the clock started.
-/

namespace PubSub

/-- A span of time in nanoseconds. -/
structure Duration where
  nanos : Nat
deriving DecidableEq

namespace Duration

/-- The nanoseconds of a second. -/
def nanosPerSecond : Nat := Nat.pow 10 9

/-- The nanoseconds of a millisecond. -/
def nanosPerMilli : Nat := Nat.pow 10 6

/-- No duration reaches this one, whose seconds do not fit 64 bits. -/
def limit : Duration := ⟨Nat.pow 2 64 * nanosPerSecond⟩

/-- Whole seconds. -/
def ofSeconds (n : Nat) : Duration := ⟨n * nanosPerSecond⟩

/-- Whole milliseconds. -/
def ofMillis (n : Nat) : Duration := ⟨n * nanosPerMilli⟩

instance : Add Duration := ⟨fun d e => ⟨d.nanos + e.nanos⟩⟩

instance : Min Duration := ⟨fun d e => ⟨min d.nanos e.nanos⟩⟩

instance : LE Duration := ⟨fun d e => d.nanos ≤ e.nanos⟩

instance : LT Duration := ⟨fun d e => d.nanos < e.nanos⟩

instance : DecidableLE Duration := fun d e => inferInstanceAs (Decidable (d.nanos ≤ e.nanos))

instance : DecidableLT Duration := fun d e => inferInstanceAs (Decidable (d.nanos < e.nanos))

/-- A duration in seconds: the whole ones and the fraction are each converted and then added. -/
def toSeconds (d : Duration) : Float :=
  Float.ofNat (d.nanos / nanosPerSecond) + Float.ofNat (d.nanos % nanosPerSecond) / 1e9

/-- The duration nearest to a number of seconds, a half nanosecond going to the even neighbour. -/
def ofFloat (seconds : Float) : Except DurationFault Duration :=
  match Binary64.ofFloat seconds with
  | .finite negative mantissa exponent =>
    if negative ∧ mantissa ≠ 0 then .error .negative
    else
      let d : Duration :=
        ⟨roundDiv (mantissa * Nat.pow 2 exponent.toNat * nanosPerSecond)
          (Nat.pow 2 (-exponent).toNat)⟩
      if d < limit then .ok d else .error .overflowOrNaN
  | .infinite true => .error .negative
  | _ => .error .overflowOrNaN

/-- A duration as seconds with nine decimal places. -/
def shown (d : Duration) : String :=
  let (whole, part) := Decimal.pointed 9 d.nanos
  String.ofList (whole ++ '.' :: part)

end Duration

end PubSub
