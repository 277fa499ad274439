import PubSub.Decimal.Shortest

/-!
# A fixed number of decimal places

`Decimal.fixed` rounds the exact binary value to a number of places, a half to the even neighbour,
and keeps the sign of a value that rounds to zero.
-/

namespace PubSub.Decimal

/-- `mantissa * 2 ^ exponent` in units of the last of `places` decimal places. -/
def roundedTo (places mantissa : Nat) (exponent : Int) : Nat :=
  roundDiv (mantissa * Nat.pow 2 exponent.toNat * Nat.pow 10 places) (Nat.pow 2 (-exponent).toNat)

/-- A float with exactly `places` decimal places. -/
def fixed (places : Nat) (x : Float) : String :=
  match Binary64.ofFloat x with
  | .nan => "NaN"
  | .infinite negative => signed negative ['i', 'n', 'f']
  | .finite negative mantissa exponent =>
    let (whole, part) := pointed places (roundedTo places mantissa exponent)
    signed negative (if places = 0 then whole else whole ++ '.' :: part)

end PubSub.Decimal
