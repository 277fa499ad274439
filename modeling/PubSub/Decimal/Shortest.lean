import PubSub.Decimal.Binary64

/-!
# The fewest digits that read back

`Shortest.digits` gives the decimal with the fewest digits among those that round to a given binary
number, and of these the nearest one; of two equally near ones it takes the larger. It looks at the
two neighbours of the number on the decimal grids of 1, 2, … 17 digits, in exact arithmetic.

`Decimal.shortest` writes that decimal without an exponent: digits, and a point only where digits
follow it.
-/

namespace PubSub.Shortest

/-- A positive number `mantissa * 2 ^ exponent` with the reals that round to it: in quarters of
`2 ^ exponent`, they reach from `lower` to `upper`, the ends included if `ends`. The number itself
is `unit.1 / unit.2 * centre`. -/
structure Interval where
  lower : Nat
  centre : Nat
  upper : Nat
  unit : Nat × Nat
  ends : Bool

/-- The reals that round to `mantissa * 2 ^ exponent`; below a power of two they reach half as
far. -/
def Interval.around (mantissa : Nat) (exponent : Int) : Interval where
  lower := 4 * mantissa -
    (if mantissa = Nat.pow 2 52 ∧ exponent > Binary64.leastExponent then 1 else 2)
  centre := 4 * mantissa
  upper := 4 * mantissa + 2
  unit := (Nat.pow 2 (exponent - 2).toNat, Nat.pow 2 (2 - exponent).toNat)
  ends := mantissa % 2 == 0

/-- The power of ten `10 ^ k` as a numerator and a denominator. -/
def tenPower (k : Int) : Nat × Nat :=
  (Nat.pow 10 k.toNat, Nat.pow 10 (-k).toNat)

/-- Whether the grid point `c * 10 ^ k` lies in the interval. -/
def Interval.has (i : Interval) (k : Int) (c : Nat) : Bool :=
  let ten := tenPower k
  let point := c * ten.1 * i.unit.2
  let lower := i.lower * i.unit.1 * ten.2
  let upper := i.upper * i.unit.1 * ten.2
  if i.ends then lower ≤ point && point ≤ upper else lower < point && point < upper

/-- The number as a multiple of `10 ^ k`: a numerator and a denominator. -/
def Interval.onGrid (i : Interval) (k : Int) : Nat × Nat :=
  let ten := tenPower k
  (i.centre * i.unit.1 * ten.2, ten.1 * i.unit.2)

/-- The neighbour of the number on the grid of the multiples of `10 ^ k` that rounds to it, the
nearer one if both do, the larger one if both are as near. -/
def Interval.neighbour? (i : Interval) (k : Int) : Option Nat :=
  let (num, den) := i.onGrid k
  let below := num / den
  match i.has k below, i.has k (below + 1) with
  | true, true => some (if 2 * (num % den) < den then below else below + 1)
  | true, false => some below
  | false, true => some (below + 1)
  | false, false => none

/-- The exponent of the number's first decimal digit. -/
def Interval.leading (i : Interval) : Int :=
  let (num, den) := i.onGrid (-400)
  (Nat.toDigits 10 (num / den)).length - 401

/-- The shortest decimal `c * 10 ^ k` that reads back as the number, as the pair of `c` and `k`. -/
def digits (mantissa : Nat) (exponent : Int) : Nat × Int :=
  let i := Interval.around mantissa exponent
  let lead := i.leading
  let grids := (List.range 17).map fun n : Nat => lead - (n : Int)
  (grids.findSome? fun k => (i.neighbour? k).map fun c => (c, k)).getD
    ((i.onGrid (lead - 16)).1 / (i.onGrid (lead - 16)).2, lead - 16)

end PubSub.Shortest

namespace PubSub.Decimal

/-- The digits of `c` with a point before the last `places` of them. -/
def pointed (places c : Nat) : List Char × List Char :=
  let ds := Nat.toDigits 10 c
  let ds := List.replicate (places + 1 - ds.length) '0' ++ ds
  (ds.take (ds.length - places), ds.drop (ds.length - places))

/-- `c * 10 ^ k` without an exponent and without idle zeros behind the point. -/
def positional (c : Nat) (k : Int) : List Char :=
  if 0 ≤ k then Nat.toDigits 10 c ++ List.replicate k.toNat '0'
  else
    let (whole, part) := pointed (-k).toNat c
    let part := (part.reverse.dropWhile (· == '0')).reverse
    if part.isEmpty then whole else whole ++ '.' :: part

/-- A number behind its sign. -/
def signed (negative : Bool) (s : List Char) : String :=
  String.ofList (if negative then '-' :: s else s)

/-- A float in the fewest digits that read back, without an exponent. -/
def shortest (x : Float) : String :=
  match Binary64.ofFloat x with
  | .nan => "NaN"
  | .infinite negative => signed negative ['i', 'n', 'f']
  | .finite negative 0 _ => signed negative ['0']
  | .finite negative mantissa exponent =>
    let (c, k) := Shortest.digits mantissa exponent
    signed negative (positional c k)

end PubSub.Decimal
