import PubSub.Decimal.Binary64

/-!
# Reading decimals

`Decimal.read?` reads a float: an optional sign, then digits with an optional point and an optional
exponent, or one of the words `inf`, `infinity` and `nan` in any case. At least one digit stands
before or behind the point. The value is the float nearest to the decimal; what is too large is
infinite and what is too small is zero.
-/

namespace PubSub.Decimal

/-- A mantissa beyond this exponent of its first digit is infinite. -/
def greatestLeading : Int := 310

/-- A mantissa before this exponent of its first digit is zero. -/
def leastLeading : Int := -330

/-- The float nearest to `mantissa * 10 ^ exponent`. -/
def nearest (mantissa : Nat) (exponent : Int) : Float :=
  let leading : Int := (Nat.toDigits 10 mantissa).length + exponent
  if mantissa = 0 ∨ leading < leastLeading then 0.0
  else if leading > greatestLeading then 1.0 / 0.0
  else if exponent < 0 then Float.ofScientific mantissa true (-exponent).toNat
  else Float.ofScientific mantissa false exponent.toNat

/-- The number that a list of digits writes. -/
def natOf (digits : List Char) : Nat :=
  digits.foldl (fun n c => 10 * n + (c.toNat - '0'.toNat)) 0

/-- The longest run of digits at the front, and what follows it. -/
def spanDigits (s : List Char) : List Char × List Char :=
  (s.takeWhile Char.isDigit, s.dropWhile Char.isDigit)

/-- A sign at the front: whether it is a minus, and what follows it. -/
def spanSign : List Char → Bool × List Char
  | '-' :: s => (true, s)
  | '+' :: s => (false, s)
  | s => (false, s)

/-- An exponent that takes up all of `s`; no text is the exponent zero. -/
def readExponent? : List Char → Option Int
  | [] => some 0
  | e :: s =>
    let (negative, s) := spanSign s
    let (digits, rest) := spanDigits s
    if (e = 'e' ∨ e = 'E') ∧ !digits.isEmpty ∧ rest.isEmpty then
      some (if negative then -natOf digits else natOf digits)
    else none

/-- A decimal without a sign that takes up all of `s`. -/
def readUnsigned? (s : List Char) : Option Float :=
  let (whole, s) := spanDigits s
  let (part, s) := match s with
    | '.' :: s => spanDigits s
    | s => ([], s)
  if whole.isEmpty ∧ part.isEmpty then none
  else (readExponent? s).map fun exponent =>
    nearest (natOf (whole ++ part)) (exponent - part.length)

/-- The value of a word for a special number, in any case. -/
def readWord? (s : List Char) : Option Float :=
  let word := s.map Char.toLower
  if word = ['i', 'n', 'f'] ∨ word = ['i', 'n', 'f', 'i', 'n', 'i', 't', 'y'] then some (1.0 / 0.0)
  else if word = ['n', 'a', 'n'] then some (0.0 / 0.0)
  else none

/-- The float that `s` writes. -/
def read? (s : List Char) : Option Float :=
  let (negative, s) := spanSign s
  ((readWord? s).or (readUnsigned? s)).map fun x => if negative then -x else x

end PubSub.Decimal
