/-!
# Binary floating point taken apart

`Binary64.ofFloat` reads a float's bits as sign, mantissa and exponent. The decimal writers work on
these in exact natural-number arithmetic; `roundDiv` is the one place where a quotient is rounded.
-/

namespace PubSub

/-- A binary64 number by its kind; a finite one is `mantissa * 2 ^ exponent` up to its sign. -/
inductive Binary64 where
  | nan
  | infinite (negative : Bool)
  | finite (negative : Bool) (mantissa : Nat) (exponent : Int)
deriving DecidableEq

namespace Binary64

/-- The least exponent, which the numbers below `2 ^ 52` units of it share. -/
def leastExponent : Int := -1074

/-- The kind, sign, mantissa and exponent of a float. -/
def ofFloat (x : Float) : Binary64 :=
  let bits := x.toBits.toNat
  let negative := bits / Nat.pow 2 63 == 1
  let field := bits / Nat.pow 2 52 % Nat.pow 2 11
  let fraction := bits % Nat.pow 2 52
  if field = 2047 then
    if fraction = 0 then .infinite negative else .nan
  else if field = 0 then .finite negative fraction leastExponent
  else .finite negative (Nat.pow 2 52 + fraction) (leastExponent + ((field - 1 : Nat) : Int))

end Binary64

/-- The quotient rounded to the nearest natural number, a half to the even neighbour. -/
def roundDiv (num den : Nat) : Nat :=
  let whole := num / den
  let twice := 2 * (num % den)
  if twice < den then whole
  else if twice = den then whole + whole % 2
  else whole + 1

/-- The rounded quotient is within half a unit of the exact one. -/
theorem two_mul_roundDiv (num den : Nat) (h : 0 < den) :
    2 * num ≤ 2 * den * roundDiv num den + den ∧ 2 * den * roundDiv num den ≤ 2 * num + den := by
  have hdiv := Nat.div_add_mod num den
  have hmod := Nat.mod_lt num h
  have hsucc : 2 * den * (num / den + 1) = 2 * (den * (num / den)) + 2 * den := by
    rw [Nat.mul_add, Nat.mul_assoc, Nat.mul_one]
  have hself : 2 * den * (num / den) = 2 * (den * (num / den)) := Nat.mul_assoc _ _ _
  unfold roundDiv
  simp only
  split
  · rw [hself]; omega
  · split
    · rcases Nat.mod_two_eq_zero_or_one (num / den) with heven | hodd
      · rw [heven, Nat.add_zero, hself]; omega
      · rw [hodd, hsucc]; omega
    · rw [hsucc]; omega

end PubSub
