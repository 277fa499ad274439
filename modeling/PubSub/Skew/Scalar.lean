/-!
# Arithmetic for measurements

The estimation of clock skew needs the four operations, comparisons and a few constants. It is
written over `Scalar`, so that it runs in floating point and can be reasoned about in exact rational
arithmetic.
-/

namespace PubSub

/-- Numbers for measurements. -/
class Scalar (α : Type) extends Add α, Sub α, Mul α, Div α, LT α, LE α where
  decideLt : DecidableLT α
  decideLe : DecidableLE α
  /-- Whether two numbers are equal as numbers. -/
  same : α → α → Bool
  /-- A number without its sign. -/
  magnitude : α → α
  /-- The constant `digits * 10 ^ (-places)`. -/
  constant : (digits places : Nat) → α

namespace Scalar

instance (α : Type) [Scalar α] : DecidableLT α := decideLt

instance (α : Type) [Scalar α] : DecidableLE α := decideLe

/-- The number 0. -/
def zero {α : Type} [Scalar α] : α := constant 0 0

end Scalar

instance : Scalar Float where
  decideLt := inferInstance
  decideLe := inferInstance
  same a b := a == b
  magnitude := Float.abs
  constant digits places := Float.ofScientific digits true places

instance : Scalar Rat where
  decideLt := inferInstance
  decideLe := inferInstance
  same a b := decide (a = b)
  magnitude a := if a < 0 then -a else a
  constant digits places := digits / 10 ^ places

end PubSub
